import Flux.Http.Framing

/-!
# How strictly `Content-Length` is read

`RecvHttpBody` takes the length of the body from `std::stol`, which skips white space, takes a sign,
stops at the first byte that is no digit and throws where there is none or the value does not fit;
and the `long` becomes a `size_t`.  Nothing behind it ever sets an error.

`Headed` is a call of `RecvHttpRequest` in which the header block is complete.  `StrictLength` is
what a strict reading of the value would make of such a call, and `strictLength_iff` says for which
values the call does so.
-/

namespace Flux

open Lib

namespace HttpContext

/-- In this call of `RecvHttpRequest` the header block is complete, from an earlier call or by now,
and `c'` and `buf'` are the context and the buffer at the body. -/
inductive Headed (parse : Bytes → LineResult) (c : HttpContext) (buf : Buffer) :
    HttpContext → Buffer → Prop
  | body (status : c.recvStatus = .body) : Headed parse c buf c buf
  | head {c' buf'} (status : c.recvStatus = .head)
      (ends : c.recvHttpHead buf = (.success, c', buf')) :
      Headed parse c buf c' buf'
  | line {c₁ buf₁ c' buf'} (status : c.recvStatus = .line)
      (begins : c.recvHttpLine parse buf = (.success, c₁, buf₁))
      (ends : c₁.recvHttpHead buf₁ = (.success, c', buf')) : Headed parse c buf c' buf'

/-- **A strict reading of the value**, for a call with the context `c` and the buffer `buf` at the
body.  A decimal number below 2^63 is the length of the body: the call takes what is there of it,
and it is over or waits for the rest.  Anything else is a bad request. -/
structure StrictLength (value : Bytes) (c : HttpContext) (buf : Buffer)
    (result : Option (HttpContext × Buffer)) : Prop where
  decimal : ∀ n, Decimal value n → ∃ buf',
    result = some ({ c with
      recvStatus := if n ≤ c.request.body.length + buf.readAbleSize then .over else .body
      request := { c.request with body := (c.request.body ++ buf.unread).take n } }, buf') ∧
    buf'.unread = buf.unread.drop (n - c.request.body.length)
  otherwise : (¬ ∃ n, Decimal value n) →
    ∃ c' buf', result = some (c', buf') ∧ c'.recvStatus = .error ∧ c'.respStatus = 400

variable {parse : Bytes → LineResult} {c c' : HttpContext} {buf buf' : Buffer}

/-- Such a call comes to `RecvHttpBody`. -/
theorem Headed.recvHttpRequest (h : Headed parse c buf c' buf') :
    c.recvHttpRequest parse buf = (c'.recvHttpBody buf').map (·.2) := by
  cases h with
  | body status => rw [HttpContext.recvHttpRequest, status]
  | head status ends =>
    rw [HttpContext.recvHttpRequest, status]
    simp only [ends]
  | line status begins ends =>
    rw [HttpContext.recvHttpRequest, status]
    simp only [begins, ends]

theorem Headed.sound (hs : Sound c) (h : Headed parse c buf c' buf') :
    Sound c' ∧ c'.recvStatus = .body := by
  have hhead : ∀ {c : HttpContext} {buf : Buffer}, Sound c → c.recvStatus = .head →
      c.recvHttpHead buf = (.success, c', buf') → Sound c' ∧ c'.recvStatus = .body := by
    intro c buf hs hc he
    have hst : Stage parse c buf .body (c.recvHttpHead buf) := recvHttpHead_stage hc buf
    rw [he] at hst
    cases hst with
    | success status goes lt => exact ⟨goes.2 hs, status⟩
  cases h with
  | body status => exact ⟨hs, status⟩
  | head status ends => exact hhead hs status ends
  | line status begins ends =>
    have hst : Stage parse c buf .head (c.recvHttpLine parse buf) := recvHttpLine_stage status buf
    rw [begins] at hst
    cases hst with
    | success status' goes lt => exact hhead (goes.2 hs) status' ends

/-- With a length, the call takes the body as far as it is there. -/
theorem recvHttpBody_length {n : Nat} (hs : Sound c) (hc : c.recvStatus = .body)
    (hn : c.request.contentLength = some n) (buf : Buffer) : ∃ buf',
    (c.recvHttpBody buf).map (·.2) = some ({ c with
      recvStatus := if n ≤ c.request.body.length + buf.readAbleSize then .over else .body
      request := { c.request with body := (c.request.body ++ buf.unread).take n } }, buf') ∧
    buf'.unread = buf.unread.drop (n - c.request.body.length) := by
  have hle := hs.body_le hc n hn
  have htake : (c.request.body ++ buf.unread).take n =
      c.request.body ++ buf.unread.take (n - c.request.body.length) := by
    rw [List.take_append, List.take_of_length_le hle]
  by_cases hfit : n - c.request.body.length ≤ buf.unread.length
  · obtain ⟨buf', hu, hb⟩ := recvHttpBody_whole hc hn hle hfit
    rw [Buffer.unread_length] at hfit
    refine ⟨buf', ?_, hu⟩
    rw [hb, Option.map_some, htake, if_pos (by omega)]
    rfl
  · obtain ⟨buf', hu, hb⟩ := recvHttpBody_part hc hn hle hfit
    have hall : buf.unread.take (n - c.request.body.length) = buf.unread :=
      List.take_of_length_le (by omega)
    refine ⟨buf', ?_, ?_⟩
    · rw [Buffer.unread_length] at hfit
      rw [hb, Option.map_some, htake, if_neg (by omega), hall, withBody, hc]
    · rw [hu, List.drop_of_length_le (by omega)]

/-- **When a call reads `Content-Length` strictly**: exactly when the value is a decimal number
below 2^63.  Any other value throws, or it is taken for some length and no error is set. -/
theorem strictLength_iff (hs : Sound c) (h : Headed parse c buf c' buf')
    (hcl : c'.request.hasHeader HttpRequest.contentLengthKey = true) :
    StrictLength (c'.request.getHeader HttpRequest.contentLengthKey) c' buf'
        (c.recvHttpRequest parse buf) ↔
      ∃ n, Decimal (c'.request.getHeader HttpRequest.contentLengthKey) n := by
  obtain ⟨hs', hc'⟩ := h.sound hs
  rw [h.recvHttpRequest]
  constructor
  · intro hstrict
    by_contra hno
    obtain ⟨c₂, buf₂, hresult, hstatus, hcode⟩ := hstrict.otherwise hno
    cases hn : c'.request.contentLength with
    | none =>
      rw [recvHttpBody, if_neg (not_not.mpr hc'), hn] at hresult
      exact absurd hresult (by simp)
    | some n =>
      obtain ⟨buf₃, hbody, _⟩ := recvHttpBody_length hs' hc' hn buf'
      rw [hbody, Option.some.injEq, Prod.mk.injEq] at hresult
      rw [← hresult.1] at hcode
      exact absurd (hs'.respStatus_eq.symm.trans hcode) (by decide)
  · rintro ⟨n, hdec⟩
    have hlength : ∀ m, Decimal (c'.request.getHeader HttpRequest.contentLengthKey) m →
        c'.request.contentLength = some m := by
      intro m hm
      have hlt := hm.2.2.2
      rw [HttpRequest.contentLength, if_pos hcl, stol_decimal hm, Option.map_some]
      congr 1
      omega
    refine ⟨fun m hm => recvHttpBody_length hs' hc' (hlength m hm) buf', ?_⟩
    intro hno
    exact absurd ⟨n, hdec⟩ hno

def headed (value : Bytes) : HttpContext :=
  { new with
    recvStatus := .body
    request := { HttpRequest.new with headers := [(HttpRequest.contentLengthKey, value)] } }

theorem sound_headed (value : Bytes) : Sound (headed value) :=
  ⟨rfl, Or.inr (Or.inr rfl), fun _ => rfl, fun _ n _ => Nat.zero_le n⟩

theorem strictLength_seven :
    StrictLength (ascii ['7']) (headed (ascii ['7'])) .new
        ((headed (ascii ['7'])).recvHttpRequest (fun _ => .mismatch) .new) ↔
      ∃ n, Decimal (ascii ['7']) n := by
  have hbody : Headed (fun _ => .mismatch) (headed (ascii ['7'])) .new
      (headed (ascii ['7'])) .new :=
    .body rfl
  exact strictLength_iff (sound_headed (ascii ['7'])) hbody (by decide)

/-- `"x"` throws. -/
theorem strictLength_garbage :
    ¬ ∀ (parse : Bytes → LineResult) (c c' : HttpContext) (buf buf' : Buffer), Sound c →
      Headed parse c buf c' buf' → c'.request.hasHeader HttpRequest.contentLengthKey = true →
      StrictLength (c'.request.getHeader HttpRequest.contentLengthKey) c' buf'
        (c.recvHttpRequest parse buf) := by
  intro h
  have hx := h (fun _ => .mismatch) (headed (ascii ['x'])) _ .new .new (sound_headed _) (.body rfl)
    (by decide)
  obtain ⟨c', buf', hresult, _⟩ := hx.otherwise (by
    rintro ⟨n, _, hdigits, _⟩
    exact absurd (hdigits 120 (by decide)) (by decide))
  exact absurd hresult (by simp [HttpContext.recvHttpRequest, headed, recvHttpBody,
    show HttpRequest.contentLength { HttpRequest.new with
      headers := [(HttpRequest.contentLengthKey, ascii ['x'])] } = none by decide])

end HttpContext

end Flux
