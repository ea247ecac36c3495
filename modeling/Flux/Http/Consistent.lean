import Flux.Http.ContentLength
import Flux.Http.Ending

/-!
# The two statuses of a context

`OnMessage` looks at nothing but the two statuses of a context to decide whether to answer a
request, to wait for more of it or to give up.  A call of `RecvHttpRequest` falls through three
stages whose return values are dropped, so what keeps the statuses in step with the request has to
be read off the exits of the first two stages (`Early.left`) and off what the third takes
(`recvHttpBody_consistent`).

`Consistent` says what the statuses mean.  It holds behind every call, on whatever buffer, of every
sequence of calls that starts with a fresh context (`calls_consistent`), and it is all the next call
needs to know (`Consistent.ready`).
-/

namespace Flux

open Lib

namespace HttpContext

/-- Behind a finished request or an error the context is reset. -/
def renewed (c : HttpContext) : HttpContext :=
  if c.recvStatus = .over ∨ c.recvStatus = .error then c.reset else c

/-- A call of `RecvHttpRequest`, and the reset behind it. -/
def receive (parse : Bytes → LineResult) (c : HttpContext) (buf : Buffer) : Option HttpContext :=
  (c.recvHttpRequest parse buf).map fun r => r.1.renewed

/-- If the call comes to the body and the headers give a length, it is a decimal number that fits a
`long`. -/
def DecimalLength (parse : Bytes → LineResult) (c : HttpContext) (buf : Buffer) : Prop :=
  ∀ c' buf', Headed parse c buf c' buf' → c'.request.hasHeader HttpRequest.contentLengthKey = true →
    ∃ n, Decimal (c'.request.getHeader HttpRequest.contentLengthKey) n

/-- **What the statuses mean**, behind a call that left the context and the buffer. -/
structure Consistent (c : HttpContext) (buf : Buffer) : Prop where
  error_iff : c.recvStatus = .error ↔ 400 ≤ c.respStatus
  respStatus_eq : c.recvStatus ≠ .error → c.respStatus = 200
  line : c.recvStatus = .line → c.request = .new
  head : c.recvStatus = .head → c.request.body = []
  body : c.recvStatus = .body → buf.readAbleSize = 0 ∧
    ∃ n, c.request.contentLength = some n ∧ c.request.body.length < n
  finished : c.recvStatus = .over → c.request.contentLength = some c.request.body.length

variable {parse : Bytes → LineResult} {c c' : HttpContext} {buf buf' : Buffer}

/-! ### The exits of a call -/

theorem recvHttpLine_needMore (hc : c.recvStatus = .line)
    (h : c.recvHttpLine parse buf = (.needMore, c', buf')) : c' = c := by
  unfold recvHttpLine at h
  rw [if_neg (not_not.mpr hc)] at h
  split at h
  · exact absurd h (by simp)
  · simp only [Prod.mk.injEq, true_and] at h
    exact h.1.symm
  · split at h <;> exact absurd h (by simp)

theorem Headed.of_early {c₁ : HttpContext} {buf₁ : Buffer}
    (he : Early parse c buf (.success, c₁, buf₁))
    (h : Headed parse c₁ buf₁ c' buf') : Headed parse c buf c' buf' := by
  obtain ⟨_, _, hnext⟩ := he.success
  generalize hr : (ParseState.success, c₁, buf₁) = r at he
  cases he with
  | line status =>
    have hhead : c₁.recvStatus = .head := by
      rcases hnext with ⟨_, h₁⟩ | ⟨hc, _⟩
      · exact h₁
      · exact absurd (status.symm.trans hc) (by decide)
    cases h with
    | body status' => exact absurd (hhead.symm.trans status') (by decide)
    | head status' ends => exact .line status hr.symm ends
    | line status' begins ends => exact absurd (hhead.symm.trans status') (by decide)
  | head status =>
    have hbody : c₁.recvStatus = .body := by
      rcases hnext with ⟨hc, _⟩ | ⟨_, h₁⟩
      · exact absurd (status.symm.trans hc) (by decide)
      · exact h₁
    cases h with
    | body status' => exact .head status hr.symm
    | head status' ends => exact absurd (hbody.symm.trans status') (by decide)
    | line status' begins ends => exact absurd (hbody.symm.trans status') (by decide)

/-- **How a call ends that does not come to the body.**  It waits for a line with a context that is
good for the next call, or it has failed and both statuses say so. -/
theorem Early.left {r : ParseState × HttpContext × Buffer} (hr : Ready c) (he : Early parse c buf r)
    (hsucc : r.1 ≠ .success) :
    (Ready r.2.1 ∧ (r.2.1.recvStatus = .line ∨ r.2.1.recvStatus = .head)) ∨
      (r.2.1.recvStatus = .error ∧ 400 ≤ r.2.1.respStatus) := by
  cases he with
  | line status =>
    have hst : Stage parse c buf .head (c.recvHttpLine parse buf) := recvHttpLine_stage status buf
    generalize hline : c.recvHttpLine parse buf = r at hst hsucc ⊢
    cases hst with
    | needMore goes stays waits =>
      obtain rfl := recvHttpLine_needMore status hline
      exact Or.inl ⟨hr, Or.inl status⟩
    | failed status code fails => exact Or.inr ⟨status, code⟩
    | success => exact absurd rfl hsucc
  | head status =>
    have hst : Stage parse c buf .body (c.recvHttpHead buf) := recvHttpHead_stage status buf
    generalize c.recvHttpHead buf = r at hst hsucc ⊢
    cases hst with
    | needMore goes stays waits =>
      have hhead := stays.trans status
      exact Or.inl ⟨⟨goes.2 hr.sound, fun hline => absurd (hhead.symm.trans hline) (by decide)⟩,
        Or.inr hhead⟩
    | failed status code fails => exact Or.inr ⟨status, code⟩
    | success => exact absurd rfl hsucc

/-! ### What holds behind a call -/

theorem Consistent.failed (status : c.recvStatus = .error) (code : 400 ≤ c.respStatus) :
    Consistent c buf where
  error_iff := iff_of_true status code
  respStatus_eq h := absurd status h
  line h := absurd (status.symm.trans h) (by decide)
  head h := absurd (status.symm.trans h) (by decide)
  body h := absurd (status.symm.trans h) (by decide)
  finished h := absurd (status.symm.trans h) (by decide)

theorem Consistent.waits (hr : Ready c) (status : c.recvStatus = .line ∨ c.recvStatus = .head) :
    Consistent c buf where
  error_iff :=
    iff_of_false (by rcases status with h | h <;> simp [h]) (by simp [hr.sound.respStatus_eq])
  respStatus_eq _ := hr.sound.respStatus_eq
  line h := by rw [hr.line h, new]
  head h := hr.sound.body_nil (by simp [h])
  body h := by rcases status with h' | h' <;> exact absurd (h'.symm.trans h) (by decide)
  finished h := by rcases status with h' | h' <;> exact absurd (h'.symm.trans h) (by decide)

/-- At the body a call that returns has taken what is there of it. -/
theorem recvHttpBody_consistent (hs : Sound c) (hc : c.recvStatus = .body)
    (h : (c.recvHttpBody buf).map (·.2) = some (c', buf')) : Consistent c' buf' := by
  cases hn : c.request.contentLength with
  | none =>
    rw [recvHttpBody, if_neg (not_not.mpr hc), hn] at h
    exact absurd h (by simp)
  | some n =>
    obtain ⟨b, hbody, hrest⟩ := recvHttpBody_length hs hc hn buf
    rw [hbody, Option.some.injEq, Prod.mk.injEq] at h
    obtain ⟨rfl, rfl⟩ := h
    have hle := hs.body_le hc n hn
    have hresp := hs.respStatus_eq
    have hlen : ((c.request.body ++ buf.unread).take n).length =
        min n (c.request.body.length + buf.readAbleSize) := by
      rw [List.length_take, List.length_append, Buffer.unread_length]
    by_cases hall : n ≤ c.request.body.length + buf.readAbleSize
    · rw [if_pos hall]
      rw [min_eq_left hall] at hlen
      exact ⟨by simp [hresp], fun _ => hresp, by simp, by simp, by simp,
        fun _ => hn.trans (congrArg some hlen.symm)⟩
    · rw [if_neg hall]
      rw [min_eq_right (by omega)] at hlen
      have hnil : b.readAbleSize = 0 := by
        rw [← Buffer.unread_length, hrest, List.length_drop, Buffer.unread_length]
        omega
      have hshort : ((c.request.body ++ buf.unread).take n).length < n := by omega
      exact ⟨by simp [hresp], fun _ => hresp, by simp, by simp, fun _ => ⟨hnil, n, hn, hshort⟩,
        by simp⟩

/-- **What a call leaves is consistent**, if it returns. -/
theorem recvHttpRequest_consistent (hr : Ready c)
    (h : c.recvHttpRequest parse buf = some (c', buf')) :
    Consistent c' buf' := by
  have hall : ∀ c' buf', c.recvHttpRequest parse buf = some (c', buf') → Consistent c' buf' := by
    refine recvHttpRequest_rule (P := fun c buf res => Ready c → ∀ c' buf', res = some (c', buf') →
      Consistent c' buf') ?_ ?_ ?_ hr.sound.receiving buf hr
    · rintro c buf ⟨st, c₁, buf₁⟩ he hsucc hr c' buf' hres
      simp only [Option.some.injEq, Prod.mk.injEq] at hres
      obtain ⟨rfl, rfl⟩ := hres
      rcases he.left hr hsucc with ⟨hready, hstatus⟩ | ⟨hstatus, hcode⟩
      · exact .waits hready hstatus
      · exact .failed hstatus hcode
    · intro c buf c₁ buf₁ res he ih hr
      exact ih (he.ready hr)
    · intro c buf hc hr c' buf' hres
      exact recvHttpBody_consistent hr.sound hc hres
  exact hall c' buf' h

/-- And it does, if the length is decimal. -/
theorem recvHttpRequest_returns (hr : Ready c) (hd : DecimalLength parse c buf) :
    ∃ c' buf', c.recvHttpRequest parse buf = some (c', buf') := by
  refine recvHttpRequest_rule (P := fun c buf res => Ready c → DecimalLength parse c buf →
    ∃ c' buf', res = some (c', buf')) ?_ ?_ ?_ hr.sound.receiving buf hr hd
  · intro c buf r he hsucc hr hd
    exact ⟨_, _, rfl⟩
  · intro c buf c₁ buf₁ res he ih hr hd
    exact ih (he.ready hr) fun c' buf' hh => hd c' buf' (hh.of_early he)
  · intro c buf hc hr hd
    obtain ⟨n, hn⟩ := exists_contentLength (hd c buf (.body hc))
    obtain ⟨b, hbody, _⟩ := recvHttpBody_length hr.sound hc hn buf
    exact ⟨_, b, hbody⟩

/-! ### From call to call -/

/-- A context that is consistent is good for the next call, once it has been reset where it must
be. -/
theorem Consistent.ready (h : Consistent c buf) : Ready c.renewed := by
  unfold renewed
  split
  · exact ready_new
  · rename_i hend
    obtain ⟨hover, herror⟩ := not_or.mp hend
    have hresp := h.respStatus_eq herror
    have hstage : c.recvStatus = .line ∨ c.recvStatus = .head ∨ c.recvStatus = .body := by
      cases hc : c.recvStatus <;> simp_all
    refine ⟨⟨hresp, hstage, ?_, ?_⟩, ?_⟩
    · intro hbody
      rcases hstage with hc | hc | hc
      · rw [h.line hc, HttpRequest.new]
      · exact h.head hc
      · exact absurd hc hbody
    · intro hbody n hn
      obtain ⟨_, m, hm, hlt⟩ := h.body hbody
      obtain rfl : m = n := Option.some.inj (hm.symm.trans hn)
      exact hlt.le
    · intro hline
      have hreq := h.line hline
      cases c
      simp only at hresp hline hreq
      rw [hresp, hline, hreq, new]

theorem receive_ready {t : HttpContext} (hr : Ready c) (h : receive parse c buf = some t) :
    Ready t := by
  obtain ⟨⟨c', buf'⟩, hcall, rfl⟩ := Option.map_eq_some_iff.mp h
  exact (recvHttpRequest_consistent hr hcall).ready

theorem run_receive_ready {bufs : List Buffer} (h : run (receive parse) new bufs = some c) :
    Ready c :=
  run_preserves (fun _ _ _ => receive_ready) ready_new h

/-- **The state of the parser is always consistent.**  In every sequence of calls that starts with a
fresh context, with a reset behind each finished request and each error, and whatever the buffer of
a call holds, every call whose `Content-Length`, if it has come to the body, is a decimal number
returns, and what it leaves is consistent. -/
theorem calls_consistent (parse : Bytes → LineResult) (bufs : List Buffer)
    (hd : Each (receive parse) (DecimalLength parse) new bufs) :
    Each (receive parse) (fun c buf => ∃ c' buf',
      c.recvHttpRequest parse buf = some (c', buf') ∧ Consistent c' buf') new bufs := by
  refine Each.of_invariant (fun c buf t hr _ => receive_ready hr) ?_ hd ready_new
  intro c buf hr hd
  obtain ⟨c', buf', hcall⟩ := recvHttpRequest_returns hr hd
  exact ⟨c', buf', hcall, recvHttpRequest_consistent hr hcall⟩

/-- The head of a request whose body has one byte, in a buffer. -/
def oneByteHead : Buffer :=
  (Buffer.new.writeAndPush (ascii ['G', '\n'] ++ HttpRequest.contentLengthKey ++
    ascii [':', ' ', '1', '\n', '\n'])).getD .new

/-- And its body in another one. -/
def oneByteBody : Buffer := (Buffer.new.writeAndPush (ascii ['x'])).getD .new

theorem calls_consistent_oneByte :
    Each (receive fun _ => .ok [] [] [] []) (fun c buf => ∃ c' buf',
        c.recvHttpRequest (fun _ => .ok [] [] [] []) buf = some (c', buf') ∧ Consistent c' buf')
      new [oneByteHead, oneByteBody] := by
  refine calls_consistent (fun _ => .ok [] [] [] []) [oneByteHead, oneByteBody] ⟨?_, ?_⟩
  · intro c' buf' hh _
    refine ⟨1, ?_⟩
    cases hh with
    | body status => exact absurd status (by decide)
    | head status ends => exact absurd status (by decide)
    | line status begins ends =>
      have hc : c' = ((new.recvHttpLine (fun _ => .ok [] [] [] []) oneByteHead).2.1.recvHttpHead
          (new.recvHttpLine (fun _ => .ok [] [] [] []) oneByteHead).2.2).2.1 := by
        rw [begins]
        exact (congrArg (·.2.1) ends).symm
      rw [hc]
      decide +kernel
  · intro t ht
    have hleft : receive (fun _ => .ok [] [] [] []) new oneByteHead =
        some { headed (ascii ['1']) with
        request := { HttpRequest.new with
          version := []
          headers := [(HttpRequest.contentLengthKey, ascii ['1'])] } } := by decide +kernel
    obtain rfl := Option.some.inj (ht.symm.trans hleft)
    refine ⟨?_, fun _ _ => trivial⟩
    intro c' buf' hh _
    cases hh with
    | body status => exact ⟨1, by decide +kernel⟩
    | head status ends => exact absurd status (by decide)
    | line status begins ends => exact absurd status (by decide)

end HttpContext

end Flux
