import Flux.Http.Framing
import Flux.Http.Server

/-!
# A client

What a client makes of the bytes of the server: a first line, headers up to an empty line, a body of
the length the headers announce.  It reads a stream as it comes, so it is a `Reader` like the parser
of the server, and reading is the inverse of `MakeResponse`.

* `Client.run_response`: **one response off the front of the stream**, whatever is made of its first
  line.
* `Client.cut_data`: who leaves the first line as it is cuts the stream into the responses.
* `Client.run_reply`: who reads version, status and reason off it has all the fields.
* `Client.framed`: the responses of a log are frames of the stream.
-/

namespace Flux

open Lib HttpResponse

/-! ### Numbers in text -/

theorem toDigits_range {n : Nat} {c : Char} (hc : c ∈ Nat.toDigits 10 n) :
    48 ≤ c.toNat ∧ c.toNat ≤ 57 := by
  have hdig : c.isDigit = true := Nat.isDigit_of_mem_toDigits (by decide) (by decide) hc
  simpa [Char.isDigit, UInt32.le_iff_toNat_le] using hdig

theorem toUInt8_toNat {n : Nat} (h : n < 256) : n.toUInt8.toNat = n := by
  rw [Nat.toUInt8, UInt8.toNat_ofNat', Nat.mod_eq_of_lt h]

/-- Text and number are inverse. -/
theorem decimal_digits (n : Nat) : decimal (digits n) = n := by
  have hfold : ∀ (cs : List Char) (k : Nat), (∀ c ∈ cs, c.toNat < 256) →
      (ascii cs).foldl (fun n d => n * 10 + (d.toNat - 48)) k = Nat.ofDigitChars 10 cs k := by
    intro cs
    induction cs with
    | nil => intro k _; rfl
    | cons c cs ih =>
      intro k hcs
      rw [Nat.ofDigitChars_cons, ← ih _ fun d hd => hcs d (List.mem_cons_of_mem c hd),
        Nat.mul_comm 10]
      show List.foldl _ (k * 10 + (c.toNat.toUInt8.toNat - 48)) _ = _
      rw [toUInt8_toNat (hcs c List.mem_cons_self)]
      rfl
  have hsmall : ∀ c ∈ Nat.toDigits 10 n, c.toNat < 256 := by
    intro c hc
    have hrange := toDigits_range hc
    omega
  rw [decimal, digits, hfold _ 0 hsmall, Nat.ofDigitChars_toDigits (by decide) (by decide)]

theorem digits_injective : Function.Injective digits :=
  Function.LeftInverse.injective decimal_digits

theorem digits_plain (n : Nat) : newline ∉ digits n := by
  intro h
  obtain ⟨c, hc, heq⟩ := List.mem_map.mp h
  have hrange := toDigits_range hc
  have hten := congrArg UInt8.toNat heq
  rw [toUInt8_toNat (by omega)] at hten
  have : newline.toNat = 10 := rfl
  omega

theorem toText_plain (n : Int) : newline ∉ toText n := by
  unfold toText
  split
  · rw [List.mem_cons, not_or]
    exact ⟨by decide, digits_plain _⟩
  · exact digits_plain _

/-- No description of a status ends a line. -/
theorem statuDesc_plain (statu : Int) : newline ∉ Util.statuDesc statu := by
  have htable : ∀ m ∈ Util.statuMsg, newline ∉ ascii m.2.toList := by decide +kernel
  rw [Util.statuDesc]
  cases hf : Util.statuMsg.find? (·.1 == statu) with
  | none => decide
  | some m => exact htable m (List.mem_of_find?_eq_some hf)

theorem digits_range {n : Nat} {b : UInt8} (hb : b ∈ digits n) : isDigit b = true := by
  obtain ⟨c, hc, rfl⟩ := List.mem_map.mp hb
  have hrange := toDigits_range hc
  have hnat : c.toNat.toUInt8.toNat = c.toNat := toUInt8_toNat (by omega)
  simp only [isDigit, Bool.and_eq_true, decide_eq_true_eq, UInt8.le_iff_toNat_le, hnat]
  exact hrange

theorem digits_ne_nil (n : Nat) : digits n ≠ [] := by
  intro h
  exact Nat.toDigits_ne_nil (List.map_eq_nil_iff.mp h)

/-! ### Responses on the wire -/

def HttpRequest.bodiless (req : HttpRequest) : Bool := req.method = ascii "HEAD".toList

/-- There is one `Content-Length` header, with the number of bytes behind the empty line, and there
are none of them in an answer to `HEAD`. -/
def Exchange.Delimited (e : Exchange) : Prop :=
  e.response.headers.values HttpRequest.contentLengthKey = [digits e.response.body.length] ∧
    (e.request.method = ascii "HEAD".toList → e.response.body = [])

/-- Version and headers of a response can be told apart on the wire. -/
structure Exchange.Plain (e : Exchange) : Prop where
  version : newline ∉ e.request.version
  headers : ∀ kv ∈ e.response.headers,
    newline ∉ kv.1 ∧ newline ∉ kv.2 ∧ ¬ HttpContext.headSymbol <:+: kv.1

namespace Exchange

def bodiless (e : Exchange) : Bool := e.request.bodiless

def startLine (e : Exchange) : Bytes :=
  e.request.version ++ ascii [' '] ++ toText e.response.status ++ ascii [' '] ++
    Util.statuDesc e.response.status

/-- A response whose end a client can find. -/
structure Separable (order : Arrangement) (e : Exchange) : Prop where
  data : e.data = e.response.bytes order e.request.version
  plain : e.Plain
  delimited : e.Delimited

end Exchange

namespace Client

structure Reply (η : Type) where
  line : η
  headers : StringMap
  body : Bytes
deriving DecidableEq, Repr

inductive Stage (η : Type)
  | line
  | head (part : Reply η)
  | body (part : Reply η) (length : Nat)
deriving DecidableEq, Repr

/-- The requests that are not answered yet, told whether they were `HEAD`, and the stage of the
first. -/
structure Reading (η : Type) where
  pending : List Bool
  stage : Stage η
deriving DecidableEq, Repr

inductive Garbled
  | line
  | header
  | length
deriving DecidableEq, Repr

def field (line : Bytes) : Option (Bytes × Bytes) :=
  (find HttpContext.headSymbol line).map fun pos =>
    (line.take pos, line.drop (pos + HttpContext.headSymbol.length))

/-- The length of the body behind a head: there is none in an answer to `HEAD`. -/
def bodyLength (bodiless : Bool) (headers : StringMap) : Option Nat :=
  if bodiless then some 0
  else
    match headers.values HttpRequest.contentLengthKey with
    | [length] => some (decimal length)
    | _ => none

section Reader

variable {η : Type} (first : Bytes → Option η)

def afterLine (bodiless : Bool) (stage : Stage η) (line : Bytes) : Except Garbled (Stage η) :=
  match stage with
  | .line =>
    match first (HttpContext.chomp line) with
    | some l => .ok (.head ⟨l, [], []⟩)
    | none => .error .line
  | .head part =>
    if line = crlf then
      match bodyLength bodiless part.headers with
      | some length => .ok (.body part length)
      | none => .error .length
    else
      match field (HttpContext.chomp line) with
      | some kv => .ok (.head { part with headers := part.headers ++ [kv] })
      | none => .error .header
  | .body part length => .ok (.body part length)

def step (s : Reading η) (u : Bytes) : Verdict (Reading η) (Reply η) Garbled UInt8 :=
  match s.pending, s.stage with
  | [], _ => .wait s u
  | _ :: more, .body part length =>
    if length ≤ u.length then .next [{ part with body := u.take length }] ⟨more, .line⟩
      (u.drop length)
    else .wait s u
  | bodiless :: _, stage =>
    match splitThrough (· == newline) u with
    | none => .wait s u
    | some (line, r) =>
      match afterLine first bodiless stage line with
      | .ok stage => .next [] { s with stage := stage } r
      | .error e => .fail e

def Stage.lines : Stage η → Bool
  | .line | .head _ => true
  | .body _ _ => false

variable {s t : Reading η} {u r : Bytes}

theorem step_line (bodiless : Bool) (more : List Bool) {stage : Stage η} (hl : stage.lines = true)
    (u : Bytes) :
    step first ⟨bodiless :: more, stage⟩ u =
      match splitThrough (· == newline) u with
      | none => .wait ⟨bodiless :: more, stage⟩ u
      | some (line, r) =>
        match afterLine first bodiless stage line with
        | .ok stage => .next [] ⟨bodiless :: more, stage⟩ r
        | .error e => .fail e := by
  cases stage with
  | body part length => exact absurd hl (by simp [Stage.lines])
  | line | head part => rfl

theorem step_body (bodiless : Bool) (more : List Bool) (part : Reply η) (length : Nat) (u : Bytes) :
    step first ⟨bodiless :: more, .body part length⟩ u =
      if length ≤ u.length then
        .next [{ part with body := u.take length }] ⟨more, .line⟩ (u.drop length)
      else .wait ⟨bodiless :: more, .body part length⟩ u := rfl

/-- **The decisions of the client**: it waits, takes a line, takes a body, or sees that a line is
wrong. -/
theorem step_cases (s : Reading η) (u : Bytes) :
    (step first s u = .wait s u ∧
      (s.pending = [] ∨ (s.stage.lines = true ∧ splitThrough (· == newline) u = none) ∨
      ∃ part length, s.stage = .body part length ∧ u.length < length)) ∨
    (∃ bodiless more line r, s.pending = bodiless :: more ∧ s.stage.lines = true ∧
      splitThrough (· == newline) u = some (line, r) ∧
      ((∃ stage, afterLine first bodiless s.stage line = .ok stage ∧
          step first s u = .next [] ⟨bodiless :: more, stage⟩ r) ∨
        ∃ e, afterLine first bodiless s.stage line = .error e ∧ step first s u = .fail e)) ∨
    ∃ bodiless more part length, s = ⟨bodiless :: more, .body part length⟩ ∧ length ≤ u.length ∧
      step first s u = .next [{ part with body := u.take length }] ⟨more, .line⟩
        (u.drop length) := by
  obtain ⟨pending, stage⟩ := s
  cases pending with
  | nil => exact Or.inl ⟨rfl, Or.inl rfl⟩
  | cons bodiless more =>
    by_cases hl : stage.lines = true
    · have hstep := step_line first bodiless more hl u
      cases hs : splitThrough (· == newline) u with
      | none =>
        rw [hs] at hstep
        exact Or.inl ⟨hstep, Or.inr (Or.inl ⟨hl, rfl⟩)⟩
      | some p =>
        obtain ⟨line, r⟩ := p
        rw [hs] at hstep
        refine Or.inr (Or.inl ⟨bodiless, more, line, r, rfl, hl, rfl, ?_⟩)
        cases ha : afterLine first bodiless stage line with
        | ok stage' =>
          simp only [ha] at hstep
          exact Or.inl ⟨stage', rfl, hstep⟩
        | error e =>
          simp only [ha] at hstep
          exact Or.inr ⟨e, rfl, hstep⟩
    · cases stage with
      | line | head part => exact absurd rfl hl
      | body part length =>
        have hstep := step_body first bodiless more part length u
        by_cases hle : length ≤ u.length
        · rw [if_pos hle] at hstep
          exact Or.inr (Or.inr ⟨bodiless, more, part, length, rfl, hle, hstep⟩)
        · rw [if_neg hle] at hstep
          exact Or.inl ⟨hstep, Or.inr (Or.inr ⟨part, length, rfl, Nat.not_le.mp hle⟩)⟩

/-! ### The reader -/

variable {first}

/-- A line leads into a head or a body. -/
theorem afterLine_ne_line {bodiless : Bool} {stage stage' : Stage η} {line : Bytes}
    (hl : stage.lines = true) (h : afterLine first bodiless stage line = .ok stage') :
    stage' ≠ .line := by
  unfold afterLine at h
  split at h
  · split at h
    · obtain rfl := Except.ok.inj h
      simp
    · exact absurd h (by simp)
  · split at h
    · split at h
      · obtain rfl := Except.ok.inj h
        simp
      · exact absurd h (by simp)
    · split at h
      · obtain rfl := Except.ok.inj h
        simp
      · exact absurd h (by simp)
  · exact absurd hl (by simp [Stage.lines])

theorem step_wait (h : step first s u = .wait t r) : t = s ∧ r = u := by
  rcases step_cases first s u with ⟨hs, -⟩ | ⟨_, _, _, _, -, -, -, ⟨_, -, hs⟩ | ⟨_, -, hs⟩⟩ |
    ⟨_, _, _, _, -, -, hs⟩
  · rw [hs, Verdict.wait.injEq] at h
    exact ⟨h.1.symm, h.2.symm⟩
  · exact absurd (hs.symm.trans h) (by simp)
  · exact absurd (hs.symm.trans h) (by simp)
  · exact absurd (hs.symm.trans h) (by simp)

/-- A step takes a line or a body, whatever is behind it. -/
theorem step_next {done : List (Reply η)} (h : step first s u = .next done t r) :
    (r.length < u.length ∨ r.length = u.length ∧ s.stage.lines = false ∧ t.stage.lines = true) ∧
      (done = [] → t.stage ≠ .line) ∧ ∀ v, step first s (u ++ v) = .next done t (r ++ v) := by
  rcases step_cases first s u with ⟨hs, -⟩ |
    ⟨bodiless, more, line, r', hp, hl, hcut, ⟨stage, ha, hs⟩ | ⟨_, -, hs⟩⟩ |
    ⟨bodiless, more, part, length, rfl, hle, hs⟩
  · exact absurd (hs.symm.trans h) (by simp)
  · rw [hs, Verdict.next.injEq] at h
    obtain ⟨rfl, rfl, rfl⟩ := h
    have hpos := List.length_pos_iff.mpr (splitThrough_ne_nil hcut)
    refine ⟨Or.inl ?_, fun _ => afterLine_ne_line hl ha, fun v => ?_⟩
    · rw [splitThrough_eq hcut, List.length_append]
      omega
    · obtain ⟨pending, stage'⟩ := s
      obtain rfl : pending = bodiless :: more := hp
      rw [step_line first _ _ hl, splitThrough_append_some hcut]
      simp only [ha]
  · exact absurd (hs.symm.trans h) (by simp)
  · rw [hs, Verdict.next.injEq] at h
    obtain ⟨rfl, rfl, rfl⟩ := h
    refine ⟨?_, fun hno => absurd hno (by simp), fun v => ?_⟩
    · rw [List.length_drop]
      rcases Nat.eq_zero_or_pos length with h0 | hpos
      · exact Or.inr ⟨by omega, rfl, rfl⟩
      · exact Or.inl (by omega)
    · rw [step_body, if_pos (by rw [List.length_append]; omega), List.take_append_of_le_length hle,
        List.drop_append_of_le_length hle]

theorem step_fail {e : Garbled} (h : step first s u = .fail e) (v : Bytes) :
    step first s (u ++ v) = .fail e := by
  rcases step_cases first s u with ⟨hs, -⟩ |
    ⟨bodiless, more, line, r', hp, hl, hcut, ⟨_, -, hs⟩ | ⟨e', ha, hs⟩⟩ |
    ⟨_, _, _, _, -, -, hs⟩
  · exact absurd (hs.symm.trans h) (by simp)
  · exact absurd (hs.symm.trans h) (by simp)
  · rw [hs, Verdict.fail.injEq] at h
    subst h
    obtain ⟨pending, stage⟩ := s
    obtain rfl : pending = bodiless :: more := hp
    rw [step_line first _ _ hl, splitThrough_append_some hcut]
    simp only [ha]
  · exact absurd (hs.symm.trans h) (by simp)

variable (first)

/-- **The client does not depend on how the stream is cut.** -/
def reader : Reader (Reading η) (Reply η) Garbled UInt8 where
  step := step first
  rank s := if s.stage.lines then 0 else 1
  shrinks h := by
    rcases (step_next h).1 with hlt | ⟨heq, hs, ht⟩
    · exact Or.inl hlt
    · exact Or.inr ⟨heq, by simp [hs, ht]⟩
  next_append h := (step_next h).2.2
  fail_append h := step_fail h
  wait_append h v := by
    obtain ⟨rfl, rfl⟩ := step_wait h
    rfl

/-- Between two responses the client stands before a status line. -/
theorem idling : (reader first).Idling fun s => s.stage = .line where
  leaves h := (step_next h).2.1 rfl
  keeps h ht := by
    obtain ⟨rfl, rfl⟩ := step_wait h
    exact ⟨ht, rfl⟩

/-! ### Off the front of the stream -/

variable {first}

theorem chomp_crlf (l : Bytes) : HttpContext.chomp (l ++ crlf) = l := by
  have hlast : (l ++ crlf).getLast? = some newline := by simp [crlf]
  have hdrop : (l ++ crlf).dropLast = l ++ [carriageReturn] := by
    simp [crlf, List.dropLast_append_of_ne_nil]
  simp only [HttpContext.chomp, if_pos hlast, hdrop]
  rw [if_pos (by simp), List.dropLast_concat]

theorem splitThrough_crlf {l : Bytes} (h : newline ∉ l) (r : Bytes) :
    splitThrough (· == newline) (l ++ crlf ++ r) = some (l ++ crlf, r) := by
  have hl : ∀ b ∈ l ++ [carriageReturn], (b == newline) = false := by
    intro b hb
    rw [beq_eq_false_iff_ne]
    rintro rfl
    rcases List.mem_append.mp hb with hb | hb
    · exact h hb
    · exact absurd hb (by decide)
  have hcut := splitThrough_line hl (beq_self_eq_true newline) r
  have hwire : l ++ crlf = l ++ [carriageReturn] ++ [newline] := by
    rw [List.append_assoc]
    rfl
  rw [hwire, List.append_assoc _ [newline]]
  exact hcut

theorem field_eq {key : Bytes} (hkey : ¬ HttpContext.headSymbol <:+: key) (value : Bytes) :
    field (key ++ HttpContext.headSymbol ++ value) = some (key, value) := by
  rw [field, HttpContext.find_headSymbol hkey, Option.map_some, List.append_assoc, List.take_left,
    ← List.append_assoc, ← List.length_append, List.drop_left]

theorem run_line {bodiless : Bool} {more : List Bool} {stage stage' : Stage η} {l : Bytes}
    (hl : stage.lines = true) (hplain : newline ∉ l)
    (ha : afterLine first bodiless stage (l ++ crlf) = .ok stage') (rest : Bytes) :
    (reader first).run ⟨bodiless :: more, stage⟩ (l ++ crlf ++ rest) =
      (reader first).run ⟨bodiless :: more, stage'⟩ rest := by
  have hstep : (reader first).step ⟨bodiless :: more, stage⟩ (l ++ crlf ++ rest) =
      .next [] ⟨bodiless :: more, stage'⟩ rest := by
    show step first _ _ = _
    rw [step_line first _ _ hl, splitThrough_crlf hplain]
    simp only [ha]
  rw [Reader.run_of_next hstep]
  rfl

/-- The headers, on top of those already read. -/
theorem run_fields {bodiless : Bool} {more : List Bool} (m : StringMap) (hm : ∀ kv ∈ m,
      newline ∉ kv.1 ∧ newline ∉ kv.2 ∧ ¬ HttpContext.headSymbol <:+: kv.1) (part : Reply η)
    (rest : Bytes) :
    (reader first).run ⟨bodiless :: more, .head part⟩
        ((m.flatMap fun kv => kv.1 ++ HttpContext.headSymbol ++ kv.2 ++ crlf) ++ rest) =
      (reader first).run ⟨bodiless :: more, .head { part with headers := part.headers ++ m }⟩
        rest := by
  induction m generalizing part with
  | nil => rw [List.flatMap_nil, List.nil_append, List.append_nil]
  | cons kv m ih =>
    obtain ⟨hkey, hvalue, hsym⟩ := hm kv List.mem_cons_self
    have hplain : newline ∉ kv.1 ++ HttpContext.headSymbol ++ kv.2 := by
      rw [List.mem_append, List.mem_append, not_or, not_or]
      exact ⟨⟨hkey, by decide⟩, hvalue⟩
    have hlong : kv.1 ++ HttpContext.headSymbol ++ kv.2 ++ crlf ≠ crlf := by
      intro heq
      have hlen := congrArg List.length heq
      simp only [List.length_append] at hlen
      have : HttpContext.headSymbol.length = 2 := rfl
      omega
    have ha :
        afterLine first bodiless (.head part) (kv.1 ++ HttpContext.headSymbol ++ kv.2 ++ crlf) =
        .ok (.head { part with headers := part.headers ++ [kv] }) := by
      simp only [afterLine, if_neg hlong, chomp_crlf, field_eq hsym]
    rw [List.flatMap_cons, List.append_assoc, run_line rfl hplain ha,
      ih fun kv' h => hm kv' (List.mem_cons_of_mem kv h)]
    simp only [List.append_assoc, List.singleton_append]

theorem run_body {bodiless : Bool} {more : List Bool} (part : Reply η) (body rest : Bytes) :
    (reader first).run ⟨bodiless :: more, .body part body.length⟩ (body ++ rest) =
      ({ part with body := body } :: ((reader first).run ⟨more, .line⟩ rest).1,
        ((reader first).run ⟨more, .line⟩ rest).2) := by
  have hstep : (reader first).step ⟨bodiless :: more, .body part body.length⟩ (body ++ rest) =
      .next [{ part with body := body }] ⟨more, .line⟩ rest := by
    refine (step_body first _ _ _ _ (body ++ rest)).trans ?_
    rw [if_pos (by simp), List.take_left, List.drop_left]
  rw [Reader.run_of_next hstep]
  rfl

variable (first)

/-- **One response off the front of the stream**, whatever is made of its first line. -/
theorem run_response {order : Arrangement} {e : Exchange} (h : e.Separable order) {l : η}
    (hfirst : first e.startLine = some l) (more : List Bool) (rest : Bytes) :
    (reader first).run ⟨e.bodiless :: more, .line⟩ (e.data ++ rest) =
      (⟨l, order.list e.response.headers, e.response.body⟩ ::
        ((reader first).run ⟨more, .line⟩ rest).1, ((reader first).run ⟨more, .line⟩ rest).2) := by
  obtain ⟨hlen, hhead⟩ := h.delimited
  have hplain : newline ∉ e.startLine := by
    simp only [Exchange.startLine, List.mem_append, not_or]
    exact ⟨⟨⟨⟨h.plain.version, by decide⟩, toText_plain _⟩, by decide⟩, statuDesc_plain _⟩
  have hwire : e.data ++ rest = e.startLine ++ crlf ++
      (e.response.headerLines order ++ ([] ++ crlf ++ (e.response.body ++ rest))) := by
    rw [h.data, bytes, HttpResponse.statusLine]
    simp only [List.append_assoc, Exchange.startLine, List.nil_append]
  have hheaders : ∀ kv ∈ order.list e.response.headers,
      newline ∉ kv.1 ∧ newline ∉ kv.2 ∧ ¬ HttpContext.headSymbol <:+: kv.1 :=
    fun kv hm => h.plain.headers kv ((order.perm _).mem_iff.mp hm)
  have hvalues : (order.list e.response.headers).values HttpRequest.contentLengthKey =
      [digits e.response.body.length] := by
    have hperm : ((order.list e.response.headers).values HttpRequest.contentLengthKey).Perm
        (e.response.headers.values HttpRequest.contentLengthKey) :=
      ((order.perm e.response.headers).filter _).map _
    rw [hlen] at hperm
    exact List.perm_singleton.mp hperm
  let full : Reply η := ⟨l, [] ++ order.list e.response.headers, []⟩
  have hline : afterLine first e.bodiless .line (e.startLine ++ crlf) =
      .ok (.head ⟨l, [], []⟩) := by
    simp only [afterLine, chomp_crlf, hfirst]
  have hbody : bodyLength e.bodiless full.headers = some e.response.body.length := by
    rw [bodyLength]
    split
    · rename_i hb
      rw [hhead (by simpa [Exchange.bodiless, HttpRequest.bodiless] using hb)]
      rfl
    · show (match (order.list e.response.headers).values HttpRequest.contentLengthKey with
        | [length] => some (decimal length)
        | _ => none) = _
      rw [hvalues]
      simp only [decimal_digits]
  have hblank : afterLine first e.bodiless (.head full) ([] ++ crlf) =
      .ok (.body full e.response.body.length) := by
    simp only [afterLine, List.nil_append, if_true, hbody]
  rw [hwire, run_line rfl hplain hline, headerLines, run_fields _ hheaders,
    run_line rfl List.not_mem_nil hblank, run_body]
  rfl

end Reader

/-! ### Who cuts the stream -/

/-- One response off the front of a stream, by a client that leaves the first line as it is. -/
def response (bodiless : Bool) (u : Bytes) : Option (Bytes × Bytes) :=
  match (reader some).run ⟨[bodiless], .line⟩ u with
  | ([_], .ok (_, rest)) => some (u.take (u.length - rest.length), rest)
  | _ => none

/-- As many responses as requests were sent, told whether they were `HEAD`. -/
def cut : List Bool → Bytes → Option (List Bytes × Bytes)
  | [], u => some ([], u)
  | bodiless :: more, u =>
    (response bodiless u).bind fun p => (cut more p.2).map fun q => (p.1 :: q.1, q.2)

/-- **A response that delimits itself is cut off exactly**, whatever is behind it. -/
theorem response_data {order : Arrangement} {e : Exchange} (h : e.Separable order) (rest : Bytes) :
    response e.bodiless (e.data ++ rest) = some (e.data, rest) := by
  have hwait : (reader (some : Bytes → Option Bytes)).run ⟨[], .line⟩ rest =
      ([], .ok (⟨[], .line⟩, rest)) :=
    Reader.run_of_wait rfl
  have hkeep : (e.data ++ rest).length - rest.length = e.data.length := by
    rw [List.length_append, Nat.add_sub_cancel]
  rw [response, run_response some h rfl, hwait]
  simp only [hkeep, List.take_left]

theorem cut_data {order : Arrangement} {es : List Exchange} (h : ∀ e ∈ es, e.Separable order)
    (rest : Bytes) : cut (es.map Exchange.bodiless) (es.flatMap Exchange.data ++ rest) =
      some (es.map Exchange.data, rest) := by
  induction es with
  | nil => rfl
  | cons e es ih =>
    have hrest := ih fun e' he' => h e' (List.mem_cons_of_mem e he')
    rw [List.map_cons, List.flatMap_cons, List.append_assoc, cut,
      response_data (h e List.mem_cons_self),
      Option.bind_some, hrest]
    rfl

/-! ### Who reads the first line -/

structure StatusLine where
  version : Bytes
  status : Int
  reason : Bytes
deriving DecidableEq, Repr

/-- A number that may have a sign. -/
def numeral (u : Bytes) : Option Int :=
  let ds := if u.head? = some 45 then u.tail else u
  if ds ≠ [] ∧ ds.all isDigit = true then
    some (if u.head? = some 45 then -(decimal ds : Int) else decimal ds)
  else none

/-- A space stands between each two. -/
def statusLine (line : Bytes) : Option StatusLine :=
  (splitThrough (· == 32) line).bind fun p =>
    (splitThrough (· == 32) p.2).bind fun q =>
      (numeral q.1.dropLast).map fun status => ⟨p.1.dropLast, status, q.2⟩

def replyReader : Reader (Reading StatusLine) (Reply StatusLine) Garbled UInt8 := reader statusLine

/-- **A status is what its text says.** -/
theorem numeral_toText (n : Int) : numeral (toText n) = some n := by
  have hall : (digits n.natAbs).all isDigit = true :=
    List.all_eq_true.mpr fun b hb => digits_range hb
  have hne := digits_ne_nil n.natAbs
  unfold toText
  split
  · rename_i hneg
    simp only [numeral, List.head?_cons, if_true, List.tail_cons]
    rw [if_pos ⟨hne, hall⟩, decimal_digits]
    congr 1
    omega
  · rename_i hpos
    have hhead : (digits n.natAbs).head? ≠ some 45 := by
      intro h
      have hdig := digits_range (List.mem_of_head? h)
      exact absurd hdig (by decide)
    simp only [numeral, if_neg hhead]
    rw [if_pos ⟨hne, hall⟩, decimal_digits]
    congr 1
    omega

theorem toText_notMem (n : Int) : (32 : UInt8) ∉ toText n := by
  have hdig : (32 : UInt8) ∉ digits n.natAbs := fun h => absurd (digits_range h) (by decide)
  unfold toText
  split
  · rw [List.mem_cons, not_or]
    exact ⟨by decide, hdig⟩
  · exact hdig

theorem statusLine_eq {version reason : Bytes} (hversion : (32 : UInt8) ∉ version) (status : Int) :
    statusLine (version ++ ascii [' '] ++ toText status ++ ascii [' '] ++ reason) =
      some ⟨version, status, reason⟩ := by
  have hword : ∀ {w : Bytes}, (32 : UInt8) ∉ w → ∀ r,
      splitThrough (· == 32) (w ++ 32 :: r) = some (w ++ [32], r) := by
    intro w hw r
    refine splitThrough_line (fun b hb => ?_) rfl r
    rw [beq_eq_false_iff_ne]
    exact fun he => hw (he ▸ hb)
  have hwire : version ++ ascii [' '] ++ toText status ++ ascii [' '] ++ reason =
      version ++ 32 :: (toText status ++ 32 :: reason) := by
    simp [ascii]
  rw [statusLine, hwire, hword hversion, Option.bind_some, hword (toText_notMem status),
    Option.bind_some,
    List.dropLast_concat, List.dropLast_concat, numeral_toText, Option.map_some]

end Client

def Exchange.reply (order : Arrangement) (e : Exchange) : Client.Reply Client.StatusLine where
  line := ⟨e.request.version, e.response.status, Util.statuDesc e.response.status⟩
  headers := order.list e.response.headers
  body := e.response.body

structure Exchange.Legible (order : Arrangement) (e : Exchange) :
    Prop extends e.Separable order where
  spaceless : (32 : UInt8) ∉ e.request.version

namespace Client

theorem run_reply {order : Arrangement} {e : Exchange} (h : e.Legible order) (more : List Bool)
    (rest : Bytes) :
    replyReader.run ⟨e.bodiless :: more, .line⟩ (e.data ++ rest) =
      (e.reply order :: (replyReader.run ⟨more, .line⟩ rest).1,
        (replyReader.run ⟨more, .line⟩ rest).2) :=
  run_response statusLine h.toSeparable (statusLine_eq h.spaceless e.response.status) more rest

theorem run_replies {order : Arrangement} {es : List Exchange} (h : ∀ e ∈ es, e.Legible order)
    (more : List Bool) :
    replyReader.run ⟨es.map Exchange.bodiless ++ more, .line⟩ (es.flatMap Exchange.data) =
      (es.map (Exchange.reply order), .ok (⟨more, .line⟩, [])) := by
  induction es with
  | nil =>
    refine Reader.run_of_wait ?_
    cases more with
    | nil => rfl
    | cons bodiless more => rfl
  | cons e es ih =>
    rw [List.map_cons, List.cons_append, List.flatMap_cons, run_reply (h e List.mem_cons_self),
      ih fun e' he' => h e' (List.mem_cons_of_mem e he')]
    rfl

/-- **The responses of a log are frames of the stream**, whatever requests come behind. -/
theorem framed {order : Arrangement} {es : List Exchange} (h : ∀ e ∈ es, e.Legible order)
    (more : List Bool) :
    replyReader.Framed (fun s => s.stage = .line) ⟨es.map Exchange.bodiless ++ more, .line⟩
      (es.map Exchange.data) (es.map (Exchange.reply order)) where
  length := by rw [List.length_map, List.length_map]
  boundary i _ := by
    refine ⟨⟨(es.drop i).map Exchange.bodiless ++ more, .line⟩, rfl, ?_⟩
    have hflags : es.map Exchange.bodiless ++ more =
        (es.take i).map Exchange.bodiless ++ ((es.drop i).map Exchange.bodiless ++ more) := by
      rw [← List.append_assoc, ← List.map_append, List.take_append_drop]
    have hframes : ((es.map Exchange.data).take i).flatten = (es.take i).flatMap Exchange.data := by
      rw [← List.map_take, List.flatMap_def]
    rw [hflags, hframes, run_replies fun e he => h e (List.mem_of_mem_take he), List.map_take]

end Client

end Flux
