import Flux.Http.Request
import Flux.Reactor.ByteQueue
import Mathlib.Algebra.Group.Int.Defs

/-!
# `HttpContext`

The receiving state of one connection's current request: the status line is read first,
then the header lines, then the body, and one call of `RecvHttpRequest` goes as far as the buffer
allows, each stage falling through to the next.

What the regular expression and the query splitting of `ParseHttpLine` make of a line is a
parameter here: a function of the line with three answers, one for each way out of that function
(`parseLine` in `RequestLine` is the source's).  The rest of the context, with every status it sets,
is the source's.  `RecvHttpBody` answers `none` where `std::stol` throws.
-/

namespace Flux

def maxLine : Nat := 8192

def carriageReturn : UInt8 := 13

inductive HttpRecvStatus
  | error
  | line
  | head
  | body
  | over
deriving DecidableEq, Repr

inductive ParseState
  | needMore
  | success
  | error
deriving DecidableEq, Repr

/-- What `ParseHttpLine` makes of a line: no match of its expression, a piece of the query string
without an `=`, or the fields it sets and the pairs it puts into the parameters, in order. -/
inductive LineResult
  | mismatch
  | badQuery
  | ok (method path version : Bytes) (query : List (Bytes × Bytes))
deriving DecidableEq, Repr

/-! ### The length of the body -/

def isSpace (b : UInt8) : Bool := b == 32 || (9 ≤ b && b ≤ 13)

def isDigit (b : UInt8) : Bool := 48 ≤ b && b ≤ 57

def decimal (ds : Bytes) : Nat := ds.foldl (fun n d => n * 10 + (d.toNat - 48)) 0

/-- An optional sign in front of a number: whether it is a minus, and what follows it. -/
def takeSign : Bytes → Bool × Bytes
  | [] => (false, [])
  | b :: s => if b = 45 then (true, s) else if b = 43 then (false, s) else (false, b :: s)

/-- `std::stol` to base ten.  It throws (`none`) without a digit and outside a 64-bit `long`. -/
def stol (s : Bytes) : Option Int :=
  let (negative, rest) := takeSign (s.dropWhile isSpace)
  let digits := rest.takeWhile isDigit
  let value : Int := if negative then -(decimal digits : Int) else decimal digits
  if digits = [] then none
  else if -2 ^ 63 ≤ value ∧ value < 2 ^ 63 then some value else none

namespace HttpRequest

def contentLengthKey : Bytes :=
  ascii ['C', 'o', 'n', 't', 'e', 'n', 't', '-', 'L', 'e', 'n', 'g', 't', 'h']

/-- The `long` of `std::stol` becomes a `size_t`. -/
def contentLength (r : HttpRequest) : Option Nat :=
  if r.hasHeader contentLengthKey then
    (stol (r.getHeader contentLengthKey)).map fun v => (v % 2 ^ 64).toNat
  else some 0

end HttpRequest

structure HttpContext where
  respStatus : Nat
  recvStatus : HttpRecvStatus
  request : HttpRequest
deriving DecidableEq, Repr

namespace HttpContext

def new : HttpContext where
  respStatus := 200
  recvStatus := .line
  request := .new

def reset (_ : HttpContext) : HttpContext := new

def fail (c : HttpContext) (status : Nat) : HttpContext :=
  { c with respStatus := status, recvStatus := .error }

/-- The next line of a receiving loop: `GetLineAndPop` and the two checks behind it. -/
def fetchLine (buf : Buffer) : ParseState × Bytes × Buffer :=
  let (line, buf) := buf.getLineAndPop
  if line.length = 0 then
    if maxLine < buf.readAbleSize then (.error, [], buf) else (.needMore, [], buf)
  else if maxLine < line.length then (.error, [], buf)
  else (.success, line, buf)

theorem fetchLine_lt {buf b : Buffer} {line : Bytes} (h : fetchLine buf = (.success, line, b)) :
    b.readAbleSize < buf.readAbleSize := by
  simp only [fetchLine] at h
  split at h
  · split at h <;> exact absurd h (by simp)
  · rename_i hne
    split at h
    · exact absurd h (by simp)
    · simp only [Prod.mk.injEq, true_and] at h
      have hle := buf.getLine_length_le
      have hpos : buf.getLineAndPop.1.length = buf.getLine.length := rfl
      rw [← h.2, Buffer.getLineAndPop, Buffer.moveReadOffset_readAbleSize]
      omega

section Line

variable (parse : Bytes → LineResult)

def parseHttpLine (c : HttpContext) (line : Bytes) : Bool × HttpContext :=
  match parse line with
  | .mismatch => (false, c.fail 400)
  | .badQuery => (false, { c with request := .new }.fail 400)
  | .ok method path version query =>
      let request := { c.request with method := method, path := path }
      let request := query.foldl (fun r kv => r.setParam kv.1 kv.2) request
      (true, { c with request := { request with version := version } })

def recvHttpLine (c : HttpContext) (buf : Buffer) : ParseState × HttpContext × Buffer :=
  if c.recvStatus ≠ .line then (.error, c, buf)
  else
    match fetchLine buf with
    | (.error, _, buf) => (.error, c.fail 414, buf)
    | (.needMore, _, buf) => (.needMore, c, buf)
    | (.success, line, buf) =>
      match c.parseHttpLine parse line with
      | (false, c) => (.error, c, buf)
      | (true, c) => (.success, { c with recvStatus := .head }, buf)

end Line

def headSymbol : Bytes := ascii [':', ' ']

/-- A line without its `'\n'` and then without the `'\r'` before it. -/
def chomp (line : Bytes) : Bytes :=
  let line := if line.getLast? = some newline then line.dropLast else line
  if line.getLast? = some carriageReturn then line.dropLast else line

def parseHttpHead (c : HttpContext) (line : Bytes) : Bool × HttpContext :=
  match Lib.find headSymbol (chomp line) with
  | none => (false, c.fail 400)
  | some pos =>
      let key := (chomp line).take pos
      let val := (chomp line).drop (pos + headSymbol.length)
      (true, { c with request := c.request.setHeader key val })

def blank (line : Bytes) : Bool := line == [carriageReturn, newline] || line == [newline]

def headLines (c : HttpContext) (buf : Buffer) : ParseState × HttpContext × Buffer :=
  match _h : fetchLine buf with
  | (.error, _, b) => (.error, c.fail 414, b)
  | (.needMore, _, b) => (.needMore, c, b)
  | (.success, line, b) =>
    if blank line then (.success, { c with recvStatus := .body }, b)
    else
      match c.parseHttpHead line with
      | (false, c) => (.error, c, b)
      | (true, c) => headLines c b
  termination_by buf.readAbleSize
  decreasing_by exact fetchLine_lt ‹_›

def recvHttpHead (c : HttpContext) (buf : Buffer) : ParseState × HttpContext × Buffer :=
  if c.recvStatus ≠ .head then (.error, c, buf) else c.headLines buf

def recvHttpBody (c : HttpContext) (buf : Buffer) : Option (ParseState × HttpContext × Buffer) :=
  if c.recvStatus ≠ .body then some (.error, c, buf)
  else
    c.request.contentLength.map fun contentLen =>
      if contentLen < c.request.body.length then (.error, c, buf)
      else if contentLen = 0 then (.success, { c with recvStatus := .over }, buf)
      else
        let needLen := contentLen - c.request.body.length
        if needLen = 0 then (.success, { c with recvStatus := .over }, buf)
        else
          let takeLen := min needLen buf.readAbleSize
          let (taken, buf) := buf.readAsStringAndPop takeLen (min_le_right _ _)
          let c := { c with request := { c.request with body := c.request.body ++ taken } }
          if takeLen = needLen then (.success, { c with recvStatus := .over }, buf)
          else (.needMore, c, buf)

/-- The `switch` without breaks: from the stage the context is in, every later stage is called. -/
def recvHttpRequest (parse : Bytes → LineResult) (c : HttpContext) (buf : Buffer) :
    Option (HttpContext × Buffer) :=
  match c.recvStatus with
  | .line =>
      let (_, c, buf) := c.recvHttpLine parse buf
      let (_, c, buf) := c.recvHttpHead buf
      (c.recvHttpBody buf).map (·.2)
  | .head =>
      let (_, c, buf) := c.recvHttpHead buf
      (c.recvHttpBody buf).map (·.2)
  | .body => (c.recvHttpBody buf).map (·.2)
  | .over | .error => some (c, buf)

/-! ### What the stages do to the buffer -/

/-- `b'` is `b` read on: the vector is the same and fewer or as many bytes are unread. -/
structure ReadsTo (b b' : Buffer) : Prop where
  vector : b'.buffer = b.buffer
  le : b'.readAbleSize ≤ b.readAbleSize

theorem ReadsTo.refl (b : Buffer) : ReadsTo b b := ⟨rfl, le_rfl⟩

theorem ReadsTo.trans {b b' b'' : Buffer} (h : ReadsTo b b') (h' : ReadsTo b' b'') :
    ReadsTo b b'' := ⟨h'.vector.trans h.vector, h'.le.trans h.le⟩

theorem moveReadOffset_readsTo (b : Buffer) (len : Nat) (h : len ≤ b.readAbleSize) :
    ReadsTo b (b.moveReadOffset len h) :=
  ⟨rfl, by rw [Buffer.moveReadOffset_readAbleSize]; exact Nat.sub_le _ _⟩

theorem fetchLine_readsTo (buf : Buffer) : ReadsTo buf (fetchLine buf).2.2 := by
  have h : ReadsTo buf buf.getLineAndPop.2 :=
    moveReadOffset_readsTo buf _ buf.getLine_length_le
  simp only [fetchLine]
  split
  · split <;> exact h
  · split <;> exact h

theorem recvHttpLine_readsTo (parse : Bytes → LineResult) (c : HttpContext) (buf : Buffer) :
    ReadsTo buf (c.recvHttpLine parse buf).2.2 := by
  have h := fetchLine_readsTo buf
  unfold recvHttpLine
  split
  · exact ReadsTo.refl buf
  · split <;> rename_i hf <;> rw [hf] at h
    · exact h
    · exact h
    · split <;> exact h

theorem headLines_readsTo (c : HttpContext) (buf : Buffer) :
    ReadsTo buf (c.headLines buf).2.2 := by
  induction c, buf using headLines.induct with
  | case1 c buf l b hf =>
    have h := fetchLine_readsTo buf
    rw [headLines, hf]
    rwa [hf] at h
  | case2 c buf l b hf =>
    have h := fetchLine_readsTo buf
    rw [headLines, hf]
    rwa [hf] at h
  | case3 c buf line b hf hb =>
    have h := fetchLine_readsTo buf
    rw [headLines, hf]
    simp only [if_pos hb]
    rwa [hf] at h
  | case4 c buf line b hf hb c' hp =>
    have h := fetchLine_readsTo buf
    rw [headLines, hf]
    simp only [if_neg hb, hp]
    rwa [hf] at h
  | case5 c buf line b hf hb c' hp ih =>
    have h := fetchLine_readsTo buf
    rw [headLines, hf]
    simp only [if_neg hb, hp]
    rw [hf] at h
    exact h.trans ih

theorem recvHttpHead_readsTo (c : HttpContext) (buf : Buffer) :
    ReadsTo buf (c.recvHttpHead buf).2.2 := by
  unfold recvHttpHead
  split
  · exact ReadsTo.refl buf
  · exact c.headLines_readsTo buf

theorem recvHttpBody_readsTo {c : HttpContext} {buf : Buffer}
    {r : ParseState × HttpContext × Buffer}
    (h : c.recvHttpBody buf = some r) : ReadsTo buf r.2.2 := by
  unfold recvHttpBody at h
  split at h
  · obtain rfl := Option.some.inj h
    exact ReadsTo.refl buf
  · obtain ⟨n, _, rfl⟩ := Option.map_eq_some_iff.mp h
    split
    · exact ReadsTo.refl buf
    · split
      · exact ReadsTo.refl buf
      · simp only
        split
        · exact ReadsTo.refl buf
        · split <;> exact moveReadOffset_readsTo _ _ (min_le_right _ _)

theorem recvHttpRequest_readsTo {parse : Bytes → LineResult} {c c' : HttpContext}
    {buf buf' : Buffer} (h : c.recvHttpRequest parse buf = some (c', buf')) :
    ReadsTo buf buf' := by
  unfold recvHttpRequest at h
  split at h
  · obtain ⟨r, hr, hrb⟩ := Option.map_eq_some_iff.mp h
    have hb := recvHttpBody_readsTo hr
    rw [hrb] at hb
    exact ((recvHttpLine_readsTo parse c buf).trans (recvHttpHead_readsTo _ _)).trans hb
  · obtain ⟨r, hr, hrb⟩ := Option.map_eq_some_iff.mp h
    have hb := recvHttpBody_readsTo hr
    rw [hrb] at hb
    exact (recvHttpHead_readsTo _ _).trans hb
  · obtain ⟨r, hr, hrb⟩ := Option.map_eq_some_iff.mp h
    have hb := recvHttpBody_readsTo hr
    rwa [hrb] at hb
  · simp only [Option.some.injEq, Prod.mk.injEq] at h
    exact h.2 ▸ ReadsTo.refl buf
  · simp only [Option.some.injEq, Prod.mk.injEq] at h
    exact h.2 ▸ ReadsTo.refl buf

end HttpContext

end Flux
