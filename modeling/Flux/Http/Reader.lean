import Flux.Http.Context
import Flux.Lib.Incremental

/-!
# The request parser as a reader of a stream

What `RecvHttpRequest` does, one decision at a time and on the unread bytes alone: take a status
line, take a header line, take a body.  `httpReader` is the proof that these decisions do not depend
on how much of the stream is there beyond what they look at, which is the one idea behind all that
is said about cuts.

The line limit is where this needs an argument.  With 8193 bytes and no newline the parser gives up
at once; if the newline was only late, the line it ends is longer than the limit and the verdict is
the same (`onLine_append_fail`).
-/

namespace Flux

open Lib

/-- How reading fails: with the status of an error response, or by an exception of `std::stol`. -/
inductive Fault
  | status (n : Nat)
  | threw
deriving DecidableEq, Repr

abbrev HttpVerdict := Verdict HttpContext HttpRequest Fault UInt8

namespace HttpContext

/-- Take a line off the input, within the limit, and go on with it. -/
def onLine (c : HttpContext) (u : Bytes) (k : Bytes → Bytes → HttpVerdict) : HttpVerdict :=
  match splitThrough (· == newline) u with
  | none => if maxLine < u.length then .fail (.status 414) else .wait c u
  | some (l, r) => if maxLine < l.length then .fail (.status 414) else k l r

def afterLine (parse : Bytes → LineResult) (c : HttpContext) (l r : Bytes) : HttpVerdict :=
  match c.parseHttpLine parse l with
  | (false, c') => .fail (.status c'.respStatus)
  | (true, c') => .next [] { c' with recvStatus := .head } r

def afterHead (c : HttpContext) (l r : Bytes) : HttpVerdict :=
  if blank l then .next [] { c with recvStatus := .body } r
  else
    match c.parseHttpHead l with
    | (false, c') => .fail (.status c'.respStatus)
    | (true, c') => .next [] c' r

def withBody (c : HttpContext) (taken : Bytes) : HttpContext :=
  { c with request := { c.request with body := c.request.body ++ taken } }

def readStep (parse : Bytes → LineResult) (c : HttpContext) (u : Bytes) : HttpVerdict :=
  match c.recvStatus with
  | .line => c.onLine u (c.afterLine parse)
  | .head => c.onLine u c.afterHead
  | .body =>
    match c.request.contentLength with
    | none => .fail .threw
    | some n =>
      if n < c.request.body.length then .wait c u
      else if n - c.request.body.length ≤ u.length then
        .next [(c.withBody (u.take (n - c.request.body.length))).request] c.reset
          (u.drop (n - c.request.body.length))
      else .wait (c.withBody u) []
  | .over | .error => .wait c u

variable {c : HttpContext} {u v : Bytes} {k : Bytes → Bytes → HttpVerdict}

/-! ### Lines -/

theorem onLine_next {done : List HttpRequest} {t : HttpContext} {r : Bytes}
    (h : c.onLine u k = .next done t r) :
    ∃ l r', splitThrough (· == newline) u = some (l, r') ∧ l.length ≤ maxLine ∧
      k l r' = .next done t r := by
  unfold onLine at h
  cases hs : splitThrough (· == newline) u with
  | none => rw [hs] at h; simp only at h; split at h <;> exact absurd h (by simp)
  | some p =>
    obtain ⟨l, r'⟩ := p
    rw [hs] at h
    simp only at h
    split at h
    · exact absurd h (by simp)
    · exact ⟨l, r', rfl, by omega, h⟩

theorem onLine_wait {t : HttpContext} {r : Bytes} (hk : ∀ l r', k l r' ≠ .wait t r)
    (h : c.onLine u k = .wait t r) :
    splitThrough (· == newline) u = none ∧ u.length ≤ maxLine ∧ t = c ∧ r = u := by
  unfold onLine at h
  cases hs : splitThrough (· == newline) u with
  | none =>
    rw [hs] at h
    simp only at h
    split at h
    · exact absurd h (by simp)
    · simp only [Verdict.wait.injEq] at h
      exact ⟨rfl, by omega, h.1.symm, h.2.symm⟩
  | some p =>
    rw [hs] at h
    simp only at h
    split at h
    · exact absurd h (by simp)
    · exact absurd h (hk _ _)

/-- A line that is too long stays so, whether its newline is already there or not. -/
theorem onLine_append_fail {e : Fault} (hk : ∀ l r, k l r = .fail e → k l (r ++ v) = .fail e)
    (h : c.onLine u k = .fail e) : c.onLine (u ++ v) k = .fail e := by
  unfold onLine at h ⊢
  cases hs : splitThrough (· == newline) u with
  | none =>
    rw [hs] at h
    simp only at h
    split at h
    · rename_i hlong
      rw [splitThrough_append_none hs]
      cases splitThrough (· == newline) v with
      | none =>
        simp only [Option.map_none]
        rw [if_pos (by rw [List.length_append]; omega)]
        exact h
      | some p =>
        simp only [Option.map_some]
        rw [if_pos (by rw [List.length_append]; omega)]
        exact h
    · exact absurd h (by simp)
  | some p =>
    obtain ⟨l, r⟩ := p
    rw [hs] at h
    simp only at h
    rw [splitThrough_append_some hs]
    simp only
    split at h
    · rename_i hlong
      rw [if_pos hlong, h]
    · rename_i hshort
      rw [if_neg hshort]
      exact hk l r h

theorem onLine_append_next {done : List HttpRequest} {t : HttpContext} {r : Bytes}
    (hk : ∀ l r', k l r' = .next done t r → k l (r' ++ v) = .next done t (r ++ v))
    (h : c.onLine u k = .next done t r) : c.onLine (u ++ v) k = .next done t (r ++ v) := by
  obtain ⟨l, r', hs, hl, hn⟩ := onLine_next h
  unfold onLine
  rw [splitThrough_append_some hs]
  simp only
  rw [if_neg (by omega)]
  exact hk l r' hn

/-! ### What follows a line -/

variable {parse : Bytes → LineResult} {l r : Bytes}

/-- The verdict about a line is `next` with what is behind it, or does not look there. -/
theorem afterLine_cases (parse : Bytes → LineResult) (c : HttpContext) (l : Bytes) :
    (∃ t, t.recvStatus = .head ∧ ∀ r, c.afterLine parse l r = .next [] t r) ∨
      ∃ n, ∀ r, c.afterLine parse l r = .fail (.status n) := by
  cases hp : c.parseHttpLine parse l with
  | mk ok c' =>
    cases ok with
    | false => exact Or.inr ⟨c'.respStatus, fun r => by rw [afterLine, hp]⟩
    | true => exact Or.inl ⟨{ c' with recvStatus := .head }, rfl, fun r => by rw [afterLine, hp]⟩

theorem afterHead_cases (c : HttpContext) (l : Bytes) :
    (∃ t, ∀ r, c.afterHead l r = .next [] t r) ∨ ∃ n, ∀ r, c.afterHead l r = .fail (.status n) := by
  by_cases hb : blank l = true
  · exact Or.inl ⟨{ c with recvStatus := .body }, fun r => by rw [afterHead, if_pos hb]⟩
  · cases hp : c.parseHttpHead l with
    | mk ok c' =>
      cases ok with
      | false => exact Or.inr ⟨c'.respStatus, fun r => by rw [afterHead, if_neg hb, hp]⟩
      | true => exact Or.inl ⟨c', fun r => by rw [afterHead, if_neg hb, hp]⟩

/-- A continuation that gives its verdict about the line and hands on what is behind it. -/
def Local (k : Bytes → Bytes → HttpVerdict) : Prop :=
  ∀ l, (∃ t, ∀ r, k l r = .next [] t r) ∨ ∃ n, ∀ r, k l r = .fail (.status n)

theorem afterLine_local (parse : Bytes → LineResult) (c : HttpContext) :
    Local (c.afterLine parse) := fun l =>
  (afterLine_cases parse c l).imp (fun ⟨t, _, h⟩ => ⟨t, h⟩) id

theorem afterHead_local (c : HttpContext) : Local c.afterHead := c.afterHead_cases

theorem Local.ne_wait (hk : Local k) (l r : Bytes) (t : HttpContext) (r' : Bytes) :
    k l r ≠ .wait t r' := by
  rcases hk l with ⟨t', h⟩ | ⟨n, h⟩ <;> rw [h] <;> exact fun h' => nomatch h'

theorem Local.next_eq (hk : Local k) {done : List HttpRequest} {t : HttpContext} {r r' : Bytes}
    (h : k l r = .next done t r') : r' = r ∧ ∀ v, k l v = .next done t v := by
  rcases hk l with ⟨t', hn⟩ | ⟨n, hf⟩
  · rw [hn] at h
    simp only [Verdict.next.injEq] at h
    obtain ⟨rfl, rfl, rfl⟩ := h
    exact ⟨rfl, hn⟩
  · rw [hf] at h
    exact absurd h (by simp)

theorem Local.fail_eq (hk : Local k) {e : Fault} {r : Bytes} (h : k l r = .fail e) (v : Bytes) :
    k l v = .fail e := by
  rcases hk l with ⟨t', hn⟩ | ⟨n, hf⟩
  · rw [hn] at h
    exact absurd h (by simp)
  · rw [hf] at h
    rw [hf, h]

/-- A line fails with a status. -/
theorem Local.onLine_fail (hk : Local k) {e : Fault} (h : c.onLine u k = .fail e) :
    ∃ n, e = .status n := by
  unfold onLine at h
  split at h
  · split at h
    · exact ⟨_, (Verdict.fail.inj h).symm⟩
    · exact absurd h (by simp)
  · split at h
    · exact ⟨_, (Verdict.fail.inj h).symm⟩
    · rename_i l r _ _
      rcases hk l with ⟨t, hn⟩ | ⟨n, hf⟩
      · exact absurd ((hn r).symm.trans h) (by simp)
      · exact ⟨n, Verdict.fail.inj (h.symm.trans (hf r))⟩

/-- What the two line stages contribute to the laws of a reader. -/
theorem Local.onLine_laws (hk : Local k) (u : Bytes) :
    (∀ {done t r}, c.onLine u k = .next done t r → r.length < u.length) ∧
    (∀ {done t r}, c.onLine u k = .next done t r →
      ∀ v, c.onLine (u ++ v) k = .next done t (r ++ v)) ∧
    (∀ {e}, c.onLine u k = .fail e → ∀ v, c.onLine (u ++ v) k = .fail e) ∧
    (∀ {t r}, c.onLine u k = .wait t r → t = c ∧ r = u) := by
  refine ⟨?_, ?_, ?_, ?_⟩
  · intro done t r h
    obtain ⟨l, r', hs, _, hn⟩ := onLine_next h
    obtain ⟨rfl, _⟩ := hk.next_eq hn
    have hlen := congrArg List.length (splitThrough_eq hs)
    have hpos := List.length_pos_of_ne_nil (splitThrough_ne_nil hs)
    rw [List.length_append] at hlen
    omega
  · intro done t r h v
    refine onLine_append_next (fun l r' hn => ?_) h
    obtain ⟨rfl, hall⟩ := hk.next_eq hn
    exact hall _
  · intro e h v
    exact onLine_append_fail (fun l r hf => hk.fail_eq hf _) h
  · intro t r h
    exact (onLine_wait (fun l r' => hk.ne_wait l r' _ _) h).2.2

/-! ### Bodies -/

theorem withBody_withBody (c : HttpContext) (a b : Bytes) :
    (c.withBody a).withBody b = c.withBody (a ++ b) := by
  simp [withBody, List.append_assoc]

/-- A body that was not all there is read on from where it stopped. -/
theorem readStep_body_append {n : Nat} (hb : c.recvStatus = .body)
    (hn : c.request.contentLength = some n) (hle : ¬ n < c.request.body.length)
    (hshort : ¬ n - c.request.body.length ≤ u.length) (v : Bytes) :
    readStep parse c (u ++ v) = readStep parse (c.withBody u) v := by
  have hb' : (c.withBody u).recvStatus = .body := hb
  have hn' : (c.withBody u).request.contentLength = some n := hn
  have hlen : (c.withBody u).request.body.length = c.request.body.length + u.length :=
    List.length_append
  have hneed : n - c.request.body.length =
      u.length + (n - (c.withBody u).request.body.length) := by omega
  have hle' : ¬ n < (c.withBody u).request.body.length := by omega
  simp only [readStep, hb, hb', hn, hn']
  rw [if_neg hle, if_neg hle', hneed]
  by_cases hv : n - (c.withBody u).request.body.length ≤ v.length
  · rw [if_pos (by rw [List.length_append]; omega), if_pos hv, List.take_length_add_append,
      List.drop_length_add_append, withBody_withBody]
    rfl
  · rw [if_neg (by rw [List.length_append]; omega), if_neg hv, withBody_withBody]

/-! ### The laws -/

theorem readStep_shrinks {done : List HttpRequest} {t : HttpContext} {r : Bytes}
    (h : readStep parse c u = .next done t r) : r.length < u.length ∨ r.length = u.length ∧
      (if t.recvStatus = .body then 1 else 0) < if c.recvStatus = .body then 1 else 0 := by
  unfold readStep at h
  split at h
  · exact Or.inl (((afterLine_local parse c).onLine_laws u).1 h)
  · exact Or.inl (((afterHead_local c).onLine_laws u).1 h)
  · rename_i hb
    split at h
    · exact absurd h (by simp)
    · split at h
      · exact absurd h (by simp)
      · split at h
        · simp only [Verdict.next.injEq] at h
          obtain ⟨_, rfl, rfl⟩ := h
          rw [List.length_drop, if_pos hb, if_neg (by simp [reset, new])]
          omega
        · exact absurd h (by simp)
  · exact absurd h (by simp)
  · exact absurd h (by simp)

theorem readStep_next_append {done : List HttpRequest} {t : HttpContext} {r : Bytes}
    (h : readStep parse c u = .next done t r) (v : Bytes) :
    readStep parse c (u ++ v) = .next done t (r ++ v) := by
  unfold readStep at h ⊢
  split at h
  · exact ((afterLine_local parse c).onLine_laws u).2.1 h v
  · exact ((afterHead_local c).onLine_laws u).2.1 h v
  · split at h
    · exact absurd h (by simp)
    · split at h
      · exact absurd h (by simp)
      · rename_i hle
        split at h
        · rename_i hfit
          simp only [Verdict.next.injEq] at h
          obtain ⟨rfl, rfl, rfl⟩ := h
          rw [if_neg hle, if_pos (by rw [List.length_append]; omega),
            List.take_append_of_le_length hfit, List.drop_append_of_le_length hfit]
        · exact absurd h (by simp)
  · exact absurd h (by simp)
  · exact absurd h (by simp)

theorem readStep_fail_append {e : Fault} (h : readStep parse c u = .fail e) (v : Bytes) :
    readStep parse c (u ++ v) = .fail e := by
  unfold readStep at h ⊢
  split at h
  · exact ((afterLine_local parse c).onLine_laws u).2.2.1 h v
  · exact ((afterHead_local c).onLine_laws u).2.2.1 h v
  · split at h
    · exact h
    · split at h
      · exact absurd h (by simp)
      · split at h <;> exact absurd h (by simp)
  · exact absurd h (by simp)
  · exact absurd h (by simp)

theorem readStep_wait_append {t : HttpContext} {r : Bytes} (h : readStep parse c u = .wait t r)
    (v : Bytes) : readStep parse c (u ++ v) = readStep parse t (r ++ v) := by
  unfold readStep at h
  split at h
  · obtain ⟨rfl, rfl⟩ := ((afterLine_local parse c).onLine_laws u).2.2.2 h
    rfl
  · obtain ⟨rfl, rfl⟩ := ((afterHead_local c).onLine_laws u).2.2.2 h
    rfl
  · rename_i hb
    split at h
    · exact absurd h (by simp)
    · rename_i n hn
      split at h
      · simp only [Verdict.wait.injEq] at h
        obtain ⟨rfl, rfl⟩ := h
        rfl
      · rename_i hle
        split at h
        · exact absurd h (by simp)
        · rename_i hshort
          simp only [Verdict.wait.injEq] at h
          obtain ⟨rfl, rfl⟩ := h
          rw [List.nil_append]
          exact readStep_body_append hb hn hle hshort v
  · simp only [Verdict.wait.injEq] at h
    obtain ⟨rfl, rfl⟩ := h
    rfl
  · simp only [Verdict.wait.injEq] at h
    obtain ⟨rfl, rfl⟩ := h
    rfl

end HttpContext

/-! ### The reader -/

open HttpContext in
/-- **The parser does not look past what it decides on.** -/
def httpReader (parse : Bytes → LineResult) : Reader HttpContext HttpRequest Fault UInt8 where
  step := readStep parse
  rank c := if c.recvStatus = .body then 1 else 0
  shrinks := readStep_shrinks
  next_append := readStep_next_append
  fail_append := readStep_fail_append
  wait_append := readStep_wait_append

end Flux
