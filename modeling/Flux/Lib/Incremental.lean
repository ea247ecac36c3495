import Mathlib.Data.List.Basic

/-!
# Readers of a stream that arrives in pieces

A reader looks at its state and at the input it holds.  It either waits, with a new
state and what it leaves unread, or takes something off the front, maybe handing out
results, or fails.  A `Reader` carries the three laws that make it indifferent to where its
input is cut: more input behind what it held changes neither a step it took nor a failure, and
waiting first and getting the rest later is the same as having had it all.

`run` takes steps until the reader waits or fails, `feed` does so after every piece of the
stream.  `feed_eq_run` is the point: feeding pieces is running on their concatenation.

`Framed` is about streams of frames with one result each.  `Framed.first` says what a reader makes
of any first part of such a stream: it hands out a result as soon as its frame is there, and not
before.

`Parses` is about a stream of which nothing is known, and a grammar of messages:
`Parses.exists_messages` cuts it, `flatMap_inj` says in one way, and `Parses.run_flatMap` what is
handed out for it.
-/

namespace Flux.Lib

variable {σ ω ε α : Type*}

inductive Verdict (σ ω ε α : Type*)
  | wait (s : σ) (rest : List α)
  | next (done : List ω) (s : σ) (rest : List α)
  | fail (e : ε)

structure Reader (σ ω ε α : Type*) where
  step : σ → List α → Verdict σ ω ε α
  /-- A step takes input, or else lowers this rank of the state. -/
  rank : σ → Nat
  shrinks : ∀ {s u done t r}, step s u = .next done t r →
    r.length < u.length ∨ r.length = u.length ∧ rank t < rank s
  next_append : ∀ {s u done t r}, step s u = .next done t r →
    ∀ v, step s (u ++ v) = .next done t (r ++ v)
  fail_append : ∀ {s u e}, step s u = .fail e → ∀ v, step s (u ++ v) = .fail e
  wait_append : ∀ {s u t r}, step s u = .wait t r → ∀ v, step s (u ++ v) = step t (r ++ v)

/-- The results so far, and the failure or the state with what is unread. -/
abbrev Result (σ ω ε α : Type*) := List ω × Except ε (σ × List α)

def Result.andThen (p : Result σ ω ε α) (f : σ → List α → Result σ ω ε α) : Result σ ω ε α :=
  match p.2 with
  | .error e => (p.1, .error e)
  | .ok (t, r) => (p.1 ++ (f t r).1, (f t r).2)

theorem Result.andThen_cons (done : List ω) (p : Result σ ω ε α)
    (f : σ → List α → Result σ ω ε α) :
    Result.andThen (done ++ p.1, p.2) f = (done ++ (p.andThen f).1, (p.andThen f).2) := by
  obtain ⟨ds, e | ⟨t, r⟩⟩ := p
  · rfl
  · simp [Result.andThen]

theorem Result.andThen_congr {p : Result σ ω ε α} {f g : σ → List α → Result σ ω ε α}
    (h : ∀ t r, p.2 = .ok (t, r) → f t r = g t r) : p.andThen f = p.andThen g := by
  obtain ⟨ds, e | ⟨t, r⟩⟩ := p
  · rfl
  · simp only [Result.andThen]
    rw [h t r rfl]

namespace Reader

variable (R : Reader σ ω ε α)

def run (s : σ) (u : List α) : Result σ ω ε α :=
  match _h : R.step s u with
  | .wait t r => ([], .ok (t, r))
  | .fail e => ([], .error e)
  | .next done t r => (done ++ (run t r).1, (run t r).2)
  termination_by (u.length, R.rank s)
  decreasing_by
    all_goals
      rcases R.shrinks ‹_› with hlt | ⟨heq, hlt⟩
      · exact Prod.Lex.left _ _ hlt
      · rw [heq]
        exact Prod.Lex.right _ hlt

variable {R}

theorem run_of_wait {s t : σ} {u r : List α} (h : R.step s u = .wait t r) :
    R.run s u = ([], .ok (t, r)) := by
  rw [run]
  split <;> simp_all

theorem run_of_fail {s : σ} {u : List α} {e : ε} (h : R.step s u = .fail e) :
    R.run s u = ([], .error e) := by
  rw [run]
  split <;> simp_all

theorem run_of_next {s t : σ} {u r : List α} {done : List ω} (h : R.step s u = .next done t r) :
    R.run s u = (done ++ (R.run t r).1, (R.run t r).2) := by
  rw [run]
  split <;> simp_all

variable (R)

/-- The state and the input a run ends in, where the reader waits or fails. -/
def stop (s : σ) (u : List α) : σ × List α :=
  match _h : R.step s u with
  | .wait _ _ => (s, u)
  | .fail _ => (s, u)
  | .next _ t r => stop t r
  termination_by (u.length, R.rank s)
  decreasing_by
    rcases R.shrinks ‹_› with hlt | ⟨heq, hlt⟩
    · exact Prod.Lex.left _ _ hlt
    · rw [heq]
      exact Prod.Lex.right _ hlt

variable {R}

theorem stop_of_fail {s : σ} {u : List α} {e : ε} (h : R.step s u = .fail e) :
    R.stop s u = (s, u) := by
  rw [stop]
  split <;> simp_all

theorem stop_of_next {s t : σ} {u r : List α} {done : List ω} (h : R.step s u = .next done t r) :
    R.stop s u = R.stop t r := by
  rw [stop]
  split <;> simp_all

theorem run_induction {P : σ → List α → Prop}
    (wait : ∀ s u t r, R.step s u = .wait t r → P s u)
    (fail : ∀ s u e, R.step s u = .fail e → P s u)
    (next : ∀ s u done t r, R.step s u = .next done t r → P t r → P s u)
    (s : σ) (u : List α) : P s u := by
  match h : R.step s u with
  | .wait t r => exact wait s u t r h
  | .fail e => exact fail s u e h
  | .next done t r => exact next s u done t r h (run_induction wait fail next t r)
  termination_by (u.length, R.rank s)
  decreasing_by
    rcases R.shrinks h with hlt | ⟨heq, hlt⟩
    · exact Prod.Lex.left _ _ hlt
    · rw [heq]
      exact Prod.Lex.right _ hlt

/-- **Running on more input is running on the first part and then on the rest.** -/
theorem run_append (s : σ) (u v : List α) :
    R.run s (u ++ v) = (R.run s u).andThen fun t r => R.run t (r ++ v) := by
  induction s, u using run_induction (R := R) with
  | wait s u t r h =>
    have hstep := R.wait_append h v
    rw [run_of_wait h]
    simp only [Result.andThen, List.nil_append]
    cases hs : R.step t (r ++ v) with
    | wait t' r' => rw [run_of_wait hs, run_of_wait (hstep.trans hs)]
    | fail e => rw [run_of_fail hs, run_of_fail (hstep.trans hs)]
    | next done t' r' => rw [run_of_next hs, run_of_next (hstep.trans hs)]
  | fail s u e h => rw [run_of_fail h, run_of_fail (R.fail_append h v)]; rfl
  | next s u done t r h ih =>
    rw [run_of_next h, run_of_next (R.next_append h v), ih]
    exact (Result.andThen_cons done (R.run t r) _).symm

theorem run_ok_step {s t : σ} {u r : List α} (h : (R.run s u).2 = .ok (t, r)) :
    R.step t r = .wait t r := by
  induction s, u using run_induction (R := R) with
  | wait s u t' r' hs =>
    rw [run_of_wait hs] at h
    simp only [Except.ok.injEq, Prod.mk.injEq] at h
    obtain ⟨rfl, rfl⟩ := h
    have hagain := R.wait_append hs []
    rw [List.append_nil, List.append_nil] at hagain
    exact hagain.symm.trans hs
  | fail s u e hs =>
    rw [run_of_fail hs] at h
    exact absurd h (by simp)
  | next s u done t' r' hs ih =>
    rw [run_of_next hs] at h
    exact ih h

/-- What every step keeps holds where a run ends. -/
theorem run_invariant {I : σ → Prop}
    (waits : ∀ {s u t r}, I s → R.step s u = .wait t r → I t)
    (nexts : ∀ {s u done t r}, I s → R.step s u = .next done t r → I t)
    {s t : σ} {u r : List α} (h0 : I s) (h : (R.run s u).2 = .ok (t, r)) : I t := by
  induction s, u using run_induction (R := R) with
  | wait s u t' r' hs =>
    rw [run_of_wait hs] at h
    simp only [Except.ok.injEq, Prod.mk.injEq] at h
    exact h.1 ▸ waits h0 hs
  | fail s u e hs =>
    rw [run_of_fail hs] at h
    exact absurd h (by simp)
  | next s u done t' r' hs ih =>
    rw [run_of_next hs] at h
    exact ih (nexts h0 hs) h

theorem run_results {I : σ → Prop} {Q : ω → Prop} {E : ε → Prop}
    (nexts : ∀ {s u done t r}, I s → R.step s u = .next done t r → I t ∧ ∀ w ∈ done, Q w)
    (fails : ∀ {s u e}, I s → R.step s u = .fail e → E e) {s : σ} {u : List α} (h0 : I s) :
    (∀ w ∈ (R.run s u).1, Q w) ∧ ∀ e, (R.run s u).2 = .error e → E e := by
  induction s, u using run_induction (R := R) with
  | wait s u t r hs =>
    rw [run_of_wait hs]
    exact ⟨fun w hw => absurd hw List.not_mem_nil, fun e he => absurd he (by simp)⟩
  | fail s u e hs =>
    rw [run_of_fail hs]
    refine ⟨fun w hw => absurd hw List.not_mem_nil, ?_⟩
    intro e' he
    obtain rfl := Except.error.inj he
    exact fails h0 hs
  | next s u done t r hs ih =>
    obtain ⟨ht, hdone⟩ := nexts h0 hs
    rw [run_of_next hs]
    refine ⟨?_, (ih ht).2⟩
    intro w hw
    exact (List.mem_append.mp hw).elim (hdone w) ((ih ht).1 w)

/-- The reader passes through another state on the way, with what it has not taken by then. -/
inductive Passes (R : Reader σ ω ε α) : σ → List α → σ → List α → Prop
  | here (s : σ) (u : List α) : Passes R s u s u
  | on {s t s' : σ} {u r u' : List α} {done : List ω} (h : R.step s u = .next done t r)
      (rest : Passes R t r s' u') : Passes R s u s' u'

theorem Passes.of_wait {s t s' : σ} {u r u' : List α} (h : R.step s u = .wait t r)
    (hp : R.Passes s u s' u') : s' = s ∧ u' = u := by
  cases hp with
  | here => exact ⟨rfl, rfl⟩
  | on hs _ => exact absurd (h.symm.trans hs) (by simp)

theorem Passes.of_next {s t s' : σ} {u r u' : List α} {done : List ω}
    (h : R.step s u = .next done t r) (hp : R.Passes s u s' u') :
    s' = s ∧ u' = u ∨ R.Passes t r s' u' := by
  cases hp with
  | here => exact Or.inl ⟨rfl, rfl⟩
  | on hs rest =>
    obtain ⟨_, rfl, rfl⟩ := Verdict.next.inj (h.symm.trans hs)
    exact Or.inr rest

theorem run_error {s : σ} {u : List α} {e : ε} (h : (R.run s u).2 = .error e) :
    R.step (R.stop s u).1 (R.stop s u).2 = .fail e ∧
    R.Passes s u (R.stop s u).1 (R.stop s u).2 := by
  induction s, u using run_induction (R := R) with
  | wait s u t r hs =>
    rw [run_of_wait hs] at h
    exact absurd h (by simp)
  | fail s u e' hs =>
    rw [run_of_fail hs] at h
    obtain rfl := Except.error.inj h
    rw [stop_of_fail hs]
    exact ⟨hs, .here s u⟩
  | next s u done t r hs ih =>
    rw [run_of_next hs] at h
    obtain ⟨hstep, hpass⟩ := ih h
    rw [stop_of_next hs]
    exact ⟨hstep, .on hs hpass⟩

variable (R)

/-- The stream arrives piece by piece; each piece is put behind what was unread. -/
def feed : σ → List α → List (List α) → Result σ ω ε α
  | s, u, [] => ([], .ok (s, u))
  | s, u, c :: cs => (R.run s (u ++ c)).andThen fun t r => feed t r cs

variable {R}

/-- **Feeding a stream in pieces is running on the whole of it.** -/
theorem feed_eq_run {s : σ} {u : List α} (h : R.step s u = .wait s u) (cs : List (List α)) :
    R.feed s u cs = R.run s (u ++ cs.flatten) := by
  induction cs generalizing s u with
  | nil => rw [List.flatten_nil, List.append_nil, run_of_wait h]; rfl
  | cons c cs ih =>
    rw [feed, List.flatten_cons, ← List.append_assoc, run_append s (u ++ c) cs.flatten]
    exact Result.andThen_congr fun t r ht => ih (run_ok_step ht)

/-! ### Streams of frames -/

/-- States between two results: a step that hands out nothing leaves them, and while the reader is
in one it leaves all unread. -/
structure Idling (R : Reader σ ω ε α) (idle : σ → Prop) : Prop where
  leaves : ∀ {s u t r}, R.step s u = .next [] t r → ¬ idle t
  keeps : ∀ {s u t r}, R.step s u = .wait t r → idle t → idle s ∧ r = u

theorem run_done_append (s : σ) (u v : List α) : (R.run s u).1 <+: (R.run s (u ++ v)).1 := by
  rw [run_append]
  unfold Result.andThen
  split
  · exact List.prefix_refl _
  · exact List.prefix_append _ _

theorem run_ok_of_append {s : σ} {u v : List α} {p : σ × List α}
    (h : (R.run s (u ++ v)).2 = .ok p) :
    ∃ q, (R.run s u).2 = .ok q := by
  rw [run_append] at h
  cases hu : (R.run s u).2 with
  | error e =>
    rw [Result.andThen, hu] at h
    exact absurd h (by simp)
  | ok q => exact ⟨q, rfl⟩

/-- A run from a result to the next state between two that hands out nothing has not begun. -/
theorem Idling.silent {idle : σ → Prop} (hidle : R.Idling idle) {s t : σ} {u r : List α}
    (h : R.run s u = ([], .ok (t, r))) (ht : idle t) : idle s ∧ r = u := by
  induction s, u using run_induction (R := R) with
  | wait s u t' r' hs =>
    rw [run_of_wait hs] at h
    simp only [Prod.mk.injEq, Except.ok.injEq, true_and] at h
    obtain ⟨rfl, rfl⟩ := h
    exact hidle.keeps hs ht
  | fail s u e hs =>
    rw [run_of_fail hs] at h
    exact absurd h (by simp)
  | next s u done t' r' hs ih =>
    rw [run_of_next hs] at h
    simp only [Prod.mk.injEq, List.append_eq_nil_iff] at h
    obtain ⟨⟨rfl, hnone⟩, hend⟩ := h
    exact absurd (ih (Prod.ext hnone hend)).1 (hidle.leaves hs)

/-- **No result before the last of its input.** -/
theorem Idling.prompt {idle : σ → Prop} (hidle : R.Idling idle) {s t : σ} {u v : List α}
    {done : List ω}
    (h : R.run s (u ++ v) = (done, .ok (t, []))) (ht : idle t) (hall : (R.run s u).1 = done) :
    v = [] := by
  have hok : (R.run s (u ++ v)).2 = .ok (t, []) := by rw [h]
  obtain ⟨⟨t', r'⟩, hq⟩ := run_ok_of_append hok
  have hrest : R.run t' (r' ++ v) = ([], .ok (t, [])) := by
    rw [run_append, Result.andThen, hq] at h
    simp only [Prod.mk.injEq, hall, List.append_right_eq_self] at h
    exact Prod.ext h.1 h.2
  have hnil := (hidle.silent hrest ht).2
  exact (List.append_eq_nil_iff.mp hnil.symm).2

/-- The first so many frames give the first so many results, and then the reader is between two. -/
structure Framed (R : Reader σ ω ε α) (idle : σ → Prop) (s : σ) (frames : List (List α))
    (results : List ω) : Prop where
  length : results.length = frames.length
  boundary : ∀ i ≤ frames.length, ∃ t, idle t ∧
    R.run s (frames.take i).flatten = (results.take i, .ok (t, []))

/-- **A first part of a stream of frames**: no failure, the first results, and of these exactly
those whose frames are there. -/
theorem Framed.first {idle : σ → Prop} {s : σ} {frames : List (List α)} {results : List ω}
    (h : R.Framed idle s frames results) (hidle : R.Idling idle) {u : List α}
    (hu : u <+: frames.flatten) :
    (R.run s u).1 <+: results ∧ (∃ q, (R.run s u).2 = .ok q) ∧
      ∀ i ≤ frames.length, (frames.take i).flatten <+: u ↔ i ≤ (R.run s u).1.length := by
  obtain ⟨rest, hrest⟩ := id hu
  obtain ⟨t, _, hall⟩ := h.boundary frames.length (Nat.le_refl _)
  rw [List.take_length, ← h.length, List.take_length, ← hrest] at hall
  have hdone := run_done_append (R := R) s u rest
  rw [hall] at hdone
  refine ⟨hdone, run_ok_of_append (congrArg Prod.snd hall), fun i hi => ?_⟩
  obtain ⟨t', ht', hrun⟩ := h.boundary i hi
  have hlen : (results.take i).length = i := by rw [List.length_take, h.length, Nat.min_eq_left hi]
  constructor
  · rintro ⟨w, rfl⟩
    have hpre := run_done_append (R := R) s (frames.take i).flatten w
    rw [hrun] at hpre
    have hle := hpre.length_le
    rwa [hlen] at hle
  · intro hle
    have hpart : (frames.take i).flatten <+: frames.flatten := by
      conv_rhs => rw [← List.take_append_drop i frames, List.flatten_append]
      exact List.prefix_append _ _
    rcases List.prefix_or_prefix_of_prefix hpart hu with hthere | ⟨v, hv⟩
    · exact hthere
    · -- the results are already all out, so nothing of the frames is missing
      have hpre := run_done_append (R := R) s u v
      rw [hv, hrun] at hpre
      have heq := hpre.eq_of_length_le (hlen.symm ▸ hle)
      rw [← hv] at hrun
      have hnil := hidle.prompt hrun ht' heq
      have hwhole : (frames.take i).flatten = u := by rw [← hv, hnil, List.append_nil]
      exact hwhole ▸ List.prefix_refl _

/-! ### Streams that follow a grammar -/

section Grammar

variable {μ : Type*} {s : σ} {encode : μ → List α} {result : μ → ω}

/-- Messages are read off one at a time: in state `s` a message in front is taken whole, with one
result and back to `s`, and nothing else gives a result. -/
structure Parses (R : Reader σ ω ε α) (s : σ) (encode : μ → List α) (result : μ → ω) : Prop where
  ne_nil : ∀ m, encode m ≠ []
  takes : ∀ m r, R.run s (encode m ++ r) = (result m :: (R.run s r).1, (R.run s r).2)
  only : ∀ u, (R.run s u).1 ≠ [] → ∃ m r, u = encode m ++ r

theorem Parses.run_flatMap (h : R.Parses s encode result) (ms : List μ) (r : List α) :
    R.run s (ms.flatMap encode ++ r) = (ms.map result ++ (R.run s r).1, (R.run s r).2) := by
  induction ms with
  | nil => rfl
  | cons m ms ih =>
    rw [List.flatMap_cons, List.append_assoc, h.takes, ih, List.map_cons, List.cons_append]

theorem Parses.run_nil (h : R.Parses s encode result) {r : List α} (hr : ∀ m, ¬ encode m <+: r) :
    (R.run s r).1 = [] := by
  by_contra hne
  obtain ⟨m, r', rfl⟩ := h.only r hne
  exact hr m (List.prefix_append _ _)

/-- A stream is messages and what begins with none. -/
theorem Parses.exists_messages (h : R.Parses s encode result) (u : List α) :
    ∃ (ms : List μ) (r : List α), u = ms.flatMap encode ++ r ∧ ∀ m, ¬ encode m <+: r := by
  induction hn : u.length using Nat.strongRecOn generalizing u with
  | ind n ih =>
    by_cases hm : ∃ m, encode m <+: u
    · obtain ⟨m, r, rfl⟩ := hm
      have hpos := List.length_pos_of_ne_nil (h.ne_nil m)
      obtain ⟨ms, r', rfl, hr'⟩ := ih r.length (by rw [← hn, List.length_append]; omega) r rfl
      exact ⟨m :: ms, r', by rw [List.flatMap_cons, List.append_assoc], hr'⟩
    · exact ⟨[], u, rfl, not_exists.mp hm⟩

/-- **A stream is cut in one way** if its front is. -/
theorem flatMap_inj (hinj : ∀ {m m' : μ} {r r' : List α}, encode m ++ r = encode m' ++ r' →
    m = m' ∧ r = r') {ms ms' : List μ} {r r' : List α} (hr : ∀ m, ¬ encode m <+: r)
    (hr' : ∀ m, ¬ encode m <+: r') (h : ms.flatMap encode ++ r = ms'.flatMap encode ++ r') :
    ms = ms' ∧ r = r' := by
  induction ms generalizing ms' with
  | nil =>
    cases ms' with
    | nil => exact ⟨rfl, h⟩
    | cons m' ms' =>
      rw [List.flatMap_nil, List.nil_append, List.flatMap_cons, List.append_assoc] at h
      exact absurd (h ▸ List.prefix_append _ _) (hr m')
  | cons m ms ih =>
    cases ms' with
    | nil =>
      rw [List.flatMap_nil, List.nil_append, List.flatMap_cons, List.append_assoc] at h
      exact absurd (h ▸ List.prefix_append _ _) (hr' m)
    | cons m' ms' =>
      rw [List.flatMap_cons, List.flatMap_cons, List.append_assoc, List.append_assoc] at h
      obtain ⟨rfl, hrest⟩ := hinj h
      obtain ⟨rfl, hend⟩ := ih hrest
      exact ⟨rfl, hend⟩

/-- **A failure is about no message**: nothing that could still arrive makes one of what is left. -/
theorem Parses.not_prefix_of_error (h : R.Parses s encode result) {r : List α} {e : ε}
    (hr : ∀ m, ¬ encode m <+: r) (he : (R.run s r).2 = .error e) (v : List α) (m : μ) :
    ¬ encode m <+: r ++ v := by
  rintro ⟨w, hw⟩
  have hnone : (R.run s (r ++ v)).1 = [] := by
    rw [run_append, Result.andThen, he]
    exact h.run_nil hr
  rw [← hw, h.takes] at hnone
  exact List.cons_ne_nil _ _ hnone

end Grammar

end Reader

end Flux.Lib
