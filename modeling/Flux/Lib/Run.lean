import Mathlib.Data.List.Infix

/-!
# Runs of a partial step function

A step function `σ → ι → Option σ` refuses a step by answering `none`.
`run` chains it along a list of inputs, `Each` says that every step of a run meets a
condition on the state before it, and `Always` that every state of it has a property.  The
rules below are what the developments over it use: `run_invariant` carries an
invariant along a run; `run_iff_each` says that a property of the whole past holds at
the end of a run exactly when every step of it met the condition, and
`always_iff_each` that a property of the present never failed exactly then.

The second half is about objects whose operations also answer something: `Refines` is a step-by-step
simulation by a total specification, and `Refines.runOps` carries it along a sequence of operations.
`Simulates` and `Simulates.runOps` are the same for a relation that holds an invariant as well.
-/

namespace Flux.Lib

variable {σ τ ι ω : Type*}

/-! ### Runs -/

/-- The state a list of inputs leads to, when no step is refused. -/
def run (step : σ → ι → Option σ) : σ → List ι → Option σ
  | s, [] => some s
  | s, a :: acts => (step s a).bind fun t => run step t acts

/-- Every step of the run meets `ok`, a condition on the state before it. -/
def Each (step : σ → ι → Option σ) (ok : σ → ι → Prop) : σ → List ι → Prop
  | _, [] => True
  | s, a :: acts => ok s a ∧ ∀ t, step s a = some t → Each step ok t acts

variable {step : σ → ι → Option σ} {ok : σ → ι → Prop}

theorem run_cons {s u : σ} {a : ι} {acts : List ι} :
    run step s (a :: acts) = some u ↔ ∃ t, step s a = some t ∧ run step t acts = some u := by
  rw [run, Option.bind_eq_some_iff]

theorem run_append {s u : σ} {acts more : List ι} :
    run step s (acts ++ more) = some u ↔ ∃ t, run step s acts = some t ∧
    run step t more = some u := by
  induction acts generalizing s with
  | nil => simp [run]
  | cons a acts ih =>
    rw [List.cons_append, run_cons]
    constructor
    · rintro ⟨t, ht, hu⟩
      obtain ⟨m, hm, hmore⟩ := ih.mp hu
      exact ⟨m, run_cons.mpr ⟨t, ht, hm⟩, hmore⟩
    · rintro ⟨m, hm, hmore⟩
      obtain ⟨t, ht, hu⟩ := run_cons.mp hm
      exact ⟨t, ht, ih.mpr ⟨m, hu, hmore⟩⟩

@[simp] theorem each_nil (s : σ) : Each step ok s [] := trivial

instance Each.decidable [∀ s a, Decidable (ok s a)] :
    ∀ (s : σ) (acts : List ι), Decidable (Each step ok s acts)
  | _, [] => isTrue trivial
  | s, a :: acts =>
    match h : step s a with
    | none =>
      decidable_of_iff (ok s a) ⟨fun hok => ⟨hok, fun t ht => by simp [h] at ht⟩, fun he => he.1⟩
    | some t =>
      have := Each.decidable t acts
      decidable_of_iff (ok s a ∧ Each step ok t acts)
        ⟨fun he => ⟨he.1, fun u hu => Option.some.inj (h.symm.trans hu) ▸ he.2⟩,
          fun he => ⟨he.1, he.2 t h⟩⟩

theorem each_of_forall (h : ∀ s a, ok s a) (s : σ) (acts : List ι) : Each step ok s acts := by
  induction acts generalizing s with
  | nil => trivial
  | cons a acts ih => exact ⟨h s a, fun t _ => ih t⟩

theorem each_of_mem {acts : List ι} (h : ∀ a ∈ acts, ∀ s, ok s a) (s : σ) :
    Each step ok s acts := by
  induction acts generalizing s with
  | nil => trivial
  | cons a acts ih =>
    exact ⟨h a List.mem_cons_self s, fun t _ => ih (fun b hb => h b (List.mem_cons_of_mem a hb)) t⟩

theorem Each.mono {ok' : σ → ι → Prop} (h : ∀ s a, ok s a → ok' s a) {s : σ} {acts : List ι}
    (he : Each step ok s acts) : Each step ok' s acts := by
  induction acts generalizing s with
  | nil => trivial
  | cons a acts ih => exact ⟨h s a he.1, fun t ht => ih (he.2 t ht)⟩

theorem Each.left {s : σ} {acts more : List ι} (he : Each step ok s (acts ++ more)) :
    Each step ok s acts := by
  induction acts generalizing s with
  | nil => trivial
  | cons a acts ih => exact ⟨he.1, fun t ht => ih (he.2 t ht)⟩

theorem Each.of_invariant {I : σ → Prop} {ok' : σ → ι → Prop}
    (keep : ∀ s a t, I s → ok s a → step s a = some t → I t)
    (next : ∀ s a, I s → ok s a → ok' s a)
    {s : σ} {acts : List ι} (he : Each step ok s acts) (h0 : I s) : Each step ok' s acts := by
  induction acts generalizing s with
  | nil => trivial
  | cons a acts ih =>
    refine ⟨next s a h0 he.1, ?_⟩
    intro t ht
    exact ih (he.2 t ht) (keep s a t h0 he.1 ht)

theorem each_congr {I : σ → Prop} {ok' : σ → ι → Prop}
    (inv : ∀ s a t, I s → step s a = some t → I t)
    (same : ∀ s a t, I s → step s a = some t → (ok s a ↔ ok' s a))
    {s u : σ} {acts : List ι} (h0 : I s) (hr : run step s acts = some u) :
    Each step ok s acts ↔ Each step ok' s acts := by
  induction acts generalizing s with
  | nil => exact Iff.rfl
  | cons a acts ih =>
    obtain ⟨t, ht, hu⟩ := run_cons.mp hr
    refine and_congr (same s a t h0 ht) (forall_congr' fun t' => ?_)
    refine imp_congr_right fun ht' => ?_
    obtain rfl := Option.some.inj (ht.symm.trans ht')
    exact ih (inv s a t h0 ht) hu

/-- **An invariant holds along a run** when every admissible step keeps it. -/
theorem run_invariant {I : σ → Prop}
    (keep : ∀ s a t, I s → ok s a → step s a = some t → I t)
    {s u : σ} {acts : List ι} (h0 : I s) (he : Each step ok s acts)
    (hr : run step s acts = some u) : I u := by
  induction acts generalizing s with
  | nil =>
    obtain rfl : s = u := Option.some.inj hr
    exact h0
  | cons a acts ih =>
    obtain ⟨t, ht, hu⟩ := run_cons.mp hr
    exact ih (keep s a t h0 he.1 ht) (he.2 t ht) hu

/-- An invariant that every step keeps. -/
theorem run_preserves {I : σ → Prop} (keep : ∀ s a t, I s → step s a = some t → I t)
    {s u : σ} {acts : List ι} (h0 : I s) (hr : run step s acts = some u) : I u :=
  run_invariant (fun s a t hi _ ht => keep s a t hi ht) h0
    (each_of_forall (fun _ _ => trivial) s acts) hr

theorem run_preserves_of {I : σ → Prop} {P : ι → Prop}
    (keep : ∀ s a t, I s → P a → step s a = some t → I t)
    {s u : σ} {acts : List ι} (h0 : I s) (ha : ∀ a ∈ acts, P a) (hr : run step s acts = some u) :
    I u := by
  induction acts generalizing s with
  | nil =>
    obtain rfl : s = u := Option.some.inj hr
    exact h0
  | cons a acts ih =>
    obtain ⟨t, ht, hu⟩ := run_cons.mp hr
    exact ih (keep s a t h0 (ha a List.mem_cons_self) ht)
      (fun b hb => ha b (List.mem_cons_of_mem a hb)) hu

/-- A property of the past, with what is known of its past under an invariant. -/
theorem run_iff_each_of {I Q : σ → Prop}
    (inv : ∀ s a t, I s → step s a = some t → I t)
    (past : ∀ s a t, I s → step s a = some t → Q t → Q s)
    (keep : ∀ s a t, I s → Q s → ok s a → step s a = some t → Q t)
    (break_ : ∀ s a t, I s → Q s → step s a = some t → Q t → ok s a)
    {s u : σ} {acts : List ι} (h0 : I s) (hq : Q s) (hr : run step s acts = some u) :
    Q u ↔ Each step ok s acts := by
  have back : ∀ (acts : List ι) (s u : σ), I s → run step s acts = some u → Q u → Q s := by
    intro acts
    induction acts with
    | nil =>
      intro s u _ h hu
      obtain rfl : s = u := Option.some.inj h
      exact hu
    | cons a acts ih =>
      intro s u hi h hu
      obtain ⟨t, ht, hr⟩ := run_cons.mp h
      exact past s a t hi ht (ih t u (inv s a t hi ht) hr hu)
  constructor
  · intro hu
    induction acts generalizing s with
    | nil => trivial
    | cons a acts ih =>
      obtain ⟨t, ht, hr⟩ := run_cons.mp hr
      have hqt : Q t := back acts t u (inv s a t h0 ht) hr hu
      refine ⟨break_ s a t h0 hq ht hqt, ?_⟩
      intro t' ht'
      obtain rfl : t = t' := Option.some.inj (ht.symm.trans ht')
      exact ih (inv s a t h0 ht) hqt hr
  · intro he
    exact (run_invariant (I := fun s => I s ∧ Q s)
      (fun s a t hi hok ht => ⟨inv s a t hi.1 ht, keep s a t hi.1 hi.2 hok ht⟩)
      ⟨h0, hq⟩ he hr).2

/-- **When a property of the past survives.**  `Q` speaks about what has happened
so far, so a later state has it only if the earlier ones had it.  If a step
meeting `ok` keeps `Q` and any other step breaks it, then `Q` holds at the end of a
run exactly when every step of the run met `ok`. -/
theorem run_iff_each {I Q : σ → Prop}
    (inv : ∀ s a t, I s → step s a = some t → I t)
    (past : ∀ s a t, step s a = some t → Q t → Q s)
    (keep : ∀ s a t, I s → Q s → ok s a → step s a = some t → Q t)
    (break_ : ∀ s a t, I s → Q s → step s a = some t → Q t → ok s a)
    {s u : σ} {acts : List ι} (h0 : I s) (hq : Q s) (hr : run step s acts = some u) :
    Q u ↔ Each step ok s acts :=
  run_iff_each_of inv (fun s a t _ => past s a t) keep break_ h0 hq hr

theorem run_iff_each_step {I Q : σ → Prop}
    (inv : ∀ s a t, I s → step s a = some t → I t)
    (next : ∀ s a t, I s → step s a = some t → (Q t ↔ Q s ∧ ok s a))
    {s u : σ} {acts : List ι} (h0 : I s) (hq : Q s) (hr : run step s acts = some u) :
    Q u ↔ Each step ok s acts := by
  refine run_iff_each_of inv ?_ ?_ ?_ h0 hq hr
  · intro s a t hi ht hqt
    exact ((next s a t hi ht).mp hqt).1
  · intro s a t hi hqs hok ht
    exact (next s a t hi ht).mpr ⟨hqs, hok⟩
  · intro s a t hi _ ht hqt
    exact ((next s a t hi ht).mp hqt).2

/-- Every state of the run has the property, the first and the last one included. -/
def Always (step : σ → ι → Option σ) (P : σ → Prop) : σ → List ι → Prop
  | s, [] => P s
  | s, a :: acts => P s ∧ ∀ t, step s a = some t → Always step P t acts

/-- **When a property of the present never fails.**  If a step from a state with the property leads
to one with the property exactly when it meets `ok`, then every state of a run has the property
exactly when every step of it met `ok`. -/
theorem always_iff_each {I P : σ → Prop}
    (inv : ∀ s a t, I s → step s a = some t → I t)
    (next : ∀ s a t, I s → P s → step s a = some t → (P t ↔ ok s a))
    {s u : σ} {acts : List ι} (h0 : I s) (hp : P s) (hr : run step s acts = some u) :
    Always step P s acts ↔ Each step ok s acts := by
  induction acts generalizing s with
  | nil => exact iff_of_true hp trivial
  | cons a acts ih =>
    obtain ⟨t, ht, hu⟩ := run_cons.mp hr
    have hnext := next s a t h0 hp ht
    have htail : ∀ {Q : σ → Prop}, (∀ t', step s a = some t' → Q t') ↔ Q t := by
      refine fun {Q} => ⟨fun h => h t ht, ?_⟩
      intro h t' ht'
      rwa [← Option.some.inj (ht.symm.trans ht')]
    rw [Always, Each, and_iff_right hp, htail, htail]
    constructor
    · intro ha
      have hpt : P t := by
        cases acts with
        | nil => exact ha
        | cons => exact ha.1
      exact ⟨hnext.mp hpt, (ih (inv s a t h0 ht) hpt hu).mp ha⟩
    · rintro ⟨hok, he⟩
      exact (ih (inv s a t h0 ht) (hnext.mpr hok) hu).mpr he

/-! ### Objects that answer -/

/-- Operations one after the other, with what each of them answers. -/
def runOps (op : σ → ι → Option (σ × ω)) : σ → List ι → Option (σ × List ω)
  | s, [] => some (s, [])
  | s, i :: is => (op s i).bind fun r => (runOps op r.1 is).map fun q => (q.1, r.2 :: q.2)

/-- The same for a specification, whose operations are never refused. -/
def specOps (spec : τ → ι → τ × ω) : τ → List ι → τ × List ω
  | t, [] => (t, [])
  | t, i :: is =>
    ((specOps spec (spec t i).1 is).1, (spec t i).2 :: (specOps spec (spec t i).1 is).2)

/-- Every operation of the sequence is admitted by the state it meets. -/
def Admits (op : σ → ι → Option (σ × ω)) (guard : σ → ι → Prop) : σ → List ι → Prop
  | _, [] => True
  | s, i :: is => guard s i ∧ ∀ r, op s i = some r → Admits op guard r.1 is

theorem Admits.of_prefix {op : σ → ι → Option (σ × ω)} {guard : σ → ι → Prop} {s : σ}
    {pre is : List ι} (hp : pre <+: is) (h : Admits op guard s is) : Admits op guard s pre := by
  induction pre generalizing s is with
  | nil => trivial
  | cons i pre ih =>
    obtain ⟨rest, rfl⟩ := hp
    exact ⟨h.1, fun r hr => ih (List.prefix_append pre rest) (h.2 r hr)⟩

instance Admits.decidable {op : σ → ι → Option (σ × ω)} {guard : σ → ι → Prop}
    [∀ s i, Decidable (guard s i)] : ∀ (s : σ) (is : List ι), Decidable (Admits op guard s is)
  | _, [] => isTrue trivial
  | s, i :: is =>
    match h : op s i with
    | none =>
      decidable_of_iff (guard s i) ⟨fun hg => ⟨hg, fun r hr => by simp [h] at hr⟩, fun ha => ha.1⟩
    | some r =>
      have : Decidable (Admits op guard r.1 is) := Admits.decidable r.1 is
      decidable_of_iff (guard s i ∧ Admits op guard r.1 is)
        ⟨fun ha => ⟨ha.1, fun u hu => Option.some.inj (h.symm.trans hu) ▸ ha.2⟩,
          fun ha => ⟨ha.1, ha.2 r h⟩⟩

/-- **Data refinement.**  An admitted operation succeeds, answers what the
specification answers, and leaves a state that stands for the specification's. -/
structure Refines (op : σ → ι → Option (σ × ω)) (spec : τ → ι → τ × ω) (abs : σ → τ)
    (guard : σ → ι → Prop) : Prop where
  sim : ∀ s i, guard s i → ∃ t o, op s i = some (t, o) ∧ spec (abs s) i = (abs t, o)

/-- **A refinement carries over to sequences of operations.** -/
theorem Refines.runOps {op : σ → ι → Option (σ × ω)} {spec : τ → ι → τ × ω} {abs : σ → τ}
    {guard : σ → ι → Prop} (h : Refines op spec abs guard) {s : σ} {is : List ι}
    (ha : Admits op guard s is) :
    ∃ t os, Flux.Lib.runOps op s is = some (t, os) ∧ specOps spec (abs s) is = (abs t, os) := by
  induction is generalizing s with
  | nil => exact ⟨s, [], rfl, rfl⟩
  | cons i is ih =>
    obtain ⟨t, o, ht, hs⟩ := h.sim s i ha.1
    obtain ⟨u, os, hu, hsu⟩ := ih (ha.2 (t, o) ht)
    refine ⟨u, o :: os, ?_, ?_⟩
    · simp [Flux.Lib.runOps, ht, hu]
    · simp [specOps, hs, hsu]

/-- **Simulation.**  Where a state stands for one of the specification only together with an
invariant: an admitted operation succeeds, answers what the specification answers, and leaves
related states. -/
structure Simulates (op : σ → ι → Option (σ × ω)) (spec : τ → ι → τ × ω) (R : σ → τ → Prop)
    (guard : σ → ι → Prop) : Prop where
  sim : ∀ s t i, R s t → guard s i → ∃ s', op s i = some (s', (spec t i).2) ∧ R s' (spec t i).1

/-- **A simulation carries over to sequences of operations.** -/
theorem Simulates.runOps {op : σ → ι → Option (σ × ω)} {spec : τ → ι → τ × ω} {R : σ → τ → Prop}
    {guard : σ → ι → Prop} (h : Simulates op spec R guard) {s : σ} {t : τ} {is : List ι}
    (hr : R s t)
    (ha : Admits op guard s is) :
    ∃ s', Flux.Lib.runOps op s is = some (s', (specOps spec t is).2) ∧
    R s' (specOps spec t is).1 := by
  induction is generalizing s t with
  | nil => exact ⟨s, rfl, hr⟩
  | cons i is ih =>
    obtain ⟨s', hop, hr'⟩ := h.sim s t i hr ha.1
    obtain ⟨u, hu, hru⟩ := ih hr' (ha.2 _ hop)
    refine ⟨u, ?_, hru⟩
    simp [Flux.Lib.runOps, hop, hu, specOps]

end Flux.Lib
