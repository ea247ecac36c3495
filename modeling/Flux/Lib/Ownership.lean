import Mathlib.Logic.Equiv.Basic
import Mathlib.Logic.Function.Basic

/-!
# Exclusive ownership

Holders, each of which may hold one cell of a store: unique pointers into a heap, descriptor objects
over the descriptor table of a process.  `Exclusive` says that what is held is alive and is held
once, `Reached` that nothing alive is without a holder.  Both survive what such holders do: take up
a cell that was free, give one up together with the cell, exchange, write.

* `Exclusive.drop`: who gives a cell up may take it out of the store, for nobody else refers to it.
* `reached_acquire_iff`: a cell is lost exactly when its holder takes up another one.
* `view`: what the holders make of the store.  Under `Exclusive` a holder cannot tell what the
  others do (`view_acquire`, `view_drop`, `view_write`), so each of them has a value of its own.

`Handles` are objects that come and go, each of them a holder.  `Handles.Stands` says that such a
state stands for plain values, one for each object, and there is one lemma for each thing an object
can do.
-/

namespace Flux.Lib

variable {κ ι α : Type*}

/-- What is held is alive, and nobody else holds it. -/
structure Exclusive (held : κ → Option ι) (cells : ι → Option α) : Prop where
  live : ∀ {k i}, held k = some i → (cells i).isSome
  alone : ∀ {k l i}, held k = some i → held l = some i → k = l

/-- Nothing alive is without a holder. -/
def Reached (held : κ → Option ι) (cells : ι → Option α) : Prop :=
  ∀ i, (cells i).isSome → ∃ k, held k = some i

def view (held : κ → Option ι) (cells : ι → Option α) (k : κ) : Option α := (held k).bind cells

theorem exclusive_empty : Exclusive (fun _ : κ => none) (fun _ : ι => (none : Option α)) :=
  ⟨fun h => absurd h (by simp), fun h => absurd h (by simp)⟩

theorem reached_empty : Reached (fun _ : κ => none) (fun _ : ι => (none : Option α)) :=
  fun _ h => absurd h (by simp)

section Holders

variable {held : κ → Option ι} {cells : ι → Option α} {k l : κ} {i : ι}

theorem Exclusive.of_held (h : Exclusive held cells) (hk : held k = some i) :
    ∃ a, cells i = some a :=
  Option.isSome_iff_exists.mp (h.live hk)

theorem view_of_held (hk : held k = some i) : view held cells k = cells i := by
  rw [view, hk, Option.bind_some]

theorem view_of_none (hk : held k = none) : view held cells k = none := by
  rw [view, hk, Option.bind_none]

/-- A holder sees nothing exactly when it holds nothing. -/
theorem Exclusive.view_isSome (h : Exclusive held cells) (k : κ) :
    (view held cells k).isSome = (held k).isSome := by
  cases hk : held k with
  | none =>
    rw [view_of_none hk]
    rfl
  | some i =>
    rw [view_of_held hk, h.live hk]
    rfl

/-! ### Exchange -/

theorem Exclusive.exchange (h : Exclusive held cells) (e : Equiv.Perm κ) :
    Exclusive (held ∘ e) cells where
  live hk := h.live hk
  alone hk hl := e.injective (h.alone hk hl)

theorem reached_exchange_iff (e : Equiv.Perm κ) :
    Reached (held ∘ e) cells ↔ Reached held cells := by
  refine forall_congr' fun i => imp_congr_right fun _ => ?_
  exact e.exists_congr_left.trans (by simp)

variable [DecidableEq κ] [DecidableEq ι]

/-! ### A free cell -/

section Acquire

variable {a : α}

theorem Exclusive.acquire (h : Exclusive held cells) (hfree : cells i = none) :
    Exclusive (Function.update held k (some i)) (Function.update cells i (some a)) := by
  have hnew : ∀ {l}, held l ≠ some i := fun hl => by
    have hlive := h.live hl
    simp [hfree] at hlive
  constructor
  · intro l j hl
    by_cases hj : j = i
    · simp [hj]
    · rw [Function.update_of_ne hj]
      by_cases hlk : l = k
      · simp only [hlk, Function.update_self, Option.some.injEq] at hl
        exact absurd hl.symm hj
      · rw [Function.update_of_ne hlk] at hl
        exact h.live hl
  · intro l m j hl hm
    by_cases hlk : l = k <;> by_cases hmk : m = k
    · rw [hlk, hmk]
    · simp only [hlk, Function.update_self, Option.some.injEq] at hl
      rw [Function.update_of_ne hmk, ← hl] at hm
      exact absurd hm hnew
    · simp only [hmk, Function.update_self, Option.some.injEq] at hm
      rw [Function.update_of_ne hlk, ← hm] at hl
      exact absurd hl hnew
    · rw [Function.update_of_ne hlk] at hl
      rw [Function.update_of_ne hmk] at hm
      exact h.alone hl hm

/-- **What is lost**: the cell a holder had before, and nothing else. -/
theorem reached_acquire_iff (h : Exclusive held cells) (hfree : cells i = none) :
    Reached (Function.update held k (some i)) (Function.update cells i (some a)) ↔
      Reached held cells ∧ held k = none := by
  have hne : ∀ {j}, (cells j).isSome → j ≠ i := by
    rintro j hj rfl
    simp [hfree] at hj
  constructor
  · intro hreach
    -- who holds an old cell now held it before
    have hold : ∀ {j}, (cells j).isSome → ∃ l, l ≠ k ∧ held l = some j := by
      intro j hj
      obtain ⟨l, hl⟩ := hreach j (by rwa [Function.update_of_ne (hne hj)])
      by_cases hlk : l = k
      · simp only [hlk, Function.update_self, Option.some.injEq] at hl
        exact absurd hl.symm (hne hj)
      · exact ⟨l, hlk, by rwa [Function.update_of_ne hlk] at hl⟩
    refine ⟨fun j hj => (hold hj).imp fun l hl => hl.2, ?_⟩
    by_contra hk
    obtain ⟨j, hj⟩ := Option.ne_none_iff_exists'.mp hk
    obtain ⟨l, hlk, hl⟩ := hold (h.live hj)
    exact hlk (h.alone hl hj)
  · rintro ⟨hr, hk⟩ j hj
    by_cases hji : j = i
    · exact ⟨k, by rw [hji, Function.update_self]⟩
    · rw [Function.update_of_ne hji] at hj
      obtain ⟨l, hl⟩ := hr j hj
      have hlk : l ≠ k := by
        rintro rfl
        simp [hk] at hl
      exact ⟨l, by rw [Function.update_of_ne hlk, hl]⟩

theorem view_acquire (h : Exclusive held cells) (hfree : cells i = none) :
    view (Function.update held k (some i)) (Function.update cells i (some a)) =
      Function.update (view held cells) k (some a) := by
  funext l
  by_cases hlk : l = k
  · simp [hlk, view]
  · rw [Function.update_of_ne hlk, view, Function.update_of_ne hlk]
    cases hl : held l with
    | none => rw [view_of_none hl, Option.bind_none]
    | some j =>
      have hne : j ≠ i := by
        rintro rfl
        have hlive := h.live hl
        simp [hfree] at hlive
      rw [view_of_held hl, Option.bind_some, Function.update_of_ne hne]

end Acquire

/-! ### Giving up -/

theorem Exclusive.drop (h : Exclusive held cells) (hk : held k = some i) :
    Exclusive (Function.update held k none) (Function.update cells i none) := by
  have hold : ∀ {l j}, Function.update held k none l = some j → l ≠ k ∧ held l = some j := by
    intro l j hl
    by_cases hlk : l = k
    · simp [hlk] at hl
    · exact ⟨hlk, by rwa [Function.update_of_ne hlk] at hl⟩
  constructor
  · intro l j hl
    obtain ⟨hlk, hl⟩ := hold hl
    have hne : j ≠ i := by
      rintro rfl
      exact hlk (h.alone hl hk)
    rw [Function.update_of_ne hne]
    exact h.live hl
  · intro l m j hl hm
    exact h.alone (hold hl).2 (hold hm).2

theorem reached_drop_iff (hk : held k = some i) :
    Reached (Function.update held k none) (Function.update cells i none) ↔ Reached held cells := by
  constructor
  · intro hreach j hj
    by_cases hji : j = i
    · exact ⟨k, by rw [hk, hji]⟩
    · obtain ⟨l, hl⟩ := hreach j (by rwa [Function.update_of_ne hji])
      by_cases hlk : l = k
      · simp [hlk] at hl
      · exact ⟨l, by rwa [Function.update_of_ne hlk] at hl⟩
  · intro hr j hj
    by_cases hji : j = i
    · simp [hji] at hj
    · rw [Function.update_of_ne hji] at hj
      obtain ⟨l, hl⟩ := hr j hj
      have hlk : l ≠ k := by
        rintro rfl
        exact hji (Option.some.inj (hl.symm.trans hk))
      exact ⟨l, by rw [Function.update_of_ne hlk, hl]⟩

theorem view_drop (h : Exclusive held cells) (hk : held k = some i) :
    view (Function.update held k none) (Function.update cells i none) =
      Function.update (view held cells) k none := by
  funext l
  by_cases hlk : l = k
  · simp [hlk, view]
  · rw [Function.update_of_ne hlk, view, Function.update_of_ne hlk]
    cases hl : held l with
    | none => rw [view_of_none hl, Option.bind_none]
    | some j =>
      have hne : j ≠ i := by
        rintro rfl
        exact hlk (h.alone hl hk)
      rw [view_of_held hl, Option.bind_some, Function.update_of_ne hne]

omit [DecidableEq ι] in
theorem Exclusive.forget (h : Exclusive held cells) :
    Exclusive (Function.update held k none) cells := by
  have hold : ∀ {l j}, Function.update held k none l = some j → held l = some j := by
    intro l j hl
    by_cases hlk : l = k
    · simp [hlk] at hl
    · rwa [Function.update_of_ne hlk] at hl
  exact ⟨fun hl => h.live (hold hl), fun hl hm => h.alone (hold hl) (hold hm)⟩

omit [DecidableEq ι] in
/-- A holder that turns its back on its cell loses it. -/
theorem reached_forget_iff (h : Exclusive held cells) :
    Reached (Function.update held k none) cells ↔ Reached held cells ∧ held k = none := by
  constructor
  · intro hreach
    have hold : ∀ {j}, (cells j).isSome → ∃ l, l ≠ k ∧ held l = some j := by
      intro j hj
      obtain ⟨l, hl⟩ := hreach j hj
      by_cases hlk : l = k
      · simp [hlk] at hl
      · exact ⟨l, hlk, by rwa [Function.update_of_ne hlk] at hl⟩
    refine ⟨fun j hj => (hold hj).imp fun l hl => hl.2, ?_⟩
    by_contra hk
    obtain ⟨j, hj⟩ := Option.ne_none_iff_exists'.mp hk
    obtain ⟨l, hlk, hl⟩ := hold (h.live hj)
    exact hlk (h.alone hl hj)
  · rintro ⟨hr, hk⟩
    rwa [Function.update_eq_self_iff.mpr hk.symm]

/-! ### Writing -/

section Write

variable {a : α}

omit [DecidableEq κ] in
theorem Exclusive.write (h : Exclusive held cells) (i : ι) :
    Exclusive held (Function.update cells i (some a)) where
  live {l j} hl := by
    by_cases hj : j = i
    · simp [hj]
    · rw [Function.update_of_ne hj]
      exact h.live hl
  alone := h.alone

omit [DecidableEq κ] in
theorem Reached.write (hr : Reached held cells) (hk : held k = some i) :
    Reached held (Function.update cells i (some a)) := by
  intro j hj
  by_cases hji : j = i
  · exact ⟨k, by rw [hk, hji]⟩
  · rw [Function.update_of_ne hji] at hj
    exact hr j hj

theorem view_write (h : Exclusive held cells) (hk : held k = some i) :
    view held (Function.update cells i (some a)) = Function.update (view held cells) k
      (some a) := by
  funext l
  by_cases hlk : l = k
  · rw [hlk, Function.update_self, view_of_held hk, Function.update_self]
  · rw [Function.update_of_ne hlk]
    cases hl : held l with
    | none => rw [view_of_none hl, view_of_none hl]
    | some j =>
      have hne : j ≠ i := by
        rintro rfl
        exact hlk (h.alone hl hk)
      rw [view_of_held hl, view_of_held hl, Function.update_of_ne hne]

end Write

end Holders

/-! ### Objects with handles -/

/-- The store, and the objects that exist, each of which holds a cell or nothing. -/
structure Handles (κ ι α : Type*) where
  cells : ι → Option α
  objs : κ → Option (Option ι)

namespace Handles

def empty : Handles κ ι α := ⟨fun _ => none, fun _ => none⟩

def held (s : Handles κ ι α) (x : κ) : Option ι := (s.objs x).join

/-- Every cell is still held by some object. -/
def Kept (s : Handles κ ι α) : Prop := Reached s.held s.cells

/-- The state stands for plain values, and no object is in the way of another. -/
structure Stands (s : Handles κ ι α) (t : κ → Option (Option α)) : Prop where
  values : ∀ x, t x = (s.objs x).map fun _ => view s.held s.cells x
  exclusive : Exclusive s.held s.cells

theorem stands_empty : Stands (empty : Handles κ ι α) fun _ => none :=
  ⟨fun _ => rfl, exclusive_empty⟩

theorem kept_empty : Kept (empty : Handles κ ι α) := reached_empty

variable {s : Handles κ ι α} {t : κ → Option (Option α)} {x y : κ} {c : Option ι} {p : ι} {a : α}

theorem held_of_objs (h : s.objs x = some c) : s.held x = c := by
  rw [held, h, Option.join_some]

theorem held_of_absent (h : s.objs x = none) : s.held x = none := by
  rw [held, h, Option.join_none]

theorem held_eq_some : s.held x = some p ↔ s.objs x = some (some p) := by
  rw [held, Option.join_eq_some_iff]

theorem Stands.join (h : Stands s t) (x : κ) : (t x).join = view s.held s.cells x := by
  rw [h.values]
  cases ho : s.objs x with
  | none => rw [view_of_none (held_of_absent ho), Option.map_none, Option.join_none]
  | some c => rw [Option.map_some, Option.join_some]

theorem Stands.content (h : Stands s t) (hx : s.objs x = some c) : (t x).join = c.bind s.cells := by
  rw [h.join, view, held_of_objs hx]

theorem Stands.contents (h : Stands s t) (x : κ) :
    t x = (s.objs x).map fun c => c.bind s.cells := by
  rw [h.values]
  cases hx : s.objs x with
  | none => rfl
  | some c => rw [Option.map_some, Option.map_some, view, held_of_objs hx]

theorem Stands.deref (h : Stands s t) (hx : s.objs x = some (some p)) :
    ∃ a, s.cells p = some a ∧ (t x).join = some a := by
  obtain ⟨a, ha⟩ := h.exclusive.of_held (held_of_objs hx)
  exact ⟨a, ha, by rw [h.content hx, Option.bind_some, ha]⟩

theorem Stands.exists_objs (h : Stands s t) (hx : (s.objs x).isSome) :
    ∃ c, s.objs x = some c ∧ (t x).join = c.bind s.cells := by
  obtain ⟨c, hc⟩ := Option.isSome_iff_exists.mp hx
  exact ⟨c, hc, h.content hc⟩

theorem Stands.exchange (h : Stands s t) (e : Equiv.Perm κ) :
    Stands ⟨s.cells, s.objs ∘ e⟩ (t ∘ e) :=
  ⟨fun x => h.values (e x), h.exclusive.exchange e⟩

theorem kept_exchange_iff (e : Equiv.Perm κ) : Kept ⟨s.cells, s.objs ∘ e⟩ ↔ Kept s := by
  show Reached (s.held ∘ e) s.cells ↔ _
  exact reached_exchange_iff e

variable [DecidableEq κ]

def give (s : Handles κ ι α) (x : κ) (cells : ι → Option α) (c : Option ι) : Handles κ ι α :=
  ⟨cells, Function.update s.objs x (some c)⟩

theorem held_give (cells : ι → Option α) (c : Option ι) :
    (s.give x cells c).held = Function.update s.held x c := by
  funext y
  by_cases hy : y = x
  · simp [held, give, hy]
  · simp [held, give, hy]

theorem Stands.vacate (h : Stands s t) (x : κ) :
    Stands (s.give x s.cells none) (Function.update t x (some none)) := by
  constructor
  · intro y
    rw [held_give, give]
    by_cases hy : y = x
    · simp [hy, view]
    · simp [hy, h.values y, view]
  · rw [held_give]
    exact h.exclusive.forget

theorem kept_vacate_iff (h : Stands s t) :
    Kept (s.give x s.cells none) ↔ Kept s ∧ s.held x = none := by
  rw [Kept, held_give]
  exact reached_forget_iff h.exclusive

def remove (s : Handles κ ι α) (x : κ) : Handles κ ι α := ⟨s.cells, Function.update s.objs x none⟩

theorem held_remove (s : Handles κ ι α) (x : κ) :
    (s.remove x).held = Function.update s.held x none := by
  funext y
  by_cases hy : y = x
  · simp [held, remove, hy]
  · simp [held, remove, hy]

theorem Stands.remove (h : Stands s t) (x : κ) :
    Stands (s.remove x) (Function.update t x none) := by
  constructor
  · intro y
    rw [held_remove, Handles.remove]
    by_cases hy : y = x
    · simp [hy]
    · simp [hy, h.values y, view]
  · rw [held_remove]
    exact h.exclusive.forget

theorem kept_remove_iff (h : Stands s t) : Kept (s.remove x) ↔ Kept s ∧ s.held x = none := by
  rw [Kept, held_remove]
  exact reached_forget_iff h.exclusive

variable [DecidableEq ι]

theorem Stands.acquire (h : Stands s t) (hp : s.cells p = none) (x : κ) (a : α) :
    Stands (s.give x (Function.update s.cells p (some a)) (some p))
      (Function.update t x (some (some a))) := by
  constructor
  · intro y
    rw [held_give, give, view_acquire h.exclusive hp]
    by_cases hy : y = x
    · simp [hy]
    · simp [hy, h.values y]
  · rw [held_give]
    exact h.exclusive.acquire hp

theorem kept_acquire_iff (h : Stands s t) (hp : s.cells p = none) :
    Kept (s.give x (Function.update s.cells p (some a)) (some p)) ↔ Kept s ∧ s.held x = none := by
  rw [Kept, held_give]
  exact reached_acquire_iff h.exclusive hp

theorem Stands.drop (h : Stands s t) (hx : s.objs x = some (some p)) :
    Stands (s.give x (Function.update s.cells p none) none) (Function.update t x (some none)) := by
  constructor
  · intro y
    rw [held_give, give, view_drop h.exclusive (held_of_objs hx)]
    by_cases hy : y = x
    · simp [hy]
    · simp [hy, h.values y]
  · rw [held_give]
    exact h.exclusive.drop (held_of_objs hx)

theorem kept_drop_iff (hx : s.objs x = some (some p)) :
    Kept (s.give x (Function.update s.cells p none) none) ↔ Kept s := by
  rw [Kept, held_give]
  exact reached_drop_iff (held_of_objs hx)

theorem Stands.write (h : Stands s t) (hx : s.objs x = some (some p)) (a : α) :
    Stands ⟨Function.update s.cells p (some a), s.objs⟩ (Function.update t x (some (some a))) := by
  refine ⟨fun y => ?_, h.exclusive.write p⟩
  have hview := view_write (a := a) h.exclusive (held_of_objs hx)
  show _ = (s.objs y).map fun _ => view s.held (Function.update s.cells p (some a)) y
  rw [hview]
  by_cases hy : y = x
  · simp [hy, hx]
  · simp [hy, h.values y]

omit [DecidableEq κ] in
theorem Kept.write (h : Kept s) (hx : s.objs x = some (some p)) :
    Kept ⟨Function.update s.cells p (some a), s.objs⟩ := Reached.write h (held_of_objs hx)

end Handles

end Flux.Lib
