import Flux.Lib.Ownership
import Flux.Lib.Run

/-!
# `Any`

A value of any type behind a pointer: `_content` is null or points to a `placeholder` on the heap,
which knows the type it was made with.  The copies, the assignments and the swap are about who
deletes which placeholder; the heap below lets `delete` and a dereference fail where nothing is
allocated, and the allocator may give out an address again as soon as it has been taken back.

What the component is for is a plain value: a variable of this type holds nothing or a value with
its type, a copy is a value of its own, and an assignment that runs out of memory changes nothing.
`any_is_value` says that every program that keeps to the lifetimes of its objects gets exactly that,
and that in every state the placeholders alive are those the objects hold, each once.
-/

namespace Flux

open Lib

structure Placeholder {τ : Type*} (β : τ → Type*) where
  type : τ
  val : β type

variable {τ : Type*} {β : τ → Type*} {ν : Type*}

abbrev Heap {τ : Type*} (β : τ → Type*) := ℕ → Option (Placeholder β)

namespace Any

/-! ### The functions of the class

A function gets the heap and the `_content` of its objects.  `none` is a pointer that is followed or
deleted with nothing behind it.  `mem` is the address `new` would give out. -/

def newPlaceholder (h : Heap β) (mem : ℕ) (v : Placeholder β) : Heap β :=
  Function.update h mem (some v)

/-- `delete`, which does nothing to a null pointer. -/
def delete (h : Heap β) : Option ℕ → Option (Heap β)
  | none => some h
  | some p => (h p).map fun _ => Function.update h p none

def ofVal (h : Heap β) (mem : ℕ) (v : Placeholder β) : Heap β × Option ℕ :=
  (newPlaceholder h mem v, some mem)

/-- `Any(const Any &)`, which clones what there is. -/
def ofAny (h : Heap β) (mem : ℕ) : Option ℕ → Option (Heap β × Option ℕ)
  | none => some (h, none)
  | some p => (h p).map fun v => (newPlaceholder h mem v, some mem)

/-- `operator=(const Any &)` on two objects: the copy goes into a temporary, the contents are
swapped, and the temporary takes the old content with it. -/
def assign (h : Heap β) (mem : ℕ) (this other : Option ℕ) : Option (Heap β × Option ℕ) :=
  (ofAny h mem other).bind fun tmp => (delete tmp.1 this).map fun h => (h, tmp.2)

def assignVal (h : Heap β) (mem : ℕ) (this : Option ℕ) (v : Placeholder β) :
    Option (Heap β × Option ℕ) :=
  let tmp := ofVal h mem v
  (delete tmp.1 this).map fun h => (h, tmp.2)

/-- What a placeholder has for a question after type `t`. -/
def cast [DecidableEq τ] (t : τ) (v : Placeholder β) : Option (β t) :=
  if ht : v.type = t then some (ht ▸ v.val) else none

/-- `get`: the value behind the pointer that is answered, if it is not null. -/
def get [DecidableEq τ] (h : Heap β) (t : τ) : Option ℕ → Option (Option (β t))
  | none => some none
  | some p => (h p).map (cast t)

/-- `if (T *p = any.get<T>()) *p = val;`, which is how its user changes the value in place. -/
def put [DecidableEq τ] (h : Heap β) (t : τ) (val : β t) : Option ℕ → Option (Heap β)
  | none => some h
  | some p => (h p).map fun v => if v.type = t then Function.update h p (some ⟨t, val⟩) else h

def hasValue (content : Option ℕ) : Bool := content.isSome

/-- `type`; the inner `none` is the `std::bad_cast`. -/
def type (h : Heap β) : Option ℕ → Option (Option τ)
  | none => some none
  | some p => (h p).map fun v => some v.type

def reset (h : Heap β) (content : Option ℕ) : Option (Heap β × Option ℕ) :=
  (delete h content).map fun h => (h, none)

end Any

/-! ### Programs -/

/-- What a program does with its objects.  Where memory is asked for, `mem` is what the allocator
has, `none` for a `std::bad_alloc`. -/
inductive AnyOp {τ : Type*} (β : τ → Type*) (ν : Type*)
  | make (x : ν)
  | makeVal (x : ν) (mem : Option ℕ) (v : Placeholder β)
  | makeCopy (x y : ν) (mem : Option ℕ)
  | assign (x y : ν) (mem : Option ℕ)
  | assignVal (x : ν) (mem : Option ℕ) (v : Placeholder β)
  | swap (x y : ν)
  | get (x : ν) (t : τ)
  | put (x : ν) (t : τ) (val : β t)
  | hasValue (x : ν)
  | type (x : ν)
  | reset (x : ν)
  /-- The end of its scope. -/
  | destroy (x : ν)

inductive AnyAnswer {τ : Type*} (β : τ → Type*)
  | done
  | badAlloc
  | badCast
  | has (b : Bool)
  | type (t : τ)
  | got (t : τ) (val : Option (β t))

/-- The heap and the objects that exist, each with its `_content`. -/
abbrev AnyState {τ : Type*} (β : τ → Type*) (ν : Type*) := Handles ν ℕ (Placeholder β)

namespace AnyState

open Handles

variable [DecidableEq ν]

def content (s : AnyState β ν) (x : ν) (r : Heap β × Option ℕ) : AnyState β ν := s.give x r.1 r.2

variable [DecidableEq τ]

/-- One operation.  `none` is undefined behaviour, or an object that does not exist. -/
def op (s : AnyState β ν) : AnyOp β ν → Option (AnyState β ν × AnyAnswer β)
  | .make x => some (s.content x (s.cells, none), .done)
  | .makeVal x mem v =>
    match mem with
    | none => some (s, .badAlloc)
    | some mem => some (s.content x (Any.ofVal s.cells mem v), .done)
  | .makeCopy x y mem => (s.objs y).bind fun other =>
    match mem, other with
    | none, some _ => some (s, .badAlloc)
    | mem, other => (Any.ofAny s.cells (mem.getD 0) other).map fun r => (s.content x r, .done)
  | .assign x y mem => (s.objs x).bind fun this => (s.objs y).bind fun other =>
    if x = y then some (s, .done)
    else
      match mem, other with
      | none, some _ => some (s, .badAlloc)
      | mem, other =>
        (Any.assign s.cells (mem.getD 0) this other).map fun r => (s.content x r, .done)
  | .assignVal x mem v => (s.objs x).bind fun this =>
    match mem with
    | none => some (s, .badAlloc)
    | some mem => (Any.assignVal s.cells mem this v).map fun r => (s.content x r, .done)
  | .swap x y => (s.objs x).bind fun this => (s.objs y).map fun other =>
    ((s.content x (s.cells, other)).content y (s.cells, this), .done)
  | .get x t => (s.objs x).bind fun this => (Any.get s.cells t this).map fun v => (s, .got t v)
  | .put x t val => (s.objs x).bind fun this =>
    (Any.put s.cells t val this).map fun h => ({ s with cells := h }, .done)
  | .hasValue x => (s.objs x).map fun this => (s, .has (Any.hasValue this))
  | .type x => (s.objs x).bind fun this => (Any.type s.cells this).map fun t =>
    (s, t.elim .badCast .type)
  | .reset x =>
    (s.objs x).bind fun this => (Any.reset s.cells this).map fun r => (s.content x r, .done)
  | .destroy x => (s.objs x).bind fun this => (Any.delete s.cells this).map fun h =>
    (⟨h, Function.update s.objs x none⟩, .done)

end AnyState

/-! ### Plain values -/

/-- What the component is for: each variable that exists holds nothing or a value with its type. -/
abbrev Values {τ : Type*} (β : τ → Type*) (ν : Type*) := ν → Option (Option (Placeholder β))

namespace Values

variable [DecidableEq ν] [DecidableEq τ]

def copy (t : Values β ν) (x y : ν) (mem : Option ℕ) : Values β ν × AnyAnswer β :=
  if (t y).join.isSome ∧ mem = none then (t, .badAlloc)
  else (Function.update t x (some (t y).join), .done)

def store (t : Values β ν) (x : ν) (mem : Option ℕ) (v : Placeholder β) :
    Values β ν × AnyAnswer β :=
  if mem = none then (t, .badAlloc) else (Function.update t x (some (some v)), .done)

def op (t : Values β ν) : AnyOp β ν → Values β ν × AnyAnswer β
  | .make x | .reset x => (Function.update t x (some none), .done)
  | .makeVal x mem v | .assignVal x mem v => t.store x mem v
  | .makeCopy x y mem => t.copy x y mem
  | .assign x y mem => if x = y then (t, .done) else t.copy x y mem
  | .swap x y => (t ∘ Equiv.swap x y, .done)
  | .get x ty => (t, .got ty ((t x).join.bind (Any.cast ty)))
  | .put x ty val =>
    (if ((t x).join.bind (Any.cast ty)).isSome then Function.update t x (some (some ⟨ty, val⟩))
      else t,
      .done)
  | .hasValue x => (t, .has (t x).join.isSome)
  | .type x => (t, (t x).join.elim .badCast fun v => .type v.type)
  | .destroy x => (Function.update t x none, .done)

end Values

namespace AnyState

open Handles

/-- What a program and an allocator keep to: an object is made where there is none and used while it
is there, and an address is given out while it is free. -/
def Admitted (s : AnyState β ν) : AnyOp β ν → Prop
  | .make x => s.objs x = none
  | .makeVal x mem _ => s.objs x = none ∧ ∀ p ∈ mem, (s.cells p).isNone
  | .makeCopy x y mem => s.objs x = none ∧ (s.objs y).isSome ∧ ∀ p ∈ mem, (s.cells p).isNone
  | .assign x y mem => (s.objs x).isSome ∧ (s.objs y).isSome ∧ ∀ p ∈ mem, (s.cells p).isNone
  | .assignVal x mem _ => (s.objs x).isSome ∧ ∀ p ∈ mem, (s.cells p).isNone
  | .swap x y => (s.objs x).isSome ∧ (s.objs y).isSome
  | .get x _ | .put x _ _ | .hasValue x | .type x | .reset x | .destroy x => (s.objs x).isSome

/-- The state stands for plain values, and no placeholder is lost. -/
structure Keeps (s : AnyState β ν) (t : Values β ν) : Prop where
  stands : Stands s t
  kept : Kept s

theorem keeps_empty : Keeps (Handles.empty : AnyState β ν) fun _ => none :=
  ⟨stands_empty, kept_empty⟩

variable {s : AnyState β ν} {t : Values β ν} {x y : ν} {c : Option ℕ}

/-! ### What an operation does to the values -/

section Moves

variable [DecidableEq ν]

theorem Keeps.acquire (h : Keeps s t) (hx : s.held x = none) {p : ℕ} (hp : s.cells p = none)
    (v : Placeholder β) :
    Keeps (s.content x (Any.newPlaceholder s.cells p v, some p))
      (Function.update t x (some (some v))) :=
  ⟨h.stands.acquire hp x v, (kept_acquire_iff h.stands hp).mpr ⟨h.kept, hx⟩⟩

/-- An object with nothing to delete, there or not yet, is there and empty. -/
theorem Keeps.vacate (h : Keeps s t) (hx : s.held x = none) :
    Keeps (s.content x (s.cells, none)) (Function.update t x (some none)) :=
  ⟨h.stands.vacate x, (kept_vacate_iff h.stands).mpr ⟨h.kept, hx⟩⟩

/-- **What an object holds can be deleted**, and then the object is empty. -/
theorem Keeps.delete (h : Keeps s t) (hx : s.objs x = some c) :
    ∃ heap, Any.delete s.cells c = some heap ∧ (∀ p, s.cells p = none → heap p = none) ∧
      Keeps (s.content x (heap, none)) (Function.update t x (some none)) := by
  cases c with
  | none => exact ⟨s.cells, rfl, fun _ hp => hp, h.vacate (held_of_objs hx)⟩
  | some p =>
    obtain ⟨v, hv, -⟩ := h.stands.deref hx
    refine ⟨Function.update s.cells p none, by rw [Any.delete, hv, Option.map_some], ?_,
      h.stands.drop hx, (kept_drop_iff hx).mpr h.kept⟩
    intro q hq
    by_cases hqp : q = p
    · rw [hqp, Function.update_self]
    · rwa [Function.update_of_ne hqp]

theorem Keeps.finish {heap : Heap β}
    (h : Keeps (s.content x (heap, none)) (Function.update t x (some none))) :
    Keeps ⟨heap, Function.update s.objs x none⟩ (Function.update t x none) := by
  have hs : (s.content x (heap, none)).remove x = ⟨heap, Function.update s.objs x none⟩ := by
    simp [remove, content, give]
  have hheld : (s.content x (heap, none)).held x = none := by
    rw [content, held_give, Function.update_self]
  rw [← hs]
  constructor
  · simpa using h.stands.remove x
  · exact (kept_remove_iff h.stands).mpr ⟨h.kept, hheld⟩

/-- **An assignment**: the new placeholder comes first, the old one goes then. -/
theorem Keeps.replace (h : Keeps s t) (hx : s.objs x = some c) {p : ℕ} (hp : s.cells p = none)
    (v : Placeholder β) :
    ∃ heap, Any.delete (Any.newPlaceholder s.cells p v) c = some heap ∧
      Keeps (s.content x (heap, some p)) (Function.update t x (some (some v))) := by
  obtain ⟨heap, hdel, hfree, hst⟩ := h.delete hx
  refine ⟨Any.newPlaceholder heap p v, ?_, ?_⟩
  · -- the two are at different addresses
    cases c with
    | none =>
      obtain rfl := Option.some.inj hdel
      rfl
    | some q =>
      obtain ⟨w, hw, -⟩ := h.stands.deref hx
      have hne : q ≠ p := by
        rintro rfl
        exact absurd (hp.symm.trans hw) (by simp)
      rw [Any.delete, hw, Option.map_some, Option.some.injEq] at hdel
      rw [Any.delete, Any.newPlaceholder, Function.update_of_ne hne, hw, Option.map_some, ← hdel,
        Any.newPlaceholder, Function.update_comm hne]
  · have hnew := hst.acquire (x := x) (p := p) ?_ (hfree p hp) v
    · simpa [content, give] using hnew
    · rw [content, held_give, Function.update_self]

theorem Keeps.swap (h : Keeps s t) {d : Option ℕ} (hx : s.objs x = some c)
    (hy : s.objs y = some d) :
    Keeps ((s.content x (s.cells, d)).content y (s.cells, c)) (t ∘ Equiv.swap x y) := by
  have hs : (s.content x (s.cells, d)).content y (s.cells, c) =
      ⟨s.cells, s.objs ∘ Equiv.swap x y⟩ := by
    refine congrArg (Handles.mk s.cells) (funext fun z => ?_)
    by_cases hzy : z = y
    · simp [content, give, hzy, hx]
    · by_cases hzx : z = x
      · subst hzx
        simp [content, give, hzy, hy]
      · simp [content, give, hzx, hzy, Equiv.swap_apply_of_ne_of_ne]
  rw [hs]
  exact ⟨h.stands.exchange _, (kept_exchange_iff _).mpr h.kept⟩

/-- **A copy**, into an object that is made for it or that holds something already. -/
theorem Keeps.copy (h : Keeps s t) {other : Option ℕ} (hy : s.objs y = some other) {mem : Option ℕ}
    (hmem : ∀ p ∈ mem, (s.cells p).isNone) :
    other.isSome ∧ mem = none ∧ t.copy x y mem = (t, .badAlloc) ∨
    other = none ∧ t.copy x y mem = (Function.update t x (some none), .done) ∨
    ∃ p q v, other = some q ∧ mem = some p ∧ s.cells p = none ∧ s.cells q = some v ∧
      t.copy x y mem = (Function.update t x (some (some v)), .done) := by
  cases other with
  | none =>
    have hjoin : (t y).join = none := h.stands.content hy
    refine Or.inr (Or.inl ⟨rfl, ?_⟩)
    rw [Values.copy, hjoin]
    simp
  | some q =>
    obtain ⟨v, hv, hyv⟩ := h.stands.deref hy
    cases mem with
    | none => exact Or.inl ⟨rfl, rfl, by rw [Values.copy, hyv]; simp⟩
    | some p =>
      refine Or.inr (Or.inr ⟨p, q, v, rfl, rfl, Option.isNone_iff_eq_none.mp (hmem p rfl), hv, ?_⟩)
      rw [Values.copy, hyv]
      simp

end Moves

/-! ### One operation -/

variable [DecidableEq τ]

theorem cast_isSome {ty : τ} {v : Placeholder β} : (Any.cast ty v).isSome ↔ v.type = ty := by
  unfold Any.cast
  split <;> simp [*]

variable [DecidableEq ν]

/-- A value that is changed in place is changed for its own object alone. -/
theorem Keeps.put (h : Keeps s t) (hx : s.objs x = some c) (ty : τ) (val : β ty) :
    ∃ heap, Any.put s.cells ty val c = some heap ∧
      Keeps { s with cells := heap } (t.op (.put x ty val)).1 := by
  cases c with
  | none =>
    have hnone : (t x).join = none := h.stands.content hx
    exact ⟨s.cells, rfl, by simpa [Values.op, hnone] using h⟩
  | some p =>
    obtain ⟨v, hv, hjoin⟩ := h.stands.deref hx
    have hcast : ((t x).join.bind (Any.cast ty)).isSome ↔ v.type = ty := by
      rw [hjoin, Option.bind_some, cast_isSome]
    by_cases hty : v.type = ty
    · refine ⟨Function.update s.cells p (some ⟨ty, val⟩), by simp [Any.put, hv, hty], ?_,
        h.kept.write hx⟩
      rw [Values.op, if_pos (hcast.mpr hty)]
      exact h.stands.write hx ⟨ty, val⟩
    · refine ⟨s.cells, by simp [Any.put, hv, hty], ?_⟩
      rw [Values.op, if_neg fun hs => hty (hcast.mp hs)]
      exact h

/-- **One operation**: it comes to its end, it answers what a plain value answers, and the state
behind it stands for the plain values behind it. -/
theorem any_simulates : Simulates (op (β := β) (ν := ν)) Values.op Keeps Admitted := by
  constructor
  intro s t o h hg
  cases o with
  | make x => exact ⟨_, rfl, h.vacate (held_of_absent hg)⟩
  | makeVal x mem v =>
    cases mem with
    | none => exact ⟨s, rfl, h⟩
    | some p =>
      have hp := Option.isNone_iff_eq_none.mp (hg.2 p rfl)
      exact ⟨_, rfl, h.acquire (held_of_absent hg.1) hp v⟩
  | makeCopy x y mem =>
    obtain ⟨hx, hy, hmem⟩ := hg
    obtain ⟨other, ho, -⟩ := h.stands.exists_objs hy
    rcases h.copy (x := x) ho hmem with ⟨hsome, rfl, hc⟩ | ⟨rfl, hc⟩ |
      ⟨p, q, v, rfl, rfl, hp, hq, hc⟩
    · obtain ⟨q, rfl⟩ := Option.isSome_iff_exists.mp hsome
      refine ⟨s, by simp [op, ho, Values.op, hc], ?_⟩
      rw [Values.op, hc]
      exact h
    · refine ⟨s.content x (s.cells, none), by cases mem <;> simp [op, ho, Any.ofAny, Values.op, hc],
        ?_⟩
      rw [Values.op, hc]
      exact h.vacate (held_of_absent hx)
    · refine ⟨_,
        by simp only [op, ho, Any.ofAny, Values.op, hc, hq, Option.bind_some, Option.map_some,
        Option.getD_some]; rfl, ?_⟩
      rw [Values.op, hc]
      exact h.acquire (held_of_absent hx) hp v
  | assign x y mem =>
    obtain ⟨hx, hy, hmem⟩ := hg
    obtain ⟨this, ht, -⟩ := h.stands.exists_objs hx
    obtain ⟨other, ho, -⟩ := h.stands.exists_objs hy
    by_cases hxy : x = y
    · refine ⟨s, by simp [op, ho, hxy, Values.op], ?_⟩
      rw [Values.op, if_pos hxy]
      exact h
    rw [Values.op, if_neg hxy]
    rcases h.copy (x := x) ho hmem with ⟨hsome, rfl, hc⟩ | ⟨rfl, hc⟩ |
      ⟨p, q, v, rfl, rfl, hp, hq, hc⟩
    · obtain ⟨q, rfl⟩ := Option.isSome_iff_exists.mp hsome
      refine ⟨s, by simp [op, ht, ho, hxy, hc], ?_⟩
      rw [hc]
      exact h
    · obtain ⟨heap, hdel, -, hst⟩ := h.delete ht
      refine ⟨s.content x (heap, none), ?_, ?_⟩
      · cases mem <;> simp [op, ht, ho, hxy, Any.assign, Any.ofAny, hdel, hc]
      · rw [hc]
        exact hst
    · obtain ⟨heap, hdel, hst⟩ := h.replace ht hp v
      refine ⟨s.content x (heap, some p), ?_, ?_⟩
      · simp [op, ht, ho, hxy, Any.assign, Any.ofAny, hq, hdel, hc]
      · rw [hc]
        exact hst
  | assignVal x mem v =>
    obtain ⟨this, ht, -⟩ := h.stands.exists_objs hg.1
    cases mem with
    | none => exact ⟨s, by simp [op, ht, Values.op, Values.store], h⟩
    | some p =>
      obtain ⟨heap, hdel, hst⟩ := h.replace ht (Option.isNone_iff_eq_none.mp (hg.2 p rfl)) v
      exact ⟨s.content x (heap, some p),
        by simp [op, ht, Any.assignVal, Any.ofVal, hdel, Values.op, Values.store],
        hst⟩
  | swap x y =>
    obtain ⟨c, hc, -⟩ := h.stands.exists_objs hg.1
    obtain ⟨d, hd, -⟩ := h.stands.exists_objs hg.2
    exact ⟨_, by simp [op, hc, hd, Values.op], h.swap hc hd⟩
  | get x ty =>
    obtain ⟨c, hc, hjoin⟩ := h.stands.exists_objs hg
    refine ⟨s, ?_, h⟩
    cases c with
    | none => simp [op, hc, Any.get, Values.op, hjoin]
    | some p =>
      obtain ⟨v, hv, hjv⟩ := h.stands.deref hc
      simp [op, hc, Any.get, Values.op, hjv, hv]
  | put x ty val =>
    obtain ⟨c, hc, -⟩ := h.stands.exists_objs hg
    obtain ⟨heap, hput, hst⟩ := h.put hc ty val
    exact ⟨{ s with cells := heap }, by simp [op, hc, hput, Values.op], hst⟩
  | hasValue x =>
    obtain ⟨c, hc, -⟩ := h.stands.exists_objs hg
    refine ⟨s, ?_, h⟩
    have hsome := h.stands.exclusive.view_isSome x
    rw [← h.stands.join, held_of_objs hc] at hsome
    simp [op, hc, Any.hasValue, Values.op, hsome]
  | type x =>
    obtain ⟨c, hc, hjoin⟩ := h.stands.exists_objs hg
    refine ⟨s, ?_, h⟩
    cases c with
    | none => simp [op, hc, Any.type, Values.op, hjoin]
    | some p =>
      obtain ⟨v, hv, hjv⟩ := h.stands.deref hc
      simp [op, hc, Any.type, Values.op, hjv, hv]
  | reset x =>
    obtain ⟨c, hc, -⟩ := h.stands.exists_objs hg
    obtain ⟨heap, hdel, -, hst⟩ := h.delete hc
    exact ⟨s.content x (heap, none), by simp [op, hc, Any.reset, hdel, Values.op], hst⟩
  | destroy x =>
    obtain ⟨c, hc, -⟩ := h.stands.exists_objs hg
    obtain ⟨heap, hdel, -, hst⟩ := h.delete hc
    refine ⟨_, by simp only [op, hc, hdel, Values.op, Option.bind_some, Option.map_some]; rfl, ?_⟩
    exact hst.finish

/-! ### Whole programs -/

instance (s : AnyState β ν) (o : AnyOp β ν) : Decidable (s.Admitted o) := by
  cases o with
  | make | get | put | hasValue | type | reset | destroy =>
    exact inferInstanceAs (Decidable (_ = _))
  | makeVal | makeCopy | assign | assignVal | swap => exact inferInstanceAs (Decidable (_ ∧ _))

/-- **An `Any` is a value.**  Along any program that keeps to the lifetimes of its objects, whatever
addresses the allocator gives out and whenever it runs out of memory, no operation follows or
deletes a pointer with nothing behind it, every answer is the one a plain value gives, and every
placeholder alive is the content of exactly one object. -/
theorem any_is_value (ops : List (AnyOp β ν))
    (h : Admits op Admitted Handles.empty ops) :
    ∀ pre, pre <+: ops → ∃ s,
      runOps op Handles.empty pre = some (s, (specOps Values.op (fun _ => none) pre).2) ∧
      (∀ x, (specOps Values.op (fun _ => none) pre).1 x = (s.objs x).map fun c => c.bind s.cells) ∧
      (∀ x p, s.objs x = some (some p) → (s.cells p).isSome) ∧
      ∀ p, (s.cells p).isSome → ∃! x, s.objs x = some (some p) := by
  intro pre hp
  obtain ⟨s, hrun, hst⟩ := any_simulates.runOps keeps_empty (h.of_prefix hp)
  refine ⟨s, hrun, hst.stands.contents, ?_, ?_⟩
  · intro x p hx
    exact hst.stands.exclusive.live (held_eq_some.mpr hx)
  · intro p hlive
    obtain ⟨x, hx⟩ := hst.kept p hlive
    refine ⟨x, held_eq_some.mp hx, ?_⟩
    intro y hy
    exact hst.stands.exclusive.alone (held_eq_some.mpr hy) hx

/-- A copy that is changed without the original, a swap, an address that is given out twice, an
assignment that runs out of memory. -/
theorem any_is_value_twelve :
    ∃ s, runOps op (Handles.empty : AnyState (fun _ : Bool => ℕ) ℕ) [.make 0,
    .makeVal 1 (some 5) ⟨true, 7⟩, .assign 0 1 (some 6), .put 0 true 9, .get 1 true,
    .assign 0 1 none,
    .get 0 false, .swap 0 1, .destroy 0, .makeCopy 2 1 (some 5), .reset 1, .get 2 true] =
      some (s, [.done, .done, .done, .done, .got true (some 7), .badAlloc, .got false none, .done,
        .done, .done, .done, .got true (some 9)]) := by
  obtain ⟨s, hrun, -⟩ := any_is_value (β := fun _ : Bool => ℕ) (ν := ℕ) [.make 0,
    .makeVal 1 (some 5) ⟨true, 7⟩, .assign 0 1 (some 6), .put 0 true 9, .get 1 true,
    .assign 0 1 none,
    .get 0 false, .swap 0 1, .destroy 0, .makeCopy 2 1 (some 5), .reset 1, .get 2 true]
    (by decide) _
    List.prefix_rfl
  exact ⟨s, hrun⟩

end AnyState

end Flux
