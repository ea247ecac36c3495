import Mathlib.Data.List.Basic

/-!
# Regular expressions with capture groups

Expressions over the elements of a list, and the backtracking matcher for them: `run` lists every
way to match a prefix, in the order in which a backtracking engine tries them, with the groups
captured on the way and what is left of the list.  `fullMatch` takes the first that leaves nothing.

`Matches` says what an expression means without an engine.  `mem_run_iff` is the connection of the
two, and `fullMatch_eq` is what a user of it needs: where all matches of a list capture the same,
that is the answer, whatever the order.
-/

namespace Flux.Lib

/-- Repetition is of one element at a time, and greedy. -/
inductive Regex (α : Type*)
  | eps
  | char (p : α → Bool)
  | seq (r s : Regex α)
  | alt (r s : Regex α)
  | many (p : α → Bool)
  | group (n : Nat) (r : Regex α)

abbrev Captures (α : Type*) := List (Nat × List α)

/-- What a group captured last; nothing for a group that took no part. -/
def Captures.get {α : Type*} (cs : Captures α) (n : Nat) : List α :=
  ((cs.reverse.find? (·.1 == n)).map (·.2)).getD []

namespace Regex

variable {α : Type*}

/-- What is left behind a greedy repetition, the longest match first. -/
def manyRests (p : α → Bool) : List α → List (List α)
  | [] => [[]]
  | a :: u => if p a then manyRests p u ++ [a :: u] else [a :: u]

def run : Regex α → List α → List (Captures α × List α)
  | eps, u => [([], u)]
  | char _, [] => []
  | char p, a :: u => if p a then [([], u)] else []
  | seq r s, u => (r.run u).flatMap fun m => (s.run m.2).map fun m' => (m.1 ++ m'.1, m'.2)
  | alt r s, u => r.run u ++ s.run u
  | many p, u => (manyRests p u).map fun v => ([], v)
  | group n r, u => (r.run u).map fun m => (m.1 ++ [(n, u.take (u.length - m.2.length))], m.2)

/-- `regex_match`: the captures of the first match of the whole list. -/
def fullMatch (r : Regex α) (u : List α) : Option (Captures α) :=
  ((r.run u).find? (·.2.isEmpty)).map (·.1)

def Matches : Regex α → List α → Captures α → Prop
  | eps, u, cs => u = [] ∧ cs = []
  | char p, u, cs => ∃ a, p a = true ∧ u = [a] ∧ cs = []
  | seq r s, u, cs => ∃ v w c d, r.Matches v c ∧ s.Matches w d ∧ u = v ++ w ∧ cs = c ++ d
  | alt r s, u, cs => r.Matches u cs ∨ s.Matches u cs
  | many p, u, cs => (∀ a ∈ u, p a = true) ∧ cs = []
  | group n r, u, cs => ∃ c, r.Matches u c ∧ cs = c ++ [(n, u)]

/-! ### The matcher and the meaning -/

theorem mem_manyRests {p : α → Bool} {u v : List α} :
    v ∈ manyRests p u ↔ ∃ w, (∀ a ∈ w, p a = true) ∧ u = w ++ v := by
  induction u with
  | nil =>
    rw [manyRests, List.mem_singleton]
    constructor
    · rintro rfl
      exact ⟨[], by simp, rfl⟩
    · rintro ⟨w, _, h⟩
      exact (List.append_eq_nil_iff.mp h.symm).2
  | cons a u ih =>
    have hself : (∃ w, (∀ b ∈ w, p b = true) ∧ a :: u = w ++ v) ↔
        v = a :: u ∨ p a = true ∧ ∃ w, (∀ b ∈ w, p b = true) ∧ u = w ++ v := by
      constructor
      · rintro ⟨w, hw, h⟩
        cases w with
        | nil => exact Or.inl h.symm
        | cons b w =>
          obtain ⟨rfl, rfl⟩ := List.cons.inj h
          exact Or.inr
            ⟨hw _ List.mem_cons_self, w, fun b hb => hw b (List.mem_cons_of_mem _ hb), rfl⟩
      · rintro (rfl | ⟨ha, w, hw, rfl⟩)
        · exact ⟨[], by simp, rfl⟩
        · exact ⟨a :: w, by simpa [ha] using hw, rfl⟩
    rw [hself, manyRests]
    split
    · rename_i ha
      rw [List.mem_append, ih, List.mem_singleton, or_comm, and_iff_right ha]
    · rename_i ha
      rw [List.mem_singleton, or_iff_left (fun h => ha h.1)]

/-- **The matcher finds exactly the matches of a prefix.** -/
theorem mem_run_iff {r : Regex α} {u v : List α} {cs : Captures α} :
    (cs, v) ∈ r.run u ↔ ∃ w, r.Matches w cs ∧ u = w ++ v := by
  induction r generalizing u v cs with
  | eps =>
    rw [run, List.mem_singleton, Prod.mk.injEq]
    constructor
    · rintro ⟨rfl, rfl⟩
      exact ⟨[], ⟨rfl, rfl⟩, rfl⟩
    · rintro ⟨w, ⟨rfl, rfl⟩, rfl⟩
      exact ⟨rfl, rfl⟩
  | char p =>
    cases u with
    | nil =>
      refine iff_of_false (by simp [run]) ?_
      rintro ⟨w, ⟨a, _, rfl, _⟩, h⟩
      exact absurd h (by simp)
    | cons a u =>
      rw [run]
      constructor
      · intro h
        split at h
        · rename_i ha
          obtain ⟨rfl, rfl⟩ := Prod.mk.inj (List.mem_singleton.mp h)
          exact ⟨[a], ⟨a, ha, rfl, rfl⟩, rfl⟩
        · exact absurd h List.not_mem_nil
      · rintro ⟨w, ⟨b, hb, rfl, rfl⟩, h⟩
        obtain ⟨rfl, rfl⟩ := List.cons.inj h
        rw [if_pos hb]
        exact List.mem_singleton_self _
  | seq r s ihr ihs =>
    simp only [run, List.mem_flatMap, List.mem_map, Prod.exists, Prod.mk.injEq]
    constructor
    · rintro ⟨c, x, hr, d, y, hs, rfl, rfl⟩
      obtain ⟨a, ha, rfl⟩ := ihr.mp hr
      obtain ⟨b, hb, rfl⟩ := ihs.mp hs
      exact ⟨a ++ b, ⟨a, b, c, d, ha, hb, rfl, rfl⟩, (List.append_assoc a b y).symm⟩
    · rintro ⟨w, ⟨a, b, c, d, ha, hb, rfl, rfl⟩, rfl⟩
      exact ⟨c, b ++ v, ihr.mpr ⟨a, ha, List.append_assoc a b v⟩, d, v, ihs.mpr ⟨b, hb, rfl⟩,
        rfl, rfl⟩
  | alt r s ihr ihs =>
    rw [run, List.mem_append, ihr, ihs, ← exists_or]
    refine exists_congr fun w => ?_
    rw [Matches, or_and_right]
  | many p =>
    simp only [run, List.mem_map, Prod.mk.injEq, mem_manyRests]
    constructor
    · rintro ⟨x, ⟨w, hw, rfl⟩, rfl, rfl⟩
      exact ⟨w, ⟨hw, rfl⟩, rfl⟩
    · rintro ⟨w, ⟨hw, rfl⟩, rfl⟩
      exact ⟨v, ⟨w, hw, rfl⟩, rfl, rfl⟩
  | group n r ih =>
    have htake : ∀ w x : List α, (w ++ x).take ((w ++ x).length - x.length) = w := by
      intro w x
      rw [List.length_append, Nat.add_sub_cancel, List.take_left]
    simp only [run, List.mem_map, Prod.exists, Prod.mk.injEq]
    constructor
    · rintro ⟨c, x, hr, rfl, rfl⟩
      obtain ⟨w, hw, rfl⟩ := ih.mp hr
      exact ⟨w, ⟨c, hw, by rw [htake]⟩, rfl⟩
    · rintro ⟨w, ⟨c, hw, rfl⟩, rfl⟩
      exact ⟨c, v, ih.mpr ⟨w, hw, rfl⟩, by rw [htake], rfl⟩

/-- **A match that captures what every match does** is the one that is found. -/
theorem fullMatch_eq {r : Regex α} {u : List α} {cs : Captures α} (h : r.Matches u cs)
    (unique : ∀ ds, r.Matches u ds → ds = cs) : r.fullMatch u = some cs := by
  have hmem : (cs, []) ∈ r.run u := mem_run_iff.mpr ⟨u, h, (List.append_nil u).symm⟩
  have hsome : ((r.run u).find? (·.2.isEmpty)).isSome :=
    List.find?_isSome.mpr ⟨(cs, []), hmem, rfl⟩
  obtain ⟨⟨ds, v⟩, hfind⟩ := Option.isSome_iff_exists.mp hsome
  have hv : v = [] := by simpa using List.find?_some hfind
  obtain ⟨w, hw, hu⟩ := mem_run_iff.mp (List.mem_of_find?_eq_some hfind)
  rw [hv, List.append_nil] at hu
  rw [fullMatch, hfind, Option.map_some, unique ds (hu ▸ hw)]

end Regex

end Flux.Lib
