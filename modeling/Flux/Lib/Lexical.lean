import Mathlib.Data.List.DropRight

/-!
# Walking a tree of names

A position in a tree is the list of names that leads to it from the root.  A move goes
up one, which at the root changes nothing, or down into a name.  `walk` follows a
list of moves from a position.

`net` reads the moves on their own: how far they go up in all once every later step up is cancelled
against a step down before it, and the names they then go down.  `walk_eq_net` says this is all a
walk depends on, and `prefix_walk_iff` answers when a walk from `s` ends below `s`: it must come
back down the names it went up.  `depth` only counts, and `net_pos_iff` says that the count falls
below zero on the way exactly when a walk goes above its start.
-/

namespace Flux.Lib

variable {α : Type*}

inductive Move (α : Type*)
  | up
  | into (a : α)

def walk : List α → List (Move α) → List α
  | s, [] => s
  | s, .up :: ms => walk s.dropLast ms
  | s, .into a :: ms => walk (s ++ [a]) ms

/-- The moves as so many steps up and then a list of names down, from what has been read of them
so far. -/
def netFrom : Nat × List α → List (Move α) → Nat × List α
  | kd, [] => kd
  | (k, d), .up :: ms => if d = [] then netFrom (k + 1, []) ms else netFrom (k, d.dropLast) ms
  | (k, d), .into a :: ms => netFrom (k, d ++ [a]) ms

def net (ms : List (Move α)) : Nat × List α := netFrom (0, []) ms

theorem rdrop_dropLast (s : List α) (k : Nat) : (s.rdrop k).dropLast = s.rdrop (k + 1) := by
  rw [List.rdrop, List.rdrop, List.dropLast_eq_take, List.take_take, List.length_take]
  congr 1
  omega

theorem walk_netFrom (s : List α) (k : Nat) (d : List α) (ms : List (Move α)) :
    walk (s.rdrop k ++ d) ms = s.rdrop (netFrom (k, d) ms).1 ++ (netFrom (k, d) ms).2 := by
  induction ms generalizing k d with
  | nil => rfl
  | cons m ms ih =>
    cases m with
    | up =>
      rw [walk, netFrom]
      by_cases hd : d = []
      · subst hd
        rw [if_pos rfl, List.append_nil, rdrop_dropLast, ← List.append_nil (s.rdrop (k + 1)), ih]
      · rw [if_neg hd, List.dropLast_append_of_ne_nil hd, ih]
    | into a =>
      rw [walk, netFrom, List.append_assoc, ih]

/-- **A walk goes up and then down.** -/
theorem walk_eq_net (s : List α) (ms : List (Move α)) :
    walk s ms = s.rdrop (net ms).1 ++ (net ms).2 := by
  have h := walk_netFrom s 0 [] ms
  rwa [List.rdrop_zero, List.append_nil] at h

theorem prefix_rdrop_append_iff (s d : List α) (k : Nat) :
    s <+: s.rdrop k ++ d ↔ s.rtake k <+: d := by
  conv_lhs => rw [← show s.rdrop k ++ s.rtake k = s from List.take_append_drop _ s]
  rw [show (s.rdrop k ++ s.rtake k).rdrop k = s.rdrop k by
    rw [show s.rdrop k ++ s.rtake k = s from List.take_append_drop _ s]]
  exact List.prefix_append_right_inj _

/-- **A walk from `s` ends below `s`** exactly when the names it finally goes down begin with the
ones it went up. -/
theorem prefix_walk_iff (s : List α) (ms : List (Move α)) :
    s <+: walk s ms ↔ s.rtake (net ms).1 <+: (net ms).2 := by
  rw [walk_eq_net, prefix_rdrop_append_iff]

theorem rdrop_append_singleton (i : List α) (x : α) {k : Nat} (hk : 0 < k) :
    (i ++ [x]).rdrop k = i.rdrop (k - 1) := by
  obtain ⟨j, rfl⟩ : ∃ j, k = j + 1 := ⟨k - 1, by omega⟩
  rw [List.rdrop_concat_succ, Nat.add_sub_cancel]

/-- **A walk that starts next to `s`**, at a sibling of its last name, ends below `s` exactly when
it steps up at least once and then comes back down the names of `s`. -/
theorem prefix_walk_sibling_iff {i : List α} {l x : α} (hx : l ≠ x) (ms : List (Move α)) :
    i ++ [l] <+: walk (i ++ [x]) ms ↔
      0 < (net ms).1 ∧ (i ++ [l]).rtake (net ms).1 <+: (net ms).2 := by
  rw [walk_eq_net]
  by_cases hk : 0 < (net ms).1
  · rw [rdrop_append_singleton i x hk, ← rdrop_append_singleton i l hk, prefix_rdrop_append_iff]
    simp [hk]
  · have h0 : (net ms).1 = 0 := by omega
    rw [h0, List.rdrop_zero]
    simp [hx]

/-! ### Counting -/

def depth : List (Move α) → Int
  | [] => 0
  | .up :: ms => depth ms - 1
  | .into _ :: ms => depth ms + 1

theorem le_netFrom (k : Nat) (d : List α) (ms : List (Move α)) : k ≤ (netFrom (k, d) ms).1 := by
  induction ms generalizing k d with
  | nil => exact le_rfl
  | cons m ms ih =>
    cases m with
    | up =>
      rw [netFrom]
      split
      · have h := ih (k + 1) []
        omega
      · exact ih k d.dropLast
    | into a => exact ih k (d ++ [a])

/-- Where the empty part has not got a property, a part that has it begins with the first
element. -/
theorem exists_prefix_cons {β : Type*} {P : List β → Prop} (hnil : ¬ P []) (b : β) (bs : List β) :
    (∃ pre, pre <+: b :: bs ∧ P pre) ↔ ∃ pre, pre <+: bs ∧ P (b :: pre) := by
  constructor
  · rintro ⟨pre, hpre, hp⟩
    rcases List.prefix_cons_iff.mp hpre with rfl | ⟨pre', rfl, hpre'⟩
    · exact absurd hp hnil
    · exact ⟨pre', hpre', hp⟩
  · rintro ⟨pre, hpre, hp⟩
    exact ⟨b :: pre, List.cons_prefix_cons.mpr ⟨rfl, hpre⟩, hp⟩

/-- From `d` names below, a step further up than all of them shows as a count below `-d.length`. -/
theorem lt_netFrom_iff (k : Nat) (d : List α) (ms : List (Move α)) :
    k < (netFrom (k, d) ms).1 ↔ ∃ pre, pre <+: ms ∧ depth pre < -(d.length : Int) := by
  have hnil : ∀ d : List α, ¬ depth ([] : List (Move α)) < -(d.length : Int) := by
    intro d
    rw [depth]
    omega
  induction ms generalizing k d with
  | nil =>
    refine iff_of_false (lt_irrefl k) ?_
    rintro ⟨pre, hpre, hlt⟩
    rw [List.prefix_nil.mp hpre] at hlt
    exact hnil d hlt
  | cons m ms ih =>
    rw [exists_prefix_cons (hnil d)]
    cases m with
    | up =>
      rw [netFrom]
      by_cases hd : d = []
      · subst hd
        have hle := le_netFrom (k + 1) [] ms
        have hneg : depth [(.up : Move α)] < -(([] : List α).length : Int) := by
          simp [depth]
        rw [if_pos rfl]
        exact iff_of_true (by omega) ⟨[], List.nil_prefix, hneg⟩
      · have hlen := List.length_pos_iff.mpr hd
        have hdrop : d.dropLast.length = d.length - 1 := List.length_dropLast
        rw [if_neg hd]
        refine (ih k d.dropLast).trans (exists_congr fun pre => and_congr_right fun _ => ?_)
        rw [depth]
        omega
    | into a =>
      refine (ih k (d ++ [a])).trans (exists_congr fun pre => and_congr_right fun _ => ?_)
      rw [depth, List.length_append, List.length_singleton]
      omega

/-- **A walk goes above its start** exactly when some part of it, read from the left, goes up more
often than down. -/
theorem net_pos_iff (ms : List (Move α)) : 0 < (net ms).1 ↔ ∃ pre, pre <+: ms ∧ depth pre < 0 := by
  simpa [net] using lt_netFrom_iff 0 [] ms

end Flux.Lib
