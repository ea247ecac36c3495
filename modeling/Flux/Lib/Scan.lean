import Mathlib.Data.List.Infix
import Mathlib.Data.List.TakeWhile

/-!
# Scanning a list

Two searches a byte-stream reader is built on.  `splitThrough p` cuts a list after
the first element with `p`, that element included; `find sub` is the position of
the first occurrence of `sub` as a contiguous block.

What a stream reader needs of the first is that more input behind the list does not
move a cut that is already there (`splitThrough_append_some`), and that without a cut
the scan simply goes on in the new input (`splitThrough_append_none`).

`cut sep` repeats the second search behind each block it finds, and `blocks sep` are the pieces of
that cut which are not empty.  `cut_join` puts the list together again.
-/

namespace Flux.Lib

variable {α : Type*}

/-! ### Cutting after an element -/

/-- The list through its first element with `p`, and what follows it. -/
def splitThrough (p : α → Bool) : List α → Option (List α × List α)
  | [] => none
  | x :: xs => if p x then some ([x], xs) else (splitThrough p xs).map fun c => (x :: c.1, c.2)

variable {p : α → Bool}

theorem splitThrough_none_iff {u : List α} : splitThrough p u = none ↔ ∀ x ∈ u, p x = false := by
  induction u with
  | nil => simp [splitThrough]
  | cons x xs ih =>
    rw [splitThrough]
    split <;> simp_all

theorem splitThrough_eq {u l r : List α} (h : splitThrough p u = some (l, r)) : u = l ++ r := by
  induction u generalizing l with
  | nil => simp [splitThrough] at h
  | cons x xs ih =>
    rw [splitThrough] at h
    split at h
    · simp only [Option.some.injEq, Prod.mk.injEq] at h
      obtain ⟨rfl, rfl⟩ := h
      rfl
    · simp only [Option.map_eq_some_iff, Prod.mk.injEq, Prod.exists] at h
      obtain ⟨l', r', h', rfl, rfl⟩ := h
      rw [ih h', List.cons_append]

theorem splitThrough_ne_nil {u l r : List α} (h : splitThrough p u = some (l, r)) : l ≠ [] := by
  cases u with
  | nil => simp [splitThrough] at h
  | cons x xs =>
    rw [splitThrough] at h
    split at h
    · simp only [Option.some.injEq, Prod.mk.injEq] at h
      exact h.1 ▸ List.cons_ne_nil _ _
    · simp only [Option.map_eq_some_iff, Prod.mk.injEq, Prod.exists] at h
      obtain ⟨l', r', _, rfl, _⟩ := h
      exact List.cons_ne_nil _ _

theorem splitThrough_append_some {u l r : List α} (h : splitThrough p u = some (l, r))
    (v : List α) : splitThrough p (u ++ v) = some (l, r ++ v) := by
  induction u generalizing l with
  | nil => simp [splitThrough] at h
  | cons x xs ih =>
    rw [splitThrough] at h
    rw [List.cons_append, splitThrough]
    split at h
    · rename_i hx
      simp only [Option.some.injEq, Prod.mk.injEq] at h
      obtain ⟨rfl, rfl⟩ := h
      rw [if_pos hx]
    · rename_i hx
      simp only [Option.map_eq_some_iff, Prod.mk.injEq, Prod.exists] at h
      obtain ⟨l', r', h', rfl, rfl⟩ := h
      rw [if_neg hx, ih h', Option.map_some]

theorem splitThrough_append_none {u : List α} (h : splitThrough p u = none) (v : List α) :
    splitThrough p (u ++ v) = (splitThrough p v).map fun c => (u ++ c.1, c.2) := by
  induction u with
  | nil => simp
  | cons x xs ih =>
    rw [splitThrough_none_iff] at h
    have hx : ¬ p x = true := by simp [h x (by simp)]
    have hxs : splitThrough p xs = none :=
      splitThrough_none_iff.mpr fun y hy => h y (List.mem_cons_of_mem x hy)
    rw [List.cons_append, splitThrough, if_neg hx, ih hxs, Option.map_map]
    rfl

theorem splitThrough_line {l : List α} {a : α} (hl : ∀ x ∈ l, p x = false) (ha : p a = true)
    (r : List α) : splitThrough p (l ++ a :: r) = some (l ++ [a], r) := by
  rw [splitThrough_append_none (splitThrough_none_iff.mpr hl), splitThrough, if_pos ha,
    Option.map_some]

/-- A list is cut before the first occurrence of an element in one way. -/
theorem append_cons_inj_first {a : α} {l l' r r' : List α} (hl : a ∉ l) (hl' : a ∉ l')
    (h : l ++ a :: r = l' ++ a :: r') : l = l' ∧ r = r' := by
  induction l generalizing l' with
  | nil =>
    cases l' with
    | nil => exact ⟨rfl, (List.cons.inj h).2⟩
    | cons x l' => exact absurd (List.cons.inj h).1 (by simp at hl'; exact hl'.1)
  | cons x l ih =>
    cases l' with
    | nil => exact absurd (List.cons.inj h).1.symm (by simp at hl; exact hl.1)
    | cons y l' =>
      obtain ⟨rfl, htail⟩ := List.cons.inj h
      obtain ⟨rfl, hr⟩ := ih (fun hm => hl (List.mem_cons_of_mem _ hm))
        (fun hm => hl' (List.mem_cons_of_mem _ hm)) htail
      exact ⟨rfl, hr⟩

/-- And before the last. -/
theorem append_cons_inj_last {a : α} {l l' r r' : List α} (hr : a ∉ r) (hr' : a ∉ r')
    (h : l ++ a :: r = l' ++ a :: r') : l = l' ∧ r = r' := by
  have hrev := congrArg List.reverse h
  simp only [List.reverse_append, List.reverse_cons, List.append_assoc,
    List.singleton_append] at hrev
  obtain ⟨hright, hleft⟩ := append_cons_inj_first (by simpa using hr) (by simpa using hr') hrev
  exact ⟨List.reverse_inj.mp hleft, List.reverse_inj.mp hright⟩

/-- Cutting what the elements produce, when one that fails the test produces something that fails
its. -/
theorem takeWhile_flatMap {β : Type*} {p : α → Bool} {q : β → Bool} {f : α → List β} {u : List α}
    (hpos : ∀ x ∈ u, p x = true → ∀ y ∈ f x, q y = true)
    (hneg : ∀ x ∈ u, p x = false → ∃ y ys, f x = y :: ys ∧ q y = false) :
    (u.flatMap f).takeWhile q = (u.takeWhile p).flatMap f := by
  induction u with
  | nil => rfl
  | cons x xs ih =>
    have hxs := ih (fun y hy => hpos y (List.mem_cons_of_mem x hy))
      fun y hy => hneg y (List.mem_cons_of_mem x hy)
    rw [List.flatMap_cons]
    cases hp : p x with
    | true =>
      have hall := hpos x List.mem_cons_self hp
      rw [List.takeWhile_append_of_pos hall, List.takeWhile_cons_of_pos hp, hxs, List.flatMap_cons]
    | false =>
      obtain ⟨y, ys, hf, hq⟩ := hneg x List.mem_cons_self hp
      rw [hf, List.cons_append, List.takeWhile_cons_of_neg (by simp [hq]),
        List.takeWhile_cons_of_neg (by simp [hp])]
      rfl

/-- A cut that has been made stays where it is. -/
theorem takeWhile_append_of_mem {u v : List α} (h : ∃ x ∈ u, p x = false) :
    (u ++ v).takeWhile p = u.takeWhile p := by
  obtain ⟨x, hx, hp⟩ := h
  rw [List.takeWhile_append, if_neg]
  intro hlen
  have hall := List.takeWhile_eq_self_iff.mp ((List.takeWhile_prefix p).eq_of_length hlen)
  exact absurd ((hall x hx).symm.trans hp) (by simp)

/-- The same cut, made by position. -/
theorem splitThrough_findIdx (u : List α) :
    splitThrough p u = (u.findIdx? p).map fun i => (u.take (i + 1), u.drop (i + 1)) := by
  induction u with
  | nil => simp [splitThrough]
  | cons x xs ih =>
    rw [splitThrough, List.findIdx?_cons, ih]
    split <;> simp [Option.map_map, Function.comp_def]

/-! ### Searching for a block -/

def find [DecidableEq α] (sub : List α) : List α → Option Nat
  | [] => if sub = [] then some 0 else none
  | x :: xs => if sub <+: x :: xs then some 0 else (find sub xs).map (· + 1)

variable [DecidableEq α] {sub : List α}

/-- The first occurrence is at the end of `k` when none starts inside `k`. -/
theorem find_append {k v : List α} (h : ∀ i < k.length, ¬ sub <+: (k ++ (sub ++ v)).drop i) :
    find sub (k ++ (sub ++ v)) = some k.length := by
  induction k with
  | nil =>
    cases hs : sub ++ v with
    | nil =>
      rw [List.nil_append, find, if_pos (List.append_eq_nil_iff.mp hs).1]
      rfl
    | cons x xs =>
      rw [List.nil_append, find, if_pos (hs ▸ List.prefix_append sub v)]
      rfl
  | cons x k ih =>
    rw [List.cons_append, find, if_neg (by simpa using h 0 (by simp)), ih]
    · simp
    · intro i hi
      simpa using h (i + 1) (by simpa using hi)

theorem find_some {u : List α} {i : Nat} (h : find sub u = some i) :
    ∃ l v, u = l ++ (sub ++ v) ∧ l.length = i := by
  induction u generalizing i with
  | nil =>
    rw [find] at h
    split at h
    · rename_i hs
      exact ⟨[], [], by rw [hs]; rfl, Option.some.inj h⟩
    · exact absurd h (by simp)
  | cons x xs ih =>
    rw [find] at h
    split at h
    · rename_i hp
      obtain ⟨v, hv⟩ := hp
      exact ⟨[], v, hv.symm, Option.some.inj h⟩
    · obtain ⟨j, hj, rfl⟩ := Option.map_eq_some_iff.mp h
      obtain ⟨l, v, rfl, rfl⟩ := ih hj
      exact ⟨x :: l, v, rfl, rfl⟩

theorem find_first {u : List α} {i : Nat} (h : find sub u = some i) :
    ∀ j < i, ¬ sub <+: u.drop j := by
  induction u generalizing i with
  | nil =>
    rw [find] at h
    split at h
    · obtain rfl := Option.some.inj h
      exact fun j hj => absurd hj (Nat.not_lt_zero j)
    · exact absurd h (by simp)
  | cons x xs ih =>
    rw [find] at h
    split at h
    · obtain rfl := Option.some.inj h
      exact fun j hj => absurd hj (Nat.not_lt_zero j)
    · rename_i hno
      obtain ⟨i, hi, rfl⟩ := Option.map_eq_some_iff.mp h
      intro j hj
      cases j with
      | zero => exact hno
      | succ j => exact ih hi j (Nat.lt_of_succ_lt_succ hj)

/-! ### Cutting at every block -/

/-- A list cut at the occurrences of `sep`, from left to right and without overlap: the pieces that
end at one, and what is behind the last. -/
def cut (sep : List α) (hsep : 0 < sep.length) (u : List α) : List (List α) × List α :=
  match _h : find sep u with
  | none => ([], u)
  | some i =>
    (u.take i :: (cut sep hsep (u.drop (i + sep.length))).1,
      (cut sep hsep (u.drop (i + sep.length))).2)
  termination_by u.length
  decreasing_by
    all_goals
      obtain ⟨l, v, rfl, rfl⟩ := find_some ‹_›
      simp only [List.length_drop, List.length_append]
      omega

def blocks (sep : List α) (hsep : 0 < sep.length) (u : List α) : List (List α) :=
  ((cut sep hsep u).1 ++ [(cut sep hsep u).2]).filter (· ≠ [])

variable {sep : List α} {hsep : 0 < sep.length}

theorem cut_none {u : List α} (h : find sep u = none) : cut sep hsep u = ([], u) := by
  rw [cut]
  split <;> simp_all

theorem cut_some {l v : List α} (h : find sep (l ++ (sep ++ v)) = some l.length) :
    cut sep hsep (l ++ (sep ++ v)) = (l :: (cut sep hsep v).1, (cut sep hsep v).2) := by
  have hdrop : (l ++ (sep ++ v)).drop (l.length + sep.length) = v := by
    rw [← List.append_assoc, ← List.length_append, List.drop_left]
  rw [cut]
  split
  · rename_i hn
    exact absurd (hn.symm.trans h) (by simp)
  · rename_i i hi
    obtain rfl : i = l.length := Option.some.inj (hi.symm.trans h)
    rw [hdrop, List.take_left]

theorem cut_induction (sep : List α) {P : List α → Prop} (hsep : 0 < sep.length)
    (none : ∀ u, find sep u = none → P u)
    (some : ∀ l v, find sep (l ++ (sep ++ v)) = some l.length → P v → P (l ++ (sep ++ v)))
    (u : List α) : P u := by
  induction hn : u.length using Nat.strong_induction_on generalizing u with
  | _ n ih =>
    cases h : find sep u with
    | none => exact none u h
    | some i =>
      obtain ⟨l, v, rfl, rfl⟩ := find_some h
      refine some l v h (ih v.length ?_ v rfl)
      rw [← hn, List.length_append, List.length_append]
      omega

/-- **Nothing is lost in a cut.** -/
theorem cut_join (u : List α) :
    (cut sep hsep u).1.flatMap (· ++ sep) ++ (cut sep hsep u).2 = u := by
  induction u using cut_induction sep hsep with
  | none u h => rw [cut_none h]; rfl
  | some l v h ih =>
    rw [cut_some h, List.flatMap_cons, List.append_assoc, ih, List.append_assoc]

/-- A cut starts its last piece further on than there are pieces before it. -/
theorem cut_lt (u : List α) (h : (cut sep hsep u).1 ≠ []) :
    ((cut sep hsep u).1.filter (· ≠ [])).length < u.length - (cut sep hsep u).2.length := by
  have hcount : ∀ ps : List (List α),
      (ps.filter (· ≠ [])).length + ps.length ≤ (ps.flatMap (· ++ sep)).length := by
    intro ps
    induction ps with
    | nil => exact le_rfl
    | cons p ps ih =>
      rw [List.flatMap_cons, List.length_append, List.length_append, List.length_cons]
      by_cases hp : p = []
      · rw [List.filter_cons_of_neg (by simpa using hp)]
        omega
      · have hpos := List.length_pos_iff.mpr hp
        rw [List.filter_cons_of_pos (by simpa using hp), List.length_cons]
        omega
  have hjoin : ((cut sep hsep u).1.flatMap (· ++ sep) ++ (cut sep hsep u).2).length = u.length :=
    congrArg List.length (cut_join u)
  rw [List.length_append] at hjoin
  have hle := hcount (cut sep hsep u).1
  have hpos := List.length_pos_iff.mpr h
  omega

end Flux.Lib
