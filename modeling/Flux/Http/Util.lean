import Flux.Lib.Scan
import Flux.Http.Request

/-!
# `Util::Split` and `Util::ValidPath`

`Split` walks an offset over the source string.  Its stop test for the last piece compares
that offset with the number of strings in the array (`splitFrom_eq_cut`), so now and then the last
piece is lost.  `split_eq_blocks_iff` says when; with an array that starts empty it is a source
without any separator (`split_eq_pieces`).

`ValidPath` counts levels over the pieces of a path, one down for `".."`, one up for anything
else.
-/

namespace Flux.Util

open Lib

/-- The loop of `Split`, from an offset and what has been collected; `offset + i` is
`src.find(sep, offset)`.  It needs a separator that is not empty: on an empty one the C++ never
advances. -/
def splitFrom (src sep : Bytes) (hsep : 0 < sep.length) (offset : Nat) (arry : List Bytes) :
    List Bytes :=
  if offset < src.length then
    match find sep (src.drop offset) with
    | none => if offset = arry.length then arry else arry ++ [src.drop offset]
    | some i =>
        if offset + i = offset then splitFrom src sep hsep (offset + i + sep.length) arry
        else
          splitFrom src sep hsep (offset + i + sep.length)
            (arry ++ [(src.drop offset).take (offset + i - offset)])
  else arry
  termination_by src.length - offset

def split (src sep : Bytes) (hsep : 0 < sep.length) (arry : List Bytes) : List Bytes :=
  splitFrom src sep hsep 0 arry

def slash : UInt8 := 47

def dotdot : Bytes := ascii ['.', '.']

/-- The loop of `ValidPath`. -/
def levels : Int → List Bytes → Bool
  | _, [] => true
  | level, dir :: rest =>
      if dir = dotdot then (if level - 1 < 0 then false else levels (level - 1) rest)
      else levels (level + 1) rest

def validPath (path : Bytes) : Bool :=
  levels 0 (split path [slash] (by decide) [])

/-! ### The loop and the cut -/

/-- **What the loop of `Split` collects**: the non-empty pieces, without the last one if it starts
at an offset equal to the number of strings in the array by then. -/
theorem splitFrom_eq_cut (src sep : Bytes) (hsep : 0 < sep.length) (offset : Nat)
    (arry : List Bytes)
    (hle : offset ≤ src.length) :
    splitFrom src sep hsep offset arry =
      arry ++ (cut sep hsep (src.drop offset)).1.filter (· ≠ []) ++
        if (cut sep hsep (src.drop offset)).2 = [] ∨
            src.length - (cut sep hsep (src.drop offset)).2.length =
              arry.length + ((cut sep hsep (src.drop offset)).1.filter (· ≠ [])).length
        then [] else [(cut sep hsep (src.drop offset)).2] := by
  induction hn : src.length - offset using Nat.strong_induction_on generalizing offset arry with
  | _ n ih =>
    rw [splitFrom]
    by_cases hin : offset < src.length
    · rw [if_pos hin]
      cases hf : find sep (src.drop offset) with
      | none =>
        -- no separator left: the rest is the last piece
        have hne : src.drop offset ≠ [] := by
          intro hnil
          have := congrArg List.length hnil
          simp only [List.length_drop, List.length_nil] at this
          omega
        have hoff : src.length - (src.drop offset).length = offset := by
          rw [List.length_drop]
          omega
        simp only [cut_none hf, List.filter_nil, List.append_nil, List.length_nil,
          Nat.add_zero, hoff,
          hne, false_or]
        by_cases he : offset = arry.length <;> simp [he]
      | some i =>
        obtain ⟨l, v, hsrc, rfl⟩ := find_some hf
        have hlen : offset + l.length + sep.length ≤ src.length := by
          have := congrArg List.length hsrc
          simp only [List.length_drop, List.length_append] at this
          omega
        have hdrop : src.drop (offset + l.length + sep.length) = v := by
          rw [Nat.add_assoc, ← List.drop_drop, hsrc, ← List.append_assoc, ← List.length_append,
            List.drop_left]
        rw [hsrc] at hf
        rw [hsrc, cut_some hf]
        simp only
        by_cases hl0 : l = []
        · subst hl0
          simp only [List.length_nil, Nat.add_zero] at hlen hdrop ⊢
          rw [if_pos trivial, ih (src.length - (offset + sep.length)) (by omega) _ _ hlen rfl,
            hdrop,
            List.filter_cons_of_neg (by simp)]
        · have hpos : 0 < l.length := List.length_pos_iff.mpr hl0
          rw [if_neg (by omega), Nat.add_sub_cancel_left,
            ih (src.length - (offset + l.length + sep.length)) (by omega) _ _ hlen rfl, hdrop,
            List.take_left, List.filter_cons_of_pos (by simpa using hl0), List.length_append,
            List.length_singleton, List.length_cons, List.append_assoc arry, List.singleton_append,
            Nat.add_assoc, Nat.add_comm 1]
    · have hnil : src.drop offset = [] := List.drop_eq_nil_of_le (by omega)
      have hnone : find sep ([] : Bytes) = none := by
        rw [find, if_neg (List.ne_nil_of_length_pos hsep)]
      rw [if_neg hin, hnil, cut_none hnone]
      simp

/-- The last piece is taken when it is empty or does not start at such an offset. -/
theorem split_eq_blocks {src sep : Bytes} {hsep : 0 < sep.length} {arry : List Bytes}
    (h : (cut sep hsep src).2 = [] ∨
      src.length - (cut sep hsep src).2.length ≠
        arry.length + ((cut sep hsep src).1.filter (· ≠ [])).length) :
    split src sep hsep arry = arry ++ blocks sep hsep src := by
  rw [split, splitFrom_eq_cut src sep hsep 0 arry (Nat.zero_le _), List.drop_zero, blocks,
    List.filter_append, List.append_assoc, List.append_right_inj, List.append_right_inj]
  by_cases hrest : (cut sep hsep src).2 = []
  · simp [hrest]
  · rw [if_neg (not_or.mpr ⟨hrest, h.resolve_left hrest⟩),
      List.filter_cons_of_pos (by simpa using hrest)]
    rfl

/-- **When `Split` appends exactly the non-empty pieces**: the last piece is empty, or it starts at
an offset that is not the number of strings in the array by then. -/
theorem split_eq_blocks_iff (src sep : Bytes) (hsep : 0 < sep.length) (arry : List Bytes) :
    split src sep hsep arry = arry ++ blocks sep hsep src ↔
      (cut sep hsep src).2 = [] ∨
        src.length - (cut sep hsep src).2.length ≠
          arry.length + ((cut sep hsep src).1.filter (· ≠ [])).length := by
  refine ⟨fun h => ?_, split_eq_blocks⟩
  by_contra hcond
  obtain ⟨hrest, hoff⟩ := not_or.mp hcond
  rw [split, splitFrom_eq_cut src sep hsep 0 arry (Nat.zero_le _), List.drop_zero, blocks,
    List.filter_append, List.append_assoc, List.append_right_inj, List.append_right_inj,
    if_pos (Or.inr (not_ne_iff.mp hoff)), List.filter_cons_of_pos (by simpa using hrest)] at h
  exact absurd h (by simp)

/-- `"a::b"` cut at `"::"` behind one string: the second piece is not at offset two. -/
theorem split_eq_blocks_iff_pair :
    split [97, 58, 58, 98] [58, 58] (by decide) [[120]] =
        [[120]] ++ blocks [58, 58] (by decide) [97, 58, 58, 98] ↔
      (cut [58, 58] (by decide) ([97, 58, 58, 98] : Bytes)).2 = [] ∨
        ([97, 58, 58, 98] :
          Bytes).length - (cut [58, 58] (by decide) ([97, 58, 58, 98] : Bytes)).2.length ≠
          ([[120]] : List Bytes).length +
            ((cut [58, 58] (by decide) ([97, 58, 58, 98] : Bytes)).1.filter (· ≠ [])).length :=
  split_eq_blocks_iff [97, 58, 58, 98] [58, 58] (by decide) [[120]]

/-- The query string `"a"`, without a separator: its only piece starts at offset 0 of an empty
array. -/
theorem split_drops_last :
    ¬ ∀ (src sep : Bytes) (hsep : 0 < sep.length) (arry : List Bytes),
      split src sep hsep arry = arry ++ blocks sep hsep src := by
  intro h
  have hone := h [97] [38] (by decide) []
  rw [split_eq_blocks_iff] at hone
  have hcut : cut [38] (by decide) ([97] : Bytes) = ([], [97]) := cut_none (by decide)
  rw [hcut] at hone
  exact absurd hone (by decide)

/-! ### What a one-byte separator yields -/

def pieces (c : UInt8) (u : Bytes) : List Bytes := (u.splitOn c).filter (· ≠ [])

theorem pieces_append_cons (c : UInt8) (u v : Bytes) :
    pieces c (u ++ c :: v) = pieces c u ++ pieces c v := by
  rw [pieces, List.splitOn_append_cons_self, List.filter_append]
  rfl

theorem pieces_of_notMem {c : UInt8} {u : Bytes} (h : c ∉ u) :
    pieces c u = if u = [] then [] else [u] := by
  rw [pieces, List.splitOn_eq_singleton h]
  by_cases hu : u = [] <;> simp [hu]

theorem find_singleton (c : UInt8) (u : Bytes) :
    (find [c] u = none ∧ c ∉ u) ∨
      ∃ l r, find [c] u = some l.length ∧ c ∉ l ∧ u = l ++ c :: r := by
  induction u with
  | nil => exact Or.inl ⟨rfl, by simp⟩
  | cons x xs ih =>
    rw [find]
    by_cases hx : x = c
    · subst hx
      exact Or.inr ⟨[], xs, by rw [if_pos (by simp)]; rfl, by simp, rfl⟩
    · have hp : ¬ [c] <+: x :: xs := fun h => hx (List.cons_prefix_cons.mp h).1.symm
      rw [if_neg hp]
      rcases ih with ⟨hn, hmem⟩ | ⟨l, r, hs, hl, rfl⟩
      · refine Or.inl ⟨by rw [hn]; rfl, ?_⟩
        rw [List.mem_cons, not_or]
        exact ⟨fun h => hx h.symm, hmem⟩
      · refine Or.inr ⟨x :: l, r, by rw [hs]; rfl, ?_, rfl⟩
        rw [List.mem_cons, not_or]
        exact ⟨fun h => hx h.symm, hl⟩

theorem blocks_singleton (c : UInt8) (h : 0 < [c].length) (u : Bytes) :
    blocks [c] h u = pieces c u := by
  induction u using cut_induction [c] h with
  | none u hf =>
    rcases find_singleton c u with ⟨_, hmem⟩ | ⟨l, r, hs, _, _⟩
    · rw [blocks, cut_none hf, pieces_of_notMem hmem, List.nil_append]
      by_cases hu : u = [] <;> simp [hu]
    · exact absurd (hf.symm.trans hs) (by simp)
  | some l v hf ih =>
    have hl : c ∉ l := by
      rcases find_singleton c (l ++ ([c] ++ v)) with ⟨hn, _⟩ | ⟨l', r, hs, hl', he⟩
      · exact absurd (hn.symm.trans hf) (by simp)
      · have hlen : l.length = l'.length := Option.some.inj (hf.symm.trans hs)
        rw [(List.append_inj he hlen).1]
        exact hl'
    rw [show l ++ ([c] ++ v) = l ++ c :: v from rfl, pieces_append_cons, ← ih, pieces_of_notMem hl,
      blocks, ← List.singleton_append (l := v), cut_some hf, List.cons_append,
      List.filter_cons, blocks]
    by_cases hnil : l = [] <;> simp [hnil]

/-- **What `Split` collects into an empty array**: the non-empty pieces, but nothing at all from a
source in which the separator does not occur. -/
theorem split_eq_pieces (src : Bytes) (c : UInt8) (h : 0 < [c].length) :
    split src [c] h [] = if c ∈ src then pieces c src else [] := by
  rcases find_singleton c src with ⟨hf, hmem⟩ | ⟨l, r, hf, _, hsrc⟩
  · -- the source is its own last piece, at offset 0
    rw [if_neg hmem, split, splitFrom_eq_cut src [c] h 0 [] (Nat.zero_le _), List.drop_zero,
      cut_none hf]
    simp
  · have hcut : cut [c] h (l ++ ([c] ++ r)) = (l :: (cut [c] h r).1, (cut [c] h r).2) :=
      cut_some (by rw [← hf, hsrc]; rfl)
    have hne : (cut [c] h src).1 ≠ [] := by
      rw [hsrc, show l ++ c :: r = l ++ ([c] ++ r) from rfl, hcut]
      exact List.cons_ne_nil _ _
    have hlt := cut_lt src hne
    rw [if_pos (by rw [hsrc]; simp), ← blocks_singleton c h,
      split_eq_blocks (Or.inr (by rw [List.length_nil]; omega)), List.nil_append]

theorem validPath_eq (path : Bytes) :
    validPath path = levels 0 (if slash ∈ path then pieces slash path else []) := by
  rw [validPath, split_eq_pieces]

end Flux.Util
