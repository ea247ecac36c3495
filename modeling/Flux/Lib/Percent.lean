import Mathlib.Data.List.Basic
import Mathlib.Algebra.Group.Nat.Defs

/-!
# Percent-encoding

Bytes outside a set that may stay are written `%HH`, with two hexadecimal digits in either case, and
where a form is meant a space may be written `+`.  `Encodes` relates a string to every text that
writes it so, and `decode` reads a text from the left: what is not an escape stays.

`decode_of_encodes` is the round trip.  `WellEscaped` says of a text that every `%` it is read at,
with two bytes behind it, begins an escape; an encoded text is one (`Encodes.wellEscaped`).
-/

namespace Flux.Lib.Percent

def percent : UInt8 := 37

def plus : UInt8 := 43

def space : UInt8 := 32

def hexValue (b : UInt8) : Option Nat :=
  if 48 ≤ b ∧ b ≤ 57 then some (b.toNat - 48)
  else if 65 ≤ b ∧ b ≤ 70 then some (b.toNat - 55)
  else if 97 ≤ b ∧ b ≤ 102 then some (b.toNat - 87)
  else none

def unreserved (b : UInt8) : Bool :=
  (48 ≤ b && b ≤ 57) || (65 ≤ b && b ≤ 90) || (97 ≤ b && b ≤ 122) ||
    b == 45 || b == 46 || b == 95 || b == 126

def plain (plusIsSpace : Bool) (b : UInt8) : UInt8 :=
  if b = plus ∧ plusIsSpace = true then space else b

def decode (plusIsSpace : Bool) : List UInt8 → List UInt8
  | [] => []
  | b :: h :: l :: u =>
    if b = percent then
      match hexValue h, hexValue l with
      | some x, some y => UInt8.ofNat (16 * x + y) :: decode plusIsSpace u
      | _, _ => percent :: decode plusIsSpace (h :: l :: u)
    else plain plusIsSpace b :: decode plusIsSpace (h :: l :: u)
  | b :: u => plain plusIsSpace b :: decode plusIsSpace u

/-- Every `%` the text is read at, with two bytes behind it, begins an escape. -/
def WellEscaped : List UInt8 → Prop
  | b :: h :: l :: u =>
    if b = percent then (hexValue h).isSome ∧ (hexValue l).isSome ∧ WellEscaped u
    else WellEscaped (h :: l :: u)
  | _ => True

instance WellEscaped.decidable : ∀ u, Decidable (WellEscaped u)
  | [] => isTrue trivial
  | [_] => isTrue trivial
  | [_, _] => isTrue trivial
  | b :: h :: l :: u =>
    have := WellEscaped.decidable u
    have := WellEscaped.decidable (h :: l :: u)
    inferInstanceAs
      (Decidable (if b = percent then (hexValue h).isSome ∧ (hexValue l).isSome ∧ WellEscaped u
      else WellEscaped (h :: l :: u)))

/-- The text writes the string, with the bytes of `stays` as they are or escaped and all others
escaped. -/
inductive Encodes (stays : UInt8 → Bool) (plusIsSpace : Bool) : List UInt8 → List UInt8 → Prop
  | nil : Encodes stays plusIsSpace [] []
  | kept {b s e} (is : stays b = true) (rest : Encodes stays plusIsSpace s e) :
      Encodes stays plusIsSpace (b :: s) (b :: e)
  | space {s e} (is : plusIsSpace = true) (rest : Encodes stays plusIsSpace s e) :
      Encodes stays plusIsSpace (space :: s) (plus :: e)
  | escaped {b h l s e} (high : hexValue h = some (b.toNat / 16))
      (low : hexValue l = some (b.toNat % 16))
      (rest : Encodes stays plusIsSpace s e) :
      Encodes stays plusIsSpace (b :: s) (percent :: h :: l :: e)

variable {stays : UInt8 → Bool} {plusIsSpace : Bool} {s e : List UInt8}

/-! ### Reading one byte -/

/-- Induction along the reading of a text: a byte that is no `%`, a `%` with fewer than two bytes
behind it, and one with two. -/
theorem reading_induction {P : List UInt8 → Prop} (nil : P [])
    (plain : ∀ b u, b ≠ percent → P u → P (b :: u))
    (short : ∀ u, u.length < 2 → P u → P (percent :: u))
    (triple : ∀ h l u, P u → P (h :: l :: u) → P (percent :: h :: l :: u)) : ∀ u, P u
  | [] => nil
  | b :: u => by
    have hu : P u := reading_induction nil plain short triple u
    by_cases hb : b = percent
    · subst hb
      match u, hu with
      | [], hu => exact short [] (by decide) hu
      | [c], hu => exact short [c] (Nat.lt_succ_self 1) hu
      | h :: l :: u, hu =>
        exact triple h l u (reading_induction nil plain short triple u) hu
    · exact plain b u hb hu

theorem decode_plain {b : UInt8} (hb : b ≠ percent) (u : List UInt8) :
    decode plusIsSpace (b :: u) = plain plusIsSpace b :: decode plusIsSpace u := by
  match u with
  | [] => rfl
  | [_] => rfl
  | h :: l :: u => rw [decode, if_neg hb]

theorem decode_escape {h l : UInt8} {x y : Nat} (hx : hexValue h = some x)
    (hy : hexValue l = some y)
    (u : List UInt8) :
    decode plusIsSpace (percent :: h :: l :: u) =
      UInt8.ofNat (16 * x + y) :: decode plusIsSpace u := by
  rw [decode, if_pos rfl, hx, hy]

theorem decode_short {u : List UInt8} (hu : u.length < 2) :
    decode plusIsSpace (percent :: u) = percent :: decode plusIsSpace u := by
  have hpercent : plain plusIsSpace percent = percent := by
    rw [plain, if_neg (by simp [percent, plus])]
  match u, hu with
  | [], _ => exact congrArg (· :: []) hpercent
  | [b], _ => exact congrArg (· :: decode plusIsSpace [b]) hpercent

theorem decode_not_escape {h l : UInt8} (hno : hexValue h = none ∨ hexValue l = none)
    (u : List UInt8) :
    decode plusIsSpace (percent :: h :: l :: u) = percent :: decode plusIsSpace (h :: l :: u) := by
  rw [decode, if_pos rfl]
  rcases hno with hh | hl
  · rw [hh]
  · rw [hl]
    cases hexValue h <;> rfl

theorem wellEscaped_plain {b : UInt8} (hb : b ≠ percent) {u : List UInt8} :
    WellEscaped (b :: u) ↔ WellEscaped u := by
  match u with
  | [] => exact Iff.rfl
  | [_] => exact Iff.rfl
  | h :: l :: u => rw [WellEscaped, if_neg hb]

theorem wellEscaped_short {u : List UInt8} (hu : u.length < 2) : WellEscaped (percent :: u) := by
  match u, hu with
  | [], _ => trivial
  | [_], _ => trivial

theorem wellEscaped_triple (h l : UInt8) (u : List UInt8) : WellEscaped (percent :: h :: l :: u) ↔
    (hexValue h).isSome ∧ (hexValue l).isSome ∧ WellEscaped u := by rw [WellEscaped, if_pos rfl]

theorem plain_of_ne {b : UInt8} (h : plusIsSpace = true → b ≠ plus) : plain plusIsSpace b = b := by
  rw [plain, if_neg]
  rintro ⟨hb, hp⟩
  exact h hp hb

/-! ### The round trip -/

/-- **Decoding gives back what was encoded.** -/
theorem decode_of_encodes (hpercent : stays percent = false)
    (hplus : plusIsSpace = true → stays plus = false) (h : Encodes stays plusIsSpace s e) :
    decode plusIsSpace e = s := by
  induction h with
  | nil => rfl
  | @kept b s e is rest ih =>
    have hne : b ≠ percent := by
      rintro rfl
      exact absurd (hpercent.symm.trans is) Bool.false_ne_true
    have hpl : plusIsSpace = true → b ≠ plus := by
      rintro hp rfl
      exact absurd ((hplus hp).symm.trans is) Bool.false_ne_true
    rw [decode_plain hne, plain_of_ne hpl, ih]
  | space is rest ih =>
    rw [decode_plain (by decide), ih, plain, if_pos ⟨rfl, is⟩]
  | @escaped b h l s e high low rest ih =>
    rw [decode_escape high low, ih, Nat.div_add_mod, UInt8.ofNat_toNat]

theorem Encodes.wellEscaped (hpercent : stays percent = false) (h : Encodes stays plusIsSpace s e) :
    WellEscaped e := by
  induction h with
  | nil => trivial
  | @kept b s e is rest ih =>
    have hne : b ≠ percent := by
      rintro rfl
      exact absurd (hpercent.symm.trans is) Bool.false_ne_true
    exact (wellEscaped_plain hne).mpr ih
  | space is rest ih => exact (wellEscaped_plain (by decide)).mpr ih
  | escaped high low rest ih =>
    rw [wellEscaped_triple, high, low]
    exact ⟨rfl, rfl, ih⟩

theorem Encodes.mem (h : Encodes stays plusIsSpace s e) {b : UInt8} (hb : b ∈ e) :
    stays b = true ∨ b = percent ∨ b = plus ∨ (hexValue b).isSome := by
  induction h with
  | nil => exact absurd hb List.not_mem_nil
  | kept is rest ih =>
    rcases List.mem_cons.mp hb with rfl | hb
    · exact Or.inl is
    · exact ih hb
  | space is rest ih =>
    rcases List.mem_cons.mp hb with rfl | hb
    · exact Or.inr (Or.inr (Or.inl rfl))
    · exact ih hb
  | escaped high low rest ih =>
    simp only [List.mem_cons] at hb
    rcases hb with rfl | rfl | rfl | hb
    · exact Or.inr (Or.inl rfl)
    · exact Or.inr (Or.inr (Or.inr (by rw [high]; rfl)))
    · exact Or.inr (Or.inr (Or.inr (by rw [low]; rfl)))
    · exact ih hb

/-- A byte that has to be encoded, and has no part in it, does not occur. -/
theorem Encodes.notMem {b : UInt8} (h : Encodes stays plusIsSpace s e) (hstays : stays b = false)
    (hpercent : b ≠ percent) (hplus : b ≠ plus) (hdigit : hexValue b = none) : b ∉ e := by
  intro hb
  rcases h.mem hb with hk | hp | hp | hd
  · exact absurd (hstays.symm.trans hk) Bool.false_ne_true
  · exact hpercent hp
  · exact hplus hp
  · rw [hdigit] at hd
    exact absurd hd Bool.false_ne_true

end Flux.Lib.Percent
