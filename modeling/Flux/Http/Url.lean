import Flux.Http.Request
import Flux.Lib.Percent

/-!
# `Util::UrlEncode` and `Util::UrlDecode`

`char` is signed here.  `snprintf` prints the promoted `int` of a byte, so a byte from 128 on has
eight hexadecimal digits, all of the first two `F`, and the four-byte buffer keeps only those two.
`HEXTOI` answers `-1` for what is no digit, and `UrlDecode` computes with it.

`urlDecode_urlEncode` says what comes back, and `urlDecode_eq_decode` that a text whose escapes are
escapes is decoded by the book.

The `int` index of the loop over the string is a position here: the strings are pieces of a line
of at most `MAX_LINE` bytes.
-/

namespace Flux.Util

open Lib

/-! ### Encoding -/

/-- A digit of `%X`. -/
def upperHex (d : Nat) : UInt8 := UInt8.ofNat (if d < 10 then 48 + d else 55 + d)

def hexDigits : Nat → Nat → Bytes
  | 0, _ => []
  | k + 1, n => hexDigits k (n / 16) ++ [upperHex (n % 16)]

/-- `%02X` of an `unsigned int`: its eight digits, without leading zeros beyond a width of two. -/
def format02X (n : BitVec 32) : Bytes :=
  let digits := hexDigits 8 n.toNat
  (digits.take 6).dropWhile (· == 48) ++ digits.drop 6

/-- `snprintf(tmp, 4, "%%%02X", c)`: three characters and the terminator. -/
def snprintf4 (c : UInt8) : Bytes :=
  (Percent.percent :: format02X (c.toBitVec.signExtend 32)).take 3

/-- `isalnum`, true of no negative `char`. -/
def isAlnum (c : UInt8) : Bool :=
  (48 ≤ c && c ≤ 57) || (65 ≤ c && c ≤ 90) || (97 ≤ c && c ≤ 122)

/-- What the loop of `UrlEncode` appends for a character. -/
def urlEncodeChar (convertSpaceToPlus : Bool) (c : UInt8) : Bytes :=
  if c == 46 || c == 45 || c == 95 || c == 126 || isAlnum c then [c]
  else if c == 32 && convertSpaceToPlus == true then [43]
  else snprintf4 c

def urlEncode (url : Bytes) (convertSpaceToPlus : Bool) : Bytes :=
  url.flatMap (urlEncodeChar convertSpaceToPlus)

/-! ### Decoding -/

def hexToI (c : UInt8) : Int :=
  if 48 ≤ c ∧ c ≤ 57 then c.toNat - 48
  else if 97 ≤ c ∧ c ≤ 102 then c.toNat - 97 + 10
  else if 65 ≤ c ∧ c ≤ 70 then c.toNat - 65 + 10
  else -1

/-- The loop of `UrlDecode`; `(i + 2) < url.size()` says that two more bytes are there. -/
def urlDecode : Bytes → Bool → Bytes
  | [], _ => []
  | c :: h :: l :: rest, convertPlusToSpace =>
    if c == 43 && convertPlusToSpace == true then
      32 :: urlDecode (h :: l :: rest) convertPlusToSpace
    else if c == 37 then
      let v1 := hexToI h
      let v2 := hexToI l
      let v := UInt8.ofInt (v1 * 16 + v2)
      v :: urlDecode rest convertPlusToSpace
    else c :: urlDecode (h :: l :: rest) convertPlusToSpace
  | c :: rest, convertPlusToSpace =>
    if c == 43 && convertPlusToSpace == true then 32 :: urlDecode rest convertPlusToSpace
    else c :: urlDecode rest convertPlusToSpace

/-! ### One byte -/

theorem hexToI_eq (c : UInt8) : hexToI c = ((Percent.hexValue c).map Int.ofNat).getD (-1) := by
  have hc := c.toNat_lt
  simp only [hexToI, Percent.hexValue, UInt8.le_iff_toNat_le, UInt8.reduceToNat]
  split
  · simp only [Option.map_some, Option.getD_some, Int.ofNat_eq_natCast]
    omega
  · split
    · rw [if_neg (by omega)]
      simp only [Option.map_some, Option.getD_some, Int.ofNat_eq_natCast]
      omega
    · split
      · simp only [Option.map_some, Option.getD_some, Int.ofNat_eq_natCast]
        omega
      · rfl

theorem hexValue_lt {c : UInt8} {x : Nat} (h : Percent.hexValue c = some x) : x < 16 := by
  simp only [Percent.hexValue, UInt8.le_iff_toNat_le, UInt8.reduceToNat] at h
  split at h
  · have := Option.some.inj h
    omega
  · split at h
    · have := Option.some.inj h
      omega
    · split at h
      · have := Option.some.inj h
        omega
      · exact absurd h (by simp)

theorem ofInt_toNat (z : Int) : (UInt8.ofInt z).toNat = (z % 256).toNat := by
  have := Int.emod_lt_of_pos z (show (0 : Int) < 256 by decide)
  have := Int.emod_nonneg z (show (256 : Int) ≠ 0 by decide)
  rw [UInt8.ofInt, UInt8.toNat_ofNat']
  omega

theorem ofInt_digits {h l : UInt8} {x y : Nat} (hx : Percent.hexValue h = some x)
    (hy : Percent.hexValue l = some y) :
    UInt8.ofInt (hexToI h * 16 + hexToI l) = UInt8.ofNat (16 * x + y) := by
  have := hexValue_lt hx
  have := hexValue_lt hy
  apply UInt8.toNat_inj.mp
  rw [ofInt_toNat, hexToI_eq, hexToI_eq, hx, hy, UInt8.toNat_ofNat']
  simp only [Option.map_some, Option.getD_some, Int.ofNat_eq_natCast]
  omega

theorem ofInt_not_digits {h l : UInt8}
    (hno : Percent.hexValue h = none ∨ Percent.hexValue l = none) :
    UInt8.ofInt (hexToI h * 16 + hexToI l) ≠ Percent.percent := by
  intro he
  have hn := congrArg UInt8.toNat he
  rw [ofInt_toNat, show Percent.percent.toNat = 37 from rfl, hexToI_eq, hexToI_eq] at hn
  cases hx : Percent.hexValue h with
  | none =>
    cases hy : Percent.hexValue l with
    | none =>
      rw [hx, hy] at hn
      exact absurd hn (by decide)
    | some y =>
      have := hexValue_lt hy
      rw [hx, hy] at hn
      simp only [Option.map_none, Option.map_some, Option.getD_some, Option.getD_none,
        Int.ofNat_eq_natCast] at hn
      omega
  | some x =>
    have := hexValue_lt hx
    have hy : Percent.hexValue l = none := hno.resolve_left (by simp [hx])
    rw [hx, hy] at hn
    simp only [Option.map_none, Option.map_some, Option.getD_some, Option.getD_none,
      Int.ofNat_eq_natCast] at hn
    omega

/-! ### Texts whose escapes are escapes -/

theorem urlDecode_plain {c : UInt8} (hc : c ≠ Percent.percent) (rest : Bytes) (plusToSpace : Bool) :
    urlDecode (c :: rest) plusToSpace =
      Percent.plain plusToSpace c :: urlDecode rest plusToSpace := by
  have hne : ¬ (c == 37) = true := fun h => hc (beq_iff_eq.mp h)
  have hplain : Percent.plain plusToSpace c = if c == 43 && plusToSpace == true then 32 else c := by
    simp only [Percent.plain, Bool.and_eq_true, beq_iff_eq]
    rfl
  have hcons : ∀ r : Bytes, (if c == 43 && plusToSpace == true then 32 :: r else c :: r) =
      (if c == 43 && plusToSpace == true then 32 else c) :: r := by
    intro r
    split <;> rfl
  rw [hplain, ← hcons]
  rcases rest with _ | ⟨h, _ | ⟨l, rest⟩⟩
  · rfl
  · rfl
  · rw [urlDecode, if_neg hne]

theorem urlDecode_short {rest : Bytes} (h : rest.length < 2) (plusToSpace : Bool) :
    urlDecode (Percent.percent :: rest) plusToSpace =
      Percent.percent :: urlDecode rest plusToSpace := by
  match rest, h with
  | [], _ => rfl
  | [_], _ => rfl

theorem urlDecode_triple (h l : UInt8) (rest : Bytes) (plusToSpace : Bool) :
    urlDecode (Percent.percent :: h :: l :: rest) plusToSpace =
      UInt8.ofInt (hexToI h * 16 + hexToI l) :: urlDecode rest plusToSpace := rfl

/-- **Where every escape is one, `UrlDecode` decodes.** -/
theorem urlDecode_eq_decode {url : Bytes} (plusToSpace : Bool) (h : Percent.WellEscaped url) :
    urlDecode url plusToSpace = Percent.decode plusToSpace url := by
  induction url using Percent.reading_induction with
  | nil => rfl
  | plain b u hb ih =>
    rw [urlDecode_plain hb, Percent.decode_plain hb, ih ((Percent.wellEscaped_plain hb).mp h)]
  | short u hu ih =>
    rw [urlDecode_short hu, Percent.decode_short hu, ih]
    match u, hu with
    | [], _ => trivial
    | [_], _ => trivial
  | triple h' l u ih _ =>
    obtain ⟨hh, hl, hu⟩ := (Percent.wellEscaped_triple h' l u).mp h
    obtain ⟨x, hx⟩ := Option.isSome_iff_exists.mp hh
    obtain ⟨y, hy⟩ := Option.isSome_iff_exists.mp hl
    rw [urlDecode_triple, Percent.decode_escape hx hy, ofInt_digits hx hy, ih hu]

/-- **When `UrlDecode` replaces only escapes**: every `%` it reads with two bytes behind it has two
hexadecimal digits there.  At the first one that has not, the byte it writes is no `%`. -/
theorem urlDecode_eq_decode_iff (url : Bytes) (plusToSpace : Bool) :
    urlDecode url plusToSpace = Percent.decode plusToSpace url ↔ Percent.WellEscaped url := by
  refine ⟨fun he => ?_, urlDecode_eq_decode plusToSpace⟩
  induction url using Percent.reading_induction with
  | nil => trivial
  | plain b u hb ih =>
    rw [urlDecode_plain hb, Percent.decode_plain hb, List.cons.injEq] at he
    exact (Percent.wellEscaped_plain hb).mpr (ih he.2)
  | short u hu ih => exact Percent.wellEscaped_short hu
  | triple h l u ih _ =>
    rw [urlDecode_triple] at he
    cases hx : Percent.hexValue h with
    | none =>
      rw [Percent.decode_not_escape (Or.inl hx), List.cons.injEq] at he
      exact absurd he.1 (ofInt_not_digits (Or.inl hx))
    | some x =>
      cases hy : Percent.hexValue l with
      | none =>
        rw [Percent.decode_not_escape (Or.inr hy), List.cons.injEq] at he
        exact absurd he.1 (ofInt_not_digits (Or.inr hy))
      | some y =>
        rw [Percent.decode_escape hx hy, List.cons.injEq] at he
        exact (Percent.wellEscaped_triple h l u).mpr ⟨by rw [hx]; rfl, by rw [hy]; rfl, ih he.2⟩

/-- `"%zz"` becomes the byte 239, the low one of `-1 * 16 + -1`. -/
theorem urlDecode_not_escape :
    ¬ ∀ (url : Bytes) (plusToSpace : Bool),
      urlDecode url plusToSpace = Percent.decode plusToSpace url := fun h =>
  absurd (h (ascii ['%', 'z', 'z']) false) (by decide)

/-! ### What comes back -/

/-- The byte an escape of `UrlEncode` stands for. -/
def printed (c : UInt8) : UInt8 := if c < 128 then c else 255

theorem snprintf4_eq (c : UInt8) : snprintf4 c =
    [Percent.percent, upperHex ((printed c).toNat / 16), upperHex ((printed c).toNat % 16)] := by
  have htable : ∀ n < 256, snprintf4 (UInt8.ofNat n) =
      [Percent.percent, upperHex ((printed (UInt8.ofNat n)).toNat / 16),
        upperHex ((printed (UInt8.ofNat n)).toNat % 16)] := by decide +kernel
  have hc := htable c.toNat c.toNat_lt
  rwa [UInt8.ofNat_toNat] at hc

theorem hexValue_upperHex : ∀ d < 16, Percent.hexValue (upperHex d) = some d := by decide

/-- What is not encoded is unreserved, and so below 128. -/
theorem unreserved_printed {c : UInt8} (h : Percent.unreserved c = true) : printed c = c := by
  simp only [Percent.unreserved, Bool.or_eq_true, Bool.and_eq_true, decide_eq_true_eq, beq_iff_eq,
    UInt8.le_iff_toNat_le, ← UInt8.toNat_inj, UInt8.reduceToNat] at h
  rw [printed, if_pos]
  apply UInt8.lt_iff_toNat_lt.mpr
  show c.toNat < 128
  omega

/-- **The text of `UrlEncode`** encodes the string in which each byte from 128 on is 255. -/
theorem urlEncode_encodes (url : Bytes) (b : Bool) :
    Percent.Encodes Percent.unreserved b (url.map printed) (urlEncode url b) := by
  induction url with
  | nil => exact .nil
  | cons c url ih =>
    rw [urlEncode, List.flatMap_cons, ← urlEncode, List.map_cons, urlEncodeChar]
    split
    · rename_i h
      have hun : Percent.unreserved c = true := by
        simp only [isAlnum, Bool.or_eq_true] at h
        simp only [Percent.unreserved, Bool.or_eq_true]
        tauto
      rw [unreserved_printed hun]
      exact .kept hun ih
    · split
      · rename_i h
        rw [Bool.and_eq_true, beq_iff_eq, beq_iff_eq] at h
        obtain ⟨rfl, hb⟩ := h
        exact .space hb ih
      · have hlt := (printed c).toNat_lt
        rw [snprintf4_eq]
        exact .escaped (hexValue_upperHex _ (by omega)) (hexValue_upperHex _ (by omega)) ih

/-- **What comes back**: the string with 255 for each byte from 128 on. -/
theorem urlDecode_urlEncode (s : Bytes) (b : Bool) :
    urlDecode (urlEncode s b) b = s.map printed := by
  have he := urlEncode_encodes s b
  rw [urlDecode_eq_decode b (he.wellEscaped (by decide)),
    Percent.decode_of_encodes (by decide) (fun _ => by decide) he]

/-- **When `UrlDecode` undoes `UrlEncode`**: the string has no byte from 128 to 254. -/
theorem urlDecode_urlEncode_iff (s : Bytes) (b : Bool) :
    urlDecode (urlEncode s b) b = s ↔ ∀ c ∈ s, c < 128 ∨ c = 255 := by
  rw [urlDecode_urlEncode]
  conv_lhs => rw [← List.map_id s, List.map_map]
  rw [List.map_inj_left]
  refine forall₂_congr fun c _ => ?_
  rw [Function.comp_apply, id, printed]
  by_cases hc : c < 128
  · simp [hc]
  · rw [if_neg hc]
    exact ⟨fun h => Or.inr h.symm, fun h => (h.resolve_left hc).symm⟩

/-- `"é"` in UTF-8. -/
theorem urlDecode_urlEncode_latin :
    ¬ ∀ (s : Bytes) (b : Bool), urlDecode (urlEncode s b) b = s := fun h =>
  absurd (h [195, 169] true) (by decide)

end Flux.Util
