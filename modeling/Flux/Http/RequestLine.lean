import Flux.Http.Framing
import Flux.Http.Url
import Flux.Http.Util
import Flux.Lib.Regex

/-!
# The request line

`ParseHttpLine` matches a line against a regular expression without regard to case, decodes the
path, and splits and decodes what is behind the `'?'`.  `parseLine` is that function, for the
parameter the context takes.

`RequestLine` is a line as a client writes it, of a method, a path, pairs of strings and a version,
with everything in it percent-encoded.  `matches_unique` says that the expression matches it in one
way only, and `parseHttpLine_encode` puts the stages together.
-/

namespace Flux

open Lib

/-! ### `ParseHttpLine` -/

namespace HttpContext

def translateNocase (b : UInt8) : UInt8 := if 65 ≤ b ∧ b ≤ 90 then b + 32 else b

def toUpper (b : UInt8) : UInt8 := if 97 ≤ b ∧ b ≤ 122 then b - 32 else b

/-- A character of the expression, under `icase`. -/
def icase (c : UInt8) : Regex UInt8 := .char fun b => translateNocase b == translateNocase c

def literal (s : Bytes) : Regex UInt8 := s.foldr (fun c r => .seq (icase c) r) .eps

def questionMark : UInt8 := 63

/-- `"GET"`, `"HEAD"`, `"POST"`, `"PUT"` and `"DELETE"`. -/
def methods : List Bytes :=
  ["GET", "HEAD", "POST", "PUT", "DELETE"].map fun s => ascii s.toList

def methodRegex : Regex UInt8 :=
  .alt (literal (ascii "GET".toList)) (.alt (literal (ascii "HEAD".toList))
    (.alt (literal (ascii "POST".toList)) (.alt (literal (ascii "PUT".toList))
      (literal (ascii "DELETE".toList)))))

/-- `HTTP/1\.[01]`. -/
def versionRegex : Regex UInt8 :=
  .seq (literal (ascii "HTTP/1.".toList)) (.char fun b => b == 48 || b == 49)

/-- `(?:\?(.*))?`; the dot matches no line end. -/
def queryRegex : Regex UInt8 :=
  .alt (.seq (icase questionMark) (.group 3 (.many fun b => b != newline && b != carriageReturn)))
    .eps

/-- `(?:\r\n|\n)?`. -/
def endingRegex : Regex UInt8 :=
  .alt (.alt (literal [carriageReturn, newline]) (literal [newline])) .eps

/-- `(GET|HEAD|POST|PUT|DELETE) ([^?]*)(?:\?(.*))? (HTTP/1\.[01])(?:\r\n|\n)?`. -/
def httpLine : Regex UInt8 :=
  .seq (.group 1 methodRegex) (.seq (icase 32) (.seq (.group 2 (.many (· != questionMark)))
    (.seq queryRegex (.seq (icase 32) (.seq (.group 4 versionRegex) endingRegex)))))

theorem separator_pos (c : UInt8) : 0 < [c].length := Nat.one_pos

def ampersand : UInt8 := 38

def equalsSign : UInt8 := 61

def queryStringArry (queryString : Bytes) : List Bytes :=
  if queryString ≠ [] then Util.split queryString [ampersand] (separator_pos _) [] else []

def keyVal (str : Bytes) : Option (Bytes × Bytes) :=
  (find [equalsSign] str).map fun pos =>
    (Util.urlDecode (str.take pos) true, Util.urlDecode (str.drop (pos + 1)) true)

def parseLine (line : Bytes) : LineResult :=
  match httpLine.fullMatch line with
  | none => .mismatch
  | some found =>
    match (queryStringArry (found.get 3)).mapM keyVal with
    | none => .badQuery
    | some query =>
      .ok ((found.get 1).map toUpper) (Util.urlDecode (found.get 2) false) (found.get 4) query

end HttpContext

/-! ### A line on the wire -/

structure WireParam where
  key : Bytes
  value : Bytes
  keyText : Bytes
  valueText : Bytes
  key_encodes : Percent.Encodes Percent.unreserved true key keyText
  value_encodes : Percent.Encodes Percent.unreserved true value valueText

def WireParam.encode (p : WireParam) : Bytes := p.keyText ++ HttpContext.equalsSign :: p.valueText

/-- A request line with at least two parameters. -/
structure RequestLine where
  method : Bytes
  methodText : Bytes
  path : Bytes
  pathText : Bytes
  params : List WireParam
  version : Bytes
  ending : Option LineEnd
  method_mem : method ∈ HttpContext.methods
  method_case : methodText.map HttpContext.toUpper = method
  path_encodes :
    Percent.Encodes (fun b => Percent.unreserved b || b == Util.slash) false path pathText
  two : 2 ≤ params.length
  distinct : (params.map WireParam.key).Nodup
  version_mem : version = ascii "HTTP/1.0".toList ∨ version = ascii "HTTP/1.1".toList

namespace RequestLine

def queryText (r : RequestLine) : Bytes :=
  [HttpContext.ampersand].intercalate (r.params.map WireParam.encode)

def endingText (r : RequestLine) : Bytes := r.ending.elim [] LineEnd.bytes

def encode (r : RequestLine) : Bytes :=
  r.methodText ++ 32 :: (r.pathText ++ HttpContext.questionMark ::
    (r.queryText ++ 32 :: (r.version ++ r.endingText)))

end RequestLine

/-! ### What the expression means -/

namespace HttpContext

/-- A character that is no letter matches itself only. -/
theorem translateNocase_eq {b c : UInt8} (hc : c < 65) (h : translateNocase b = translateNocase c) :
    b = c := by
  unfold translateNocase at h
  grind

theorem matches_icase {c : UInt8} {u : Bytes} {cs : Captures UInt8} (hc : c < 65) :
    (icase c).Matches u cs ↔ u = [c] ∧ cs = [] := by
  simp only [icase, Regex.Matches, beq_iff_eq]
  constructor
  · rintro ⟨a, ha, rfl, rfl⟩
    exact ⟨by rw [translateNocase_eq hc ha], rfl⟩
  · rintro ⟨rfl, rfl⟩
    exact ⟨c, rfl, rfl, rfl⟩

theorem matches_literal {s u : Bytes} {cs : Captures UInt8} :
    (literal s).Matches u cs ↔ u.map translateNocase = s.map translateNocase ∧ cs = [] := by
  induction s generalizing u cs with
  | nil => simp [literal, Regex.Matches]
  | cons c s ih =>
    simp only [literal, List.foldr_cons, Regex.Matches, icase, beq_iff_eq]
    constructor
    · rintro ⟨v, w, x, d, ⟨a, ha, rfl, rfl⟩, hs, rfl, rfl⟩
      obtain ⟨hw, rfl⟩ := ih.mp hs
      exact ⟨by rw [List.singleton_append, List.map_cons, List.map_cons, ha, hw], rfl⟩
    · rintro ⟨hu, rfl⟩
      cases u with
      | nil => exact absurd hu (by simp)
      | cons a w =>
        obtain ⟨ha, hw⟩ := List.cons.inj hu
        exact ⟨[a], w, [], [], ⟨a, ha, rfl, rfl⟩, ih.mpr ⟨hw, rfl⟩, rfl, rfl⟩

theorem matches_literal_low {s u : Bytes} {cs : Captures UInt8} (hs : ∀ c ∈ s, c < 65) :
    (literal s).Matches u cs ↔ u = s ∧ cs = [] := by
  rw [matches_literal]
  refine and_congr_left fun _ => ⟨fun h => ?_, fun h => by rw [h]⟩
  induction s generalizing u with
  | nil => simpa using h
  | cons c s ih =>
    cases u with
    | nil => exact absurd h (by simp)
    | cons a u =>
      obtain ⟨ha, hu⟩ := List.cons.inj h
      rw [translateNocase_eq (hs c List.mem_cons_self) ha,
        ih (fun b hb => hs b (List.mem_cons_of_mem c hb)) hu]

/-- The text of a method, in any case. -/
def IsMethod (u : Bytes) : Prop := ∃ m ∈ methods, u.map translateNocase = m.map translateNocase

theorem matches_method {u : Bytes} {cs : Captures UInt8} :
    methodRegex.Matches u cs ↔ IsMethod u ∧ cs = [] := by
  simp only [methodRegex, Regex.Matches, matches_literal, ← or_and_right, IsMethod, methods,
    List.map_cons, List.map_nil, List.mem_cons, List.not_mem_nil, or_false, exists_eq_or_imp,
    exists_eq_left]

/-- The text of a version, in any case. -/
def IsVersion (u : Bytes) : Prop :=
  ∃ w d, w.map translateNocase = (ascii "HTTP/1.".toList).map translateNocase ∧ (d = 48 ∨ d = 49) ∧
    u = w ++ [d]

theorem matches_version {u : Bytes} {cs : Captures UInt8} :
    versionRegex.Matches u cs ↔ IsVersion u ∧ cs = [] := by
  simp only [versionRegex, Regex.Matches, matches_literal, IsVersion, Bool.or_eq_true, beq_iff_eq]
  constructor
  · rintro ⟨w, v, _, _, ⟨hw, rfl⟩, ⟨d, hd, rfl, rfl⟩, rfl, rfl⟩
    exact ⟨⟨w, d, hw, hd, rfl⟩, rfl⟩
  · rintro ⟨⟨w, d, hw, hd, rfl⟩, rfl⟩
    exact ⟨w, [d], [], [], ⟨hw, rfl⟩, ⟨d, hd, rfl, rfl⟩, rfl, rfl⟩

theorem matches_query {u : Bytes} {cs : Captures UInt8} :
    queryRegex.Matches u cs ↔
      (∃ q, (∀ b ∈ q, b ≠ newline ∧ b ≠ carriageReturn) ∧ u = questionMark :: q ∧ cs = [(3, q)]) ∨
        u = [] ∧ cs = [] := by
  have hq : questionMark < 65 := by decide
  simp only [queryRegex, Regex.Matches, matches_icase hq, Bool.and_eq_true, bne_iff_ne]
  refine or_congr_left ⟨?_, ?_⟩
  · rintro ⟨_, q, _, _, ⟨rfl, rfl⟩, ⟨_, ⟨hd, rfl⟩, rfl⟩, rfl, rfl⟩
    exact ⟨q, hd, rfl, rfl⟩
  · rintro ⟨q, hd, rfl, rfl⟩
    exact ⟨_, q, _, _, ⟨rfl, rfl⟩, ⟨_, ⟨hd, rfl⟩, rfl⟩, rfl, rfl⟩

theorem matches_ending {u : Bytes} {cs : Captures UInt8} :
    endingRegex.Matches u cs ↔
      (u = [carriageReturn, newline] ∨ u = [newline] ∨ u = []) ∧ cs = [] := by
  have hcrlf : ∀ c ∈ [carriageReturn, newline], c < 65 := by simp [carriageReturn, newline]
  have hlf : ∀ c ∈ [newline], c < 65 := by simp [newline]
  simp only [endingRegex, Regex.Matches]
  rw [matches_literal_low hcrlf, matches_literal_low hlf, ← or_and_right, ← or_and_right, or_assoc]

/-- **What the expression matches.** -/
theorem matches_httpLine {u : Bytes} {cs : Captures UInt8} :
    httpLine.Matches u cs ↔ ∃ m p q v e cq, IsMethod m ∧ questionMark ∉ p ∧
    queryRegex.Matches q cq ∧
      IsVersion v ∧ (e = [carriageReturn, newline] ∨ e = [newline] ∨ e = []) ∧
      u = m ++ 32 :: (p ++ (q ++ 32 :: (v ++ e))) ∧ cs = (1, m) :: (2, p) :: (cq ++ [(4, v)]) := by
  have hsp : (32 : UInt8) < 65 := by decide
  have hplain : ∀ p : Bytes, (∀ b ∈ p, (b != questionMark) = true) ↔ questionMark ∉ p := by
    intro p
    simp only [bne_iff_ne]
    exact ⟨fun h hm => h _ hm rfl, fun h b hb he => h (he ▸ hb)⟩
  constructor
  · rintro ⟨m, _, _, _, ⟨_, hm, rfl⟩, ⟨_, _, _, _, hs, ⟨p, _, _, _, ⟨_, ⟨hp, rfl⟩, rfl⟩,
      ⟨q, _, cq, _, hq, ⟨_, _, _, _, hs', ⟨v, e, _, _, ⟨_, hv, rfl⟩, he, rfl, rfl⟩, rfl, rfl⟩,
        rfl, rfl⟩,
      rfl, rfl⟩, rfl, rfl⟩, rfl, rfl⟩
    obtain ⟨rfl, rfl⟩ := (matches_icase hsp).mp hs
    obtain ⟨rfl, rfl⟩ := (matches_icase hsp).mp hs'
    obtain ⟨hmethod, rfl⟩ := matches_method.mp hm
    obtain ⟨hversion, rfl⟩ := matches_version.mp hv
    obtain ⟨hending, rfl⟩ := matches_ending.mp he
    exact ⟨m, p, q, v, e, cq, hmethod, (hplain p).mp hp, hq, hversion, hending, rfl, by simp⟩
  · rintro ⟨m, p, q, v, e, cq, hm, hp, hq, hv, he, rfl, rfl⟩
    exact ⟨m, _, _, _, ⟨_, matches_method.mpr ⟨hm, rfl⟩, rfl⟩,
      ⟨_, _, _, _, (matches_icase hsp).mpr ⟨rfl, rfl⟩,
      ⟨p, _, _, _, ⟨_, ⟨(hplain p).mpr hp, rfl⟩, rfl⟩, ⟨q, _, cq, _, hq, ⟨_, _, _, _,
      (matches_icase hsp).mpr ⟨rfl, rfl⟩, ⟨v, e, _, _, ⟨_, matches_version.mpr ⟨hv, rfl⟩, rfl⟩,
      matches_ending.mpr ⟨he, rfl⟩, rfl, rfl⟩, rfl, rfl⟩, rfl, rfl⟩, rfl, rfl⟩, rfl, rfl⟩,
      rfl, by simp⟩

theorem IsMethod.notMem {u : Bytes} (h : IsMethod u) {b : UInt8}
    (hno : ∀ m ∈ methods, translateNocase b ∉ m.map translateNocase) : b ∉ u := by
  obtain ⟨m, hm, he⟩ := h
  intro hmem
  exact hno m hm (he ▸ List.mem_map_of_mem hmem)

theorem IsVersion.notMem {u : Bytes} (h : IsVersion u) {b : UInt8} (hb : b ≠ 48 ∧ b ≠ 49)
    (hno : translateNocase b ∉ (ascii "HTTP/1.".toList).map translateNocase) : b ∉ u := by
  obtain ⟨w, d, hw, hd, rfl⟩ := h
  intro hmem
  rcases List.mem_append.mp hmem with hm | hm
  · exact hno (hw ▸ List.mem_map_of_mem hm)
  · rw [List.mem_singleton] at hm
    rcases hd with rfl | rfl
    · exact hb.1 hm
    · exact hb.2 hm

theorem IsVersion.length {u : Bytes} (h : IsVersion u) : u.length = 8 := by
  obtain ⟨w, d, hw, _, rfl⟩ := h
  have hlen := congrArg List.length hw
  rw [List.length_map, List.length_map] at hlen
  rw [List.length_append, hlen]
  rfl

/-- Case is all that `toUpper` changes. -/
theorem translateNocase_toUpper (b : UInt8) : translateNocase (toUpper b) = translateNocase b := by
  unfold translateNocase toUpper
  grind

end HttpContext

/-! ### The one match of a line -/

theorem WireParam.encode_notMem (p : WireParam) {b : UInt8} (hstays : Percent.unreserved b = false)
    (hpercent : b ≠ Percent.percent) (hplus : b ≠ Percent.plus) (hdigit : Percent.hexValue b = none)
    (heq : b ≠ HttpContext.equalsSign) : b ∉ p.encode := by
  intro hb
  rcases List.mem_append.mp hb with hb | hb
  · exact p.key_encodes.notMem hstays hpercent hplus hdigit hb
  · rcases List.mem_cons.mp hb with hb | hb
    · exact heq hb
    · exact p.value_encodes.notMem hstays hpercent hplus hdigit hb

theorem mem_intercalate {b sep : UInt8} {ls : List Bytes} (h : b ∈ [sep].intercalate ls) :
    b = sep ∨ ∃ l ∈ ls, b ∈ l := by
  induction ls with
  | nil => exact absurd h (by simp)
  | cons l ls ih =>
    cases ls with
    | nil =>
      rw [List.intercalate_singleton] at h
      exact Or.inr ⟨l, List.mem_cons_self, h⟩
    | cons l' ls =>
      rw [List.intercalate_cons_cons, List.append_assoc, List.mem_append, List.singleton_append,
        List.mem_cons] at h
      rcases h with h | h | h
      · exact Or.inr ⟨l, List.mem_cons_self, h⟩
      · exact Or.inl h
      · rcases ih h with h | ⟨x, hx, hb⟩
        · exact Or.inl h
        · exact Or.inr ⟨x, List.mem_cons_of_mem l hx, hb⟩

namespace RequestLine

open HttpContext

variable (r : RequestLine)

theorem queryText_notMem {b : UInt8} (hstays : Percent.unreserved b = false)
    (hpercent : b ≠ Percent.percent) (hplus : b ≠ Percent.plus) (hdigit : Percent.hexValue b = none)
    (heq : b ≠ equalsSign) (hamp : b ≠ ampersand) : b ∉ r.queryText := by
  intro hb
  rcases mem_intercalate hb with hb | ⟨l, hl, hb⟩
  · exact hamp hb
  · obtain ⟨p, _, rfl⟩ := List.mem_map.mp hl
    exact p.encode_notMem hstays hpercent hplus hdigit heq hb

theorem isMethod : IsMethod r.methodText := by
  refine ⟨r.method, r.method_mem, ?_⟩
  rw [← r.method_case, List.map_map]
  exact (List.map_congr_left fun b _ => translateNocase_toUpper b).symm

theorem isVersion : IsVersion r.version := by
  rcases r.version_mem with h | h
  · exact ⟨ascii "HTTP/1.".toList, 48, rfl, Or.inl rfl, h⟩
  · exact ⟨ascii "HTTP/1.".toList, 49, rfl, Or.inr rfl, h⟩

theorem endingText_cases : r.endingText = [carriageReturn, newline] ∨ r.endingText = [newline] ∨
    r.endingText = [] := by
  unfold endingText
  cases r.ending with
  | none => exact Or.inr (Or.inr rfl)
  | some e =>
    cases e with
    | crlf => exact Or.inl rfl
    | lf => exact Or.inr (Or.inl rfl)

def captures : Captures UInt8 :=
  [(1, r.methodText), (2, r.pathText), (3, r.queryText), (4, r.version)]

theorem matches_encode : httpLine.Matches r.encode r.captures := by
  refine matches_httpLine.mpr ⟨r.methodText, r.pathText, questionMark :: r.queryText, r.version,
    r.endingText, [(3, r.queryText)], r.isMethod, ?_, ?_, r.isVersion, r.endingText_cases, rfl, rfl⟩
  · exact r.path_encodes.notMem (by decide) (by decide) (by decide) (by decide)
  · refine matches_query.mpr (Or.inl ⟨r.queryText, ?_, rfl, rfl⟩)
    intro b hb
    constructor
    · rintro rfl
      exact r.queryText_notMem (by decide) (by decide) (by decide) (by decide) (by decide)
        (by decide) hb
    · rintro rfl
      exact r.queryText_notMem (by decide) (by decide) (by decide) (by decide) (by decide)
        (by decide) hb

/-- **The expression matches the line in one way.**  The spaces and the `'?'` are where they are
because nothing else on the line can be one. -/
theorem matches_unique {cs : Captures UInt8} (h : httpLine.Matches r.encode cs) :
    cs = r.captures := by
  obtain ⟨m, p, q, v, e, cq, hm, hp, hq, hv, he, hline, rfl⟩ := matches_httpLine.mp h
  have hspace : ∀ {u : Bytes}, IsMethod u → (32 : UInt8) ∉ u :=
    fun hu => hu.notMem (by decide)
  have hending : ∀ {b : UInt8} {u : Bytes}, b ≠ carriageReturn → b ≠ newline →
      (u = [carriageReturn, newline] ∨ u = [newline] ∨ u = []) → b ∉ u := by
    rintro b u hcr hlf (rfl | rfl | rfl) <;> simp [hcr, hlf]
  -- the first space ends the method
  obtain ⟨rfl, htail⟩ := append_cons_inj_first (hspace r.isMethod) (hspace hm) hline
  have hquery32 : (32 : UInt8) ∉ r.queryText :=
    r.queryText_notMem (by decide) (by decide) (by decide) (by decide) (by decide) (by decide)
  have hquery63 : questionMark ∉ r.queryText :=
    r.queryText_notMem (by decide) (by decide) (by decide) (by decide) (by decide) (by decide)
  have hpath : questionMark ∉ r.pathText :=
    r.path_encodes.notMem (by decide) (by decide) (by decide) (by decide)
  have hend : ∀ {b : UInt8}, b ≠ 48 ∧ b ≠ 49 → b ≠ carriageReturn → b ≠ newline →
      translateNocase b ∉ (ascii "HTTP/1.".toList).map translateNocase →
      ∀ {v e : Bytes}, IsVersion v → (e = [carriageReturn, newline] ∨ e = [newline] ∨ e = []) →
        b ∉ v ++ e := by
    intro b hb hcr hlf hno v e hv he hmem
    rcases List.mem_append.mp hmem with hmem | hmem
    · exact hv.notMem hb hno hmem
    · exact hending hcr hlf he hmem
  rcases matches_query.mp hq with ⟨q, _, rfl, rfl⟩ | ⟨rfl, rfl⟩
  · -- there is no other question mark, and no other space behind it
    rw [List.cons_append] at htail
    have hrest : questionMark ∉ r.queryText ++ 32 :: (r.version ++ r.endingText) := by
      rw [List.mem_append, List.mem_cons, not_or, not_or]
      exact ⟨hquery63, by decide,
        hend (by decide) (by decide) (by decide) (by decide) r.isVersion r.endingText_cases⟩
    obtain ⟨rfl, _, hquery⟩ := (List.append_cons_inj_of_notMem hpath hrest).mp htail
    obtain ⟨rfl, _, hversion⟩ := (List.append_cons_inj_of_notMem hquery32
      (hend (by decide) (by decide) (by decide) (by decide) r.isVersion r.endingText_cases)).mp
      hquery
    obtain ⟨rfl, _⟩ := List.append_inj hversion (r.isVersion.length.trans hv.length.symm)
    rfl
  · -- without a query string there would be no question mark
    have hmem : questionMark ∈ p ++ ([] ++ 32 :: (v ++ e)) := by
      rw [← htail]
      simp
    rw [List.mem_append, List.nil_append, List.mem_cons] at hmem
    rcases hmem with hmem | hmem | hmem
    · exact absurd hmem hp
    · exact absurd hmem (by decide)
    · exact absurd hmem (hend (by decide) (by decide) (by decide) (by decide) hv he)

end RequestLine

/-! ### What becomes of the line -/

theorem WireParam.keyVal_encode (p : WireParam) :
    HttpContext.keyVal p.encode = some (p.key, p.value) := by
  have hkey : HttpContext.equalsSign ∉ p.keyText :=
    p.key_encodes.notMem (by decide) (by decide) (by decide) (by decide)
  have hfind : find [HttpContext.equalsSign] p.encode = some p.keyText.length := by
    rcases Util.find_singleton HttpContext.equalsSign p.encode with ⟨_, hno⟩ | ⟨l, v, hf, hl, he⟩
    · exact absurd (List.mem_append_right _ List.mem_cons_self) hno
    · rw [hf, (append_cons_inj_first hkey hl he).1]
  have hdecode : ∀ {s e : Bytes}, Percent.Encodes Percent.unreserved true s e →
      Util.urlDecode e true = s := by
    intro s e he
    rw [Util.urlDecode_eq_decode true (he.wellEscaped (by decide)),
      Percent.decode_of_encodes (by decide) (fun _ => by decide) he]
  have htake : p.encode.take p.keyText.length = p.keyText := by
    rw [WireParam.encode, List.take_left]
  have hdrop : p.encode.drop (p.keyText.length + 1) = p.valueText := by
    rw [WireParam.encode, ← List.drop_drop, List.drop_left]
    rfl
  rw [HttpContext.keyVal, hfind, Option.map_some, htake, hdrop, hdecode p.key_encodes,
    hdecode p.value_encodes]

namespace RequestLine

open HttpContext

variable (r : RequestLine)

theorem queryStringArry_queryText :
    queryStringArry r.queryText = r.params.map WireParam.encode := by
  have hamp : ∀ l ∈ r.params.map WireParam.encode, ampersand ∉ l := by
    intro l hl
    obtain ⟨p, _, rfl⟩ := List.mem_map.mp hl
    exact p.encode_notMem (by decide) (by decide) (by decide) (by decide) (by decide)
  have hne : ∀ l ∈ r.params.map WireParam.encode, l ≠ [] := by
    intro l hl
    obtain ⟨p, _, rfl⟩ := List.mem_map.mp hl
    simp [WireParam.encode]
  have hmem : ampersand ∈ r.queryText := by
    have htwo := r.two
    rw [queryText]
    cases hps : r.params with
    | nil =>
      rw [hps] at htwo
      exact absurd htwo (by decide)
    | cons p ps =>
      cases ps with
      | nil =>
        rw [hps] at htwo
        exact absurd htwo (by simp)
      | cons p' ps => simp [List.map_cons, List.intercalate_cons_cons]
  have hnil : r.params.map WireParam.encode ≠ [] := by
    intro h
    rw [queryText, h] at hmem
    exact absurd hmem (by simp)
  rw [queryStringArry, if_pos (List.ne_nil_of_mem hmem), Util.split_eq_pieces, if_pos hmem,
    Util.pieces,
    queryText, List.splitOn_intercalate ampersand hamp hnil, List.filter_eq_self]
  intro l hl
  simpa using hne l hl

theorem mapM_keyVal (ps : List WireParam) :
    (ps.map WireParam.encode).mapM keyVal = some (ps.map fun p => (p.key, p.value)) := by
  induction ps with
  | nil => rfl
  | cons p ps ih => rw [List.map_cons, List.mapM_cons, p.keyVal_encode, ih]; rfl

theorem parseLine_encode :
    parseLine r.encode = .ok r.method r.path r.version
      (r.params.map fun p => (p.key, p.value)) := by
  have hpath : Util.urlDecode r.pathText false = r.path := by
    rw [Util.urlDecode_eq_decode false (r.path_encodes.wellEscaped (by decide)),
      Percent.decode_of_encodes (by decide) (fun h => absurd h Bool.false_ne_true) r.path_encodes]
  have h1 : r.captures.get 1 = r.methodText := rfl
  have h2 : r.captures.get 2 = r.pathText := rfl
  have h3 : r.captures.get 3 = r.queryText := rfl
  have h4 : r.captures.get 4 = r.version := rfl
  rw [parseLine, Regex.fullMatch_eq r.matches_encode fun _ => r.matches_unique]
  simp only [h1, h2, h3, h4, r.queryStringArry_queryText, mapM_keyVal, r.method_case, hpath]

/-- **A request line decodes to what was encoded.**  On a context without parameters `ParseHttpLine`
accepts the line and sets exactly the method in upper case, the path, the parameters and the
version. -/
theorem parseHttpLine_encode (c : HttpContext) (hparams : c.request.params = []) :
    c.parseHttpLine parseLine r.encode = (true, { c with
      request := { c.request with
        method := r.method
        path := r.path
        params := r.params.map fun p => (p.key, p.value)
        version := r.version } }) := by
  have hkeys : (r.params.map fun p => (p.key, p.value)).map Prod.fst =
      r.params.map WireParam.key := by
    rw [List.map_map]
    rfl
  rw [parseHttpLine, r.parseLine_encode]
  simp only [HttpRequest.foldl_setParam, hparams]
  rw [StringMap.foldl_insert (hkeys ▸ r.distinct) fun _ _ => rfl, List.nil_append]

/-- `"geT /a%20b?k=+&%3d=%26 HTTP/1.0\n"`. -/
def sample : RequestLine where
  method := ascii "GET".toList
  methodText := ascii "geT".toList
  path := ascii "/a b".toList
  pathText := ascii "/a%20b".toList
  params :=
    [⟨[107], [32], [107], [43], .kept rfl .nil, .space rfl .nil⟩,
      ⟨[61], [38], [37, 51, 100], [37, 50, 54], .escaped rfl rfl .nil, .escaped rfl rfl .nil⟩]
  version := ascii "HTTP/1.0".toList
  ending := some .lf
  method_mem := by decide
  method_case := by decide
  path_encodes := .kept rfl (.kept rfl (.escaped rfl rfl (.kept rfl .nil)))
  two := by decide
  distinct := by decide
  version_mem := by decide

theorem parseHttpLine_sample :
    HttpContext.new.parseHttpLine parseLine sample.encode = (true, { HttpContext.new with
      request := { HttpContext.new.request with
        method := sample.method
        path := sample.path
        params := sample.params.map fun p => (p.key, p.value)
        version := sample.version } }) :=
  parseHttpLine_encode sample HttpContext.new rfl

end RequestLine

end Flux
