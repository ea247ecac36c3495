import Flux.Http.Stream
import Mathlib.Data.List.TakeWhile

/-!
# Pipelined requests

The wire form of a request, as a client writes it: a request line, header lines `key: value`, an
empty line and a body of the length the headers give.  `WireRequest` carries all that makes it well
formed, `encode` is its bytes and `expected` the request the server is to see.

`run_opening` takes one request off the front of the stream: the run goes through the line, the
headers one by one, the empty line and the body, and ends in a fresh context with exactly what was
behind the request.  Nothing of the body is looked at, so it may hold anything, and nothing of the
request is left in the context.  `feed_frames` is the statement for any number of requests in any
chunking.
-/

namespace Flux

open Lib

inductive LineEnd
  | crlf
  | lf
deriving DecidableEq

def LineEnd.bytes : LineEnd → Bytes
  | crlf => [carriageReturn, newline]
  | lf => [newline]

/-- A header line, as the parser cuts it at its first `": "`. -/
structure HeaderLine where
  key : Bytes
  value : Bytes
  ending : LineEnd
  key_plain : newline ∉ key
  value_plain : newline ∉ value
  key_symbol : ¬ HttpContext.headSymbol <:+: key
  /-- A carriage return in front of a newline is part of the line end. -/
  value_end : value.getLast? = some carriageReturn → ending = .crlf
  short : (key ++ HttpContext.headSymbol ++ value ++ ending.bytes).length ≤ maxLine

def HeaderLine.encode (h : HeaderLine) : Bytes :=
  h.key ++ HttpContext.headSymbol ++ h.value ++ h.ending.bytes

namespace HeaderLine

def headerMap (hs : List HeaderLine) : StringMap := hs.map fun h => (h.key, h.value)

def collect (m : StringMap) (hs : List HeaderLine) : StringMap :=
  hs.foldl (fun m h => m.insert h.key h.value) m

/-- Headers with distinct names are taken one and all. -/
theorem collect_eq {m : StringMap} {hs : List HeaderLine} (hd : (hs.map HeaderLine.key).Nodup)
    (hnew : ∀ h ∈ hs, ∀ kv ∈ m, kv.1 ≠ h.key) : collect m hs = m ++ headerMap hs := by
  have hmap : collect m hs = (headerMap hs).foldl (fun m kv => m.insert kv.1 kv.2) m := by
    rw [headerMap, List.foldl_map]
    rfl
  have hkeys : (headerMap hs).map Prod.fst = hs.map HeaderLine.key := by
    rw [headerMap, List.map_map]
    rfl
  rw [hmap, StringMap.foldl_insert (hkeys ▸ hd)]
  intro kv hkv
  obtain ⟨h, hm, rfl⟩ := List.mem_map.mp hkv
  rw [StringMap.has, List.any_eq_false]
  intro kv' hkv'
  simpa using hnew h hm kv' hkv'

theorem collect_has (m : StringMap) (hs : List HeaderLine) (key : Bytes) :
    (collect m hs).has key = true ↔ m.has key = true ∨ ∃ h ∈ hs, h.key = key := by
  induction hs generalizing m with
  | nil => simp [collect]
  | cons h hs ih =>
    have hins : (m.insert h.key h.value).has key = true ↔ m.has key = true ∨ h.key = key := by
      rw [StringMap.insert_has, Bool.or_eq_true, beq_iff_eq]
    show (collect (m.insert h.key h.value) hs).has key = true ↔ _
    rw [ih, hins, or_assoc, List.exists_mem_cons_iff]

/-- What is found at a name is the value of a line with that name. -/
theorem collect_get {hs : List HeaderLine} {key : Bytes} (h : (collect [] hs).has key = true) :
    ∃ l ∈ hs, l.key = key ∧ l.value = (collect [] hs).get key := by
  have hmem : ∀ (hs : List HeaderLine) (m : StringMap), ∀ kv ∈ collect m hs,
      kv ∈ m ∨ ∃ l ∈ hs, (l.key, l.value) = kv := by
    intro hs
    induction hs with
    | nil => exact fun m kv hkv => Or.inl hkv
    | cons l hs ih =>
      intro m kv hkv
      rcases ih (m.insert l.key l.value) kv hkv with hkv | ⟨l', hl', heq⟩
      · unfold StringMap.insert at hkv
        split at hkv
        · exact Or.inl hkv
        · rcases List.mem_append.mp hkv with hkv | hkv
          · exact Or.inl hkv
          · exact Or.inr ⟨l, List.mem_cons_self, (List.mem_singleton.mp hkv).symm⟩
      · exact Or.inr ⟨l', List.mem_cons_of_mem l hl', heq⟩
  obtain ⟨kv, hkv⟩ := Option.isSome_iff_exists.mp (List.find?_isSome.mpr (List.any_eq_true.mp h))
  have hkey : kv.1 = key := by simpa using List.find?_some hkv
  rcases hmem hs [] kv (List.mem_of_find?_eq_some hkv) with hnil | ⟨l, hl, rfl⟩
  · exact absurd hnil List.not_mem_nil
  · refine ⟨l, hl, hkey, ?_⟩
    rw [StringMap.get, hkv]
    rfl

theorem oneDigit_ne (d : UInt8) : newline ≠ 48 + d % 10 ∧ 48 + d % 10 ≠ carriageReturn := by
  have hd : (d % 10).toNat < 10 := Nat.mod_lt _ (by decide)
  have hsum : (48 + d % 10).toNat = (48 + (d % 10).toNat) % 256 := rfl
  refine ⟨fun h => ?_, fun h => ?_⟩
  · have h10 : 10 = (48 + d % 10).toNat := congrArg UInt8.toNat h
    omega
  · have h13 : (48 + d % 10).toNat = 13 := congrArg UInt8.toNat h
    omega

theorem oneDigit_short (d : UInt8) (ending : LineEnd) :
    (HttpRequest.contentLengthKey ++ HttpContext.headSymbol ++ [48 + d % 10] ++
      ending.bytes).length ≤ maxLine := by
  cases ending <;> exact of_decide_eq_true rfl

/-- A `Content-Length` of one digit. -/
def oneDigit (d : UInt8) (ending : LineEnd) : HeaderLine where
  key := HttpRequest.contentLengthKey
  value := [48 + d % 10]
  ending := ending
  key_plain := by decide
  value_plain h := (oneDigit_ne d).1 (List.mem_singleton.mp h)
  key_symbol := by decide
  value_end h := absurd (Option.some.inj h) (oneDigit_ne d).2
  short := oneDigit_short d ending

end HeaderLine

def Decimal (value : Bytes) (n : Nat) : Prop :=
  value ≠ [] ∧ (∀ b ∈ value, isDigit b = true) ∧ decimal value = n ∧ n < 2 ^ 63

instance (value : Bytes) (n : Nat) : Decidable (Decimal value n) :=
  inferInstanceAs (Decidable (_ ∧ _ ∧ _ ∧ _))

/-- A request line that `parse` accepts and header lines, as far as the empty line. -/
structure Opening (parse : Bytes → LineResult) where
  line : Bytes
  line_plain : newline ∉ line
  line_short : (line ++ [newline]).length ≤ maxLine
  line_ok : ∃ method path version query, parse (line ++ [newline]) = .ok method path version query
  headers : List HeaderLine

namespace Opening

variable {parse : Bytes → LineResult} (o : Opening parse)

def encode : Bytes := o.line ++ newline :: o.headers.flatMap HeaderLine.encode

def request : HttpRequest :=
  { (HttpContext.new.parseHttpLine parse (o.line ++ [newline])).2.request with
    headers := HeaderLine.collect [] o.headers }

def context (status : HttpRecvStatus) : HttpContext := ⟨200, status, o.request⟩

end Opening

structure WireRequest (parse : Bytes → LineResult) extends Opening parse where
  distinct : (headers.map HeaderLine.key).Nodup
  blank : LineEnd
  body : Bytes
  body_decimal : ∀ h ∈ headers, h.key = HttpRequest.contentLengthKey → Decimal h.value body.length
  body_nil : (∀ h ∈ headers, h.key ≠ HttpRequest.contentLengthKey) → body = []

namespace WireRequest

variable {parse : Bytes → LineResult}

def encode (r : WireRequest parse) : Bytes :=
  r.line ++ newline :: (r.headers.flatMap HeaderLine.encode ++ (r.blank.bytes ++ r.body))

/-- The request to be seen: the fields of the line as parsed on a fresh context, with exactly the
headers and the body of the wire. -/
def expected (r : WireRequest parse) : HttpRequest :=
  { (HttpContext.new.parseHttpLine parse (r.line ++ [newline])).2.request with
    headers := HeaderLine.headerMap r.headers
    body := r.body }

end WireRequest

/-! ### The length of the body -/

theorem decimal_digit_ne {b : UInt8} (h : isDigit b = true) :
    isSpace b = false ∧ b ≠ 45 ∧ b ≠ 43 := by
  have hb : 48 ≤ b.toNat ∧ b.toNat ≤ 57 := by
    simpa [isDigit, UInt8.le_iff_toNat_le] using h
  refine ⟨?_, ?_, ?_⟩
  · simp only [isSpace, Bool.or_eq_false_iff, beq_eq_false_iff_ne, Bool.and_eq_false_iff,
      decide_eq_false_iff_not, UInt8.le_iff_toNat_le]
    exact ⟨fun h32 => by simp [h32] at hb, Or.inr (by simp; omega)⟩
  · rintro rfl
    simp at hb
  · rintro rfl
    simp at hb

theorem stol_decimal {value : Bytes} {n : Nat} (h : Decimal value n) :
    stol value = some (n : Int) := by
  obtain ⟨hne, hdig, rfl, hlt⟩ := h
  cases value with
  | nil => exact absurd rfl hne
  | cons b s =>
    obtain ⟨hsp, hm, hp⟩ := decimal_digit_ne (hdig b List.mem_cons_self)
    have hdrop : (b :: s).dropWhile isSpace = b :: s := by
      rw [List.dropWhile_cons, hsp]
      rfl
    have htake : (b :: s).takeWhile isDigit = b :: s := List.takeWhile_eq_self_iff.mpr hdig
    unfold stol
    rw [hdrop, takeSign, if_neg hm, if_neg hp]
    simp only [htake, if_neg hne, Bool.false_eq_true, if_false]
    rw [if_pos (by omega)]

theorem exists_contentLength {r : HttpRequest}
    (h : r.hasHeader HttpRequest.contentLengthKey = true →
    ∃ n, Decimal (r.getHeader HttpRequest.contentLengthKey) n) : ∃ n, r.contentLength = some n := by
  unfold HttpRequest.contentLength
  split
  · rename_i hhas
    obtain ⟨n, hn⟩ := h hhas
    exact ⟨_, by rw [stol_decimal hn]; rfl⟩
  · exact ⟨0, rfl⟩

namespace HeaderLine

theorem headerMap_has (hs : List HeaderLine) (key : Bytes) :
    (headerMap hs).has key = true ↔ ∃ h ∈ hs, h.key = key := by
  simp [StringMap.has, headerMap]

theorem headerMap_get {hs : List HeaderLine} {key : Bytes} {P : Bytes → Prop}
    (hex : ∃ h ∈ hs, h.key = key) (hall : ∀ h ∈ hs, h.key = key → P h.value) :
    P ((headerMap hs).get key) := by
  obtain ⟨h0, hm0, hk0⟩ := hex
  cases hf : (headerMap hs).find? (·.1 == key) with
  | none =>
    rw [List.find?_eq_none] at hf
    exact absurd hk0 (by simpa using hf (h0.key, h0.value) (List.mem_map_of_mem hm0))
  | some kv =>
    have hkey : kv.1 = key := by simpa using List.find?_some hf
    obtain ⟨h, hm, rfl⟩ := List.mem_map.mp (List.mem_of_find?_eq_some hf)
    rw [StringMap.get, hf]
    exact hall h hm hkey

end HeaderLine

namespace WireRequest

variable {parse : Bytes → LineResult}

theorem contentLength_eq (r : WireRequest parse) (req : HttpRequest)
    (h : req.headers = HeaderLine.headerMap r.headers) :
    req.contentLength = some r.body.length := by
  rw [HttpRequest.contentLength, HttpRequest.hasHeader, HttpRequest.getHeader, h]
  by_cases hex : ∃ h ∈ r.headers, h.key = HttpRequest.contentLengthKey
  · have hdec := HeaderLine.headerMap_get (P := fun v => Decimal v r.body.length) hex r.body_decimal
    rw [if_pos ((HeaderLine.headerMap_has _ _).mpr hex), stol_decimal hdec, Option.map_some]
    have hlt := hdec.2.2.2
    congr 1
    omega
  · rw [if_neg (mt (HeaderLine.headerMap_has _ _).mp hex), r.body_nil (by simpa using hex)]
    rfl

end WireRequest

/-! ### Lines off the front of the stream -/

namespace HttpContext

variable {parse : Bytes → LineResult} {c : HttpContext}

theorem onLine_line {l : Bytes} (hl : newline ∉ l) (hlen : (l ++ [newline]).length ≤ maxLine)
    (r : Bytes) (k : Bytes → Bytes → HttpVerdict) :
    c.onLine (l ++ newline :: r) k = k (l ++ [newline]) r := by
  have hsplit : splitThrough (· == newline) (l ++ newline :: r) = some (l ++ [newline], r) :=
    splitThrough_line (fun x hx => by simpa using fun h : x = newline => hl (h ▸ hx)) (by simp) r
  rw [onLine, hsplit]
  exact if_neg (Nat.not_lt.mpr hlen)

/-- What `ParseHttpHead` strips off a text is its line end. -/
theorem chomp_bytes {t : Bytes} {e : LineEnd} (ht : t.getLast? = some carriageReturn → e = .crlf) :
    chomp (t ++ e.bytes) = t := by
  have hlast : (t ++ e.bytes).getLast? = some newline := by cases e <;> simp [LineEnd.bytes]
  cases e with
  | crlf =>
    have hdrop : (t ++ LineEnd.crlf.bytes).dropLast = t ++ [carriageReturn] := by
      simp [LineEnd.bytes, List.dropLast_append_of_ne_nil]
    simp only [chomp, if_pos hlast, hdrop]
    rw [if_pos (by simp), List.dropLast_concat]
  | lf =>
    have hdrop : (t ++ LineEnd.lf.bytes).dropLast = t := by simp [LineEnd.bytes]
    simp only [chomp, if_pos hlast, hdrop]
    rw [if_neg fun hcr => absurd (ht hcr) (by simp)]

/-- The first `": "` of a header line is the one behind the key. -/
theorem find_headSymbol {key : Bytes} (hkey : ¬ headSymbol <:+: key) (value : Bytes) :
    find headSymbol (key ++ headSymbol ++ value) = some key.length := by
  rw [List.append_assoc]
  refine find_append ?_
  intro i hi hpre
  rw [List.drop_append_of_le_length hi.le] at hpre
  by_cases hin : i + 2 ≤ key.length
  · -- inside the key there is none
    refine hkey (List.IsInfix.trans ?_ (List.drop_suffix i key).isInfix)
    exact (List.prefix_of_prefix_length_le hpre (List.prefix_append _ _)
      (by rw [List.length_drop]; simp [headSymbol, ascii]; omega)).isInfix
  · -- across its end the second character is the `':'` of the symbol
    obtain ⟨x, hx⟩ : ∃ x, key.drop i = [x] := by
      rw [← List.length_eq_one_iff, List.length_drop]
      omega
    rw [hx] at hpre
    simp [headSymbol, ascii] at hpre

/-- A line ending is a newline, maybe with a carriage return in front. -/
theorem LineEnd.exists_bytes (e : LineEnd) : ∃ w, newline ∉ w ∧ e.bytes = w ++ [newline] := by
  cases e with
  | crlf => exact ⟨[carriageReturn], by decide, rfl⟩
  | lf => exact ⟨[], by simp, rfl⟩

end HttpContext

namespace HeaderLine

open HttpContext

variable (h : HeaderLine)

theorem chomp_encode : chomp h.encode = h.key ++ headSymbol ++ h.value := by
  refine chomp_bytes ?_
  cases hv : h.value with
  | nil => exact fun hcr => absurd hcr (by simp [headSymbol, ascii, carriageReturn])
  | cons b v =>
    rw [List.getLast?_append_of_ne_nil _ (List.cons_ne_nil b v), ← hv]
    exact h.value_end

theorem parseHttpHead_encode (c : HttpContext) : c.parseHttpHead h.encode =
    (true, { c with request := c.request.setHeader h.key h.value }) := by
  rw [parseHttpHead, chomp_encode, find_headSymbol h.key_symbol]
  simp only
  rw [List.append_assoc, List.take_left, ← List.append_assoc, ← List.length_append,
    List.drop_left]

theorem encode_not_blank : blank h.encode = false := by
  have hlen : 3 ≤ h.encode.length := by
    have hend : 1 ≤ h.ending.bytes.length := by cases h.ending <;> simp [LineEnd.bytes]
    have hsymbol : headSymbol.length = 2 := rfl
    rw [encode, List.length_append, List.length_append, List.length_append]
    omega
  rw [blank, Bool.or_eq_false_iff, beq_eq_false_iff_ne, beq_eq_false_iff_ne]
  constructor <;>
    · intro heq
      rw [heq] at hlen
      exact absurd hlen (by decide)

theorem encode_line : ∃ w, h.encode = w ++ [newline] ∧ newline ∉ w := by
  obtain ⟨w, hw, hbytes⟩ := LineEnd.exists_bytes h.ending
  refine ⟨h.key ++ headSymbol ++ h.value ++ w, ?_, ?_⟩
  · rw [encode, hbytes, ← List.append_assoc]
  · simp only [List.mem_append, not_or]
    exact ⟨⟨⟨h.key_plain, by decide⟩, h.value_plain⟩, hw⟩

end HeaderLine

namespace HttpContext

variable {parse : Bytes → LineResult} {c : HttpContext}

/-! ### One request -/

theorem readStep_head (hc : c.recvStatus = .head) (u : Bytes) :
    readStep parse c u = c.onLine u c.afterHead := by
  rw [readStep, hc]

theorem readStep_header (hc : c.recvStatus = .head) (h : HeaderLine) (rest : Bytes) :
    readStep parse c (h.encode ++ rest) =
      .next [] { c with request := c.request.setHeader h.key h.value } rest := by
  obtain ⟨w, hline, hplain⟩ := h.encode_line
  have hshort : (w ++ [newline]).length ≤ maxLine := hline ▸ h.short
  rw [hline, List.append_assoc, readStep_head hc]
  show c.onLine (_ ++ newline :: rest) _ = _
  rw [onLine_line hplain hshort, ← hline, afterHead, h.encode_not_blank, h.parseHttpHead_encode]
  rfl

theorem readStep_blank (hc : c.recvStatus = .head) (e : LineEnd) (rest : Bytes) :
    readStep parse c (e.bytes ++ rest) = .next [] { c with recvStatus := .body } rest := by
  cases e with
  | crlf =>
    rw [readStep_head hc]
    show c.onLine ([carriageReturn] ++ newline :: rest) _ = _
    rw [onLine_line (by decide) (by decide), afterHead]
    rfl
  | lf =>
    rw [readStep_head hc]
    show c.onLine ([] ++ newline :: rest) _ = _
    rw [onLine_line (by simp) (by decide), afterHead]
    rfl

theorem goes_headers (hs : List HeaderLine) (hc : c.recvStatus = .head) (rest : Bytes) :
    Goes parse c (hs.flatMap HeaderLine.encode ++ rest)
      { c with request := { c.request with
        headers := HeaderLine.collect c.request.headers hs } } rest := by
  induction hs generalizing c with
  | nil => exact Goes.refl c rest
  | cons h hs ih =>
    rw [List.flatMap_cons, List.append_assoc]
    exact (Goes.of_next (readStep_header hc h _)).trans (ih hc)

theorem afterLine_opening (line r : Bytes) (hplain : newline ∉ line)
    (hshort : (line ++ [newline]).length ≤ maxLine)
    (hok : ∃ method path version query, parse (line ++ [newline]) = .ok method path version query) :
    new.afterLine parse (line ++ [newline]) r =
      .next [] ((⟨line, hplain, hshort, hok, []⟩ : Opening parse).context .head) r := by
  obtain ⟨method, path, version, query, hok⟩ := hok
  have hheaders : (new.parseHttpLine parse (line ++ [newline])).2.request.headers = [] := by
    rw [parseHttpLine, hok]
    exact foldl_setParam_headers _ _
  rw [Opening.context, Opening.request, HeaderLine.collect, List.foldl_nil, ← hheaders, afterLine]
  simp only [parseHttpLine, hok]
  rfl

theorem readStep_opening (o : Opening parse) (rest : Bytes) :
    readStep parse new (o.line ++ newline :: rest) =
      .next [] ({ o with headers := [] }.context .head) rest := by
  show new.onLine _ _ = _
  rw [onLine_line o.line_plain o.line_short,
    afterLine_opening o.line _ o.line_plain o.line_short o.line_ok]

theorem goes_opening (o : Opening parse) (rest : Bytes) :
    Goes parse new (o.encode ++ rest) (o.context .head) rest := by
  have hwire : o.encode ++ rest =
      o.line ++ newline :: (o.headers.flatMap HeaderLine.encode ++ rest) := by
    simp [Opening.encode]
  have hheaders : Goes parse ({ o with headers := [] }.context .head)
      (o.headers.flatMap HeaderLine.encode ++ rest) (o.context .head) rest :=
    goes_headers o.headers rfl rest
  rw [hwire]
  exact (Goes.of_next (readStep_opening o _)).trans hheaders

theorem parseHttpLine_body {line method path version : Bytes} {query : List (Bytes × Bytes)}
    (hok : parse line = .ok method path version query) :
    (new.parseHttpLine parse line).2.request.body = [] := by
  rw [parseHttpLine, hok]
  exact foldl_setParam_body _ _

theorem Opening.request_body (o : Opening parse) : o.request.body = [] := by
  obtain ⟨method, path, version, query, hok⟩ := o.line_ok
  exact parseHttpLine_body hok

theorem readStep_body (hc : c.recvStatus = .body) (hb : c.request.body = []) {body : Bytes}
    (hn : c.request.contentLength = some body.length) (rest : Bytes) :
    readStep parse c (body ++ rest) = .next [{ c.request with body := body }] new rest := by
  have hneed : body.length - c.request.body.length = body.length := by rw [hb]; rfl
  simp only [readStep, hc, hn, hneed]
  rw [if_neg (by rw [hb]; exact Nat.not_lt_zero _), if_pos (by simp), List.take_left,
    List.drop_left, withBody, hb]
  rfl

theorem run_body (hc : c.recvStatus = .body) (hb : c.request.body = []) {body : Bytes}
    (hn : c.request.contentLength = some body.length) (rest : Bytes) :
    (httpReader parse).run c (body ++ rest) =
      ({ c.request with body := body } :: ((httpReader parse).run new rest).1,
        ((httpReader parse).run new rest).2) :=
  Reader.run_of_next (R := httpReader parse) (readStep_body hc hb hn rest)

/-- **One request off the front of the stream**, with nothing of it left. -/
theorem run_opening (o : Opening parse) (e : LineEnd) {body : Bytes}
    (hn : o.request.contentLength = some body.length) (rest : Bytes) :
    (httpReader parse).run new (o.encode ++ (e.bytes ++ (body ++ rest))) =
      ({ o.request with body := body } :: ((httpReader parse).run new rest).1,
        ((httpReader parse).run new rest).2) := by
  rw [(goes_opening o _).1, (Goes.of_next (readStep_blank rfl e _)).1]
  exact run_body (c := o.context .body) rfl (Opening.request_body o) hn rest

theorem run_encode (r : WireRequest parse) (rest : Bytes) :
    (httpReader parse).run new (r.encode ++ rest) =
      (r.expected :: ((httpReader parse).run new rest).1, ((httpReader parse).run new rest).2) := by
  have hwire : r.encode ++ rest =
      r.toOpening.encode ++ (r.blank.bytes ++ (r.body ++ rest)) := by
    simp [WireRequest.encode, Opening.encode]
  have hmap : HeaderLine.collect [] r.headers = HeaderLine.headerMap r.headers :=
    HeaderLine.collect_eq r.distinct (by simp)
  have hexpected : r.expected = { r.request with body := r.body } := by
    rw [WireRequest.expected, Opening.request, hmap]
  have hlen := r.contentLength_eq r.request hmap
  rw [hwire, hexpected]
  exact run_opening r.toOpening r.blank hlen rest

theorem run_encodes (rs : List (WireRequest parse)) :
    (httpReader parse).run new (rs.flatMap WireRequest.encode) =
      (rs.map WireRequest.expected, .ok (new, [])) := by
  induction rs with
  | nil => exact Reader.run_of_wait (R := httpReader parse) (idle_new parse [] rfl)
  | cons r rs ih => rw [List.flatMap_cons, run_encode, ih, List.map_cons]

/-- **Pipelined requests are framed exactly.**  However the bytes of any number of well-formed
requests are cut into reads, feeding them to a fresh context yields these requests, in order, each
with exactly its own line fields, headers and body; there is no error, nothing is left unread and
the context is fresh.  Reads of at most 65535 bytes, the most the connection takes at a time, always
go through. -/
theorem feed_frames (parse : Bytes → LineResult) (rs : List (WireRequest parse))
    (reads : List Bytes) (h : reads.flatten = rs.flatMap WireRequest.encode) :
    (∀ p, feed parse new .new reads = some p →
      seen p = (rs.map WireRequest.expected, .ok (new, []))) ∧
    ((∀ read ∈ reads, read.length ≤ 65535) → (feed parse new .new reads).isSome) := by
  refine ⟨?_, feed_new_isSome⟩
  intro p hp
  rw [feed_new_seen hp, h, run_encodes]

/-- A request twice in a row whose body is a line ending and the start of a request line, cut after
the newline in it. -/
theorem feed_frames_twice :
    ∃ r : WireRequest (fun _ => .ok [71] [47] [49] []), ∃ reads, r.body = [10, 71] ∧
      reads.length = 2 ∧
      (∀ p, feed (fun _ => .ok [71] [47] [49] []) new .new reads = some p →
        seen p = ([r, r].map WireRequest.expected, .ok (new, []))) ∧
      ((∀ read ∈ reads, read.length ≤ 65535) →
        (feed (fun _ => .ok [71] [47] [49] []) new .new reads).isSome) := by
  let r : WireRequest (fun _ => .ok [71] [47] [49] []) :=
    { line := [71]
      line_plain := by decide
      line_short := by decide
      line_ok := ⟨_, _, _, _, rfl⟩
      headers := [.oneDigit 2 .crlf]
      distinct := by decide
      blank := .lf
      body := [10, 71]
      body_decimal := by
        intro h hm _
        rw [List.mem_singleton.mp hm]
        decide +kernel
      body_nil := fun h => absurd rfl (h _ List.mem_cons_self) }
  exact ⟨r, [r.encode.dropLast, [71] ++ r.encode], rfl, rfl,
    feed_frames _ [r, r] [r.encode.dropLast, [71] ++ r.encode] (by decide)⟩

end HttpContext

end Flux
