import Flux.Http.KeepAlive

/-!
# The case of header names

The names of header fields are looked up as they were spelled, while HTTP takes them up to case.
`Message` is a request that is well formed in the sense of HTTP, and a recasing changes nothing but
capital and small letters in the names.

A request whose `Content-Length` is not spelled so has no body for the parser, and the bytes of its
body are read as requests.  `header_case_iff` says for which streams no recasing changes what the
parser makes of them.
-/

namespace Flux

open Lib HttpResponse

/-! ### Small letters -/

def lowerByte (b : UInt8) : UInt8 := if 65 ≤ b ∧ b ≤ 90 then b + 32 else b

def lower (name : Bytes) : Bytes := name.map lowerByte

/-- Names that differ in the case of letters at most. -/
def SameName (name name' : Bytes) : Prop := lower name = lower name'

instance (name name' : Bytes) : Decidable (SameName name name') :=
  inferInstanceAs (Decidable (_ = _))

theorem lowerByte_lowerByte (b : UInt8) : lowerByte (lowerByte b) = lowerByte b := by
  unfold lowerByte
  grind

/-- What is in front of the letters is alike to nothing else. -/
theorem lowerByte_eq_iff {b c : UInt8} (hc : c < 65) : lowerByte b = c ↔ b = c := by
  unfold lowerByte
  grind

theorem lower_lower (name : Bytes) : lower (lower name) = lower name := by
  rw [lower, lower, List.map_map]
  exact List.map_congr_left fun b _ => lowerByte_lowerByte b

theorem sameName_lower (name : Bytes) : SameName name (lower name) := (lower_lower name).symm

namespace SameName

variable {name name' : Bytes}

theorem length_eq (h : SameName name name') : name.length = name'.length := by
  have hlen := congrArg List.length h
  rwa [lower, lower, List.length_map, List.length_map] at hlen

theorem plain (h : SameName name name') (hn : newline ∉ name) : newline ∉ name' := by
  have hsmall : newline < 65 := by decide
  have hmem : ∀ n : Bytes, newline ∈ n ↔ newline ∈ lower n := by
    intro n
    rw [lower, List.mem_map]
    constructor
    · intro hb
      exact ⟨newline, hb, (lowerByte_eq_iff hsmall).mpr rfl⟩
    · rintro ⟨b, hb, heq⟩
      rwa [← (lowerByte_eq_iff hsmall).mp heq]
  rw [hmem, ← h, ← hmem]
  exact hn

theorem symbol (h : SameName name name') (hn : ¬ HttpContext.headSymbol <:+: name) :
    ¬ HttpContext.headSymbol <:+: name' := by
  have hlower : ∀ u : Bytes, lower u = HttpContext.headSymbol → u = HttpContext.headSymbol := by
    intro u hu
    have hcolon : (58 : UInt8) < 65 := by decide
    have hblank : (32 : UInt8) < 65 := by decide
    obtain ⟨a, u, rfl, ha, hu⟩ := List.map_eq_cons_iff.mp hu
    obtain ⟨b, u, rfl, hb, hu⟩ := List.map_eq_cons_iff.mp hu
    obtain rfl := List.map_eq_nil_iff.mp hu
    rw [(lowerByte_eq_iff hcolon).mp ha, (lowerByte_eq_iff hblank).mp hb]
    rfl
  have hwithin : ∀ n : Bytes, HttpContext.headSymbol <:+: n ↔
      HttpContext.headSymbol <:+: lower n := by
    intro n
    constructor
    · intro hi
      exact hi.map lowerByte
    · rintro ⟨s, t, heq⟩
      obtain ⟨st, t', rfl, hst, _⟩ := List.map_eq_append_iff.mp heq.symm
      obtain ⟨s', u, rfl, _, hu⟩ := List.map_eq_append_iff.mp hst
      rw [hlower u hu]
      exact ⟨s', t', rfl⟩
  rw [hwithin, ← h, ← hwithin]
  exact hn

end SameName

/-! ### Requests and their recasings -/

/-- Another way to spell the name of a header line. -/
def HeaderLine.Recased (h h' : HeaderLine) : Prop :=
  SameName h.key h'.key ∧ h'.value = h.value ∧ h'.ending = h.ending

def HeaderLine.respell (h : HeaderLine) (key : Bytes) (hk : SameName h.key key) : HeaderLine :=
  { h with
    key := key
    key_plain := hk.plain h.key_plain
    key_symbol := hk.symbol h.key_symbol
    short := by
      have hshort := h.short
      simp only [List.length_append, hk.length_eq] at hshort ⊢
      exact hshort }

theorem HeaderLine.respell_recased (h : HeaderLine) (key : Bytes) (hk : SameName h.key key) :
    h.Recased (h.respell key hk) := ⟨hk, rfl, rfl⟩

/-- A request on the wire that is well formed with header names up to case: its line is one that
`parse` accepts, and every length in its headers is that of its body. -/
structure Message (parse : Bytes → LineResult) extends Opening parse where
  blank : LineEnd
  body : Bytes
  body_decimal : ∀ h ∈ headers, SameName h.key HttpRequest.contentLengthKey →
    Decimal h.value body.length
  body_nil : (∀ h ∈ headers, ¬ SameName h.key HttpRequest.contentLengthKey) → body = []

namespace Message

variable {parse : Bytes → LineResult}

def encode (r : Message parse) : Bytes :=
  r.line ++ newline :: (r.headers.flatMap HeaderLine.encode ++ (r.blank.bytes ++ r.body))

/-- The same request with header names spelled in another way. -/
def Recased (r r' : Message parse) : Prop :=
  r'.line = r.line ∧ List.Forall₂ HeaderLine.Recased r.headers r'.headers ∧ r'.blank = r.blank ∧
    r'.body = r.body

/-! ### What the parser makes of a request -/

/-- A header line has the very name the parser looks for. -/
def Named (r : Message parse) : Prop := ∃ h ∈ r.headers, h.key = HttpRequest.contentLengthKey

instance (r : Message parse) : Decidable r.Named := inferInstanceAs (Decidable (∃ h ∈ r.headers, _))

def taken (r : Message parse) : Bytes := if r.Named then r.body else []

def left (r : Message parse) : Bytes := if r.Named then [] else r.body

def map (r : Message parse) : StringMap := HeaderLine.collect [] r.headers

def short (r : Message parse) : Bool :=
  !(r.map.has connectionKey && r.map.get connectionKey == keepAlive)

theorem body_eq (r : Message parse) : r.body = r.taken ++ r.left := by
  unfold taken left
  split
  · exact (List.append_nil _).symm
  · rfl

theorem contentLength_eq (r : Message parse) {req : HttpRequest} (h : req.headers = r.map) :
    req.contentLength = some r.taken.length := by
  have hhas : r.map.has HttpRequest.contentLengthKey = true ↔ r.Named := by
    rw [map, HeaderLine.collect_has]
    exact or_iff_right (by simp [StringMap.has])
  rw [HttpRequest.contentLength, HttpRequest.hasHeader, HttpRequest.getHeader, h, taken]
  by_cases hn : r.Named
  · obtain ⟨l, hl, hkey, hval⟩ := HeaderLine.collect_get (hhas.mpr hn)
    have hdec := r.body_decimal l hl (congrArg lower hkey)
    have hget : l.value = r.map.get HttpRequest.contentLengthKey := hval
    rw [if_pos (hhas.mpr hn), if_pos hn, ← hget, stol_decimal hdec, Option.map_some]
    have hlt := hdec.2.2.2
    congr 1
    omega
  · rw [if_neg (mt hhas.mp hn), if_neg hn]
    rfl

end Message

/-- What is asked about a request: its body and whether its connection is short. -/
def HttpRequest.verdict (req : HttpRequest) : Bytes × Bool := (req.body, req.isShortConnection)

def verdicts (parse : Bytes → LineResult) (u : Bytes) : List (Bytes × Bool) :=
  ((httpReader parse).run .new u).1.map HttpRequest.verdict

namespace Message

variable {parse : Bytes → LineResult}

/-- **One request off the front of the stream**, with the bytes of its body left there if its length
was not found. -/
theorem verdicts_encode (r : Message parse) (rest : Bytes) :
    verdicts parse (r.encode ++ rest) = (r.taken, r.short) :: verdicts parse (r.left ++ rest) := by
  have hwire : r.encode ++ rest =
      r.toOpening.encode ++ (r.blank.bytes ++ (r.taken ++ (r.left ++ rest))) := by
    rw [← List.append_assoc r.taken, ← body_eq]
    simp [encode, Opening.encode]
  have hlen : r.request.contentLength = some r.taken.length := r.contentLength_eq rfl
  rw [verdicts, hwire, HttpContext.run_opening r.toOpening r.blank hlen]
  rfl

/-- A request of which the parser makes the same in every case: it has no body, and no header with a
name like `Connection` asks to keep the connection. -/
def Indifferent (r : Message parse) : Prop :=
  r.body = [] ∧ ∀ h ∈ r.headers, SameName h.key connectionKey → h.value ≠ keepAlive

theorem Indifferent.recased {r r' : Message parse} (h : r.Indifferent) (hr : r.Recased r') :
    r'.Indifferent := by
  obtain ⟨_, hheaders, _, hbody⟩ := hr
  refine ⟨hbody.trans h.1, ?_⟩
  intro l' hl' hname
  obtain ⟨l, hl, hkey, hvalue, _⟩ : ∃ l ∈ r.headers, l.Recased l' := by
    obtain ⟨i, hi⟩ := List.mem_iff_getElem?.mp hl'
    have hlen := hheaders.length_eq
    obtain ⟨hlt, rfl⟩ := List.getElem?_eq_some_iff.mp hi
    exact ⟨r.headers[i], List.getElem_mem _, hheaders.get (by omega) hlt⟩
  rw [hvalue]
  exact h.2 l hl (hkey.trans hname)

/-- There is nothing of it to be lost. -/
theorem Indifferent.verdicts {r : Message parse} (h : r.Indifferent) (rest : Bytes) :
    verdicts parse (r.encode ++ rest) = ([], true) :: verdicts parse rest := by
  obtain ⟨hbody, hvalue⟩ := h
  have htaken : r.taken = [] := by rw [taken, hbody, ite_self]
  have hleft : r.left = [] := by rw [left, hbody, ite_self]
  have hshort : r.short = true := by
    rw [short, Bool.not_eq_true', Bool.and_eq_false_iff, or_iff_not_imp_left, Bool.not_eq_false,
      beq_eq_false_iff_ne]
    intro hhas hget
    obtain ⟨l, hl, hkey, hval⟩ := HeaderLine.collect_get hhas
    exact hvalue l hl (congrArg lower hkey) (hval.trans hget)
  rw [verdicts_encode, htaken, hleft, hshort, List.nil_append]

/-! ### Two recasings -/

def respell (r : Message parse) (f : HeaderLine → Bytes) (hf : ∀ h, SameName h.key (f h)) :
    Message parse :=
  { r with
    headers := r.headers.map fun h => h.respell (f h) (hf h)
    body_decimal := by
      intro l hl hname
      obtain ⟨h, hm, rfl⟩ := List.mem_map.mp hl
      exact r.body_decimal h hm ((hf h).trans hname)
    body_nil := by
      intro hno
      refine r.body_nil ?_
      intro h hm hname
      exact hno _ (List.mem_map_of_mem hm) ((hf h).symm.trans hname) }

theorem respell_recased (r : Message parse) (f : HeaderLine → Bytes)
    (hf : ∀ h, SameName h.key (f h)) : r.Recased (r.respell f hf) := by
  refine ⟨rfl, ?_, rfl, rfl⟩
  rw [respell, List.forall₂_map_right_iff, List.forall₂_same]
  exact fun h _ => h.respell_recased (f h) (hf h)

def lowered (r : Message parse) : Message parse :=
  r.respell (fun h => lower h.key) fun h => sameName_lower h.key

/-- A name in small letters is none the parser looks for. -/
theorem lower_ne {name key : Bytes} (h : lower key ≠ key) : lower name ≠ key := by
  rintro rfl
  exact h (lower_lower name)

theorem lowered_verdicts (r : Message parse) (rest : Bytes) :
    Flux.verdicts parse (r.lowered.encode ++ rest) =
      ([], true) :: Flux.verdicts parse (r.body ++ rest) := by
  have hno : ∀ key, lower key ≠ key → ¬ ∃ h ∈ r.lowered.headers, h.key = key := by
    rintro key hkey ⟨l, hl, heq⟩
    obtain ⟨h, _, rfl⟩ := List.mem_map.mp hl
    exact lower_ne hkey heq
  have hname : ¬ r.lowered.Named := hno _ (by decide)
  have hconn : r.lowered.map.has connectionKey = false := by
    rw [Bool.eq_false_iff, ne_eq, map, HeaderLine.collect_has]
    rintro (hnil | hex)
    · exact absurd hnil (by decide)
    · exact hno _ (by decide) hex
  have hshort : r.lowered.short = true := by rw [short, hconn]; rfl
  rw [verdicts_encode, taken, left, if_neg hname, if_neg hname, hshort]
  rfl

/-- As the parser looks for names: every length, and the headers that ask to keep the connection. -/
def spelling (h : HeaderLine) : Bytes :=
  if SameName h.key HttpRequest.contentLengthKey then HttpRequest.contentLengthKey
  else if SameName h.key connectionKey ∧ h.value = keepAlive then connectionKey
  else lower h.key

theorem sameName_spelling (h : HeaderLine) : SameName h.key (spelling h) := by
  unfold spelling
  split
  · assumption
  · split
    · rename_i hc
      exact hc.1
    · exact sameName_lower h.key

def spelled (r : Message parse) : Message parse := r.respell spelling sameName_spelling

theorem spelled_verdicts (r : Message parse) (rest : Bytes) :
    Flux.verdicts parse (r.spelled.encode ++ rest) =
      (r.body, r.spelled.short) :: Flux.verdicts parse rest := by
  have hsplit : r.spelled.taken = r.body ∧ r.spelled.left = [] := by
    by_cases hn : r.spelled.Named
    · exact ⟨if_pos hn, if_pos hn⟩
    · have hbody : r.body = [] := by
        refine r.body_nil ?_
        intro h hm hname
        exact hn ⟨_, List.mem_map_of_mem hm, if_pos hname⟩
      exact ⟨(if_neg hn).trans hbody.symm, (if_neg hn).trans hbody⟩
  rw [verdicts_encode, hsplit.1, hsplit.2, List.nil_append]

/-- A header that asks to keep the connection is heard. -/
theorem spelled_short {r : Message parse} (h : r.spelled.short = true) :
    ∀ l ∈ r.headers, SameName l.key connectionKey → l.value ≠ keepAlive := by
  intro l hl hname hvalue
  have hother : ∀ name, SameName name connectionKey →
      ¬ SameName name HttpRequest.contentLengthKey := by
    intro name hc hcl
    exact absurd (hc.symm.trans hcl) (by decide)
  have hkey : spelling l = connectionKey := by
    rw [spelling, if_neg (hother _ hname), if_pos ⟨hname, hvalue⟩]
  have hhas : r.spelled.map.has connectionKey = true := by
    rw [map, HeaderLine.collect_has]
    exact Or.inr ⟨_, List.mem_map_of_mem hl, hkey⟩
  obtain ⟨l', hl', hkey', hval'⟩ := HeaderLine.collect_get hhas
  obtain ⟨l0, _, rfl⟩ := List.mem_map.mp hl'
  have hkeep : l0.value = keepAlive := by
    by_contra hne
    have hname0 : SameName l0.key connectionKey :=
      (sameName_spelling l0).trans (congrArg lower hkey')
    have hlow : spelling l0 = lower l0.key := by
      rw [spelling, if_neg (hother _ hname0), if_neg fun hc => hne hc.2]
    exact lower_ne (by decide) (hlow.symm.trans hkey')
  have hget : r.spelled.map.get connectionKey = keepAlive := hval'.symm.trans hkeep
  rw [short, hhas, hget] at h
  exact absurd h (by decide)

end Message

/-! ### Streams -/

/-- What the parser makes of a stream that comes in some reads. -/
def Parsed (parse : Bytes → LineResult) (stream : Bytes) (out : List (Bytes × Bool)) : Prop :=
  ∃ reads p, reads.flatten = stream ∧ HttpContext.feed parse .new .new reads = some p ∧
    p.1.map HttpRequest.verdict = out

theorem parsed_iff {parse : Bytes → LineResult} {stream : Bytes} {out : List (Bytes × Bool)} :
    Parsed parse stream out ↔ out = verdicts parse stream := by
  constructor
  · rintro ⟨reads, p, rfl, hp, rfl⟩
    have hseen := congrArg Prod.fst (HttpContext.feed_new_seen hp)
    exact congrArg (List.map HttpRequest.verdict) hseen
  · rintro rfl
    have hbytes : (stream.map fun b => [b]).flatten = stream := by
      rw [← List.flatMap_def, List.flatMap_singleton']
    have hsome : (HttpContext.feed parse .new .new (stream.map fun b => [b])).isSome := by
      refine HttpContext.feed_new_isSome ?_
      intro read hread
      obtain ⟨b, _, rfl⟩ := List.mem_map.mp hread
      exact show 1 ≤ 65535 by decide
    obtain ⟨p, hp⟩ := Option.isSome_iff_exists.mp hsome
    have hseen := congrArg Prod.fst (HttpContext.feed_new_seen hp)
    rw [hbytes] at hseen
    exact ⟨_, p, hbytes, hp, congrArg (List.map HttpRequest.verdict) hseen⟩

namespace Message

variable {parse : Bytes → LineResult}

theorem verdicts_nil (parse : Bytes → LineResult) : Flux.verdicts parse [] = [] := by
  have hrun : (httpReader parse).run .new [] = _ :=
    Reader.run_of_wait (HttpContext.idle_new parse [] rfl)
  rw [Flux.verdicts, hrun]
  rfl

theorem indifferent_verdicts {rs : List (Message parse)} (h : ∀ r ∈ rs, r.Indifferent) :
    Flux.verdicts parse (rs.flatMap encode) = List.replicate rs.length ([], true) := by
  induction rs with
  | nil => exact verdicts_nil parse
  | cons r rs ih =>
    rw [List.flatMap_cons, (h r List.mem_cons_self).verdicts,
      ih fun r' hr' => h r' (List.mem_cons_of_mem r hr')]
    rfl

/-- **When the case of header names does not matter.**  For every stream of well-formed requests:
every change of case in the header names gives the same number of requests with the same bodies and
the same decisions to keep the connection, in whatever reads the two streams come, if and only if no
request has a body and none has a header with a name like `Connection` that asks to keep it. -/
theorem header_case_iff (parse : Bytes → LineResult) (rs : List (Message parse)) :
    (∀ rs', List.Forall₂ Recased rs rs' → ∀ out out', Parsed parse (rs.flatMap encode) out →
      Parsed parse (rs'.flatMap encode) out' → out = out') ↔ ∀ r ∈ rs, r.Indifferent := by
  constructor
  · intro h
    have hsame : ∀ f : Message parse → Message parse, (∀ r, Recased r (f r)) →
        Flux.verdicts parse (rs.flatMap encode) =
          Flux.verdicts parse ((rs.map f).flatMap encode) := by
      intro f hf
      refine h (rs.map f) ?_ _ _ (parsed_iff.mpr rfl) (parsed_iff.mpr rfl)
      rw [List.forall₂_map_right_iff, List.forall₂_same]
      exact fun r _ => hf r
    have hboth := (hsame spelled fun r => r.respell_recased _ _).symm.trans
      (hsame lowered fun r => r.respell_recased _ _)
    clear h hsame
    induction rs with
    | nil => exact fun r hr => absurd hr List.not_mem_nil
    | cons r rs ih =>
      -- the heads are what is left of the first request, and then the tails are about the others
      rw [List.map_cons, List.map_cons, List.flatMap_cons, List.flatMap_cons, spelled_verdicts,
        lowered_verdicts, List.cons_eq_cons, Prod.mk.injEq] at hboth
      obtain ⟨⟨hbody, hshort⟩, htail⟩ := hboth
      rw [hbody, List.nil_append] at htail
      intro r' hr'
      rcases List.mem_cons.mp hr' with rfl | hr'
      · exact ⟨hbody, spelled_short hshort⟩
      · exact ih htail r' hr'
  · intro h rs' hrs out out' hout hout'
    have h' : ∀ r' ∈ rs', r'.Indifferent := by
      intro r' hr'
      obtain ⟨i, hi⟩ := List.mem_iff_getElem?.mp hr'
      obtain ⟨hlt, rfl⟩ := List.getElem?_eq_some_iff.mp hi
      have hlen := hrs.length_eq
      exact (h rs[i] (List.getElem_mem _)).recased (hrs.get (by omega) hlt)
    rw [parsed_iff.mp hout, parsed_iff.mp hout', indifferent_verdicts h, indifferent_verdicts h',
      hrs.length_eq]

/-- A request at the root with a body of one byte, and its length in a header. -/
def oneByte : Message (HttpServer.bare rootLine).parse where
  line := rootLine
  line_plain := rootLine_plain
  line_short := rootLine_short
  line_ok := rootLine_ok
  headers := [.oneDigit 1 .crlf]
  blank := .crlf
  body := [120]
  body_decimal := by
    intro h hm _
    rw [List.mem_singleton.mp hm]
    decide +kernel
  body_nil := fun h => absurd rfl (h _ List.mem_cons_self)

/-- In small letters the body is lost. -/
theorem body_lost_in_lower_case :
    ∃ rs', List.Forall₂ Recased [oneByte] rs' ∧ ∃ out out',
      Parsed (HttpServer.bare rootLine).parse ([oneByte].flatMap encode) out ∧
      Parsed (HttpServer.bare rootLine).parse (rs'.flatMap encode) out' ∧ out ≠ out' := by
  refine ⟨[oneByte.lowered], .cons (oneByte.respell_recased _ _) .nil, _, _, parsed_iff.mpr rfl,
    parsed_iff.mpr rfl, ?_⟩
  have hspelled := oneByte.verdicts_encode []
  have hlowered := oneByte.lowered_verdicts []
  rw [List.flatMap_singleton, List.flatMap_singleton, ← List.append_nil oneByte.encode,
    ← List.append_nil oneByte.lowered.encode, hspelled, hlowered]
  intro heq
  have hhead := congrArg (fun l => l.head?.map Prod.fst) heq
  exact absurd hhead (by decide)

end Message

end Flux
