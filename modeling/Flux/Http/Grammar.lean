import Flux.Http.RequestLine

/-!
# The grammar of requests

What the parser takes for a request, written down without it.  `WireRequest` is what a careful
client writes; the parser takes more: names may come more than once (the first one counts), a value
may end with a carriage return in front of a CRLF, and a length is whatever `std::stol` reads.

* `HttpContext.Message`: a request line the expression accepts, lines with a `": "`, an empty line,
  and as many bytes as `ContentLength` says.
* `HttpContext.Message.encode_inj`: a stream begins with one message at most.
* `HttpContext.requests_are_messages`: the requests of a connection are the messages its stream
  begins with, and an error is about bytes that no continuation makes one of.
* `HttpContext.parseLine_iff`: the lines that `ParseHttpLine` accepts, and what it makes of them.
-/

namespace Flux

open Lib

namespace HttpContext

/-! ### Header lines -/

/-- Every line is a text and its line end. -/
theorem exists_chomp (w : Bytes) :
    ∃ e : LineEnd, w ++ [newline] = chomp (w ++ [newline]) ++ e.bytes ∧
    ((chomp (w ++ [newline])).getLast? = some carriageReturn → e = .crlf) := by
  by_cases hcr : w.getLast? = some carriageReturn
  · obtain ⟨t, rfl⟩ := List.getLast?_eq_some_iff.mp hcr
    have hchomp : chomp (t ++ [carriageReturn] ++ [newline]) = t := by
      rw [List.append_assoc]
      exact chomp_bytes (e := .crlf) fun _ => rfl
    exact ⟨.crlf, by rw [hchomp, List.append_assoc]; rfl, fun _ => rfl⟩
  · have hchomp : chomp (w ++ [newline]) = w := chomp_bytes (e := .lf) fun h => absurd h hcr
    exact ⟨.lf, by rw [hchomp]; rfl, fun h => absurd (hchomp ▸ h) hcr⟩

theorem find_cut {t : Bytes} {pos : Nat} (h : find headSymbol t = some pos) :
    t = t.take pos ++ headSymbol ++ t.drop (pos + headSymbol.length) ∧
    ¬ headSymbol <:+: t.take pos := by
  obtain ⟨k, v, rfl, rfl⟩ := find_some h
  have hdrop : (k ++ (headSymbol ++ v)).drop (k.length + headSymbol.length) = v := by
    rw [← List.append_assoc, ← List.length_append, List.drop_left]
  rw [List.take_left, hdrop, List.append_assoc]
  refine ⟨rfl, ?_⟩
  rintro ⟨a, b, hk⟩
  have hlt : a.length < k.length := by
    have hlen := congrArg List.length hk
    have hpos : 0 < headSymbol.length := by decide
    rw [List.length_append, List.length_append] at hlen
    omega
  refine find_first h a.length hlt ?_
  rw [← hk, List.append_assoc, List.append_assoc, List.drop_left]
  exact List.prefix_append _ _

/-- **A line the parser takes for a header is one.** -/
theorem exists_of_parseHttpHead {c t : HttpContext} {w : Bytes} (hw : newline ∉ w)
    (hshort : (w ++ [newline]).length ≤ maxLine)
    (h : c.parseHttpHead (w ++ [newline]) = (true, t)) :
    ∃ f : HeaderLine, w ++ [newline] = f.encode ∧
      t = { c with request := c.request.setHeader f.key f.value } := by
  obtain ⟨e, hline, hend⟩ := exists_chomp w
  unfold parseHttpHead at h
  split at h
  · exact absurd h (by simp)
  · rename_i pos hpos
    obtain ⟨hcut, hkey⟩ := find_cut hpos
    have hplain : newline ∉ chomp (w ++ [newline]) := by
      -- the newline of the line is in its end
      have hcount := congrArg (List.count newline) hline
      rw [List.count_append, List.count_append, List.count_eq_zero_of_not_mem hw] at hcount
      have hone : e.bytes.count newline = 1 := by cases e <;> rfl
      rw [hone] at hcount
      exact List.count_eq_zero.mp (by simpa using hcount)
    refine ⟨⟨_, _, e, fun hm => ?_, fun hm => ?_, hkey, fun hl => ?_, ?_⟩, ?_,
      (Prod.mk.inj h).2.symm⟩
    · exact hplain (List.mem_of_mem_take hm)
    · exact hplain (List.mem_of_mem_drop hm)
    · refine hend ?_
      have hne : (chomp (w ++ [newline])).drop (pos + headSymbol.length) ≠ [] := by
        intro hnil
        rw [hnil] at hl
        exact absurd hl (by simp)
      rw [hcut, List.getLast?_append_of_ne_nil _ hne]
      exact hl
    · rw [← hcut, ← hline]
      exact hshort
    · exact hline.trans (congrArg (· ++ e.bytes) hcut)

theorem lineEnd_inj {e e' : LineEnd} (h : e.bytes = e'.bytes) : e = e' := by
  cases e <;> cases e' <;> first | rfl | exact absurd h (by decide)

/-- **A header line is read off its bytes in one way.** -/
theorem headerLine_inj {f f' : HeaderLine} (h : f.encode = f'.encode) : f = f' := by
  have htext : f.key ++ headSymbol ++ f.value = f'.key ++ headSymbol ++ f'.value := by
    rw [← f.chomp_encode, h, f'.chomp_encode]
  have hlen : f.key.length = f'.key.length := by
    refine Option.some.inj ?_
    rw [← find_headSymbol f.key_symbol f.value, htext, find_headSymbol f'.key_symbol]
  have hend : f.ending = f'.ending := by
    refine lineEnd_inj ?_
    rw [HeaderLine.encode, HeaderLine.encode, htext] at h
    exact List.append_cancel_left h
  rw [List.append_assoc, List.append_assoc] at htext
  obtain ⟨hkey, hrest⟩ := List.append_inj htext hlen
  have hvalue : f.value = f'.value := List.append_cancel_left hrest
  cases f
  cases f'
  simp only at hkey hvalue hend
  subst hkey hvalue hend
  rfl

/-! ### Messages -/

variable {parse : Bytes → LineResult} {c t : HttpContext} {u r w : Bytes} {done : List HttpRequest}

def concat (o : Opening parse) (f : HeaderLine) : Opening parse :=
  { o with headers := o.headers ++ [f] }

theorem concat_encode (o : Opening parse) (f : HeaderLine) :
    (concat o f).encode = o.encode ++ f.encode := by
  simp [Opening.encode, concat]

theorem concat_request (o : Opening parse) (f : HeaderLine) :
    (concat o f).request = o.request.setHeader f.key f.value := by
  rw [Opening.request, concat, HeaderLine.collect, List.foldl_append]
  rfl

/-- **A message**, with a body of the length that is announced. -/
structure Message (parse : Bytes → LineResult) extends Opening parse where
  blank : LineEnd
  body : Bytes
  body_length : toOpening.request.contentLength = some body.length

namespace Message

def encode (m : Message parse) : Bytes := m.toOpening.encode ++ (m.blank.bytes ++ m.body)

def request (m : Message parse) : HttpRequest := { m.toOpening.request with body := m.body }

end Message

/-! ### From the grammar to the parser -/

theorem run_message (m : Message parse) (rest : Bytes) :
    (httpReader parse).run new (m.encode ++ rest) =
      (m.request :: ((httpReader parse).run new rest).1, ((httpReader parse).run new rest).2) := by
  have hwire : m.encode ++ rest = m.toOpening.encode ++ (m.blank.bytes ++ (m.body ++ rest)) := by
    simp [Message.encode]
  rw [hwire]
  exact run_opening m.toOpening m.blank m.body_length rest

/-! ### From the parser to the grammar -/

theorem onLine_cut {k : Bytes → Bytes → HttpVerdict} (hk : Local k)
    (h : c.onLine u k = .next done t r) :
    ∃ w, newline ∉ w ∧ (w ++ [newline]).length ≤ maxLine ∧ u = w ++ [newline] ++ r ∧
      k (w ++ [newline]) r = .next done t r := by
  obtain ⟨l, r', hs, hle, hn⟩ := onLine_next h
  obtain ⟨rfl, -⟩ := hk.next_eq hn
  have hu := splitThrough_eq hs
  rw [splitThrough_findIdx] at hs
  obtain ⟨i, hi, hcut⟩ := Option.map_eq_some_iff.mp hs
  obtain ⟨hlt, hnew, hplain⟩ := List.findIdx?_eq_some_iff_getElem.mp hi
  have hl : l = u.take i ++ [newline] := by
    rw [← (Prod.mk.inj hcut).1, List.take_add_one, List.getElem?_eq_getElem hlt]
    rw [show u[i] = newline from eq_of_beq hnew]
    rfl
  refine ⟨u.take i, fun hm => ?_, hl ▸ hle, hl ▸ hu, hl ▸ hn⟩
  obtain ⟨j, hj, he⟩ := List.mem_iff_getElem.mp hm
  rw [List.length_take] at hj
  rw [List.getElem_take] at he
  exact absurd (hplain j (by omega)) (by simp [he])

/-- What has been taken of a message when the context is what it is. -/
inductive Taken (parse : Bytes → LineResult) : Bytes → HttpContext → Prop
  | nothing : Taken parse [] new
  | lines (o : Opening parse) : Taken parse o.encode (o.context .head)
  | head (o : Opening parse) (e : LineEnd) : Taken parse (o.encode ++ e.bytes) (o.context .body)

theorem blank_bytes {l : Bytes} (h : blank l = true) : ∃ e : LineEnd, l = e.bytes := by
  rw [blank, Bool.or_eq_true, beq_iff_eq, beq_iff_eq] at h
  rcases h with h | h
  · exact ⟨.crlf, h⟩
  · exact ⟨.lf, h⟩

/-- **A decision takes a message further**, or ends it. -/
theorem Taken.step (h : Taken parse w c) (hs : readStep parse c u = .next done t r) :
    (done = [] ∧ ∃ x, u = x ++ r ∧ Taken parse (w ++ x) t) ∨
      ∃ m : Message parse, w ++ u = m.encode ++ r := by
  cases h with
  | nothing =>
    refine Or.inl ?_
    obtain ⟨line, hplain, hshort, rfl, hn⟩ := onLine_cut (afterLine_local parse new) hs
    have hok : ∃ method path version query, parse (line ++ [newline]) =
        .ok method path version query := by
      unfold afterLine parseHttpLine at hn
      cases hp : parse (line ++ [newline]) with
      | ok method path version query => exact ⟨method, path, version, query, rfl⟩
      | mismatch => rw [hp] at hn; exact absurd hn (by simp)
      | badQuery => rw [hp] at hn; exact absurd hn (by simp)
    rw [afterLine_opening line r hplain hshort hok] at hn
    obtain ⟨rfl, rfl, -⟩ := Verdict.next.inj hn
    exact ⟨rfl, line ++ [newline], rfl, .lines ⟨line, hplain, hshort, hok, []⟩⟩
  | lines o =>
    refine Or.inl ?_
    rw [readStep_head rfl] at hs
    obtain ⟨l, hplain, hshort, rfl, hn⟩ := onLine_cut (afterHead_local _) hs
    unfold afterHead at hn
    split at hn
    · rename_i hblank
      obtain ⟨e, he⟩ := blank_bytes hblank
      obtain ⟨rfl, rfl, -⟩ := Verdict.next.inj hn
      exact ⟨rfl, e.bytes, by rw [he], .head o e⟩
    · split at hn
      · exact absurd hn (by simp)
      · rename_i c' hp
        obtain ⟨f, hf, rfl⟩ := exists_of_parseHttpHead hplain hshort hp
        obtain ⟨rfl, rfl, -⟩ := Verdict.next.inj hn
        refine ⟨rfl, f.encode, by rw [hf], ?_⟩
        have hnext := Taken.lines (concat o f)
        rw [concat_encode, Opening.context, concat_request] at hnext
        exact hnext
  | head o e =>
    refine Or.inr ?_
    have hbody : (o.context .body).request.body = [] := Opening.request_body o
    simp only [readStep, show (o.context .body).recvStatus = .body from rfl] at hs
    split at hs
    · exact absurd hs (by simp)
    · rename_i n hn
      rw [hbody, List.length_nil, Nat.sub_zero, if_neg (Nat.not_lt_zero n)] at hs
      split at hs
      · rename_i hfit
        obtain ⟨-, -, rfl⟩ := Verdict.next.inj hs
        refine ⟨⟨o, e, u.take n, ?_⟩, ?_⟩
        · rw [List.length_take, Nat.min_eq_left hfit]
          exact hn
        · simp [Message.encode]
      · exact absurd hs (by simp)

/-- **A request comes from a message.** -/
theorem Taken.exists_message (h : Taken parse w c) (hne : ((httpReader parse).run c u).1 ≠ []) :
    ∃ (m : Message parse) (r : Bytes), w ++ u = m.encode ++ r := by
  induction c, u using Reader.run_induction (R := httpReader parse) generalizing w with
  | wait c u t r hs =>
    rw [Reader.run_of_wait hs] at hne
    exact absurd rfl hne
  | fail c u e hs =>
    rw [Reader.run_of_fail hs] at hne
    exact absurd rfl hne
  | next c u done t r hs ih =>
    rcases h.step hs with ⟨rfl, x, rfl, hx⟩ | ⟨m, hm⟩
    · rw [Reader.run_of_next hs, List.nil_append] at hne
      obtain ⟨m, r', hm⟩ := ih hx hne
      exact ⟨m, r', by rw [← List.append_assoc]; exact hm⟩
    · exact ⟨m, r, hm⟩

theorem Message.encode_ne_nil (m : Message parse) : m.encode ≠ [] := by
  simp [Message.encode, Opening.encode]

/-- **The parser parses the grammar.** -/
theorem parses (parse : Bytes → LineResult) :
    (httpReader parse).Parses new (Message.encode : Message parse → Bytes) Message.request where
  ne_nil := Message.encode_ne_nil
  takes := run_message
  only _ hne := Taken.nothing.exists_message hne

/-! ### One way to cut a stream -/

/-- A line end is no header line, also with something behind. -/
theorem bytes_ne_encode (e : LineEnd) (f : HeaderLine) (r r' : Bytes) :
    e.bytes ++ r ≠ f.encode ++ r' := by
  intro h
  obtain ⟨w, hw, he⟩ := LineEnd.exists_bytes e
  obtain ⟨w', hf, hw'⟩ := f.encode_line
  rw [he, hf, List.append_assoc, List.append_assoc] at h
  have hcut : w = w' := (append_cons_inj_first hw hw' h).1
  have hblank : HttpContext.blank f.encode = true := by
    rw [hf, ← hcut, ← he]
    cases e <;> decide
  exact absurd (hblank.symm.trans f.encode_not_blank) (by simp)

theorem headers_inj {fs fs' : List HeaderLine} {e e' : LineEnd} {r r' : Bytes}
    (h : fs.flatMap HeaderLine.encode ++ (e.bytes ++ r) =
      fs'.flatMap HeaderLine.encode ++ (e'.bytes ++ r')) : fs = fs' ∧ e = e' ∧ r = r' := by
  induction fs generalizing fs' with
  | nil =>
    cases fs' with
    | nil =>
      obtain ⟨w, hw, he⟩ := LineEnd.exists_bytes e
      obtain ⟨w', hw', he'⟩ := LineEnd.exists_bytes e'
      rw [List.flatMap_nil, List.nil_append, List.nil_append, he, he', List.append_assoc,
        List.append_assoc] at h
      obtain ⟨hcut, hr⟩ := append_cons_inj_first hw hw' h
      exact ⟨rfl, lineEnd_inj (by rw [he, he', hcut]), hr⟩
    | cons f' fs' =>
      rw [List.flatMap_nil, List.nil_append, List.flatMap_cons, List.append_assoc] at h
      exact absurd h (bytes_ne_encode e f' _ _)
  | cons f fs ih =>
    cases fs' with
    | nil =>
      rw [List.flatMap_nil, List.nil_append, List.flatMap_cons, List.append_assoc] at h
      exact absurd h.symm (bytes_ne_encode e' f _ _)
    | cons f' fs' =>
      obtain ⟨w, hf, hw⟩ := f.encode_line
      obtain ⟨w', hf', hw'⟩ := f'.encode_line
      rw [List.flatMap_cons, List.flatMap_cons, List.append_assoc, List.append_assoc, hf, hf',
        List.append_assoc, List.append_assoc] at h
      obtain ⟨hcut, hrest⟩ := append_cons_inj_first hw hw' h
      obtain ⟨rfl, he, hr⟩ := ih hrest
      have hsame : f = f' := headerLine_inj (by rw [hf, hf', hcut])
      exact ⟨by rw [hsame], he, hr⟩

/-- **A stream begins with one message at most.** -/
theorem Message.encode_inj {m m' : Message parse} {r r' : Bytes}
    (h : m.encode ++ r = m'.encode ++ r') : m = m' ∧ r = r' := by
  simp only [encode, Opening.encode, List.append_assoc, List.cons_append] at h
  obtain ⟨hline, htail⟩ := append_cons_inj_first m.line_plain m'.line_plain h
  obtain ⟨hheaders, hblank, hrest⟩ := headers_inj htail
  have hopening : m.toOpening = m'.toOpening := by
    obtain ⟨⟨line, _, _, _, headers⟩, _, _, _⟩ := m
    obtain ⟨⟨line', _, _, _, headers'⟩, _, _, _⟩ := m'
    simp only at hline hheaders
    subst hline hheaders
    rfl
  have hlen : m.body.length = m'.body.length := by
    refine Option.some.inj ?_
    rw [← m.body_length, hopening, m'.body_length]
  obtain ⟨hbody, hr⟩ := List.append_inj hrest hlen
  obtain ⟨o, blank, body, hlength⟩ := m
  obtain ⟨o', blank', body', hlength'⟩ := m'
  simp only at hopening hblank hbody
  subst hopening hblank hbody
  exact ⟨rfl, hr⟩

/-- **The requests of a connection are the messages its stream begins with**, however it arrives:
the stream is cut into messages and what begins with none in one way, the requests are those of the
messages, and where the parser gives up, nothing that could still arrive would have made a message
of what is left. -/
theorem requests_are_messages (parse : Bytes → LineResult) (reads : List Bytes)
    (p : List HttpRequest × Except Fault (HttpContext × Buffer))
    (h : feed parse new .new reads = some p) :
    ∃ (ms : List (Message parse)) (r : Bytes),
      (reads.flatten = ms.flatMap Message.encode ++ r ∧ ∀ m : Message parse, ¬ m.encode <+: r) ∧
      (∀ (ms' : List (Message parse)) (r' : Bytes), reads.flatten =
        ms'.flatMap Message.encode ++ r' →
        (∀ m : Message parse, ¬ m.encode <+: r') → ms' = ms ∧ r' = r) ∧
      p.1 = ms.map Message.request ∧
      ∀ e : Fault, p.2 = .error e → ∀ (v : Bytes) (m : Message parse), ¬ m.encode <+: r ++ v := by
  have hseen := feed_new_seen h
  obtain ⟨ms, r, hcut, hr⟩ := (parses parse).exists_messages reads.flatten
  refine ⟨ms, r, ⟨hcut, hr⟩, fun ms' r' hcut' hr' => ?_, ?_, fun e herror => ?_⟩
  · exact Reader.flatMap_inj Message.encode_inj hr' hr (hcut'.symm.trans hcut)
  · have hdone : p.1 = ((httpReader parse).run new reads.flatten).1 := congrArg Prod.fst hseen
    rw [hdone, hcut, (parses parse).run_flatMap, (parses parse).run_nil hr, List.append_nil]
  · have hfail : ((httpReader parse).run new r).2 = .error e := by
      have hend := congrArg Prod.snd hseen
      rw [hcut, (parses parse).run_flatMap] at hend
      rw [← show (seen p).2 = _ from hend, seen, herror]
      rfl
    exact (parses parse).not_prefix_of_error hr hfail

/-- `"POST /a HTTP/1.1"` with a length that is given twice: the first counts. -/
def repeated : Message parseLine where
  line := ascii "POST /a HTTP/1.1".toList
  line_plain := by decide
  line_short := by decide
  line_ok := ⟨_, _, _, _, rfl⟩
  headers := [.oneDigit 1 .lf, .oneDigit 5 .crlf]
  blank := .lf
  body := [88]
  body_length := by decide +kernel

/-- It is cut in two, and the beginning of another one comes behind it. -/
theorem requests_are_messages_repeated :
    ∃ reads p, reads.flatten = repeated.encode ++ ascii "GET /".toList ∧ reads.length = 2 ∧
      feed parseLine new .new reads = some p ∧ p.1 = [repeated.request] := by
  let reads : List Bytes :=
    [repeated.encode.take 20, repeated.encode.drop 20 ++ ascii "GET /".toList]
  have hcut : reads.flatten = [repeated].flatMap Message.encode ++ ascii "GET /".toList := by
    simp [reads, ← List.append_assoc]
  have hrest : ∀ m : Message parseLine, ¬ m.encode <+: ascii "GET /".toList := by
    intro m hm
    have hline : newline ∈ m.encode := by simp [Message.encode, Opening.encode]
    exact absurd (hm.subset hline) (by decide)
  have hshort : ∀ read ∈ reads, read.length ≤ 65535 := by decide +kernel
  have hsome : (feed parseLine new .new reads).isSome := feed_new_isSome hshort
  obtain ⟨p, hp⟩ := Option.isSome_iff_exists.mp hsome
  obtain ⟨ms, r, -, hunique, hrequests, -⟩ := requests_are_messages parseLine reads p hp
  obtain ⟨rfl, -⟩ := hunique [repeated] _ hcut hrest
  exact ⟨reads, p, by rw [hcut, List.flatMap_singleton], rfl, hp, hrequests⟩

/-! ### Request lines -/

def queryPart : Option Bytes → Bytes
  | none => []
  | some s => questionMark :: s

/-- A request line, cut at its spaces and its `'?'`. -/
structure LineCut (line m p : Bytes) (q : Option Bytes) (v : Bytes) : Prop where
  method : IsMethod m
  path : questionMark ∉ p
  query : ∀ s ∈ q, ∀ b ∈ s, b ≠ newline ∧ b ≠ carriageReturn
  version : IsVersion v
  text : ∃ e, (e = [carriageReturn, newline] ∨ e = [newline] ∨ e = []) ∧
    line = m ++ 32 :: (p ++ (queryPart q ++ 32 :: (v ++ e)))

def captured (m p : Bytes) (q : Option Bytes) (v : Bytes) : Captures UInt8 :=
  (1, m) :: (2, p) :: ((q.map fun s => (3, s)).toList ++ [(4, v)])

theorem matches_iff_cut {line : Bytes} {cs : Captures UInt8} :
    httpLine.Matches line cs ↔ ∃ m p q v, LineCut line m p q v ∧ cs = captured m p q v := by
  constructor
  · intro h
    obtain ⟨m, p, x, v, e, cq, hm, hp, hx, hv, he, rfl, rfl⟩ := matches_httpLine.mp h
    rcases matches_query.mp hx with ⟨q, hq, rfl, rfl⟩ | ⟨rfl, rfl⟩
    · exact ⟨m, p, some q, v, ⟨hm, hp, fun s hs => Option.some.inj hs ▸ hq, hv, e, he, rfl⟩, rfl⟩
    · exact ⟨m, p, none, v, ⟨hm, hp, fun s hs => absurd hs (by simp), hv, e, he, rfl⟩, rfl⟩
  · rintro ⟨m, p, q, v, ⟨hm, hp, hq, hv, e, he, rfl⟩, rfl⟩
    cases q with
    | none =>
      have hx := matches_query.mpr (Or.inr ⟨rfl, rfl⟩)
      exact matches_httpLine.mpr ⟨m, p, _, v, e, _, hm, hp, hx, hv, he, rfl, rfl⟩
    | some s =>
      have hx := matches_query.mpr (Or.inl ⟨s, hq s rfl, rfl, rfl⟩)
      exact matches_httpLine.mpr ⟨m, p, _, v, e, _, hm, hp, hx, hv, he, rfl, rfl⟩

/-- A version and a line end have no space and no `'?'`. -/
theorem notMem_version {v e : Bytes} (hv : IsVersion v)
    (he : e = [carriageReturn, newline] ∨ e = [newline] ∨ e = []) {b : UInt8}
    (hb : b = 32 ∨ b = questionMark) :
    b ∉ v ++ e := by
  intro hm
  rcases List.mem_append.mp hm with hm | hm
  · rcases hb with rfl | rfl
    · exact hv.notMem (by decide) (by decide) hm
    · exact hv.notMem (by decide) (by decide) hm
  · rcases hb with rfl | rfl <;> rcases he with rfl | rfl | rfl <;> exact absurd hm (by decide)

/-- **A line is cut in one way.**  The method ends at the first space, the path at the first `'?'`,
and the version begins behind the last space. -/
theorem LineCut.unique {line m p v m' p' v' : Bytes} {q q' : Option Bytes}
    (h : LineCut line m p q v)
    (h' : LineCut line m' p' q' v') : m = m' ∧ p = p' ∧ q = q' ∧ v = v' := by
  obtain ⟨e, he, htext⟩ := h.text
  obtain ⟨e', he', htext'⟩ := h'.text
  have hspace : ∀ {u : Bytes}, IsMethod u → (32 : UInt8) ∉ u := fun hu => hu.notMem (by decide)
  obtain ⟨hm, htail⟩ :=
    append_cons_inj_first (hspace h.method) (hspace h'.method) (htext.symm.trans htext')
  have hlast := notMem_version h.version he (Or.inl rfl)
  have hlast' := notMem_version h'.version he' (Or.inl rfl)
  have hversion : v ++ e = v' ++ e' → v = v' := fun hve =>
    (List.append_inj hve (h.version.length.trans h'.version.length.symm)).1
  -- a line without a query string has no `'?'`
  have hnone : ∀ {x y : Bytes}, questionMark ∉ x → questionMark ∉ y →
      questionMark ∉ x ++ 32 :: y := by
    intro x y hx hy
    rw [List.mem_append, List.mem_cons, not_or, not_or]
    exact ⟨hx, by decide, hy⟩
  refine ⟨hm, ?_⟩
  cases q with
  | none =>
    cases q' with
    | none =>
      obtain ⟨hp, hve⟩ := append_cons_inj_last hlast hlast' htail
      exact ⟨hp, rfl, hversion hve⟩
    | some s' =>
      have hmem := hnone h.path (notMem_version h.version he (Or.inr rfl))
      rw [show p ++ 32 :: (v ++ e) =
        p' ++ questionMark :: (s' ++ 32 :: (v' ++ e')) from htail] at hmem
      exact absurd (List.mem_append_right _ List.mem_cons_self) hmem
  | some s =>
    cases q' with
    | none =>
      have hmem := hnone h'.path (notMem_version h'.version he' (Or.inr rfl))
      rw [show p' ++ 32 :: (v' ++ e') =
        p ++ questionMark :: (s ++ 32 :: (v ++ e)) from htail.symm] at hmem
      exact absurd (List.mem_append_right _ List.mem_cons_self) hmem
    | some s' =>
      obtain ⟨hp, hrest⟩ := append_cons_inj_first h.path h'.path htail
      obtain ⟨hs, hve⟩ := append_cons_inj_last hlast hlast' hrest
      exact ⟨hp, by rw [hs], hversion hve⟩

theorem fullMatch_iff_cut {line : Bytes} {cs : Captures UInt8} :
    httpLine.fullMatch line = some cs ↔ ∃ m p q v, LineCut line m p q v ∧
    cs = captured m p q v := by
  constructor
  · intro h
    obtain ⟨⟨cs', v⟩, hrun, rfl⟩ := Option.map_eq_some_iff.mp h
    have hnil : v = [] := by simpa using List.find?_some hrun
    obtain ⟨w, hw, hline⟩ := Regex.mem_run_iff.mp (List.mem_of_find?_eq_some hrun)
    rw [hnil, List.append_nil] at hline
    exact matches_iff_cut.mp (hline ▸ hw)
  · intro h
    refine Regex.fullMatch_eq (matches_iff_cut.mpr h) fun ds hds => ?_
    obtain ⟨m, p, q, v, hcut, rfl⟩ := h
    obtain ⟨m', p', q', v', hcut', rfl⟩ := matches_iff_cut.mp hds
    obtain ⟨rfl, rfl, rfl, rfl⟩ := hcut.unique hcut'
    rfl

theorem captured_get (m p : Bytes) (q : Option Bytes) (v : Bytes) :
    (captured m p q v).get 1 = m ∧ (captured m p q v).get 2 = p ∧
    (captured m p q v).get 3 = q.getD [] ∧
      (captured m p q v).get 4 = v := by
  cases q with
  | none => exact ⟨rfl, rfl, rfl, rfl⟩
  | some s => exact ⟨rfl, rfl, rfl, rfl⟩

/-- **Which lines `ParseHttpLine` accepts**, and with which fields: those that can be cut into a
method, a path, a query string if there is a `'?'`, and a version, where each piece that `Split`
returns of the query string has an `=`.  There is no more than one way to cut a line. -/
theorem parseLine_iff (line : Bytes) :
    (∀ (method path version : Bytes) (query : List (Bytes × Bytes)),
      parseLine line = .ok method path version query ↔
        ∃ m p q, LineCut line m p q version ∧ m.map toUpper = method ∧
          Util.urlDecode p false = path ∧ (queryStringArry (q.getD [])).mapM keyVal = some query) ∧
    ∀ (m p v m' p' v' : Bytes) (q q' : Option Bytes), LineCut line m p q v →
      LineCut line m' p' q' v' → m = m' ∧ p = p' ∧ q = q' ∧ v = v' := by
  refine ⟨fun method path version query => ?_, fun _ _ _ _ _ _ _ _ h h' => h.unique h'⟩
  unfold parseLine
  cases hmatch : httpLine.fullMatch line with
  | none =>
    refine iff_of_false (by simp) ?_
    rintro ⟨m, p, q, hcut, -⟩
    have hfound := fullMatch_iff_cut.mpr ⟨m, p, q, version, hcut, rfl⟩
    exact absurd (hmatch.symm.trans hfound) (by simp)
  | some cs =>
    obtain ⟨m, p, q, v, hcut, rfl⟩ := fullMatch_iff_cut.mp hmatch
    obtain ⟨h1, h2, h3, h4⟩ := captured_get m p q v
    simp only [h1, h2, h3, h4]
    constructor
    · intro h
      split at h
      · exact absurd h (by simp)
      · rename_i found hfound
        obtain ⟨rfl, rfl, rfl, rfl⟩ := LineResult.ok.inj h
        exact ⟨m, p, q, hcut, rfl, rfl, hfound⟩
    · rintro ⟨m', p', q', hcut', rfl, rfl, hquery⟩
      obtain ⟨rfl, rfl, rfl, rfl⟩ := hcut.unique hcut'
      rw [hquery]

end HttpContext

end Flux
