import Flux.Http.KeepAlive
import Flux.Http.RequestLine
import Flux.Http.WholeFile

/-!
# Where the status of a response comes from

`Route` has a status for a method it does not know, `OnMessage` answers what it cannot parse, and
the expression of the request line lets only five methods through.  Read together over a whole
connection, the three say which statuses a client can ever see and why.

* `HttpRequest.Received`: what the parser makes sure of before a request is handed on.
* `HttpServer.Accounts`: the account of one response.
* `HttpConn.statuses_accounted`: in every run every response has one; a `405` is always a handler's.
-/

namespace Flux

open Lib HttpContext

/-- **A request as `Route` gets it**: one of the five methods in capitals, one of the two versions,
and a body as long as its headers say. -/
structure HttpRequest.Received (req : HttpRequest) : Prop where
  method : req.method ∈ methods
  version : IsVersion req.version
  length : req.contentLength = some req.body.length

namespace HttpContext

/-! ### The request line -/

/-- `::toupper` forgets what `translate_nocase` does. -/
theorem toUpper_translateNocase (b : UInt8) : toUpper (translateNocase b) = toUpper b := by
  unfold translateNocase toUpper
  grind

theorem IsMethod.toUpper_mem {u : Bytes} (h : IsMethod u) : u.map toUpper ∈ methods := by
  obtain ⟨m, hm, he⟩ := h
  have hfold : ∀ w : Bytes, (w.map translateNocase).map toUpper = w.map toUpper := by
    intro w
    rw [List.map_map]
    exact List.map_congr_left fun b _ => toUpper_translateNocase b
  have hcapitals : ∀ m ∈ methods, m.map toUpper = m := by decide
  rw [← hfold, he, hfold, hcapitals m hm]
  exact hm

/-- The expression lets five methods and two versions through. -/
theorem parseLine_ok {line method path version : Bytes} {query : List (Bytes × Bytes)}
    (h : parseLine line = .ok method path version query) :
    method ∈ methods ∧ IsVersion version := by
  unfold parseLine at h
  split at h
  · exact absurd h (by simp)
  · rename_i found hfound
    split at h
    · exact absurd h (by simp)
    · obtain ⟨rfl, -, rfl, -⟩ := LineResult.ok.inj h
      obtain ⟨⟨cs, v⟩, hrun, rfl⟩ := Option.map_eq_some_iff.mp hfound
      obtain ⟨w, hw, -⟩ := Regex.mem_run_iff.mp (List.mem_of_find?_eq_some hrun)
      obtain ⟨m, p, q, v, e, cq, hm, -, hq, hv, -, -, rfl⟩ := matches_httpLine.mp hw
      have hget : Captures.get ((1, m) :: (2, p) :: (cq ++ [(4, v)])) 1 = m ∧
          Captures.get ((1, m) :: (2, p) :: (cq ++ [(4, v)])) 4 = v := by
        rcases matches_query.mp hq with ⟨t, -, -, rfl⟩ | ⟨-, rfl⟩ <;> exact ⟨rfl, rfl⟩
      rw [hget.1, hget.2]
      exact ⟨hm.toUpper_mem, hv⟩

/-! ### What the reader keeps -/

/-- Behind its line a request has its method and its version. -/
structure Begun (c : HttpContext) : Prop where
  sound : Sound c
  worded : c.recvStatus ≠ .line → c.request.method ∈ methods ∧ IsVersion c.request.version

theorem begun_new : Begun new := ⟨sound_new, fun h => absurd rfl h⟩

variable {c t : HttpContext} {u r : Bytes}

theorem parseHttpLine_worded {line : Bytes} (h : c.parseHttpLine parseLine line = (true, t)) :
    t.request.method ∈ methods ∧ IsVersion t.request.version := by
  unfold parseHttpLine at h
  split at h
  · exact absurd h (by simp)
  · exact absurd h (by simp)
  · rename_i hp
    simp only [Prod.mk.injEq, true_and] at h
    rw [← h, HttpRequest.foldl_setParam]
    exact parseLine_ok hp

theorem parseHttpHead_worded {line : Bytes} (h : c.parseHttpHead line = (true, t)) :
    t.request.method = c.request.method ∧ t.request.version = c.request.version := by
  unfold parseHttpHead at h
  split at h
  · exact absurd h (by simp)
  · simp only [Prod.mk.injEq, true_and] at h
    rw [← h]
    exact ⟨rfl, rfl⟩

/-- A line that does not do fails with `400`. -/
theorem parse_failed {line : Bytes} :
    (c.parseHttpLine parseLine line = (false, t) → t.respStatus = 400) ∧
      (c.parseHttpHead line = (false, t) → t.respStatus = 400) := by
  constructor
  · intro h
    unfold parseHttpLine at h
    split at h
    · simp only [Prod.mk.injEq, true_and] at h
      rw [← h, fail]
    · simp only [Prod.mk.injEq, true_and] at h
      rw [← h, fail]
    · exact absurd h (by simp)
  · intro h
    unfold parseHttpHead at h
    split at h
    · simp only [Prod.mk.injEq, true_and] at h
      rw [← h, fail]
    · exact absurd h (by simp)

/-- **One step of the reader.**  A request it hands out is complete. -/
theorem Begun.next {done : List HttpRequest} (hb : Begun c)
    (h : readStep parseLine c u = .next done t r) : Begun t ∧ ∀ req ∈ done, req.Received := by
  have hsound := readStep_sound_next hb.sound h
  unfold readStep at h
  split at h
  · obtain ⟨l, r', _, _, hn⟩ := onLine_next h
    unfold afterLine at hn
    split at hn
    · exact absurd hn (by simp)
    · rename_i hp
      simp only [Verdict.next.injEq] at hn
      obtain ⟨rfl, rfl, -⟩ := hn
      have hw := parseHttpLine_worded hp
      exact ⟨⟨hsound, fun _ => hw⟩, by simp⟩
  · rename_i hc
    obtain ⟨l, r', _, _, hn⟩ := onLine_next h
    have hw := hb.worded (by simp [hc])
    unfold afterHead at hn
    split at hn
    · simp only [Verdict.next.injEq] at hn
      obtain ⟨rfl, rfl, -⟩ := hn
      exact ⟨⟨hsound, fun _ => hw⟩, by simp⟩
    · split at hn
      · exact absurd hn (by simp)
      · rename_i hp
        obtain ⟨hm, hv⟩ := parseHttpHead_worded hp
        simp only [Verdict.next.injEq] at hn
        obtain ⟨rfl, rfl, -⟩ := hn
        exact ⟨⟨hsound, fun _ => hm ▸ hv ▸ hw⟩, by simp⟩
  · rename_i hc
    split at h
    · exact absurd h (by simp)
    · rename_i n hlen
      split at h
      · exact absurd h (by simp)
      · rename_i hge
        split at h
        · rename_i hfit
          simp only [Verdict.next.injEq] at h
          obtain ⟨rfl, rfl, -⟩ := h
          refine ⟨begun_new, ?_⟩
          intro req hreq
          obtain rfl := List.mem_singleton.mp hreq
          obtain ⟨hm, hv⟩ := hb.worded (by simp [hc])
          refine ⟨hm, hv, ?_⟩
          show c.request.contentLength = some (c.request.body ++ u.take _).length
          rw [hlen, List.length_append, List.length_take, min_eq_left hfit]
          congr 1
          omega
        · exact absurd h (by simp)
  · exact absurd h (by simp)
  · exact absurd h (by simp)

theorem Begun.wait (hb : Begun c) (h : readStep parseLine c u = .wait t r) : Begun t := by
  refine ⟨(readStep_wait hb.sound h).1, ?_⟩
  unfold readStep at h
  split at h
  · obtain ⟨_, _, rfl, _⟩ :=
      onLine_wait (fun l r' => (afterLine_local parseLine c).ne_wait l r' _ _) h
    exact hb.worded
  · obtain ⟨_, _, rfl, _⟩ := onLine_wait (fun l r' => c.afterHead_local.ne_wait l r' _ _) h
    exact hb.worded
  · split at h
    · exact absurd h (by simp)
    · split at h
      · simp only [Verdict.wait.injEq] at h
        exact h.1 ▸ hb.worded
      · split at h
        · exact absurd h (by simp)
        · simp only [Verdict.wait.injEq] at h
          exact h.1 ▸ hb.worded
  · simp only [Verdict.wait.injEq] at h
    exact h.1 ▸ hb.worded
  · simp only [Verdict.wait.injEq] at h
    exact h.1 ▸ hb.worded

end HttpContext

def Fault.Coded : Fault → Prop
  | .status n => n = 400 ∨ n = 414
  | .threw => True

namespace HttpContext

variable {c : HttpContext} {u : Bytes}

/-- A line that is too long fails with `414`, and one that does not do with `400`. -/
theorem onLine_coded {k : Bytes → Bytes → HttpVerdict} {e : Fault}
    (hk : ∀ l r e, k l r = .fail e → e = .status 400) (h : c.onLine u k = .fail e) : e.Coded := by
  unfold onLine at h
  split at h
  · split at h
    · obtain rfl := Verdict.fail.inj h
      exact Or.inr rfl
    · exact absurd h (by simp)
  · split at h
    · obtain rfl := Verdict.fail.inj h
      exact Or.inr rfl
    · rw [hk _ _ _ h]
      exact Or.inl rfl

theorem readStep_coded {e : Fault} (h : readStep parseLine c u = .fail e) : e.Coded := by
  unfold readStep at h
  split at h
  · refine onLine_coded ?_ h
    intro l r e he
    unfold afterLine at he
    split at he
    · rename_i hp
      rw [← Verdict.fail.inj he, parse_failed.1 hp]
    · exact absurd he (by simp)
  · refine onLine_coded ?_ h
    intro l r e he
    unfold afterHead at he
    split at he
    · exact absurd he (by simp)
    · split at he
      · rename_i hp
        rw [← Verdict.fail.inj he, parse_failed.2 hp]
      · exact absurd he (by simp)
  · split at h
    · obtain rfl := Verdict.fail.inj h
      trivial
    · split at h
      · exact absurd h (by simp)
      · split at h <;> exact absurd h (by simp)
  · exact absurd h (by simp)
  · exact absurd h (by simp)

/-- **What the reader hands out**, from a context on the way. -/
theorem Begun.results (hb : Begun c) (u : Bytes) :
    (∀ req ∈ ((httpReader parseLine).run c u).1, req.Received) ∧
      ∀ e, ((httpReader parseLine).run c u).2 = .error e → e.Coded :=
  Reader.run_results (R := httpReader parseLine) (fun h hn => Begun.next h hn)
    (fun _ hf => readStep_coded hf) hb

end HttpContext

/-! ### The account of a response -/

namespace HttpServer

variable (srv : HttpServer) {n : Nat} {req : HttpRequest}

/-- The routes `Route` compares a request with. -/
def registered (req : HttpRequest) : List Flux.Route :=
  if req.method = ascii "GET".toList ∨ req.method = ascii "HEAD".toList then srv.getRoute
  else if req.method = ascii "POST".toList then srv.postRoute
  else if req.method = ascii "PUT".toList then srv.putRoute
  else if req.method = ascii "DELETE".toList then srv.deleteRoute
  else []

/-- **Where a response comes from.**  What `Route` has made of the request, `serve` completes. -/
inductive Accounts (n : Nat) (e : Exchange) : Prop
  /-- What could not be parsed. -/
  | fault {status : Nat} (coded : status = 400 ∨ status = 414)
      (is : e = srv.reject n status e.request) (status : e.response.status = status)
  | file (received : e.request.Received) (is : e = srv.serve n 200 e.request)
      (isFile : isFileHandler (srv.isRegular n) srv.basedir e.request = true)
      (routed : srv.route n e.request (.new 200) = srv.fileHandler n e.request (.new 200))
      (status : e.response.status = 200)
  /-- The first route that fits. -/
  | handler (received : e.request.Received) (is : e = srv.serve n 200 e.request)
      {handler : Flux.Route}
      (noFile : isFileHandler (srv.isRegular n) srv.basedir e.request = false)
      (first : (srv.registered e.request).find? (·.re e.request.path) = some handler)
      (routed : srv.route n e.request (.new 200) = handler.functor n e.request (.new 200))
      (status : e.response.status = (handler.functor n e.request (.new 200)).status)
  | missing (received : e.request.Received) (is : e = srv.serve n 200 e.request)
      (noFile : isFileHandler (srv.isRegular n) srv.basedir e.request = false)
      (none : (srv.registered e.request).find? (·.re e.request.path) = none)
      (routed : srv.route n e.request (.new 200) = .new 404) (status : e.response.status = 404)

theorem errorHandler_status (resp : HttpResponse) :
    (srv.errorHandler n resp).status = resp.status := by
  unfold errorHandler
  split <;> rfl

theorem dispatcher_status (routes : List Flux.Route) (resp : HttpResponse) :
    dispatcher n req resp routes = match routes.find? (·.re req.path) with
      | some handler => handler.functor n req resp
      | none => { resp with status := 404 } := by
  induction routes with
  | nil => rfl
  | cons handler routes ih =>
    rw [dispatcher, List.find?_cons]
    by_cases h : handler.re req.path
    · rw [if_pos h, h]
    · rw [if_neg h, ih]
      simp [h]

theorem route_registered (h : req.method ∈ methods) (resp : HttpResponse)
    (hfile : isFileHandler (srv.isRegular n) srv.basedir req = false) :
    srv.route n req resp = dispatcher n req resp (srv.registered req) := by
  have hmethods : methods = [ascii "GET".toList, ascii "HEAD".toList, ascii "POST".toList,
      ascii "PUT".toList, ascii "DELETE".toList] := rfl
  rw [hmethods] at h
  simp only [List.mem_cons, List.not_mem_nil, or_false] at h
  unfold route registered
  rw [hfile]
  simp only [Bool.false_eq_true, if_false]
  by_cases hget : req.method = ascii "GET".toList ∨ req.method = ascii "HEAD".toList
  · rw [if_pos hget, if_pos hget]
  · rw [if_neg hget, if_neg hget]
    by_cases hpost : req.method = ascii "POST".toList
    · rw [if_pos hpost, if_pos hpost]
    · rw [if_neg hpost, if_neg hpost]
      by_cases hput : req.method = ascii "PUT".toList
      · rw [if_pos hput, if_pos hput]
      · rw [if_neg hput, if_neg hput]
        have hdelete : req.method = ascii "DELETE".toList := by tauto
        rw [if_pos hdelete, if_pos hdelete]

theorem serve_accounts (h : req.Received) : srv.Accounts n (srv.serve n 200 req) := by
  have hstatus : (srv.serve n 200 req).response.status = (srv.route n req (.new 200)).status := by
    show ((srv.handled n 200 req).complete req).status = _
    rw [HttpResponse.complete_status, handled]
    split
    · rw [errorHandler_status]
      rfl
    · rfl
  cases hfile : isFileHandler (srv.isRegular n) srv.basedir req with
  | true =>
    have hroute : srv.route n req (.new 200) = srv.fileHandler n req (.new 200) := by
      rw [route, if_pos hfile]
    refine .file h rfl hfile hroute ?_
    rw [hstatus, hroute, fileHandler_status]
    rfl
  | false =>
    have hroute := srv.route_registered h.method (.new 200) hfile
    rw [dispatcher_status] at hroute
    cases hfind : (srv.registered req).find? (·.re req.path) with
    | some handler =>
      rw [hfind] at hroute
      exact .handler h rfl hfile hfind hroute (hstatus.trans (congrArg (·.status) hroute))
    | none =>
      rw [hfind] at hroute
      exact .missing h rfl hfile hfind hroute (hstatus.trans (congrArg (·.status) hroute))

theorem reject_accounts {status : Nat} (h : status = 400 ∨ status = 414) :
    srv.Accounts n (srv.reject n status req) := by
  refine .fault h rfl ?_
  show ((srv.errorHandler n (.new status)).complete req).status = _
  rw [HttpResponse.complete_status, errorHandler_status]
  rfl

theorem serveAll_accounts {reqs : List HttpRequest} (h : ∀ req ∈ reqs, req.Received) {i : Nat}
    {e : Exchange} (hi : (srv.serveAll n reqs)[i]? = some e) : srv.Accounts (n + i) e := by
  induction reqs generalizing n i with
  | nil => exact absurd hi (by simp [serveAll])
  | cons req reqs ih =>
    cases i with
    | zero =>
      obtain rfl := Option.some.inj hi
      exact srv.serve_accounts (h req List.mem_cons_self)
    | succ i =>
      rw [serveAll, List.getElem?_cons_succ] at hi
      have hrest := ih (fun req hr => h req (List.mem_cons_of_mem _ hr)) hi
      rwa [Nat.add_right_comm, Nat.add_assoc] at hrest

theorem answers_accounts (hparse : srv.parse = parseLine) {c : HttpContext} (hc : Begun c)
    {u : Bytes}
    {i : Nat} {e : Exchange} (hi : (srv.answers n c u)[i]? = some e) : srv.Accounts (n + i) e := by
  rw [answers, hparse, List.getElem?_append] at hi
  obtain ⟨hreqs, hfaults⟩ := hc.results u
  split at hi
  · exact srv.serveAll_accounts hreqs hi
  · rename_i hge
    cases hend : ((httpReader parseLine).run c u).2 with
    | ok p =>
      rw [hend] at hi
      exact absurd hi (by simp [rejectEnd])
    | error f =>
      have hcoded := hfaults f hend
      rw [hend] at hi
      cases f with
      | threw => exact absurd hi (by simp [rejectEnd])
      | status status =>
        rw [rejectEnd, List.getElem?_singleton] at hi
        split at hi
        · obtain rfl := Option.some.inj hi
          rename_i hzero
          rw [serveAll_length] at hzero hge
          have hidx : ((httpReader parseLine).run c u).1.length = i := by omega
          rw [hidx]
          exact srv.reject_accounts hcoded
        · exact absurd hi (by simp)

end HttpServer

namespace HttpConn

variable {srv : HttpServer} {s t : HttpConn}

structure Accounted (srv : HttpServer) (s : HttpConn) : Prop where
  rests : Rests srv s
  begun : s.context.Begun
  log : ∀ i e, s.log[i]? = some e → srv.Accounts i e

theorem Accounted.step (hparse : srv.parse = parseLine) (h : Accounted srv s) {i : HttpInput}
    (hs : s.step srv i = some t) : Accounted srv t := by
  obtain ⟨hrests, hlog, hrest⟩ := h.rests.step_took hs
  refine ⟨hrests, ?_, ?_⟩
  · have hctx := congrArg Prod.fst hrest
    rw [hparse] at hctx
    cases hend : ((httpReader parseLine).run s.context (s.unread ++ i.arrived)).2 with
    | error f =>
      rw [hend] at hctx
      rw [show t.context = .new from hctx]
      exact begun_new
    | ok p =>
      rw [hend] at hctx
      rw [show t.context = p.1 from hctx]
      exact Reader.run_invariant (R := httpReader parseLine) (fun hb hw => Begun.wait hb hw)
        (fun hb hn => (Begun.next hb hn).1) h.begun hend
  · intro j e hj
    rw [hlog, List.getElem?_append] at hj
    split at hj
    · exact h.log j e hj
    · rename_i hge
      have hacc := srv.answers_accounts hparse h.begun hj
      rwa [Nat.add_sub_cancel' (Nat.le_of_not_lt hge)] at hacc

/-- **Every status has its reason.**  In every run of a connection of a server with the request line
of the source, each response is a `400` or `414` to what could not be parsed, or the answer to a
request with one of the five methods, one of the two versions and a body of the announced length,
completed from what `FileHandler` has made with `200`, from what the first route that fits has made,
or from `404`. -/
theorem statuses_accounted (hparse : srv.parse = parseLine) {connId sockfd : Nat}
    {is : List HttpInput}
    (hr : run (HttpConn.step srv) (fresh connId sockfd) is = some s) :
    ∀ i e, s.log[i]? = some e → srv.Accounts i e := by
  have hinv : Accounted srv s := run_preserves (fun _ _ _ h hs => Accounted.step hparse h hs)
    ⟨rests_fresh srv connId sockfd, begun_new, fun i e h => absurd h (by simp [fresh])⟩ hr
  exact hinv.log

/-- `"delete /x HTTP/1.1\r\n\r\n"`. -/
def deletion : WireRequest echo.parse where
  line := ascii "delete /x HTTP/1.1".toList ++ [carriageReturn]
  line_plain := by decide
  line_short := by decide
  line_ok := ⟨_, _, _, _, rfl⟩
  headers := []
  distinct := List.nodup_nil
  blank := .crlf
  body := []
  body_decimal _ hm := absurd hm List.not_mem_nil
  body_nil _ := rfl

/-- A method in small letters, for which nothing is registered. -/
theorem statuses_accounted_missing : ∃ s e, run (HttpConn.step echo) (fresh 1 7)
      [reading ([deletion].flatMap WireRequest.encode)] = some s ∧ s.log[0]? = some e ∧
    e.response.status = 404 ∧ echo.Accounts 0 e := by
  obtain ⟨s, hs, hlog⟩ :=
    exists_read_encodes echo [deletion] (by decide +kernel) (by decide +kernel)
  refine ⟨s, echo.serve 0 200 deletion.expected, hs, by rw [hlog]; rfl, by decide +kernel, ?_⟩
  exact statuses_accounted rfl hs 0 _ (by rw [hlog]; rfl)

end HttpConn

end Flux
