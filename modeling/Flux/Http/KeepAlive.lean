import Flux.Http.ServerRun

/-!
# Closing a connection

`OnMessage` calls `Shutdown` in two places: behind the response to a fault, and behind a response
whose `Connection` header is not `keep-alive`.  Only the first is followed by a return, and neither
keeps later bytes from being read, so more requests are served if they come
(`nothing_behind_close_iff`).  And only the second looks at the header that was written: at a fault
it is made from the request as far as it was parsed, which may ask to keep the connection
(`connection_truthful_iff`).

A response to a finished request never closes the connection while it announces to keep it, whatever
the handler does with the header.
-/

namespace Flux

open Lib HttpResponse

/-! ### The `Connection` header -/

/-- The line `Connection: keep-alive` is among the headers of a response as it is written. -/
def Exchange.Announces (e : Exchange) : Prop := (connectionKey, keepAlive) ∈ e.response.headers

/-- No answer is behind one that closes the connection. -/
def Final (log : List Exchange) : Prop := log.Pairwise fun e _ => e.closes = false

/-- The `Connection` header is `keep-alive` exactly if `Shutdown` is not called behind the
response. -/
def Exchange.Truthful (e : Exchange) : Prop := e.Announces ↔ e.closes = false

theorem Exchange.announces_iff (e : Exchange) :
    e.Announces ↔ e.response.isShortConnection = false := by
  rw [Announces, e.response.distinct.mem_iff, isShortConnection, Bool.not_eq_false',
    Bool.and_eq_true,
    beq_iff_eq]
  rfl

namespace HttpServer

variable (srv : HttpServer) (n status : Nat) (req : HttpRequest)

/-- The connection is to close behind the response to a request: its handler says so, or it leaves
that to the request, and this does not ask to keep it. -/
def short : Bool :=
  if (srv.handled n 200 req).hasHeader connectionKey then (srv.handled n 200 req).isShortConnection
  else req.isShortConnection

theorem serve_closes : (srv.serve n 200 req).closes = srv.short n req :=
  (srv.handled n 200 req).complete_isShortConnection req

theorem serve_truthful : (srv.serve n status req).Truthful := (Exchange.announces_iff _)

/-- The error page sets the type of its body and no other header. -/
theorem errorHandler_header (resp : HttpResponse) {key : Bytes} (hne : contentTypeKey ≠ key) :
    (srv.errorHandler n resp).hasHeader key = resp.hasHeader key ∧
      (srv.errorHandler n resp).getHeader key = resp.getHeader key := by
  unfold errorHandler
  split
  · exact ⟨rfl, rfl⟩
  · exact ⟨setHeader_hasHeader_of_ne _ _ hne, setHeader_getHeader_of_ne _ _ hne⟩

/-- The answer to a fault tells the truth if the request, as far as it was parsed, does not ask to
keep the connection. -/
theorem reject_truthful_iff :
    (srv.reject n status req).Truthful ↔ req.isShortConnection = true := by
  have hnone : (srv.errorHandler n (.new status)).hasHeader connectionKey = false := by
    rw [(srv.errorHandler_header n _ (by decide)).1]
    rfl
  have hshort : (srv.reject n status req).response.isShortConnection = req.isShortConnection := by
    rw [reject, complete_isShortConnection, hnone]
    rfl
  have hcloses : (srv.reject n status req).closes = true := rfl
  rw [Exchange.Truthful, Exchange.announces_iff, hshort, hcloses]
  simp

end HttpServer

/-! ### What a run of the reader makes of them -/

/-- Reading ended in a fault that is answered. -/
def Faulty (p : Except Fault (HttpContext × Bytes)) : Prop := ∃ status, p = .error (.status status)

namespace HttpServer

variable (srv : HttpServer)

theorem rejectEnd_eq_nil_iff {n : Nat} {req : HttpRequest}
    {p : Except Fault (HttpContext × Bytes)} :
    srv.rejectEnd n req p = [] ↔ ¬ Faulty p := by
  rcases p with (status | _) | q <;> simp [rejectEnd, Faulty]

theorem rejectEnd_cases (n : Nat) (req : HttpRequest) (p : Except Fault (HttpContext × Bytes)) :
    srv.rejectEnd n req p = [] ∨ ∃ status, srv.rejectEnd n req p = [srv.reject n status req] := by
  rcases p with (status | _) | q
  · exact Or.inr ⟨status, rfl⟩
  · exact Or.inl rfl
  · exact Or.inl rfl

theorem serveAll_eq_nil_iff {n : Nat} {reqs : List HttpRequest} :
    srv.serveAll n reqs = [] ↔ reqs = [] := by
  cases reqs <;> simp [serveAll]

theorem answers_eq_nil_iff {n : Nat} {c : HttpContext} {u : Bytes} : srv.answers n c u = [] ↔
    ((httpReader srv.parse).run c u).1 = [] ∧ ¬ Faulty ((httpReader srv.parse).run c u).2 := by
  rw [answers, List.append_eq_nil_iff, serveAll_eq_nil_iff, rejectEnd_eq_nil_iff]

theorem serveAll_truthful (n : Nat) (reqs : List HttpRequest) :
    ∀ e ∈ srv.serveAll n reqs, e.Truthful := by
  induction reqs generalizing n with
  | nil => exact fun e he => absurd he List.not_mem_nil
  | cons req reqs ih =>
    intro e he
    rcases List.mem_cons.mp he with rfl | he
    · exact srv.serve_truthful n 200 req
    · exact ih (n + 1) e he

/-- All answers tell the truth unless there is a fault in a request that asks to keep the
connection. -/
theorem answers_truthful_iff (n : Nat) (c : HttpContext) (u : Bytes) :
    (∀ e ∈ srv.answers n c u, e.Truthful) ↔ (Faulty ((httpReader srv.parse).run c u).2 →
      ((httpReader srv.parse).stop c u).1.request.isShortConnection = true) := by
  rw [answers, List.forall_mem_append, and_iff_right (srv.serveAll_truthful n _)]
  generalize ((httpReader srv.parse).stop c u).1.request = req
  generalize n + ((httpReader srv.parse).run c u).1.length = k
  rcases ((httpReader srv.parse).run c u).2 with (status | _) | q
  · have hf : Faulty (.error (.status status)) := ⟨status, rfl⟩
    rw [rejectEnd, List.forall_mem_singleton, reject_truthful_iff, forall_prop_of_true hf]
  · have hf : ¬ Faulty (.error .threw) := by simp [Faulty]
    exact iff_of_true (fun e he => absurd he List.not_mem_nil) fun h => absurd h hf
  · have hf : ¬ Faulty (.ok q) := by simp [Faulty]
    exact iff_of_true (fun e he => absurd he List.not_mem_nil) fun h => absurd h hf

/-- None of the responses to requests, with at most one answer behind them, is behind one that
closes. -/
theorem serveAll_final_iff (n : Nat) (reqs : List HttpRequest) {tail : List Exchange}
    (ht : Final tail) :
    Final (srv.serveAll n reqs ++ tail) ↔ ∀ k req, reqs[k]? = some req →
      srv.short (n + k) req = true → k + 1 = reqs.length ∧ tail = [] := by
  induction reqs generalizing n with
  | nil => exact iff_of_true ht (by simp)
  | cons req reqs ih =>
    have hhead : (∀ e ∈ srv.serveAll (n + 1) reqs ++ tail, (srv.serve n 200 req).closes = false) ↔
        (srv.short n req = true → 0 + 1 = (req :: reqs).length ∧ tail = []) := by
      rw [serve_closes]
      constructor
      · intro h hs
        have hnil : srv.serveAll (n + 1) reqs ++ tail = [] := by
          refine List.eq_nil_iff_forall_not_mem.mpr fun e he => ?_
          exact absurd (hs.symm.trans (h e he)) (by simp)
        obtain ⟨hreqs, htail⟩ := List.append_eq_nil_iff.mp hnil
        rw [srv.serveAll_eq_nil_iff.mp hreqs]
        exact ⟨rfl, htail⟩
      · intro h e he
        by_contra hs
        obtain ⟨hlen, rfl⟩ := h (by simpa using hs)
        obtain rfl : reqs = [] := List.length_eq_zero_iff.mp (by simpa using hlen.symm)
        exact absurd he (by simp [serveAll])
    show List.Pairwise _ (srv.serve n 200 req :: (srv.serveAll (n + 1) reqs ++ tail)) ↔ _
    rw [List.pairwise_cons, hhead]
    refine (and_congr_right fun _ => ih (n + 1)).trans ?_
    constructor
    · rintro ⟨h0, hk⟩ (_ | k) req' hreq hs
      · obtain rfl : req = req' := Option.some.inj hreq
        exact h0 hs
      · obtain ⟨hlen, htail⟩ := hk k req' hreq (by rw [Nat.add_assoc, Nat.add_comm 1 k]; exact hs)
        exact ⟨by rw [List.length_cons, hlen], htail⟩
    · intro h
      refine ⟨h 0 req rfl, ?_⟩
      intro k req' hreq hs
      obtain ⟨hlen, htail⟩ :=
        h (k + 1) req' hreq (by rw [Nat.add_comm k 1, ← Nat.add_assoc]; exact hs)
      exact ⟨Nat.succ.inj hlen, htail⟩

/-- No answer is behind one that closes if no request, and no fault, is behind a request that
does. -/
theorem answers_final_iff (n : Nat) (c : HttpContext) (u : Bytes) :
    Final (srv.answers n c u) ↔ ∀ k req, ((httpReader srv.parse).run c u).1[k]? = some req →
      srv.short (n + k) req = true →
      k + 1 = ((httpReader srv.parse).run c u).1.length ∧
      ¬ Faulty ((httpReader srv.parse).run c u).2 := by
  have htail : Final (srv.rejectEnd (n + ((httpReader srv.parse).run c u).1.length)
      ((httpReader srv.parse).stop c u).1.request ((httpReader srv.parse).run c u).2) := by
    rcases srv.rejectEnd_cases _ _ _ with h | ⟨status, h⟩
    · rw [h]
      exact .nil
    · rw [h]
      exact List.pairwise_singleton _ _
  rw [answers, srv.serveAll_final_iff n _ htail, rejectEnd_eq_nil_iff]

end HttpServer

/-! ### Requests at the root of a bare server -/

def rootLine : Bytes := ascii "GET / HTTP/1.1".toList ++ [carriageReturn]

theorem rootLine_plain : newline ∉ rootLine := by decide

theorem rootLine_short : (rootLine ++ [newline]).length ≤ maxLine := by decide

theorem rootLine_ok : ∃ method path version query,
    (HttpServer.bare rootLine).parse (rootLine ++ [newline]) = .ok method path version query :=
  ⟨_, _, _, _, rfl⟩

/-- A request at the root that asks to keep the connection or to close it. -/
def rootRequest (keep : Bool) : WireRequest (HttpServer.bare rootLine).parse where
  line := rootLine
  line_plain := rootLine_plain
  line_short := rootLine_short
  line_ok := rootLine_ok
  headers := [connectionLine keep]
  distinct := List.nodup_singleton _
  blank := .crlf
  body := []
  body_decimal := by
    intro h hm hk
    rw [List.mem_singleton.mp hm] at hk
    exact absurd hk (by cases keep <;> decide)
  body_nil _ := rfl

/-! ### Runs -/

namespace HttpConn

variable {srv : HttpServer} {s t : HttpConn}

/-- **When nothing is behind a close.**  Once a response has closed the connection the bytes of the
event complete no request and meet no fault, and neither is there one behind a request of the event
whose response closes it. -/
def Quiet (srv : HttpServer) (s : HttpConn) (i : HttpInput) : Prop :=
  let p := (httpReader srv.parse).run s.context (s.unread ++ i.arrived)
  ((∃ e ∈ s.log, e.closes = true) → p.1 = [] ∧ ¬ Faulty p.2) ∧
  ∀ k req, p.1[k]? = some req → srv.short (s.log.length + k) req = true →
    k + 1 = p.1.length ∧ ¬ Faulty p.2

theorem final_step_iff (hr : Rests srv s) {i : HttpInput} (ht : s.step srv i = some t) :
    Final t.log ↔ Final s.log ∧ Quiet srv s i := by
  rw [(hr.step ht).2, Final, List.pairwise_append]
  refine and_congr_right fun _ => ?_
  rw [and_comm, Quiet, ← HttpServer.answers_eq_nil_iff]
  refine and_congr ?_ (srv.answers_final_iff _ _ _)
  constructor
  · rintro h ⟨e, he, hc⟩
    refine List.eq_nil_iff_forall_not_mem.mpr fun e' he' => ?_
    exact absurd (hc.symm.trans (h e he e' he')) (by simp)
  · intro h e he e' he'
    by_contra hc
    rw [h ⟨e, he, by simpa using hc⟩] at he'
    exact absurd he' List.not_mem_nil

/-- **Exactly when no request is answered behind a close.**  Along every run of a connection,
whatever the bytes, their cuts and the events between them: no request is handled and no response
sent behind one with which the connection was to close, if and only if no event brings the end of a
request, or a fault, behind such a response. -/
theorem nothing_behind_close_iff {connId sockfd : Nat} {is : List HttpInput}
    (h : run (HttpConn.step srv) (fresh connId sockfd) is = some s) :
    Final s.log ↔ Each (HttpConn.step srv) (Quiet srv) (fresh connId sockfd) is := by
  refine run_iff_each_step (I := Rests srv) (Q := fun s => Final s.log) ?_ ?_
    (rests_fresh srv connId sockfd) .nil h
  · intro s i t hr ht
    exact (hr.step ht).1
  · intro s i t hr ht
    exact final_step_iff hr ht

/-- A first read of whole requests. -/
theorem exists_read_encodes (srv : HttpServer) (rs : List (WireRequest srv.parse))
    (hdata : 0 < (rs.flatMap WireRequest.encode).length ∧
      (rs.flatMap WireRequest.encode).length ≤ 65535)
    (hroom : 2 * ((srv.serveAll 0 (rs.map WireRequest.expected)).flatMap Exchange.data).length ≤
      bufferMaxSize) :
    ∃ t, run (HttpConn.step srv) (fresh 1 7) [reading (rs.flatMap WireRequest.encode)] = some t ∧
      t.log = srv.serveAll 0 (rs.map WireRequest.expected) := by
  have hrun := HttpContext.run_encodes rs
  have hans : srv.answers 0 .new (rs.flatMap WireRequest.encode) =
      srv.serveAll 0 (rs.map WireRequest.expected) := by
    rw [HttpServer.answers, hrun]
    exact List.append_nil _
  rw [← hans] at hroom ⊢
  exact exists_read_fresh 1 7 hdata (by rw [hrun]; simp) hroom

/-- A request that asks to close. -/
theorem nothing_behind_close_once : ∃ s, run (HttpConn.step (.bare rootLine)) (fresh 1 7)
      [reading ([rootRequest false].flatMap WireRequest.encode)] = some s ∧ s.log.length = 1 ∧
    (Final s.log ↔ Each (HttpConn.step (.bare rootLine)) (Quiet (.bare rootLine)) (fresh 1 7)
      [reading ([rootRequest false].flatMap WireRequest.encode)]) := by
  obtain ⟨s, hs, hlog⟩ := exists_read_encodes (.bare rootLine) [rootRequest false]
    (by decide +kernel) (by decide +kernel)
  exact ⟨s, hs, by rw [hlog]; rfl, nothing_behind_close_iff hs⟩

/-- Two of them in one read: both are answered. -/
theorem served_behind_close : ∃ s, run (HttpConn.step (.bare rootLine)) (fresh 1 7)
      [reading ([rootRequest false, rootRequest false].flatMap WireRequest.encode)] = some s ∧
    ¬ Final s.log := by
  obtain ⟨s, hs, hlog⟩ :=
    exists_read_encodes (.bare rootLine) [rootRequest false, rootRequest false]
    (by decide +kernel) (by decide +kernel)
  refine ⟨s, hs, ?_⟩
  intro hf
  rw [hlog] at hf
  have hfirst := (List.pairwise_cons.mp hf).1 _ List.mem_cons_self
  exact absurd hfirst (by decide +kernel)

/-- At a fault the event brings, the request as far as it was parsed does not ask to keep the
connection. -/
def FaultShort (srv : HttpServer) (s : HttpConn) (i : HttpInput) : Prop :=
  Faulty ((httpReader srv.parse).run s.context (s.unread ++ i.arrived)).2 →
    ((httpReader srv.parse).stop s.context (s.unread ++ i.arrived)).1.request.isShortConnection =
      true

theorem truthful_step_iff (hr : Rests srv s) {i : HttpInput} (ht : s.step srv i = some t) :
    (∀ e ∈ t.log, e.Truthful) ↔ (∀ e ∈ s.log, e.Truthful) ∧ FaultShort srv s i := by
  rw [(hr.step ht).2, List.forall_mem_append, srv.answers_truthful_iff, FaultShort]

/-- **Exactly when the `Connection` header tells the truth.**  Along every run of a connection and
for every handler: the header of every response says `keep-alive` if and only if `Shutdown` is not
called behind it, exactly if no fault is met in a request that has asked to keep the connection by
then. -/
theorem connection_truthful_iff {connId sockfd : Nat} {is : List HttpInput}
    (h : run (HttpConn.step srv) (fresh connId sockfd) is = some s) :
    (∀ e ∈ s.log, e.Truthful) ↔
    Each (HttpConn.step srv) (FaultShort srv) (fresh connId sockfd) is := by
  refine run_iff_each_step (I := Rests srv) (Q := fun s => ∀ e ∈ s.log, e.Truthful) ?_ ?_
    (rests_fresh srv connId sockfd) (fun e he => absurd he List.not_mem_nil) h
  · intro s i t hr ht
    exact (hr.step ht).1
  · intro s i t hr ht
    exact truthful_step_iff hr ht

/-- A line that is no request line. -/
theorem connection_truthful_garbage : ∃ s, run (HttpConn.step (.bare rootLine)) (fresh 1 7)
      [reading [65, 10]] = some s ∧ s.log.length = 1 ∧
    ((∀ e ∈ s.log, e.Truthful) ↔ Each (HttpConn.step (.bare rootLine)) (FaultShort (.bare rootLine))
      (fresh 1 7) [reading [65, 10]]) := by
  have hstep : (httpReader (HttpServer.bare rootLine).parse).step .new [65, 10] =
      .fail (.status 400) := rfl
  have hrun := Reader.run_of_fail hstep
  have hans : (HttpServer.bare rootLine).answers 0 .new [65, 10] =
      [(HttpServer.bare rootLine).reject 0 400 .new] := by
    rw [HttpConn.answers_fault hrun, Reader.stop_of_fail hstep]
    rfl
  have hlen : 0 < [(65 : UInt8), 10].length ∧ [(65 : UInt8), 10].length ≤ 65535 := by decide
  obtain ⟨s, hs, hlog⟩ :=
    exists_read_fresh 1 7 hlen (by rw [hrun]; simp) (by rw [hans]; decide +kernel)
  exact ⟨s, hs, by rw [hlog, hans]; rfl, connection_truthful_iff hs⟩

/-- A request that asks to keep the connection, with a line behind that which is no header. -/
def keptThenBad : Bytes :=
  rootLine ++ newline :: ((connectionLine true).encode ++ ascii "bad\n".toList)

/-- It is answered with `Connection: keep-alive` and the connection is closed. -/
theorem announced_and_closed : ∃ s, run (HttpConn.step (.bare rootLine)) (fresh 1 7)
      [reading keptThenBad] = some s ∧ ¬ ∀ e ∈ s.log, e.Truthful := by
  let parse := (HttpServer.bare rootLine).parse
  let c1 : HttpContext :=
    { (HttpContext.new.parseHttpLine parse (rootLine ++ [newline])).2 with recvStatus := .head }
  let c2 : HttpContext := { c1 with request := c1.request.setHeader connectionKey keepAlive }
  have h1 : (httpReader parse).step .new keptThenBad =
      .next [] c1 ((connectionLine true).encode ++ ascii "bad\n".toList) := rfl
  have h2 : (httpReader parse).step c1 ((connectionLine true).encode ++ ascii "bad\n".toList) =
      .next [] c2 (ascii "bad\n".toList) := rfl
  have h3 : (httpReader parse).step c2 (ascii "bad\n".toList) = .fail (.status 400) := rfl
  have hrun : (httpReader parse).run .new keptThenBad = ([], .error (.status 400)) := by
    rw [Reader.run_of_next h1, Reader.run_of_next h2, Reader.run_of_fail h3]
    rfl
  have hstop : (httpReader parse).stop .new keptThenBad = (c2, ascii "bad\n".toList) := by
    rw [Reader.stop_of_next h1, Reader.stop_of_next h2, Reader.stop_of_fail h3]
  have hans : (HttpServer.bare rootLine).answers 0 .new keptThenBad =
      [(HttpServer.bare rootLine).reject 0 400 c2.request] := by
    rw [answers_fault hrun, hstop]
  have hlen : 0 < keptThenBad.length ∧ keptThenBad.length ≤ 65535 := by decide +kernel
  obtain ⟨s, hs, hlog⟩ :=
    exists_read_fresh 1 7 hlen (by rw [hrun]; simp) (by rw [hans]; decide +kernel)
  refine ⟨s, hs, ?_⟩
  rw [hlog, hans, List.forall_mem_singleton, HttpServer.reject_truthful_iff]
  decide +kernel

end HttpConn

end Flux
