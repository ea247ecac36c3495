import Flux.Http.Delimiting
import Flux.Http.Delivery

/-!
# A conversation

Requests written by a client, cut and delayed in any way, go through the connection and the parser
to the handlers; the responses go through `_out_buffer` and `send` back to the client, which reads
them.

* `HttpConn.conversation`: **what a client reads are the answers to its requests**, each of them
  once its bytes are through, and a request is answered once its last byte has arrived.
-/

namespace Flux

open Lib

/-! ### Answers to a stream -/

namespace HttpServer

variable (srv : HttpServer)

theorem serveAll_append (n : Nat) (reqs reqs' : List HttpRequest) :
    srv.serveAll n (reqs ++ reqs') = srv.serveAll n reqs ++
      srv.serveAll (n + reqs.length) reqs' := by
  induction reqs generalizing n with
  | nil => rfl
  | cons req reqs ih =>
    rw [List.cons_append, serveAll, serveAll, ih, List.cons_append, List.length_cons,
      Nat.add_right_comm, Nat.add_assoc]

theorem serveAll_requests (n : Nat) (reqs : List HttpRequest) :
    (srv.serveAll n reqs).map Exchange.request = reqs := by
  induction reqs generalizing n with
  | nil => rfl
  | cons req reqs ih => rw [serveAll, List.map_cons, ih]; rfl

end HttpServer

namespace HttpContext

variable {parse : Bytes → LineResult}

/-- Nothing goes on into the state in which a request begins. -/
theorem readStep_next_ne_line {c t : HttpContext} {u r : Bytes}
    (h : readStep parse c u = .next [] t r) : t.recvStatus ≠ .line := by
  unfold readStep at h
  split at h
  · obtain ⟨l, r', -, -, hn⟩ := onLine_next h
    rcases afterLine_cases parse c l with ⟨t', ht', hn'⟩ | ⟨n, hf⟩
    · rw [hn', Verdict.next.injEq] at hn
      rw [← hn.2.1, ht']
      decide
    · exact absurd ((hf r').symm.trans hn) (by simp)
  · rename_i hc
    obtain ⟨l, r', -, -, hn⟩ := onLine_next h
    unfold afterHead at hn
    split at hn
    · rw [Verdict.next.injEq] at hn
      rw [← hn.2.1]
      exact fun he => HttpRecvStatus.noConfusion he
    · split at hn
      · exact absurd hn (by simp)
      · rename_i hp
        rw [Verdict.next.injEq] at hn
        rw [← hn.2.1, (parseHttpHead_ok hp).2.1, hc]
        exact fun he => HttpRecvStatus.noConfusion he
  · split at h
    · exact absurd h (by simp)
    · split at h
      · exact absurd h (by simp)
      · split at h
        · exact absurd h (by simp)
        · exact absurd h (by simp)
  · exact absurd h (by simp)
  · exact absurd h (by simp)

/-- Who waits where a request begins has been there all the time, and has taken nothing. -/
theorem readStep_wait_line {c t : HttpContext} {u r : Bytes}
    (h : readStep parse c u = .wait t r) (ht : t.recvStatus = .line) :
    c.recvStatus = .line ∧ r = u := by
  unfold readStep at h
  split at h
  · rename_i hc
    obtain ⟨-, -, rfl, rfl⟩ :=
      onLine_wait (fun l r' => (afterLine_local parse c).ne_wait l r' t r) h
    exact ⟨hc, rfl⟩
  · obtain ⟨-, -, rfl, rfl⟩ := onLine_wait (fun l r' => (afterHead_local c).ne_wait l r' t r) h
    exact ⟨ht, rfl⟩
  · rename_i hc
    split at h
    · exact absurd h (by simp)
    · split at h
      · rw [Verdict.wait.injEq] at h
        exact ⟨h.1 ▸ ht, h.2.symm⟩
      · split at h
        · exact absurd h (by simp)
        · rw [Verdict.wait.injEq] at h
          have hbody : t.recvStatus = .body := by
            rw [← h.1]
            exact hc
          exact absurd (ht.symm.trans hbody) (by simp)
  · rw [Verdict.wait.injEq] at h
    exact ⟨h.1 ▸ ht, h.2.symm⟩
  · rw [Verdict.wait.injEq] at h
    exact ⟨h.1 ▸ ht, h.2.symm⟩

/-- Between two requests the parser stands before a request line. -/
theorem idling_line (parse : Bytes → LineResult) :
    (httpReader parse).Idling fun c => c.recvStatus = .line where
  leaves h := readStep_next_ne_line h
  keeps h ht := readStep_wait_line h ht

/-- **Requests on the wire are frames of the stream.** -/
theorem framed (rs : List (WireRequest parse)) :
    (httpReader parse).Framed (fun c => c.recvStatus = .line) .new (rs.map WireRequest.encode)
      (rs.map WireRequest.expected) where
  length := by rw [List.length_map, List.length_map]
  boundary i _ := by
    refine ⟨.new, rfl, ?_⟩
    rw [← List.map_take, ← List.map_take, ← List.flatMap_def, run_encodes]

end HttpContext

/-! ### Runs -/

/-- The answer of the server to a request can be read: version and headers can be told apart on the
wire, and the response delimits itself, by no false length. -/
structure HttpServer.Readable (srv : HttpServer) (n : Nat) (req : HttpRequest) : Prop where
  plain : (srv.serve n 200 req).Plain
  spaceless : (32 : UInt8) ∉ req.version
  honest : srv.HonestLength n req
  delimits : srv.Delimits n req

namespace HttpConn

variable {srv : HttpServer} {s t : HttpConn} {connId sockfd : Nat} {is : List HttpInput}

/-- What the server makes of a stream without a fault. -/
theorem log_of_arrived {p : HttpContext × Bytes} (hr : Rests srv s)
    (h : run (HttpConn.step srv) s is = some t)
    (hp : ((httpReader srv.parse).run s.context (s.unread ++ is.flatMap HttpInput.arrived)).2 =
      .ok p) :
    t.log = s.log ++ srv.serveAll s.log.length
      ((httpReader srv.parse).run s.context (s.unread ++ is.flatMap HttpInput.arrived)).1 := by
  induction is generalizing s with
  | nil =>
    obtain rfl : s = t := Option.some.inj h
    rw [List.flatMap_nil, List.append_nil, hr.waits.run]
    exact (List.append_nil _).symm
  | cons i is ih =>
    obtain ⟨u, hu, hrest⟩ := run_cons.mp h
    obtain ⟨hru, hlog, hend⟩ := hr.step_took hu
    rw [List.flatMap_cons, ← List.append_assoc] at hp ⊢
    obtain ⟨q, hq⟩ := Reader.run_ok_of_append hp
    rw [hq] at hend
    obtain rfl : q = (u.context, u.unread) := hend.symm
    rw [HttpServer.answers, hq, HttpServer.rejectEnd, List.append_nil] at hlog
    rw [Reader.run_append, Result.andThen, hq] at hp ⊢
    rw [ih hru hrest hp, hlog, srv.serveAll_append, List.append_assoc, List.length_append,
      srv.serveAll_length]

theorem exists_of_mem_serveAll {n : Nat} {rs : List (WireRequest srv.parse)} {e : Exchange}
    (h : e ∈ srv.serveAll n (rs.map WireRequest.expected)) :
    ∃ k r, rs[k]? = some r ∧ srv.serve (n + k) 200 r.expected = e := by
  induction rs generalizing n with
  | nil => exact absurd h List.not_mem_nil
  | cons r rs ih =>
    rcases List.mem_cons.mp h with rfl | h
    · exact ⟨0, r, rfl, rfl⟩
    · obtain ⟨k, r', hk, he⟩ := ih h
      exact ⟨k + 1, r', hk, by rwa [Nat.add_right_comm n 1 k] at he⟩

theorem legible_serve {n : Nat} {req : HttpRequest} (h : srv.Readable n req) :
    (srv.serve n 200 req).Legible srv.order where
  data := rfl
  plain := h.plain
  delimited := (srv.serve_delimited_iff h.honest).mpr h.delimits
  spaceless := h.spaceless

/-- What the server makes of the bytes that have arrived. -/
theorem answers_of_arrived (rs : List (WireRequest srv.parse))
    (h : run (HttpConn.step srv) (fresh connId sockfd) is = some s)
    (harrived : is.flatMap HttpInput.arrived <+: rs.flatMap WireRequest.encode) :
    (∃ more, srv.serveAll 0 (rs.map WireRequest.expected) =
      s.log ++ srv.serveAll s.log.length more) ∧
    ∀ i ≤ rs.length, (rs.take i).flatMap WireRequest.encode <+: is.flatMap HttpInput.arrived ↔
      i ≤ s.log.length := by
  have hframes : is.flatMap HttpInput.arrived <+: (rs.map WireRequest.encode).flatten := by
    rwa [← List.flatMap_def]
  obtain ⟨⟨more, hmore⟩, ⟨p, hp⟩, hcount⟩ :=
    (HttpContext.framed rs).first (HttpContext.idling_line srv.parse) hframes
  have hlog : s.log =
      srv.serveAll 0 ((httpReader srv.parse).run .new (is.flatMap HttpInput.arrived)).1 :=
    log_of_arrived (rests_fresh srv connId sockfd) h hp
  refine ⟨⟨more, ?_⟩, fun i hi => ?_⟩
  · rw [← hmore, srv.serveAll_append, ← hlog, hlog, srv.serveAll_length, Nat.zero_add]
  · rw [hlog, srv.serveAll_length, ← hcount i (by rwa [List.length_map]), ← List.map_take,
      ← List.flatMap_def]

/-- What the client makes of the bytes that were taken. -/
theorem replies_of_taken (h : run (HttpConn.step srv) (fresh connId sockfd) is = some s)
    (hlegible : ∀ e ∈ s.log, e.Legible srv.order) (more : List Bool) :
    let got := Client.replyReader.run ⟨s.log.map Exchange.bodiless ++ more, .line⟩
      (wire srv (fresh connId sockfd) is)
    got.1 <+: s.log.map (Exchange.reply srv.order) ∧ (∃ q, got.2 = .ok q) ∧
    (∀ i ≤ s.log.length, (s.log.take i).flatMap Exchange.data <+:
      wire srv (fresh connId sockfd) is ↔ i ≤ got.1.length) ∧
    (s.conn.socketOpen = true → s.conn.outBuffer.unread = [] →
      got.1 = s.log.map (Exchange.reply srv.order)) := by
  intro got
  obtain ⟨hwire, hopen⟩ := wire_output h
  have hbytes : wire srv (fresh connId sockfd) is <+: (s.log.map Exchange.data).flatten := by
    rwa [← List.flatMap_def]
  obtain ⟨hgot, hok, htaken⟩ :=
    (Client.framed hlegible more).first (Client.idling Client.statusLine) hbytes
  have hcount : ∀ i ≤ s.log.length, (s.log.take i).flatMap Exchange.data <+:
      wire srv (fresh connId sockfd) is ↔ i ≤ got.1.length := by
    intro i hi
    have hiff := htaken i (by rwa [List.length_map])
    rwa [← List.map_take, ← List.flatMap_def] at hiff
  refine ⟨hgot, hok, hcount, fun ho hdrained => ?_⟩
  have hfull := hopen ho
  rw [hdrained, List.append_nil] at hfull
  refine hgot.eq_of_length_le ?_
  rw [List.length_map]
  refine (hcount s.log.length le_rfl).mp ?_
  rw [List.take_length, hfull]

/-- **A conversation.**  A client has sent well-formed requests, some first part of their bytes has
arrived, in reads cut in any way and among any other events, and the client reads what the kernel
has taken of the output so far.  Then the log holds the answers of the handlers to the requests in
order, and a request is answered exactly if all of its bytes have arrived; the client reads, without
an error, the first answers of the log with all their fields, and an answer exactly if all of its
bytes were taken; and once the output is drained it has read them all. -/
theorem conversation (rs : List (WireRequest srv.parse))
    (hreadable : ∀ k r, rs[k]? = some r → srv.Readable k r.expected)
    (h : run (HttpConn.step srv) (fresh connId sockfd) is = some s)
    (harrived : is.flatMap HttpInput.arrived <+: rs.flatMap WireRequest.encode) :
    let sent := rs.map WireRequest.expected
    let got := Client.replyReader.run ⟨sent.map HttpRequest.bodiless, .line⟩
      (wire srv (fresh connId sockfd) is)
    s.log <+: srv.serveAll 0 sent ∧
    (∀ i ≤ rs.length, (rs.take i).flatMap WireRequest.encode <+: is.flatMap HttpInput.arrived ↔
      i ≤ s.log.length) ∧
    got.1 <+: s.log.map (Exchange.reply srv.order) ∧ (∃ q, got.2 = .ok q) ∧
    (∀ i ≤ s.log.length, (s.log.take i).flatMap Exchange.data <+:
      wire srv (fresh connId sockfd) is ↔
      i ≤ got.1.length) ∧
    (s.conn.socketOpen = true → s.conn.outBuffer.unread = [] →
      got.1 = s.log.map (Exchange.reply srv.order)) := by
  intro sent got
  obtain ⟨⟨more, hall⟩, hcount⟩ := answers_of_arrived rs h harrived
  have hpre : s.log <+: srv.serveAll 0 sent := ⟨_, hall.symm⟩
  have hlegible : ∀ e ∈ s.log, e.Legible srv.order := by
    intro e he
    obtain ⟨k, r, hr, rfl⟩ := exists_of_mem_serveAll (hpre.mem he)
    exact legible_serve (by simpa using hreadable k r hr)
  have hflags : sent.map HttpRequest.bodiless =
      s.log.map Exchange.bodiless ++ more.map HttpRequest.bodiless := by
    have hrequests := congrArg (List.map Exchange.request) hall
    rw [srv.serveAll_requests, List.map_append, srv.serveAll_requests] at hrequests
    show (rs.map WireRequest.expected).map HttpRequest.bodiless = _
    rw [hrequests, List.map_append, List.map_map]
    rfl
  have hreplies := replies_of_taken h hlegible (more.map HttpRequest.bodiless)
  rw [← hflags] at hreplies
  exact ⟨hpre, hcount, hreplies⟩

theorem greeting_readable (n : Nat) :
    HttpServer.greeting.Readable n (rootRequest true).expected := by
  have hserve : HttpServer.greeting.serve n 200 (rootRequest true).expected =
      HttpServer.greeting.serve 0 200 (rootRequest true).expected := rfl
  have hdelimits : HttpServer.greeting.Delimits 0 (rootRequest true).expected := by
    unfold HttpServer.Delimits
    decide +kernel
  refine ⟨?_, by decide +kernel, HttpServer.greeting_honest n _, hdelimits⟩
  rw [hserve]
  exact ⟨by decide +kernel, by decide +kernel⟩

/-- Two requests in reads of 50 and 34 bytes, and two writes, the second of which leaves a part of
the second answer: the client has read the first. -/
theorem conversation_cut :
    let bytes := [rootRequest true, rootRequest true].flatMap WireRequest.encode
    let is := [reading (bytes.take 50), writing 30, reading (bytes.drop 50), writing 100]
    let sent := [rootRequest true, rootRequest true].map WireRequest.expected
    let got :=
      Client.replyReader.run ⟨sent.map HttpRequest.bodiless, .line⟩ (wire .greeting (fresh 1 7) is)
    ∃ s, run (HttpConn.step .greeting) (fresh 1 7) is = some s ∧ s.log.length = 2 ∧
    got.1.length = 1 ∧
      s.log <+: HttpServer.greeting.serveAll 0 sent ∧
      (∀ i ≤ 2, ([rootRequest true, rootRequest true].take i).flatMap WireRequest.encode <+:
        is.flatMap HttpInput.arrived ↔ i ≤ s.log.length) ∧
      got.1 <+: s.log.map (Exchange.reply HttpServer.greeting.order) ∧ (∃ q, got.2 = .ok q) ∧
      (∀ i ≤ s.log.length, (s.log.take i).flatMap Exchange.data <+: wire .greeting (fresh 1 7) is ↔
        i ≤ got.1.length) ∧
      (s.conn.socketOpen = true → s.conn.outBuffer.unread = [] →
        got.1 = s.log.map (Exchange.reply HttpServer.greeting.order)) := by
  intro bytes is sent got
  have hrun : (run (HttpConn.step .greeting) (fresh 1 7) is).map (fun s => (s.log.length,
      decide ((s.log.take 1).flatMap Exchange.data <+: wire .greeting (fresh 1 7) is),
      decide ((s.log.take 2).flatMap Exchange.data <+: wire .greeting (fresh 1 7) is))) =
        some (2, true, false) := by
    decide +kernel
  obtain ⟨s, hs, hp⟩ := Option.map_eq_some_iff.mp hrun
  simp only [Prod.mk.injEq, decide_eq_true_eq, decide_eq_false_iff_not] at hp
  obtain ⟨hlog, hone, htwo⟩ := hp
  let root : WireRequest HttpServer.greeting.parse := rootRequest true
  let rs := [root, root]
  have hreadable : ∀ k r, rs[k]? = some r → HttpServer.greeting.Readable k r.expected := by
    intro k r hk
    have hr : r = root := by simpa [rs] using List.mem_of_getElem? hk
    rw [hr]
    exact greeting_readable k
  have hall := conversation rs hreadable hs
    (by decide +kernel)
  have hiff := hall.2.2.2.2.1
  have hgot : got.1.length = 1 := by
    have hle := (hiff 1 (by omega)).mp hone
    have hlt := mt (hiff 2 (by omega)).mpr htwo
    change 1 ≤ got.1.length at hle
    change ¬ 2 ≤ got.1.length at hlt
    omega
  exact ⟨s, hs, hlog, hgot, hall⟩

end HttpConn

end Flux
