import Flux.Http.Serving

/-!
# Runs of a connection of the server

Between two events the parser waits (`Rests`).  An event that brings bytes makes the server answer
what the reader takes off the unread bytes and the new ones; no other event makes it answer anything
(`Rests.step`).  So the log of a run is known from the bytes, and the properties of responses are
properties of `answers`.

`input_bounded` is about the input buffer: whatever the peer sends, a short line at most stays in
it, the vector stays far below its cap, and the next read fits.
-/

namespace Flux

open Lib

/-- The bytes `HandleRead` takes from the kernel. -/
def RecvResult.bytes : RecvResult → Bytes
  | .data d => d
  | .again | .closed | .error => []

/-- The reported events make `HandleEvent` read. -/
def reads (revents : BitVec 32) : Bool :=
  hasBits revents EPOLLIN || hasBits revents EPOLLRDHUP || hasBits revents EPOLLPRI

/-- The bytes an event brings. -/
def HttpInput.arrived (i : HttpInput) : Bytes :=
  match i.event with
  | .handleEvent revents recv _ => if reads revents then recv.bytes else []
  | .release => []

/-- The read block runs exactly on these events. -/
theorem readTest_iff (c : Connection) :
    .recv ∈ c.readTest.frames ↔ reads c.channel.revents = true := by
  unfold Connection.readTest
  split
  · rename_i h
    exact iff_of_true (by simp) h
  · rename_i h
    exact iff_of_false (by simp) h

namespace HttpConn

variable {srv : HttpServer} {s t u : HttpConn} {hasTimer : Bool}

/-- A connection between two events. -/
structure Rests (srv : HttpServer) (s : HttpConn) : Prop where
  ready : s.context.Ready
  waits : Waits srv s
  vector : s.conn.inBuffer.buffer.length ≤ 2 * (maxLine + 65535)
  left : ∀ l ∈ s.left, l ≤ maxLine

/-- A connection at a call of `OnMessage`. -/
structure Filled (srv : HttpServer) (s : HttpConn) : Prop where
  ready : s.context.Ready
  idle : HttpContext.Idle srv.parse s.context s.unread
  vector : s.conn.inBuffer.buffer.length ≤ 2 * (maxLine + 65535)
  left : ∀ l ∈ s.left, l ≤ maxLine

theorem rests_fresh (srv : HttpServer) (connId sockfd : Nat) : Rests srv (fresh connId sockfd) := by
  refine ⟨HttpContext.ready_new, rfl, ?_, fun l hl => absurd hl List.not_mem_nil⟩
  have hlen : (fresh connId sockfd).conn.inBuffer.buffer.length = Buffer.new.buffer.length := rfl
  rw [hlen]
  exact HttpContext.roomy_new.vector_le

theorem Rests.filled (h : Rests srv s) : Filled srv s :=
  ⟨h.ready, fun _ => h.waits, h.vector, h.left⟩

theorem Rests.of_keeps (h : Rests srv s) (hk : Keeps s t) : Rests srv t :=
  ⟨hk.context ▸ h.ready, h.waits.of_keeps hk, hk.inBuffer ▸ h.vector, hk.left ▸ h.left⟩

theorem Filled.answered (h : Filled srv s) (ha : Answered srv s t) : Rests srv t := by
  obtain ⟨hr, hw⟩ := ha.waits h.ready
  obtain ⟨ls, hls, hle⟩ := ha.left
  refine ⟨hr, hw, ha.vector ▸ h.vector, ?_⟩
  intro l hl
  rw [hls] at hl
  exact (List.mem_append.mp hl).elim (h.left l) (hle l)

/-- **What is done with bytes that arrive**: the requests in them are answered, and what the reader
leaves is there for the next. -/
structure Took (srv : HttpServer) (s t : HttpConn) (data : Bytes) : Prop where
  rests : Rests srv t
  log : t.log = s.log ++ srv.answers s.log.length s.context (s.unread ++ data)
  rest : (t.context, t.unread) = settled ((httpReader srv.parse).run s.context (s.unread ++ data)).2

/-- Without new bytes nothing is answered. -/
theorem Rests.took (h : Rests srv s) (hk : Keeps s t) : Took srv s t [] := by
  have hu : t.unread = s.unread := congrArg Buffer.unread hk.inBuffer
  refine ⟨h.of_keeps hk, ?_, ?_⟩
  · rw [List.append_nil, h.waits.answers, List.append_nil, hk.log]
  · rw [List.append_nil, h.waits.run, hk.context, hu]
    rfl

/-- Nothing arrives behind it. -/
theorem Took.trans {data : Bytes} (h : Took srv s t data) (h' : Took srv t u []) :
    Took srv s u data := by
  have hlog := h'.log
  have hrest := h'.rest
  rw [List.append_nil, h.rests.waits.answers, List.append_nil] at hlog
  rw [List.append_nil, h.rests.waits.run] at hrest
  exact ⟨h'.rests, hlog.trans h.log, hrest.trans h.rest⟩

theorem Filled.message (h : Filled srv s) (hm : s.message srv hasTimer = .ok t) :
    Took srv s t [] := by
  have hout : Outcome srv s (s.message srv hasTimer) :=
    onMessage_outcome hasTimer h.ready h.idle (Nat.lt_succ_self _)
  rw [hm] at hout
  cases hout with
  | done ha =>
    refine ⟨h.answered ha, ?_, ?_⟩
    · rw [List.append_nil]
      exact ha.log
    · rw [List.append_nil]
      exact ha.rest

theorem Rests.enter {e : Exec} (h : Rests srv s) (he : e.conn.inBuffer = s.conn.inBuffer)
    (hm : s.enter (HttpConn.message srv hasTimer) e = .ok t) : Took srv s t [] := by
  have hk : Took srv s { s with conn := e.conn } [] := h.took ⟨rfl, rfl, rfl, he⟩
  unfold HttpConn.enter at hm
  split at hm
  · exact hk.trans (hk.rests.filled.message hm)
  · obtain rfl := Except.ok.inj hm
    exact hk

theorem Rests.goOn {e : Exec} (h : Rests srv s) (he : e.conn.inBuffer = s.conn.inBuffer) :
    Took srv s (s.goOn hasTimer e) [] := h.took (goOn_keeps hasTimer s he)

theorem map_eq_ok {ε α β : Type} {x : Except ε α} {f : α → β} {b : β} (h : x.map f = .ok b) :
    ∃ a, x = .ok a ∧ f a = b := by
  cases x with
  | error e => exact absurd h (by simp [Except.map])
  | ok a => exact ⟨a, rfl, Except.ok.inj h⟩

theorem Rests.enter_release {e : Exec} (h : Rests srv s) (he : e.conn.inBuffer = s.conn.inBuffer)
    (hm : (s.enter (HttpConn.message srv hasTimer) e).map (release hasTimer) = .ok t) :
    Took srv s t [] := by
  obtain ⟨u, hu, rfl⟩ := map_eq_ok hm
  have henter := h.enter he hu
  exact henter.trans (henter.rests.took (release_keeps hasTimer u))

theorem Rests.shutdown (h : Rests srv s)
    (hm : s.shutdown hasTimer (HttpConn.message srv hasTimer) = .ok t) : Took srv s t [] := by
  obtain ⟨u, hu, rfl⟩ := map_eq_ok hm
  have henter := h.enter (by simp [Connection.shutdownInLoop]) hu
  exact henter.trans (henter.rests.goOn (shutdownTail_inBuffer u.conn))

theorem Rests.fills (h : Rests srv s) {data : Bytes} (hpos : 0 < data.length)
    (hle : data.length ≤ 65535) :
    ∃ b, s.conn.inBuffer.writeAndPush data = some b ∧ b.unread = s.unread ++ data ∧
      Filled srv { s with conn := { s.conn with inBuffer := b } } ∧
      .callback .message ∈ (Connection.invokeMessage { s.conn with inBuffer := b } []).frames := by
  obtain ⟨b, hb, hu, hv⟩ := HttpContext.Roomy.write
    ⟨readAbleSize_le_of_waits h.ready.sound h.waits, h.vector⟩ hle
  refine ⟨b, hb, hu, ⟨h.ready, ?_, hv, h.left⟩, ?_⟩
  · show HttpContext.Idle srv.parse s.context b.unread
    rw [hu]
    exact HttpContext.idle_append h.waits data
  · have hlen : 0 < b.readAbleSize := by
      rw [← Buffer.unread_length, hu, List.length_append]
      omega
    simp [Connection.invokeMessage, Connection.invoke, hlen]

theorem Rests.handleRead {recv : RecvResult} (h : Rests srv s)
    (hm : s.handleRead hasTimer (HttpConn.message srv hasTimer) recv = .ok t) :
    Took srv s t recv.bytes := by
  cases recv with
  | again =>
    simp only [HttpConn.handleRead] at hm
    split at hm
    · obtain rfl := Except.ok.inj hm
      exact h.took ⟨rfl, rfl, rfl, rfl⟩
    · exact absurd hm (by simp)
  | closed | error => exact h.shutdown hm
  | data data =>
    simp only [HttpConn.handleRead] at hm
    split at hm
    · rename_i hg
      obtain ⟨_, hpos, hle⟩ := hg
      obtain ⟨b, hb, hu, hfill, hcall⟩ := h.fills hpos hle
      rw [Connection.recvData, hb] at hm
      simp only [Option.map_some] at hm
      rw [HttpConn.enter, if_pos hcall, Connection.invokeMessage_conn] at hm
      have hunread : HttpConn.unread { s with conn := { s.conn with inBuffer := b } } ++ [] =
          s.unread ++ data := (List.append_nil _).trans hu
      obtain ⟨hr, hlog, hrest⟩ := hfill.message hm
      rw [hunread] at hlog hrest
      exact ⟨hr, hlog, hrest⟩
    · exact absurd hm (by simp)

theorem Rests.handleWrite {send : SendResult} (h : Rests srv s)
    (hm : s.handleWrite hasTimer (HttpConn.message srv hasTimer) send = .ok t) :
    Took srv s t [] := by
  rcases send with n | (_ | _)
  · simp only [HttpConn.handleWrite] at hm
    split at hm
    · split at hm
      · exact absurd hm (by simp)
      · rename_i e he
        obtain rfl := Except.ok.inj hm
        refine h.goOn ?_
        unfold Connection.sent at he
        split at he
        · simp only at he
          split at he
          · obtain rfl := Option.some.inj he
            rfl
          · obtain rfl := Option.some.inj he
            rfl
        · exact absurd he (by simp)
    · exact absurd hm (by simp)
  · exact h.enter_release (Connection.invokeMessage_conn _ _ ▸ rfl) hm
  · obtain rfl := Except.ok.inj hm
    exact h.took ⟨rfl, rfl, rfl, rfl⟩

theorem Rests.writeBlock {send : SendResult} (h : Rests srv s)
    (hm : s.writeBlock hasTimer (HttpConn.message srv hasTimer) send = .ok t) :
    Took srv s t [] := by
  unfold HttpConn.writeBlock at hm
  split at hm
  · exact h.handleWrite hm
  · split at hm
    · exact h.enter_release (Connection.invokeMessage_conn _ _ ▸ rfl) hm
    · obtain rfl := Except.ok.inj hm
      exact h.took ⟨rfl, rfl, rfl, rfl⟩

theorem react_of_step {i : HttpInput} (hs : s.step srv i = some t) : s.react srv i = .ok t := by
  unfold HttpConn.step at hs
  cases hx : s.react srv i with
  | error e =>
    rw [hx] at hs
    exact absurd hs (by simp [Except.toOption])
  | ok u =>
    rw [hx] at hs
    rw [Option.some.inj hs]

/-- **What an event does**: the reader takes the requests off the unread bytes and those the event
brings. -/
theorem Rests.step_took {i : HttpInput} (h : Rests srv s) (hs : s.step srv i = some t) :
    Took srv s t i.arrived := by
  have hr := react_of_step hs
  obtain ⟨event, hasTimer⟩ := i
  cases event with
  | release =>
    obtain rfl := Except.ok.inj hr
    exact h.took (release_keeps hasTimer s)
  | handleEvent revents recv send =>
    let s0 : HttpConn :=
      { s with conn := { s.conn with channel := s.conn.channel.setREvents revents } }
    have h0 : Rests srv s0 := h.of_keeps ⟨rfl, rfl, rfl, rfl⟩
    change (s0.readBlock hasTimer _ recv).bind _ = .ok t at hr
    cases hread : s0.readBlock hasTimer (HttpConn.message srv hasTimer) recv with
    | error e =>
      rw [hread] at hr
      exact absurd hr (by simp [Except.bind])
    | ok u =>
      rw [hread] at hr
      have hu : Took srv s u (HttpInput.arrived ⟨.handleEvent revents recv send, hasTimer⟩) := by
        unfold HttpConn.readBlock at hread
        split at hread
        · rename_i hin
          have harr : HttpInput.arrived ⟨.handleEvent revents recv send, hasTimer⟩ = recv.bytes :=
            if_pos ((readTest_iff _).mp hin)
          rw [harr]
          obtain ⟨hru, hlog, hrest⟩ := h0.handleRead hread
          exact ⟨hru, hlog, hrest⟩
        · rename_i hin
          obtain rfl := Except.ok.inj hread
          have harr : HttpInput.arrived ⟨.handleEvent revents recv send, hasTimer⟩ = [] :=
            if_neg (mt (readTest_iff _).mpr hin)
          rw [harr]
          exact h.took ⟨rfl, rfl, rfl, rfl⟩
      exact hu.trans (hu.rests.writeBlock hr)

/-- **What an event makes the server answer**: what the reader takes off the unread bytes and those
the event brings. -/
theorem Rests.step {i : HttpInput} (h : Rests srv s) (hs : s.step srv i = some t) :
    Rests srv t ∧ t.log = s.log ++ srv.answers s.log.length s.context (s.unread ++ i.arrived) :=
  ⟨(h.step_took hs).rests, (h.step_took hs).log⟩

theorem rests_run {connId sockfd : Nat} {is : List HttpInput}
    (h : run (HttpConn.step srv) (fresh connId sockfd) is = some s) : Rests srv s :=
  run_preserves (fun _ _ _ hs ht => (hs.step ht).1) (rests_fresh srv connId sockfd) h

theorem Rests.enter_returns (h : Rests srv s) (hasTimer : Bool) {e : Exec}
    (he : e.conn.inBuffer = s.conn.inBuffer) :
    ∃ t, s.enter (HttpConn.message srv hasTimer) e = .ok t := by
  have hk : Keeps s { s with conn := e.conn } := ⟨rfl, rfl, rfl, he⟩
  have h' := h.of_keeps hk
  unfold HttpConn.enter
  split
  · obtain ⟨t, ht, _⟩ := onMessage_waits h'.ready h'.waits hasTimer _
    exact ⟨t, ht⟩
  · exact ⟨_, rfl⟩

theorem Rests.writeBlock_again (h : Rests srv s) (hasTimer : Bool) :
    ∃ t, s.writeBlock hasTimer (HttpConn.message srv hasTimer) (.error true) = .ok t := by
  unfold HttpConn.writeBlock
  split
  · exact ⟨s, rfl⟩
  · split
    · have hin : s.conn.handleClose.conn.inBuffer = s.conn.inBuffer := by
        rw [Connection.handleClose, Connection.invokeMessage_conn]
      obtain ⟨t, ht⟩ := h.enter_returns hasTimer hin
      exact ⟨_, by rw [HttpConn.handleClose, ht]; rfl⟩
    · exact ⟨s, rfl⟩

/-- A read that goes through: the bytes do not make `std::stol` throw, and there is room for the
responses. -/
theorem exists_read (h : Rests srv s) (hopen : s.conn.socketOpen = true) {data : Bytes}
    (hdata : 0 < data.length ∧ data.length ≤ 65535)
    (hlen : ((httpReader srv.parse).run s.context (s.unread ++ data)).2 ≠ .error .threw)
    (hroom : s.conn.outBuffer.unread.length + 2 * ((srv.answers s.log.length s.context
      (s.unread ++ data)).flatMap Exchange.data).length ≤ bufferMaxSize) (hasTimer : Bool) :
    ∃ t, s.step srv ⟨.handleEvent EPOLLIN (.data data) (.error true), hasTimer⟩ = some t := by
  obtain ⟨b, hb, hu, hv⟩ := HttpContext.Roomy.write
    ⟨readAbleSize_le_of_waits h.ready.sound h.waits, h.vector⟩ hdata.2
  let s0 : HttpConn :=
    { s with conn := { s.conn with channel := s.conn.channel.setREvents EPOLLIN } }
  let s1 : HttpConn := { s0 with conn := { s0.conn with inBuffer := b } }
  have hlarge : 0 < b.readAbleSize := by
    rw [← Buffer.unread_length, hu, List.length_append]
    omega
  have hidle : HttpContext.Idle srv.parse s.context b.unread := by
    rw [hu]
    exact HttpContext.idle_append h.waits data
  have hout : Outcome srv s1 (s1.message srv hasTimer) :=
    onMessage_outcome hasTimer h.ready hidle (Nat.lt_succ_self _)
  have hun : s1.unread = s.unread ++ data := hu
  have hread : s0.readBlock hasTimer (HttpConn.message srv hasTimer) (.data data) =
      s1.message srv hasTimer := by
    have hin : reads EPOLLIN = true := by decide
    have hbits : .recv ∈ s0.conn.readTest.frames := (readTest_iff _).mpr hin
    have hcall : .callback .message ∈ (Connection.invokeMessage s1.conn []).frames := by
      rw [Connection.invokeMessage, Connection.invoke, if_pos (by simpa using hlarge)]
      exact List.mem_cons_self
    have hrecv : s0.conn.recvData data = some (Connection.invokeMessage s1.conn []) := by
      rw [Connection.recvData, show s0.conn.inBuffer = s.conn.inBuffer from rfl, hb]
      rfl
    rw [HttpConn.readBlock, if_pos hbits]
    simp only [HttpConn.handleRead]
    rw [if_pos ⟨hopen, hdata⟩, hrecv]
    simp only [HttpConn.enter]
    rw [if_pos hcall, Connection.invokeMessage_conn]
  have hstep : s.step srv ⟨.handleEvent EPOLLIN (.data data) (.error true), hasTimer⟩ =
      ((s1.message srv hasTimer).bind fun u =>
        u.writeBlock hasTimer (HttpConn.message srv hasTimer) (.error true)).toOption := by
    show ((s0.readBlock hasTimer (HttpConn.message srv hasTimer) (.data data)).bind _).toOption = _
    rw [hread]
  rw [hstep]
  have hfill : Filled srv s1 := ⟨h.ready, hidle, hv, h.left⟩
  generalize s1.message srv hasTimer = r at hout
  cases hout with
  | @done u ha =>
    obtain ⟨t, ht⟩ := (hfill.answered ha).writeBlock_again hasTimer
    exact ⟨t, by rw [Except.bind, ht]; rfl⟩
  | threw herr =>
    rw [hun] at herr
    exact absurd herr hlen
  | overflow hlarge =>
    rw [hun] at hlarge
    exact absurd hroom (Nat.not_le.mpr hlarge)

/-- An event that brings bytes, and no room for output. -/
def reading (data : Bytes) : HttpInput := ⟨.handleEvent EPOLLIN (.data data) (.error true), true⟩

theorem exists_read_fresh (connId sockfd : Nat) {data : Bytes}
    (hdata : 0 < data.length ∧ data.length ≤ 65535)
    (hlen : ((httpReader srv.parse).run .new data).2 ≠ .error .threw)
    (hroom : 2 * ((srv.answers 0 .new data).flatMap Exchange.data).length ≤ bufferMaxSize) :
    ∃ t, run (HttpConn.step srv) (fresh connId sockfd) [reading data] = some t ∧
      t.log = srv.answers 0 .new data := by
  have hfresh := rests_fresh srv connId sockfd
  have hout : (fresh connId sockfd).conn.outBuffer.unread.length = 0 := by
    rw [Buffer.unread_length]
    rfl
  have hroom' : (fresh connId sockfd).conn.outBuffer.unread.length +
      2 * ((srv.answers 0 .new data).flatMap Exchange.data).length ≤ bufferMaxSize := by
    rw [hout, Nat.zero_add]
    exact hroom
  obtain ⟨t, ht⟩ := exists_read hfresh rfl hdata hlen hroom' true
  exact ⟨t, run_cons.mpr ⟨t, ht, rfl⟩, (hfresh.step ht).2⟩

/-- **The input buffer stays small.**  In every state of every run of a connection, whatever the
bytes, their cuts and the requests in them: at every return of `OnMessage` so far at most 8192 bytes
were left unread, the vector of `_in_buffer` is below its cap, and the next read of at most 65535
bytes is stored in it whole, again below the cap. -/
theorem input_bounded {srv : HttpServer} {connId sockfd : Nat} {is : List HttpInput} {s : HttpConn}
    (h : run (HttpConn.step srv) (fresh connId sockfd) is = some s) :
    (∀ l ∈ s.left, l ≤ 8192) ∧ s.conn.inBuffer.buffer.length < bufferMaxSize ∧
    ∀ data : Bytes, 0 < data.length → data.length ≤ 65535 →
      ∃ b, s.conn.inBuffer.writeAndPush data = some b ∧ b.unread = s.conn.inBuffer.unread ++ data ∧
        b.buffer.length < bufferMaxSize := by
  have hr := rests_run h
  have hcap : 2 * (maxLine + 65535) < bufferMaxSize := by decide
  refine ⟨hr.left, lt_of_le_of_lt hr.vector hcap, ?_⟩
  intro data _ hle
  obtain ⟨b, hb, hu, hv⟩ := HttpContext.Roomy.write
    ⟨readAbleSize_le_of_waits hr.ready.sound hr.waits, hr.vector⟩ hle
  exact ⟨b, hb, hu, lt_of_le_of_lt hv hcap⟩

/-- A request and the start of the next one in one read: the one is answered, the other stays. -/
theorem input_bounded_part : ∃ s, run (HttpConn.step echo) (fresh 1 7)
      [reading (closing.encode ++ closing.encode.take 10)] = some s ∧ s.log.length = 1 ∧
    s.conn.inBuffer.unread = closing.encode.take 10 ∧
    (∀ l ∈ s.left, l ≤ 8192) ∧ s.conn.inBuffer.buffer.length < bufferMaxSize ∧
    ∀ data : Bytes, 0 < data.length → data.length ≤ 65535 →
      ∃ b, s.conn.inBuffer.writeAndPush data = some b ∧ b.unread = s.conn.inBuffer.unread ++ data ∧
        b.buffer.length < bufferMaxSize := by
  have hpart : (httpReader echo.parse).run .new (closing.encode.take 10) =
      ([], .ok (.new, closing.encode.take 10)) := Reader.run_of_wait rfl
  have hrun : (httpReader echo.parse).run .new (closing.encode ++ closing.encode.take 10) =
      ([closing.expected], .ok (.new, closing.encode.take 10)) := by
    rw [HttpContext.run_encode, hpart]
  have hans : echo.answers 0 .new (closing.encode ++ closing.encode.take 10) =
      [echo.serve 0 200 closing.expected] := by
    rw [HttpServer.answers, hrun]
    rfl
  have hdata : 0 < (closing.encode ++ closing.encode.take 10).length ∧
      (closing.encode ++ closing.encode.take 10).length ≤ 65535 := by decide +kernel
  obtain ⟨s, hs, hlog⟩ := exists_read_fresh 1 7 hdata (by rw [hrun]; simp)
    (by rw [hans]; decide +kernel)
  obtain ⟨t, hstep, hlast⟩ := run_cons.mp hs
  obtain rfl := Option.some.inj hlast
  have hrest := ((rests_fresh echo 1 7).step_took hstep).rest
  change (t.context, t.unread) =
    settled ((httpReader echo.parse).run .new (closing.encode ++ closing.encode.take 10)).2 at hrest
  rw [hrun] at hrest
  exact ⟨t, hs, by rw [hlog, hans]; rfl, congrArg Prod.snd hrest, input_bounded hs⟩

end HttpConn

end Flux
