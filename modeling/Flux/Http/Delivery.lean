import Flux.Http.KeepAlive
import Flux.Http.Refinement

/-!
# What a close leaves behind

* `HttpConn.wire_output`: **the output of a connection is the responses of its log**, whatever
  happens.
* `HttpConn.onMessage_lives`: `OnMessage` does not close the connection: where it calls `Shutdown`,
  the response in front of it is still to be sent.
* `HttpConn.answers_delivered`: so unless something breaks, **at the close of a connection the
  kernel has taken every response**.
-/

namespace Flux

open Lib

/-! ### Output -/

/-- An event at which nothing breaks: no error is reported, `send` does not fail, and no timer
releases the connection. -/
def HttpInput.calm (i : HttpInput) : Bool :=
  match i.event with
  | .handleEvent revents _ send =>
    !hasBits revents EPOLLERR && !hasBits revents EPOLLHUP && send != .error false
  | .release => false

namespace HttpConn

variable {srv : HttpServer} {s t u : HttpConn} {connId sockfd : Nat} {is : List HttpInput}
  {hasTimer : Bool}

/-- **The output of a connection is the responses of its log**, in order: what the kernel took is a
first part of their bytes, and the rest is in `_out_buffer` while the socket is open. -/
theorem wire_output (h : run (HttpConn.step srv) (fresh connId sockfd) is = some s) :
    wire srv (fresh connId sockfd) is <+: s.log.flatMap Exchange.data ∧
    (s.conn.socketOpen = true → wire srv (fresh connId sockfd) is ++ s.conn.outBuffer.unread =
      s.log.flatMap Exchange.data) := by
  obtain ⟨inputs, c, hrun, hconn, -, hsent, hwire⟩ := run_goes h
  obtain ⟨hopen, hfirst⟩ := ConnState.run_output []
    (ConnState.coherent_fresh connId sockfd callbacks) (fun _ => rfl) (List.prefix_refl _) hrun
  rw [List.nil_append, hsent, hconn, hwire] at hopen
  rw [List.nil_append, hsent, hwire] at hfirst
  exact ⟨hfirst, hopen⟩

/-! ### Calls of `OnMessage` -/

/-- The connection is as open as before, not disconnected, and still has output if it had some. -/
structure Lives (s t : HttpConn) : Prop where
  socketOpen : t.conn.socketOpen = s.conn.socketOpen
  statu : t.conn.statu ≠ .disconnected
  revents : t.conn.channel.revents = s.conn.channel.revents
  output : s.conn.outBuffer.unread ≠ [] → t.conn.outBuffer.unread ≠ []

theorem Lives.trans (h : Lives s t) (h' : Lives t u) : Lives s u :=
  ⟨h'.socketOpen.trans h.socketOpen, h'.statu, h'.revents.trans h.revents,
    fun ho => h'.output (h.output ho)⟩

theorem Lives.of_conn (hst : s.conn.statu ≠ .disconnected)
    (hopen : t.conn.socketOpen = s.conn.socketOpen)
    (hstatu : t.conn.statu = s.conn.statu) (hchannel : t.conn.channel = s.conn.channel)
    (hout : t.conn.outBuffer = s.conn.outBuffer) : Lives s t :=
  ⟨hopen, hstatu ▸ hst, by rw [hchannel], fun ho => hout ▸ ho⟩

theorem lives_answer {e : Exchange} (hst : s.conn.statu ≠ .disconnected) (h : s.answer e = .ok t) :
    Lives s t := by
  obtain ⟨-, -, -, -, hstatu, hout⟩ := answer_eq_ok h
  have hkeep : t.conn.socketOpen = s.conn.socketOpen ∧
      t.conn.channel.revents = s.conn.channel.revents := by
    unfold answer at h
    split at h
    · exact absurd h (by simp)
    · rename_i x hx
      obtain rfl := Except.ok.inj h
      obtain ⟨buf, -, hx⟩ := Option.bind_eq_some_iff.mp hx
      have hexec : (Segment.sendInLoop buf).exec s.conn false = some x := hx
      cases Segment.exec_effect hexec with
      | inert _ kind => exact absurd kind (by simp [Segment.inert])
      | _ => exact ⟨rfl, rfl⟩
  refine ⟨hkeep.1, hstatu ▸ hst, hkeep.2, fun ho => ?_⟩
  rw [hout hst]
  exact List.append_ne_nil_of_left_ne_nil ho _

theorem lives_shutdownTail (hst : s.conn.statu ≠ .disconnected)
    (hout : s.conn.outBuffer.unread ≠ []) :
    Lives s (s.goOn hasTimer s.conn.shutdownTail) := by
  have hpos : 0 < s.conn.outBuffer.readAbleSize :=
    Nat.pos_of_ne_zero (mt Buffer.unread_eq_nil_iff.mpr hout)
  unfold goOn Connection.shutdownTail
  rw [if_pos hpos]
  split
  · exact ⟨rfl, hst, rfl, fun _ => hout⟩
  · exact ⟨rfl, hst, rfl, fun _ => hout⟩

variable {m : HttpConn → Except Stop HttpConn}

def Keeping (m : HttpConn → Except Stop HttpConn) : Prop :=
  ∀ {s t : HttpConn}, s.conn.statu ≠ .disconnected → m s = .ok t → Lives s t

theorem lives_enter {e : Exec} (hm : Keeping m) (hst : e.conn.statu ≠ .disconnected)
    (h : s.enter m e = .ok t) : Lives { s with conn := e.conn } t := by
  unfold enter at h
  split at h
  · exact hm hst h
  · obtain rfl := Except.ok.inj h
    exact .of_conn hst rfl rfl rfl rfl

theorem lives_shutdown (hm : Keeping m) (hout : s.conn.outBuffer.unread ≠ [])
    (h : s.shutdown hasTimer m = .ok t) : Lives s t := by
  obtain ⟨u, hu, rfl⟩ := map_eq_ok h
  have hconn : s.conn.shutdownInLoop.conn = { s.conn with statu := .disconnecting } := by
    simp [Connection.shutdownInLoop]
  have henter := lives_enter hm (by rw [hconn]; simp) hu
  rw [hconn] at henter
  have hleft := henter.output hout
  have htail : Lives u (u.goOn hasTimer u.conn.shutdownTail) :=
    lives_shutdownTail henter.statu hleft
  have hall := henter.trans htail
  exact ⟨hall.socketOpen, hall.statu, hall.revents, hall.output⟩

/-- **`OnMessage` keeps the connection alive**: where it calls `Shutdown` there is output. -/
theorem onMessage_lives (srv : HttpServer) (hasTimer : Bool) (rounds : Nat) :
    Keeping (onMessage srv hasTimer rounds) := by
  induction rounds with
  | zero =>
    intro s t _ h
    exact absurd h (by simp [onMessage])
  | succ rounds ih =>
    intro s t hst h
    rw [onMessage] at h
    split at h
    · obtain rfl := Except.ok.inj h
      exact .of_conn hst rfl rfl rfl rfl
    · split at h
      · exact absurd h (by simp)
      · rename_i context buf hrecv
        have hread : Lives s (s.received context buf) := .of_conn hst rfl rfl rfl rfl
        simp only at h
        split at h
        · -- a fault
          obtain ⟨x, hx, rfl⟩ := map_eq_ok h
          obtain ⟨a, ha, hx⟩ := bind_eq_ok hx
          have hans := lives_answer hread.statu ha
          have hout := answer_output (reject_data_ne_nil srv _ _ _) ha hans.statu
          have hempty : Lives a a.emptied := .of_conn hans.statu rfl rfl rfl rfl
          have hdown := lives_shutdown ih (hempty.output hout) hx
          exact (((hread.trans hans).trans hempty).trans hdown).trans
            (.of_conn hdown.statu rfl rfl rfl rfl)
        · split at h
          · obtain rfl := Except.ok.inj h
            exact hread.trans (.of_conn hread.statu rfl rfl rfl rfl)
          · -- a request
            obtain ⟨x, hx, h⟩ := bind_eq_ok h
            obtain ⟨a, ha, hx⟩ := bind_eq_ok hx
            have hans := lives_answer hread.statu ha
            have hout := answer_output (serve_data_ne_nil srv _ _ _) ha hans.statu
            have hnext : Lives a x := by
              split at hx
              · exact lives_shutdown ih hout hx
              · obtain rfl := Except.ok.inj hx
                exact .of_conn hans.statu rfl rfl rfl rfl
            exact ((hread.trans hans).trans hnext).trans (ih hnext.statu h)

/-! ### Events at which nothing breaks -/

/-- An open connection is not disconnected, and a closed one has nothing left to send. -/
structure Delivers (s : HttpConn) : Prop where
  alive : s.conn.socketOpen = true → s.conn.statu ≠ .disconnected
  drained : s.conn.socketOpen = false → s.conn.outBuffer.unread = []

/-- Responses come to the output, and the kernel takes bytes off it. -/
structure Moves (s t : HttpConn) (given : Bytes) : Prop where
  delivers : t.Delivers
  revents : t.conn.channel.revents = s.conn.channel.revents
  balance : ∃ es, t.log = s.log ++ es ∧
    given ++ t.conn.outBuffer.unread = s.conn.outBuffer.unread ++ es.flatMap Exchange.data

theorem Moves.trans {given given' : Bytes} (h : Moves s t given) (h' : Moves t u given') :
    Moves s u (given ++ given') := by
  obtain ⟨es, hlog, hout⟩ := h.balance
  obtain ⟨es', hlog', hout'⟩ := h'.balance
  refine ⟨h'.delivers, h'.revents.trans h.revents, es ++ es', ?_, ?_⟩
  · rw [hlog', hlog, List.append_assoc]
  · rw [List.append_assoc, hout', ← List.append_assoc, hout, List.flatMap_append, List.append_assoc]

theorem Moves.refl (h : s.Delivers) : Moves s s [] :=
  ⟨h, rfl, [], (List.append_nil _).symm, (List.append_nil _).symm⟩

/-- `Release` with nothing left to send. -/
theorem moves_release (hasTimer : Bool) (hout : s.conn.outBuffer.unread = []) :
    Moves s (s.release hasTimer) [] := by
  have hconn : (s.release hasTimer).conn = _ := s.conn.releaseInLoop_conn hasTimer
  refine ⟨⟨?_, ?_⟩, ?_, [], (List.append_nil _).symm, ?_⟩
  · rw [hconn]
    exact fun h => absurd h (by simp)
  · rw [hconn]
    exact fun _ => hout
  · rw [hconn]
  · rw [hconn]
    exact (List.append_nil _).symm

theorem Filled.output (h : Filled srv s) (hst : s.conn.statu ≠ .disconnected)
    (hm : s.message srv hasTimer = .ok t) :
    Lives s t ∧ t.log = s.log ++ srv.answers s.log.length s.context s.unread ∧
      t.conn.outBuffer.unread = s.conn.outBuffer.unread ++
        (srv.answers s.log.length s.context s.unread).flatMap Exchange.data := by
  have hout : Outcome srv s (s.message srv hasTimer) :=
    onMessage_outcome hasTimer h.ready h.idle (Nat.lt_succ_self _)
  rw [hm] at hout
  cases hout with
  | done ha => exact ⟨onMessage_lives srv hasTimer _ hst hm, ha.log, (ha.output hst).2⟩

theorem moves_shutdownTail (hasTimer : Bool) (hst : s.conn.statu ≠ .disconnected)
    (hd : s.conn.socketOpen = false → s.conn.outBuffer.unread = []) :
    Moves s (s.goOn hasTimer s.conn.shutdownTail) [] := by
  by_cases hout : s.conn.outBuffer.unread = []
  · have htail : s.conn.shutdownTail = ⟨s.conn, [.releaseCall], []⟩ := by
      rw [Connection.shutdownTail,
        if_neg (by rw [Buffer.unread_eq_nil_iff.mp hout]; exact Nat.lt_irrefl 0)]
    rw [goOn, htail, if_pos List.mem_cons_self]
    exact moves_release hasTimer hout
  · have hlives : Lives s (s.goOn hasTimer s.conn.shutdownTail) := lives_shutdownTail hst hout
    obtain ⟨hstatu, hbuf⟩ := goOn_shutdownTail hasTimer s hout
    refine ⟨⟨fun _ => hlives.statu, fun hclosed => ?_⟩, hlives.revents, [], ?_, ?_⟩
    · rw [hbuf]
      exact hd (hlives.socketOpen ▸ hclosed)
    · rw [(goOn_keeps hasTimer s (shutdownTail_inBuffer s.conn)).log, List.append_nil]
    · rw [hbuf, List.flatMap_nil, List.append_nil, List.nil_append]

theorem moves_shutdown (h : Rests srv s) (hd : s.Delivers)
    (hm : s.shutdown hasTimer (message srv hasTimer) = .ok t) : Moves s t [] := by
  obtain ⟨u, hu, rfl⟩ := map_eq_ok hm
  have hconn : s.conn.shutdownInLoop.conn = { s.conn with statu := .disconnecting } := by
    simp [Connection.shutdownInLoop]
  have hbegin : Moves s u [] ∧ u.conn.statu ≠ .disconnected := by
    let s1 : HttpConn := { s with conn := { s.conn with statu := .disconnecting } }
    have hr : Rests srv s1 := h.of_keeps ⟨rfl, rfl, rfl, rfl⟩
    have hst : s1.conn.statu ≠ .disconnected := fun he => ConnStatu.noConfusion he
    have hquiet : srv.answers s1.log.length s1.context s1.unread = [] := hr.waits.answers _
    unfold enter at hu
    rw [hconn] at hu
    split at hu
    · obtain ⟨hlives, hlog, hout⟩ := hr.filled.output hst hu
      rw [hquiet] at hlog hout
      refine ⟨⟨⟨fun _ => hlives.statu, fun hclosed => ?_⟩, hlives.revents, [], hlog, ?_⟩,
        hlives.statu⟩
      · rw [hout, List.flatMap_nil, List.append_nil]
        exact hd.drained (hlives.socketOpen ▸ hclosed)
      · rw [hout, List.nil_append]
    · obtain rfl := Except.ok.inj hu
      exact ⟨⟨⟨fun _ => hst, hd.drained⟩, rfl, [], (List.append_nil _).symm,
        (List.append_nil _).symm⟩, hst⟩
  exact hbegin.1.trans (moves_shutdownTail hasTimer hbegin.2 hbegin.1.delivers.drained)

theorem moves_handleRead {recv : RecvResult} (h : Rests srv s) (hd : s.Delivers)
    (hm : s.handleRead hasTimer (message srv hasTimer) recv = .ok t) : Moves s t [] := by
  cases recv with
  | again =>
    simp only [HttpConn.handleRead] at hm
    split at hm
    · obtain rfl := Except.ok.inj hm
      exact .refl hd
    · exact absurd hm (by simp)
  | closed | error => exact moves_shutdown h hd hm
  | data data =>
    simp only [HttpConn.handleRead] at hm
    split at hm
    · rename_i hg
      obtain ⟨hopen, hpos, hle⟩ := hg
      obtain ⟨b, hb, -, hfill, hcall⟩ := h.fills hpos hle
      rw [Connection.recvData, hb] at hm
      simp only [Option.map_some] at hm
      rw [HttpConn.enter, if_pos hcall, Connection.invokeMessage_conn] at hm
      obtain ⟨hlives, hlog, hout⟩ := hfill.output (hd.alive hopen) hm
      refine ⟨⟨fun _ => hlives.statu, fun hclosed => ?_⟩, hlives.revents, _, hlog, ?_⟩
      · have hstill : t.conn.socketOpen = true := hlives.socketOpen.trans hopen
        exact absurd (hstill.symm.trans hclosed) (by simp)
      · rw [hout, List.nil_append]
    · exact absurd hm (by simp)

theorem moves_handleWrite {send : SendResult} (hd : s.Delivers) (hcalm : send ≠ .error false)
    (hm : s.handleWrite hasTimer (message srv hasTimer) send = .ok t) :
    Moves s t (send.taken s.conn.outBuffer.unread) := by
  rcases send with n | (_ | _)
  · simp only [HttpConn.handleWrite] at hm
    split at hm
    · rename_i hopen
      split at hm
      · exact absurd hm (by simp)
      · rename_i e he
        obtain rfl := Except.ok.inj hm
        have hexec : (Segment.sent n).exec s.conn hasTimer = some e := by
          rw [Segment.exec, if_pos hopen, he]
        have hst := hd.alive hopen
        cases Segment.exec_effect hexec with
        | inert _ kind => exact absurd kind (by simp [Segment.inert])
        | @sentSome _ out opened taken left =>
          rw [goOn, if_neg List.not_mem_nil]
          refine ⟨⟨fun _ => hst, fun hclosed => absurd (hopen.symm.trans hclosed) (by simp)⟩,
            rfl, [],
            (List.append_nil _).symm, ?_⟩
          rw [taken, List.flatMap_nil, List.append_nil]
          exact List.take_append_drop n _
        | @sentAll _ out opened taken left =>
          -- the buffer is empty, so the connection may close
          have hall : SendResult.taken s.conn.outBuffer.unread (.sent n) =
              s.conn.outBuffer.unread := taken
          let s1 : HttpConn :=
            { s with conn :=
              { s.conn with outBuffer := out, channel := s.conn.channel.disableWrite } }
          have hsent : Moves s s1 (SendResult.taken s.conn.outBuffer.unread (.sent n)) := by
            refine ⟨⟨fun _ => hst, fun _ => left⟩, rfl, [], (List.append_nil _).symm, ?_⟩
            rw [hall, List.flatMap_nil, List.append_nil]
            show _ ++ out.unread = _
            rw [left, List.append_nil]
          have hend : Moves s1 (s.goOn hasTimer ⟨s1.conn,
              if s.conn.statu = .disconnecting then [.releaseCall] else [],
              [.accepted s.conn.outBuffer.unread, .updateEvent s.conn.channel.disableWrite.events]⟩)
              [] := by
            unfold goOn
            by_cases hdis : s.conn.statu = .disconnecting
            · rw [if_pos (by rw [if_pos hdis]; exact List.mem_cons_self)]
              exact moves_release (s := s1) hasTimer left
            · rw [if_neg (by rw [if_neg hdis]; exact List.not_mem_nil)]
              exact .refl hsent.delivers
          have hboth := hsent.trans hend
          rwa [List.append_nil] at hboth
    · exact absurd hm (by simp)
  · exact absurd rfl hcalm
  · obtain rfl := Except.ok.inj hm
    exact .refl hd

theorem moves_writeBlock {send : SendResult} (hd : s.Delivers) (hcalm : send ≠ .error false)
    (herr : hasBits s.conn.channel.revents EPOLLERR = false)
    (hhup : hasBits s.conn.channel.revents EPOLLHUP = false)
    (hm : s.writeBlock hasTimer (message srv hasTimer) send = .ok t) :
    Moves s t (s.conn.given send) := by
  have hframes : s.conn.writeTest.frames = [.send] ∨ s.conn.writeTest.frames = [] := by
    unfold Connection.writeTest
    rw [herr, hhup]
    split
    · exact Or.inl rfl
    · exact Or.inr rfl
  unfold HttpConn.writeBlock at hm
  unfold Connection.given
  rcases hframes with hf | hf
  · rw [hf, if_pos List.mem_cons_self] at hm
    rw [hf, if_pos List.mem_cons_self]
    exact moves_handleWrite hd hcalm hm
  · rw [hf, if_neg List.not_mem_nil, if_neg List.not_mem_nil] at hm
    obtain rfl := Except.ok.inj hm
    rw [hf, if_neg List.not_mem_nil]
    exact .refl hd

/-- **An event at which nothing breaks.** -/
theorem moves_step {i : HttpInput} (h : Rests srv s) (hd : s.Delivers) (hcalm : i.calm = true)
    (hs : s.step srv i = some t) : t.Delivers ∧ ∃ es, t.log = s.log ++ es ∧
      accepted srv s i ++ t.conn.outBuffer.unread =
        s.conn.outBuffer.unread ++ es.flatMap Exchange.data := by
  have hr := react_of_step hs
  obtain ⟨event, hasTimer⟩ := i
  cases event with
  | release => exact absurd hcalm (by simp [HttpInput.calm])
  | handleEvent revents recv send =>
    have hbits : (hasBits revents EPOLLERR = false ∧ hasBits revents EPOLLHUP = false) ∧
        send ≠ .error false := by
      simpa [HttpInput.calm] using hcalm
    let s0 : HttpConn :=
      { s with conn := { s.conn with channel := s.conn.channel.setREvents revents } }
    have h0 : Rests srv s0 := h.of_keeps ⟨rfl, rfl, rfl, rfl⟩
    have hd0 : s0.Delivers := ⟨hd.alive, hd.drained⟩
    change (s0.readBlock hasTimer _ recv).bind _ = .ok t at hr
    obtain ⟨u, hread, hwrite⟩ := bind_eq_ok hr
    have hin : Moves s0 u [] := by
      unfold HttpConn.readBlock at hread
      split at hread
      · exact moves_handleRead h0 hd0 hread
      · obtain rfl := Except.ok.inj hread
        exact .refl hd0
    have hrev : u.conn.channel.revents = revents := hin.revents
    have hout : Moves u t (u.conn.given send) :=
      moves_writeBlock hin.delivers hbits.2 (hrev ▸ hbits.1.1) (hrev ▸ hbits.1.2) hwrite
    rw [accepted_eq hread]
    exact ⟨(hin.trans hout).delivers, (hin.trans hout).balance⟩

theorem moves_run {taken : Bytes} (h : Rests srv s) (hd : s.Delivers)
    (hbalance : taken ++ s.conn.outBuffer.unread = s.log.flatMap Exchange.data)
    (hcalm : ∀ i ∈ is, i.calm = true) (hrun : run (HttpConn.step srv) s is = some t) :
    t.Delivers ∧ taken ++ wire srv s is ++ t.conn.outBuffer.unread =
      t.log.flatMap Exchange.data := by
  induction is generalizing s taken with
  | nil =>
    obtain rfl : s = t := Option.some.inj hrun
    rw [wire, List.append_nil]
    exact ⟨hd, hbalance⟩
  | cons i is ih =>
    obtain ⟨u, hu, hrest⟩ := run_cons.mp hrun
    obtain ⟨hdu, es, hlog, hout⟩ := moves_step h hd (hcalm i List.mem_cons_self) hu
    have hnext : taken ++ accepted srv s i ++ u.conn.outBuffer.unread =
        u.log.flatMap Exchange.data := by
      rw [List.append_assoc, hout, ← List.append_assoc, hbalance, hlog, List.flatMap_append]
    have hall := ih (h.step hu).1 hdu hnext (fun i hi => hcalm i (List.mem_cons_of_mem _ hi)) hrest
    rwa [wire, hu, Option.map_some, Option.getD_some, ← List.append_assoc]

theorem delivers_run (hrun : run (HttpConn.step srv) (fresh connId sockfd) is = some s)
    (hcalm : ∀ i ∈ is, i.calm = true) : s.Delivers ∧
      wire srv (fresh connId sockfd) is ++ s.conn.outBuffer.unread =
        s.log.flatMap Exchange.data := by
  have hfresh : (fresh connId sockfd).Delivers :=
    ⟨fun _ he => ConnStatu.noConfusion he, fun h => absurd (show true = false from h) (by simp)⟩
  have hnone : ([] : Bytes) ++ (fresh connId sockfd).conn.outBuffer.unread =
      (fresh connId sockfd).log.flatMap Exchange.data := rfl
  have hmoves := moves_run (rests_fresh srv connId sockfd) hfresh hnone hcalm hrun
  rwa [List.nil_append] at hmoves

theorem watched_run (hrun : run (HttpConn.step srv) (fresh connId sockfd) is = some s) :
    s.conn.outBuffer.unread ≠ [] → s.conn.channel.writeAble = true := by
  obtain ⟨inputs, c, hgoes, hconn, -⟩ := run_goes hrun
  have hc : c.Coherent := run_preserves (fun _ _ _ hs ht => hs.step ht)
    (ConnState.coherent_fresh connId sockfd callbacks) hgoes
  exact hconn ▸ hc.watched

/-- **A close loses no response.**  In every state of every run in which nothing breaks, whatever
the requests and their cuts, the writes and the end of the peer's stream: the bytes the kernel took
and the unread bytes of `_out_buffer` are together the responses of the log; what is unread is
watched for; and once the connection is closed the kernel has taken them all. -/
theorem answers_delivered (hrun : run (HttpConn.step srv) (fresh connId sockfd) is = some s)
    (hcalm : ∀ i ∈ is, i.calm = true) :
    wire srv (fresh connId sockfd) is ++ s.conn.outBuffer.unread = s.log.flatMap Exchange.data ∧
    (s.conn.outBuffer.unread ≠ [] → s.conn.channel.writeAble = true) ∧
    (s.conn.socketOpen = false →
      wire srv (fresh connId sockfd) is = s.log.flatMap Exchange.data) := by
  obtain ⟨hd, hbalance⟩ := delivers_run hrun hcalm
  refine ⟨hbalance, watched_run hrun, fun hclosed => ?_⟩
  rwa [hd.drained hclosed, List.append_nil] at hbalance

/-- An event at which `send` takes so many bytes. -/
def writing (n : Nat) : HttpInput := ⟨.handleEvent EPOLLOUT .again (.sent n), true⟩

/-- A request that asks to close, and two writes, behind which the connection is closed. -/
theorem answers_delivered_close :
    ∃ s, run (HttpConn.step (.bare rootLine)) (fresh 1 7)
        [reading (rootRequest false).encode, writing 5, writing 40] = some s ∧
      s.conn.socketOpen = false ∧ s.log.length = 1 ∧
      wire (.bare rootLine) (fresh 1 7)
        [reading (rootRequest false).encode, writing 5, writing 40] ++
        s.conn.outBuffer.unread = s.log.flatMap Exchange.data ∧
      (s.conn.outBuffer.unread ≠ [] → s.conn.channel.writeAble = true) ∧
      (s.conn.socketOpen = false →
        wire (.bare rootLine) (fresh 1 7)
          [reading (rootRequest false).encode, writing 5, writing 40] =
          s.log.flatMap Exchange.data) := by
  have hrun : (run (HttpConn.step (.bare rootLine)) (fresh 1 7)
      [reading (rootRequest false).encode, writing 5, writing 40]).map
        (fun s => (s.conn.socketOpen, s.log.length)) = some (false, 1) := by
    decide +kernel
  obtain ⟨s, hs, hp⟩ := Option.map_eq_some_iff.mp hrun
  simp only [Prod.mk.injEq] at hp
  exact ⟨s, hs, hp.1, hp.2, answers_delivered hs (by decide)⟩

end HttpConn

end Flux
