import Flux.Http.ServerRun
import Flux.Reactor.Sending

/-!
# `HttpConn` is a `Connection`

`HttpConn` puts an event together as one function; `ConnState` takes the same code apart at every
point where control is handed away.  `HttpConn.step_goes` connects the two: an event of the one is a
run of the other, in which the message callback sends, consumes and shuts down, and the kernel
answers what the event says.  The calls of `Send` in it give exactly the bytes of the responses the
event adds to the log.

So what is known of every run of a connection is known of the connections of this server
(`HttpConn.run_goes`).
-/

namespace Flux

open Lib

/-! ### Reading a buffer on -/

/-- `b'` is what `MoveReadOffset` makes of `b`. -/
def Buffer.Pops (b b' : Buffer) : Prop := ∃ n, ∃ h : n ≤ b.readAbleSize, b' = b.moveReadOffset n h

namespace Buffer.Pops

theorem refl (b : Buffer) : b.Pops b := ⟨0, Nat.zero_le _, rfl⟩

theorem trans {b b' b'' : Buffer} (h : b.Pops b') (h' : b'.Pops b'') : b.Pops b'' := by
  obtain ⟨n, hn, rfl⟩ := h
  obtain ⟨m, hm, rfl⟩ := h'
  rw [moveReadOffset_readAbleSize] at hm
  refine ⟨n + m, by omega, ?_⟩
  simp only [moveReadOffset, Nat.add_assoc]

end Buffer.Pops

namespace HttpContext

variable {parse : Bytes → LineResult} {c c' : HttpContext} {buf buf' : Buffer}

theorem fetchLine_pops (buf : Buffer) : buf.Pops (fetchLine buf).2.2 := by
  have h : buf.Pops buf.getLineAndPop.2 := ⟨_, buf.getLine_length_le, rfl⟩
  simp only [fetchLine]
  split
  · split <;> exact h
  · split <;> exact h

theorem recvHttpLine_pops (parse : Bytes → LineResult) (c : HttpContext) (buf : Buffer) :
    buf.Pops (c.recvHttpLine parse buf).2.2 := by
  have h := fetchLine_pops buf
  unfold recvHttpLine
  split
  · exact .refl buf
  · split <;> rename_i hf <;> rw [hf] at h
    · exact h
    · exact h
    · split <;> exact h

theorem headLines_pops (c : HttpContext) (buf : Buffer) : buf.Pops (c.headLines buf).2.2 := by
  induction hn : buf.readAbleSize using Nat.strong_induction_on generalizing c buf with
  | _ n ih =>
    have h := fetchLine_pops buf
    rw [headLines]
    split <;> rename_i hf <;> rw [hf] at h
    · exact h
    · exact h
    · split
      · exact h
      · split
        · exact h
        · exact h.trans (ih _ (hn ▸ fetchLine_lt hf) _ _ rfl)

theorem recvHttpHead_pops (c : HttpContext) (buf : Buffer) : buf.Pops (c.recvHttpHead buf).2.2 := by
  unfold recvHttpHead
  split
  · exact .refl buf
  · exact c.headLines_pops buf

theorem recvHttpBody_pops {r : ParseState × HttpContext × Buffer}
    (h : c.recvHttpBody buf = some r) :
    buf.Pops r.2.2 := by
  unfold recvHttpBody at h
  split at h
  · obtain rfl := Option.some.inj h
    exact .refl buf
  · obtain ⟨n, _, rfl⟩ := Option.map_eq_some_iff.mp h
    split
    · exact .refl buf
    · split
      · exact .refl buf
      · simp only
        split
        · exact .refl buf
        · split <;> exact ⟨_, min_le_right _ _, rfl⟩

/-- **The parser takes bytes off the front of the buffer** and does nothing else to it. -/
theorem recvHttpRequest_pops (h : c.recvHttpRequest parse buf = some (c', buf')) :
    buf.Pops buf' := by
  have hbody : ∀ {c : HttpContext} {b : Buffer}, buf.Pops b →
      (c.recvHttpBody b).map (·.2) = some (c', buf') → buf.Pops buf' := by
    intro c b hb hr
    obtain ⟨r, hr, hrb⟩ := Option.map_eq_some_iff.mp hr
    have hpop := recvHttpBody_pops hr
    rw [hrb] at hpop
    exact hb.trans hpop
  unfold recvHttpRequest at h
  split at h
  · exact hbody ((recvHttpLine_pops parse c buf).trans (recvHttpHead_pops _ _)) h
  · exact hbody (recvHttpHead_pops _ _) h
  · exact hbody (.refl buf) h
  · simp only [Option.some.injEq, Prod.mk.injEq] at h
    exact h.2 ▸ .refl buf
  · simp only [Option.some.injEq, Prod.mk.injEq] at h
    exact h.2 ▸ .refl buf

end HttpContext

/-! ### Runs of the machine -/

/-- Acts lead from a connection with a stack to another, whatever the log.  The calls of `Send`
among them give `sent`, and the kernel takes `taken`. -/
def Goes (hasTimer : Bool) (sent taken : Bytes) (p q : Connection × List Frame) : Prop :=
  ∀ log, ∃ (acts : List Act) (log' : List Obs),
    run ConnState.step ⟨p.1, p.2, log⟩ (acts.map fun act => ⟨act, hasTimer⟩) =
      some ⟨q.1, q.2, log'⟩ ∧
    acts.flatMap Act.sendData = sent ∧ acceptedBytes log' = acceptedBytes log ++ taken

namespace Goes

variable {hasTimer : Bool} {sent sent' taken taken' : Bytes} {p q r : Connection × List Frame}
  {c : Connection} {stack rest : List Frame}

theorem refl (hasTimer : Bool) (p : Connection × List Frame) : Goes hasTimer [] [] p p :=
  fun log => ⟨[], log, rfl, rfl, (List.append_nil _).symm⟩

theorem trans (h : Goes hasTimer sent taken p q) (h' : Goes hasTimer sent' taken' q r) :
    Goes hasTimer (sent ++ sent') (taken ++ taken') p r := by
  intro log
  obtain ⟨acts, log', hrun, hsent, htaken⟩ := h log
  obtain ⟨acts', log'', hrun', hsent', htaken'⟩ := h' log'
  refine ⟨acts ++ acts', log'', ?_, ?_, ?_⟩
  · rw [List.map_append]
    exact run_append.mpr ⟨_, hrun, hrun'⟩
  · rw [List.flatMap_append, hsent, hsent']
  · rw [htaken', htaken, List.append_assoc]

theorem of_segment (act : Act) (seg : Segment) {e : Exec}
    (hseg : segment stack act = some (seg, rest))
    (he : seg.exec c hasTimer = some e) (hsent : act.sendData = sent)
    (htaken : acceptedBytes e.obs = taken) :
    Goes hasTimer sent taken (c, stack) (e.conn, e.frames ++ rest) := by
  intro log
  refine ⟨[act], log ++ e.obs, ?_, ?_, ?_⟩
  · have hstep : ConnState.step ⟨c, stack, log⟩ ⟨act, hasTimer⟩ =
        some ⟨e.conn, e.frames ++ rest, log ++ e.obs⟩ :=
      ConnState.step_eq_some.mpr ⟨seg, rest, e, hseg, he, rfl⟩
    exact run_cons.mpr ⟨_, hstep, rfl⟩
  · rw [List.flatMap_singleton, hsent]
  · rw [acceptedBytes_append, htaken]

/-- The callbacks are set once and for all. -/
theorem callbacks (h : Goes hasTimer sent taken p q) : q.1.callbacks = p.1.callbacks := by
  obtain ⟨acts, log', hrun, -⟩ := h []
  refine run_preserves (I := fun s : ConnState => s.conn.callbacks = p.1.callbacks) ?_ rfl hrun
  intro s i t hs ht
  obtain ⟨seg, rest, e, -, he, rfl⟩ := ConnState.step_eq_some.mp ht
  exact (Segment.exec_setUp he).2.trans hs

theorem ret (hasTimer : Bool) (c : Connection) (k : Callback) (rest : List Frame) :
    Goes hasTimer [] [] (c, .callback k :: rest) (c, rest) :=
  of_segment .ret .ret rfl rfl rfl rfl

end Goes

/-- Only a `send` gives bytes to the kernel. -/
theorem Segment.exec_accepts {c : Connection} {hasTimer : Bool} {seg : Segment} {e : Exec}
    (h : seg.exec c hasTimer = some e) (hne : ∀ n, seg ≠ .sent n) : acceptedBytes e.obs = [] := by
  cases Segment.exec_effect h with
  | inert is => exact acceptedBytes_plain is.plain
  | sentSome => exact absurd rfl (hne _)
  | sentAll => exact absurd rfl (hne _)
  | established statu plain | shutdown plain =>
    have ha := acceptedBytes_plain plain
    simp only [acceptedBytes] at ha ⊢
    simp [ha]
  | @release _ closeFd tail closes plain =>
    have ha := acceptedBytes_plain plain
    have hclose : acceptedBytes closeFd = [] := by
      rw [closes]
      split <;> rfl
    simp only [acceptedBytes] at ha hclose ⊢
    simp [ha, hclose]
  | _ => rfl

namespace Goes

variable {hasTimer : Bool} {c : Connection} {stack rest behind : List Frame}

theorem resume (f : Frame) (seg : Segment) {e : Exec} (hf : f.resumed = some seg)
    (he : seg.exec c hasTimer = some e) (hne : ∀ n, seg ≠ .sent n) :
    Goes hasTimer [] [] (c, f :: rest) (e.conn, e.frames ++ rest) :=
  of_segment .resume seg (by rw [segment, hf, Option.map_some]) he rfl (Segment.exec_accepts he hne)

theorem call (op : ConnOp) (seg : Segment) {e : Exec} (hu : userRuns stack = true)
    (hop : op.segment = some seg) (he : seg.exec c hasTimer = some e) (hne : ∀ n, seg ≠ .sent n) :
    Goes hasTimer (Act.call op).sendData [] (c, stack) (e.conn, e.frames ++ stack) :=
  of_segment (.call op) seg (by rw [segment, if_pos hu, hop, Option.map_some]) he rfl
    (Segment.exec_accepts he hne)

/-- A callback that does nothing, if it is set. -/
theorem invoke (hasTimer : Bool) (c : Connection) (k : Callback) (isSet : Bool)
    (behind rest : List Frame) :
    Goes hasTimer [] [] (c, (c.invoke k isSet behind).frames ++ rest) (c, behind ++ rest) := by
  cases isSet with
  | true => exact ret hasTimer c k (behind ++ rest)
  | false => exact refl hasTimer _

theorem released (hasTimer : Bool) (c : Connection) (hclosed : c.callbacks.closed = false)
    (rest : List Frame) : Goes hasTimer [] [] ((c.releaseInLoop hasTimer).conn,
      (c.releaseInLoop hasTimer).frames ++ rest) ((c.releaseInLoop hasTimer).conn, rest) := by
  let c' := (c.releaseInLoop hasTimer).conn
  have hframes : (c.releaseInLoop hasTimer).frames ++ rest = .releaseTail :: rest := by
    rw [Connection.releaseInLoop_frames, hclosed]
    rfl
  have htail : Goes hasTimer [] [] (c', .releaseTail :: rest)
      (c'.releaseTail.conn, c'.releaseTail.frames ++ rest) :=
    resume .releaseTail .releaseTail rfl rfl (by simp)
  have hconn : c'.releaseTail.conn = c' := Connection.invoke_conn _ _ _ _
  rw [hframes]
  rw [hconn] at htail
  exact htail.trans (invoke hasTimer c' .srvClosed c'.callbacks.srvClosed [] rest)

theorem releaseCall (hasTimer : Bool) (c : Connection) (hclosed : c.callbacks.closed = false)
    (rest : List Frame) :
    Goes hasTimer [] [] (c, .releaseCall :: rest) ((c.releaseInLoop hasTimer).conn, rest) := by
  have henter : Goes hasTimer [] [] (c, .releaseCall :: rest) ((c.releaseInLoop hasTimer).conn,
      (c.releaseInLoop hasTimer).frames ++ rest) :=
    resume .releaseCall .releaseInLoop rfl rfl (by simp)
  exact henter.trans (released hasTimer c hclosed rest)

end Goes

/-- The bytes `send` takes of an output. -/
def SendResult.taken (out : Bytes) : SendResult → Bytes
  | .sent n => out.take n
  | .error _ => []

/-- The bytes the write block gives to the kernel. -/
def Connection.given (c : Connection) (send : SendResult) : Bytes :=
  if .send ∈ c.writeTest.frames then send.taken c.outBuffer.unread else []

theorem Connection.writeTest_shape (c : Connection) : c.writeTest.conn = c ∧
    (c.writeTest.frames = [.send] ∨ c.writeTest.frames = (c.invokeMessage [.releaseCall]).frames ∨
      c.writeTest.frames = []) := by
  unfold Connection.writeTest
  split
  · exact ⟨rfl, Or.inl rfl⟩
  · split
    · exact ⟨Connection.invokeMessage_conn _ _, Or.inr (Or.inl rfl)⟩
    · split
      · exact ⟨Connection.invokeMessage_conn _ _, Or.inr (Or.inl rfl)⟩
      · exact ⟨rfl, Or.inr (Or.inr rfl)⟩

theorem Connection.readTest_shape (c : Connection) : c.readTest.conn = c ∧
    (c.readTest.frames = [.recv, .writeTest] ∨ c.readTest.frames = [.writeTest]) := by
  unfold Connection.readTest
  split
  · exact ⟨rfl, Or.inl rfl⟩
  · exact ⟨rfl, Or.inr rfl⟩

theorem Connection.mem_handleClose (c : Connection) :
    .send ∉ (c.invokeMessage [.releaseCall]).frames ∧
      .releaseCall ∈ (c.invokeMessage [.releaseCall]).frames := by
  unfold Connection.invokeMessage Connection.invoke
  split <;> simp

theorem bind_eq_ok {ε α β : Type} {x : Except ε α} {f : α → Except ε β} {b : β}
    (h : x.bind f = .ok b) :
    ∃ a, x = .ok a ∧ f a = .ok b := by
  cases x with
  | error e => exact absurd h (by simp [Except.bind])
  | ok a => exact ⟨a, rfl, h⟩

/-! ### `OnMessage` -/

namespace HttpConn

variable {srv : HttpServer} {hasTimer : Bool} {s t u : HttpConn}
  {stack stack' stack'' rest behind : List Frame}
  {taken taken' : Bytes}

/-- Neither a closed nor an event callback is set. -/
def Plain (s : HttpConn) : Prop :=
  s.conn.callbacks.closed = false ∧ s.conn.callbacks.anyEvent = false

/-- The machine goes along, and sends the responses that are added to the log. -/
def Serves (hasTimer : Bool) (taken : Bytes) (s : HttpConn) (stack : List Frame) (t : HttpConn)
    (stack' : List Frame) : Prop :=
  ∃ es, t.log = s.log ++ es ∧
    Goes hasTimer (es.flatMap Exchange.data) taken (s.conn, stack) (t.conn, stack')

theorem Serves.of_goes (hlog : t.log = s.log)
    (h : Goes hasTimer [] taken (s.conn, stack) (t.conn, stack')) :
    Serves hasTimer taken s stack t stack' :=
  ⟨[], by rw [hlog, List.append_nil], h⟩

theorem Serves.refl (hasTimer : Bool) (s : HttpConn) (stack : List Frame) :
    Serves hasTimer [] s stack s stack := .of_goes rfl (.refl hasTimer _)

theorem Serves.trans (h : Serves hasTimer taken s stack t stack')
    (h' : Serves hasTimer taken' t stack' u stack'') :
    Serves hasTimer (taken ++ taken') s stack u stack'' := by
  obtain ⟨es, hes, hgo⟩ := h
  obtain ⟨es', hes', hgo'⟩ := h'
  refine ⟨es ++ es', by rw [hes', hes, List.append_assoc], ?_⟩
  rw [List.flatMap_append]
  exact hgo.trans hgo'

theorem Serves.plain (h : Serves hasTimer taken s stack t stack') (hs : s.Plain) : t.Plain := by
  obtain ⟨es, -, hgo⟩ := h
  have hcb : t.conn.callbacks = s.conn.callbacks := hgo.callbacks
  rw [Plain, hcb]
  exact hs

def Follows (hasTimer : Bool) (m : HttpConn → Except Stop HttpConn) : Prop :=
  ∀ {s t : HttpConn}, s.Plain → m s = .ok t → ∀ rest,
    Serves hasTimer [] s (.callback .message :: rest) t (.callback .message :: rest)

variable {m : HttpConn → Except Stop HttpConn} {e : Exec}

theorem serves_enter (hm : Follows hasTimer m) (hs : s.Plain) {isSet : Bool}
    (hconn : e.conn.callbacks = s.conn.callbacks)
    (hf : e.frames = if isSet then .callback .message :: behind else behind)
    (hb : .callback .message ∉ behind) (h : s.enter m e = .ok t) (rest : List Frame) :
    Serves hasTimer [] { s with conn := e.conn } (e.frames ++ rest) t (behind ++ rest) := by
  unfold enter at h
  cases isSet with
  | true =>
    rw [if_pos (by simp [hf])] at h
    have hplain : Plain { s with conn := e.conn } := by
      rw [Plain, hconn]
      exact hs
    have hcall := hm hplain h (behind ++ rest)
    rw [hf]
    exact hcall.trans (.of_goes rfl (.ret hasTimer t.conn .message _))
  | false =>
    rw [if_neg (by simp [hf, hb])] at h
    obtain rfl := Except.ok.inj h
    rw [hf]
    exact .refl hasTimer _ _

theorem serves_goOn (hs : s.Plain) (hconn : e.conn.callbacks = s.conn.callbacks)
    (hf : e.frames = [] ∨ e.frames = [.releaseCall]) (rest : List Frame) :
    Serves hasTimer [] { s with conn := e.conn } (e.frames ++ rest) (s.goOn hasTimer e) rest := by
  unfold goOn
  rcases hf with hf | hf
  · rw [hf, if_neg List.not_mem_nil]
    exact .refl hasTimer _ _
  · rw [hf, if_pos List.mem_cons_self]
    refine .of_goes rfl (.releaseCall hasTimer e.conn ?_ rest)
    rw [hconn]
    exact hs.1

/-- `ShutdownInLoop` behind the point where it is entered. -/
theorem serves_shutdown (hm : Follows hasTimer m) (hs : s.Plain) (h : s.shutdown hasTimer m = .ok t)
    (rest : List Frame) : Serves hasTimer [] { s with conn := s.conn.shutdownInLoop.conn }
      (s.conn.shutdownInLoop.frames ++ rest) t rest := by
  obtain ⟨u, hu, rfl⟩ := map_eq_ok h
  have hcb : s.conn.shutdownInLoop.conn.callbacks = s.conn.callbacks := by
    simp [Connection.shutdownInLoop]
  have hin : s.conn.shutdownInLoop.conn.inBuffer = s.conn.inBuffer := by
    simp [Connection.shutdownInLoop]
  have hf : s.conn.shutdownInLoop.frames = if decide (0 < s.conn.inBuffer.readAbleSize) = true then
      .callback .message :: [.shutdownTail] else [.shutdownTail] := by
    simp only [Connection.shutdownInLoop, Exec.after_frames, Connection.invokeMessage,
      Connection.invoke]
    split <;> rfl
  have henter := serves_enter hm hs hcb hf (by simp) hu rest
  have hplain : u.Plain := henter.plain (by rw [Plain, hcb]; exact hs)
  -- behind the callback
  have hexec : Segment.shutdownTail.exec u.conn hasTimer = some u.conn.shutdownTail := rfl
  have hback : u.conn.shutdownTail.conn.callbacks = u.conn.callbacks := (Segment.exec_setUp hexec).2
  have hframes : u.conn.shutdownTail.frames = [] ∨ u.conn.shutdownTail.frames = [.releaseCall] := by
    unfold Connection.shutdownTail
    split
    · split <;> exact Or.inl rfl
    · exact Or.inr rfl
  have htail : Goes hasTimer [] [] (u.conn, .shutdownTail :: rest)
      (u.conn.shutdownTail.conn, u.conn.shutdownTail.frames ++ rest) :=
    .resume .shutdownTail .shutdownTail rfl hexec (by simp)
  have hstep : Serves hasTimer [] u (.shutdownTail :: rest) { u with conn :=
      u.conn.shutdownTail.conn }
      (u.conn.shutdownTail.frames ++ rest) := .of_goes rfl htail
  exact (henter.trans hstep).trans (serves_goOn hplain hback hframes rest)

theorem serves_call_shutdown (hm : Follows hasTimer m) (hs : s.Plain) (hu : userRuns stack = true)
    (h : s.shutdown hasTimer m = .ok t) : Serves hasTimer [] s stack t stack := by
  have hcall : Goes hasTimer [] [] (s.conn, stack) (s.conn.shutdownInLoop.conn,
      s.conn.shutdownInLoop.frames ++ stack) :=
    .call .shutdown .shutdownInLoop hu rfl rfl (by simp)
  have hstep : Serves hasTimer [] s stack { s with conn := s.conn.shutdownInLoop.conn }
      (s.conn.shutdownInLoop.frames ++ stack) := .of_goes rfl hcall
  exact hstep.trans (serves_shutdown hm hs h stack)

theorem serves_answer {e : Exchange} (hu : userRuns stack = true) (h : s.answer e = .ok t) :
    Serves hasTimer [] s stack t stack := by
  have hlog : t.log = s.log ++ [e] := (answer_eq_ok h).2.1
  unfold answer at h
  split at h
  · exact absurd h (by simp)
  · rename_i x hx
    obtain rfl := Except.ok.inj h
    obtain ⟨buf, hbuf, hx⟩ := Option.bind_eq_some_iff.mp hx
    have hop : (ConnOp.send e.data).segment = some (.sendInLoop buf) := by
      rw [ConnOp.segment, hbuf, Option.map_some]
    have hexec : (Segment.sendInLoop buf).exec s.conn hasTimer = some x := hx
    have hframes : x.frames = [] := by
      cases Segment.exec_effect hexec with
      | inert _ kind => exact absurd kind (by simp [Segment.inert])
      | _ => rfl
    have hcall := Goes.call _ _ hu hop hexec (by simp)
    rw [hframes, List.nil_append] at hcall
    refine ⟨[e], hlog, ?_⟩
    rw [List.flatMap_singleton]
    exact hcall

theorem serves_consume {b : Buffer} (hu : userRuns stack = true) (hb : s.conn.inBuffer.Pops b)
    (hconn : t.conn = { s.conn with inBuffer := b }) (hlog : t.log = s.log) :
    Serves hasTimer [] s stack t stack := by
  obtain ⟨n, hn, rfl⟩ := hb
  have hexec : (Segment.consume n).exec s.conn hasTimer = some ⟨t.conn, [], []⟩ := by
    rw [Segment.exec, Connection.consume, dif_pos hn, hconn]
  refine .of_goes hlog (.of_segment (.consume n) (.consume n) ?_ hexec rfl rfl)
  rw [segment, if_pos hu]

/-- **`OnMessage`, in so many rounds**, is user code of the machine. -/
theorem follows_onMessage (srv : HttpServer) (hasTimer : Bool) (rounds : Nat) :
    Follows hasTimer (onMessage srv hasTimer rounds) := by
  induction rounds with
  | zero =>
    intro s t _ h
    exact absurd h (by simp [onMessage])
  | succ rounds ih =>
    intro s t hs h rest
    have hu : userRuns (.callback .message :: rest) = true := rfl
    have hret : ∀ x : HttpConn, Serves hasTimer [] x (.callback .message :: rest) x.returned
        (.callback .message :: rest) := fun x => .of_goes rfl (.refl hasTimer _)
    rw [onMessage] at h
    split at h
    · obtain rfl := Except.ok.inj h
      exact hret s
    · split at h
      · exact absurd h (by simp)
      · rename_i context buf hrecv
        have hread : Serves hasTimer [] s (.callback .message :: rest) (s.received context buf)
            (.callback .message :: rest) :=
          serves_consume hu (HttpContext.recvHttpRequest_pops hrecv) rfl rfl
        have hplain := hread.plain hs
        simp only at h
        split at h
        · -- a fault
          obtain ⟨x, hx, rfl⟩ := map_eq_ok h
          obtain ⟨a, ha, hx⟩ := bind_eq_ok hx
          have hans : Serves hasTimer [] _ _ a (.callback .message :: rest) := serves_answer hu ha
          have hempty : Serves hasTimer [] a (.callback .message :: rest) a.emptied
              (.callback .message :: rest) := serves_consume hu ⟨_, le_rfl, rfl⟩ rfl rfl
          have hdown := serves_call_shutdown ih (hempty.plain (hans.plain hplain)) hu hx
          exact (((hread.trans hans).trans hempty).trans hdown).trans (hret x)
        · split at h
          · obtain rfl := Except.ok.inj h
            exact hread.trans (hret _)
          · -- a request
            obtain ⟨x, hx, h⟩ := bind_eq_ok h
            obtain ⟨a, ha, hx⟩ := bind_eq_ok hx
            have hans : Serves hasTimer [] _ _ a (.callback .message :: rest) := serves_answer hu ha
            have hnext : Serves hasTimer [] a (.callback .message :: rest) x
                (.callback .message :: rest) := by
              split at hx
              · exact serves_call_shutdown ih (hans.plain hplain) hu hx
              · obtain rfl := Except.ok.inj hx
                exact .refl hasTimer _ _
            exact ((hread.trans hans).trans hnext).trans
              (ih (hnext.plain (hans.plain hplain)) h rest)

theorem follows_message (srv : HttpServer) (hasTimer : Bool) :
    Follows hasTimer (message srv hasTimer) :=
  fun hs h rest => follows_onMessage srv hasTimer _ hs h rest

/-! ### Events -/

/-- The bytes an event gives to the kernel, from the output as the read block leaves it. -/
def accepted (srv : HttpServer) (s : HttpConn) (i : HttpInput) : Bytes :=
  match i.event with
  | .release => []
  | .handleEvent revents recv send =>
    let s := { s with conn := { s.conn with channel := s.conn.channel.setREvents revents } }
    match s.readBlock i.hasTimer (message srv i.hasTimer) recv with
    | .ok s => s.conn.given send
    | .error _ => []

theorem accepted_eq {revents : BitVec 32} {recv : RecvResult} {send : SendResult}
    (h : HttpConn.readBlock hasTimer (message srv hasTimer)
      { s with conn := { s.conn with channel := s.conn.channel.setREvents revents } } recv =
        .ok t) :
    accepted srv s ⟨.handleEvent revents recv send, hasTimer⟩ = t.conn.given send := by
  simp only [accepted, h]

theorem serves_enter_release (hm : Follows hasTimer m) (hs : s.Plain)
    (h : (s.enter m (s.conn.invokeMessage [.releaseCall])).map (release hasTimer) = .ok t) :
    Serves hasTimer [] s ((s.conn.invokeMessage [.releaseCall]).frames ++ rest) t rest := by
  obtain ⟨u, hu, rfl⟩ := map_eq_ok h
  have hf : (s.conn.invokeMessage [.releaseCall]).frames =
      if decide (0 < s.conn.inBuffer.readAbleSize) = true then .callback .message :: [.releaseCall]
      else [.releaseCall] := by
    simp only [Connection.invokeMessage, Connection.invoke]
    split <;> rfl
  have henter := serves_enter hm hs (by simp) hf (by simp) hu rest
  have hsame : { s with conn := (s.conn.invokeMessage [.releaseCall]).conn } = s := by
    rw [Connection.invokeMessage_conn]
  rw [hsame] at henter
  exact henter.trans (.of_goes rfl (.releaseCall hasTimer u.conn (henter.plain hs).1 rest))

theorem serves_handleRead {r : RecvResult} (hm : Follows hasTimer m) (hs : s.Plain)
    (h : s.handleRead hasTimer m r = .ok t) (rest : List Frame) :
    Serves hasTimer [] s (.recv :: rest) t rest := by
  have hseg : segment (.recv :: rest) (.recv r) = some (r.segment, rest) := rfl
  have hdown : s.shutdown hasTimer m = .ok t → r.segment = .shutdownInLoop →
      Serves hasTimer [] s (.recv :: rest) t rest := by
    intro hok hr
    have hexec : Segment.shutdownInLoop.exec s.conn hasTimer = some s.conn.shutdownInLoop := rfl
    have hgo : Goes hasTimer [] [] (s.conn, .recv :: rest) (s.conn.shutdownInLoop.conn,
        s.conn.shutdownInLoop.frames ++ rest) :=
      .of_segment (.recv r) .shutdownInLoop (hr ▸ hseg) hexec rfl
        (Segment.exec_accepts hexec (by simp))
    have hstep : Serves hasTimer [] s (.recv :: rest) { s with conn := s.conn.shutdownInLoop.conn }
        (s.conn.shutdownInLoop.frames ++ rest) := .of_goes rfl hgo
    exact hstep.trans (serves_shutdown hm hs hok rest)
  cases r with
  | again =>
    simp only [HttpConn.handleRead] at h
    split at h
    · rename_i hopen
      obtain rfl := Except.ok.inj h
      refine .of_goes rfl (.of_segment _ _ hseg (e := ⟨s.conn, [], []⟩) ?_ rfl rfl)
      exact if_pos hopen
    · exact absurd h (by simp)
  | closed | error => exact hdown h rfl
  | data data =>
    simp only [HttpConn.handleRead] at h
    split at h
    · rename_i hg
      split at h
      · exact absurd h (by simp)
      · rename_i e he
        have hexec : (Segment.recvData data).exec s.conn hasTimer = some e := by
          rw [Segment.exec, if_pos hg, he]
        obtain ⟨buf, -, -, rfl⟩ := Segment.recvData_exec hexec
        have hf : (Connection.invokeMessage { s.conn with inBuffer := buf } []).frames =
            if decide (0 < buf.readAbleSize) = true then .callback .message :: [] else [] := by
          simp only [Connection.invokeMessage, Connection.invoke]
          split <;> rfl
        have hstep : Serves hasTimer [] s (.recv :: rest)
            { s with conn := (Connection.invokeMessage { s.conn with inBuffer := buf } []).conn }
            ((Connection.invokeMessage { s.conn with inBuffer := buf } []).frames ++ rest) :=
          .of_goes rfl (.of_segment _ _ hseg hexec rfl (Segment.exec_accepts hexec (by simp)))
        exact hstep.trans (serves_enter hm hs (by simp) hf (by simp) h rest)
    · exact absurd h (by simp)

theorem serves_handleWrite {r : SendResult} (hm : Follows hasTimer m) (hs : s.Plain)
    (h : s.handleWrite hasTimer m r = .ok t) (rest : List Frame) :
    Serves hasTimer (r.taken s.conn.outBuffer.unread) s (.send :: rest) t rest := by
  have hseg : segment (.send :: rest) (.send r) = some (r.segment, rest) := rfl
  rcases r with n | (_ | _)
  · simp only [HttpConn.handleWrite] at h
    split at h
    · rename_i hopen
      split at h
      · exact absurd h (by simp)
      · rename_i e he
        obtain rfl := Except.ok.inj h
        have hexec : (Segment.sent n).exec s.conn hasTimer = some e := by
          rw [Segment.exec, if_pos hopen, he]
        have hout : acceptedBytes e.obs = s.conn.outBuffer.unread.take n ∧
            (e.frames = [] ∨ e.frames = [.releaseCall]) := by
          cases Segment.exec_effect hexec with
          | inert _ kind => exact absurd kind (by simp [Segment.inert])
          | sentSome => exact ⟨List.append_nil _, Or.inl rfl⟩
          | sentAll opened taken left =>
            refine ⟨(List.append_nil _).trans taken.symm, ?_⟩
            simp only
            split
            · exact Or.inr rfl
            · exact Or.inl rfl
        have hstep : Serves hasTimer (s.conn.outBuffer.unread.take n) s (.send :: rest)
            { s with conn := e.conn } (e.frames ++ rest) :=
          .of_goes rfl (.of_segment _ _ hseg hexec rfl hout.1)
        have hgo := hstep.trans (serves_goOn hs (Segment.exec_setUp hexec).2 hout.2 rest)
        rwa [List.append_nil] at hgo
    · exact absurd h (by simp)
  · have hexec : Segment.sendFailed.exec s.conn hasTimer = some s.conn.sendFailed := rfl
    have hstep : Serves hasTimer [] s (.send :: rest) s
        ((s.conn.invokeMessage [.releaseCall]).frames ++ rest) := by
      have hgo : Goes hasTimer [] [] (s.conn, .send :: rest) (s.conn.sendFailed.conn,
          s.conn.sendFailed.frames ++ rest) :=
        .of_segment _ _ hseg hexec rfl (Segment.exec_accepts hexec (by simp))
      rw [Connection.sendFailed, Connection.invokeMessage_conn] at hgo
      exact .of_goes rfl hgo
    exact hstep.trans (serves_enter_release hm hs h)
  · obtain rfl := Except.ok.inj h
    exact .of_goes rfl (.of_segment _ _ hseg (e := ⟨s.conn, [], []⟩) rfl rfl rfl)

theorem serves_writeBlock {send : SendResult} (hm : Follows hasTimer m) (hs : s.Plain)
    (h : s.writeBlock hasTimer m send = .ok t) :
    Serves hasTimer (s.conn.given send) s [.writeTest] t [] := by
  obtain ⟨hconn, hframes⟩ := s.conn.writeTest_shape
  have htest : Serves hasTimer [] s [.writeTest] s (s.conn.writeTest.frames ++ []) := by
    have hgo : Goes hasTimer [] [] (s.conn, [.writeTest])
        (s.conn.writeTest.conn, s.conn.writeTest.frames ++ []) :=
      .resume .writeTest .writeTest rfl rfl (by simp)
    rw [hconn] at hgo
    exact .of_goes rfl hgo
  obtain ⟨hsend, hcall⟩ := s.conn.mem_handleClose
  unfold HttpConn.writeBlock at h
  unfold Connection.given
  rcases hframes with hf | hf | hf
  · rw [hf, if_pos List.mem_cons_self] at h
    rw [hf] at htest
    rw [hf, if_pos List.mem_cons_self]
    exact htest.trans (serves_handleWrite hm hs h [])
  · rw [hf, if_neg hsend, if_pos hcall] at h
    rw [hf] at htest
    rw [hf, if_neg hsend]
    exact htest.trans (serves_enter_release hm hs h)
  · rw [hf, if_neg List.not_mem_nil, if_neg List.not_mem_nil] at h
    obtain rfl := Except.ok.inj h
    rw [hf] at htest
    rw [hf, if_neg List.not_mem_nil]
    exact htest

/-- **An event of the server is a run of the machine.** -/
theorem step_goes {i : HttpInput} (hs : s.Plain) (h : s.step srv i = some t) :
    Serves i.hasTimer (accepted srv s i) s [] t [] := by
  have hr := react_of_step h
  obtain ⟨event, hasTimer⟩ := i
  have hm : Follows hasTimer (message srv hasTimer) := follows_message srv hasTimer
  cases event with
  | release =>
    obtain rfl := Except.ok.inj hr
    have hcall : Goes hasTimer [] [] (s.conn, []) ((s.conn.releaseInLoop hasTimer).conn,
        (s.conn.releaseInLoop hasTimer).frames ++ []) :=
      .call .release .releaseInLoop rfl rfl rfl (by simp)
    exact .of_goes rfl (hcall.trans (.released hasTimer s.conn hs.1 []))
  | handleEvent revents recv send =>
    let s0 : HttpConn :=
      { s with conn := { s.conn with channel := s.conn.channel.setREvents revents } }
    have hs0 : s0.Plain := hs
    have hset : Serves hasTimer [] s [] s0 [] :=
      .of_goes rfl (.of_segment (.setREvents revents) (.setREvents revents) rfl rfl rfl rfl)
    -- no event callback is set
    have hevent : Serves hasTimer [] s0 [] s0 [.readTest] := by
      have hexec : Segment.handleEvent.exec s0.conn hasTimer = some s0.conn.handleEvent := rfl
      have hgo :
          Goes hasTimer [] [] (s0.conn, [])
          (s0.conn.handleEvent.conn, s0.conn.handleEvent.frames ++ []) :=
        .of_segment .handleEvent .handleEvent rfl hexec rfl
          (Segment.exec_accepts hexec (by simp))
      have hframes : s0.conn.handleEvent.frames = [.readTest] := by
        simp [Connection.handleEvent, Connection.invoke, hs0.2]
      rw [hframes, Connection.handleEvent, Exec.after_conn, Connection.invoke_conn] at hgo
      exact .of_goes rfl hgo
    obtain ⟨hconn, hframes⟩ := s0.conn.readTest_shape
    have htest : Serves hasTimer [] s0 [.readTest] s0 (s0.conn.readTest.frames ++ []) := by
      have hgo : Goes hasTimer [] [] (s0.conn, [.readTest])
          (s0.conn.readTest.conn, s0.conn.readTest.frames ++ []) :=
        .resume .readTest .readTest rfl rfl (by simp)
      rw [hconn] at hgo
      exact .of_goes rfl hgo
    change (s0.readBlock hasTimer _ recv).bind _ = .ok t at hr
    obtain ⟨u, hread, hwrite⟩ := bind_eq_ok hr
    have hblock : Serves hasTimer [] s0 (s0.conn.readTest.frames ++ []) u [.writeTest] := by
      unfold HttpConn.readBlock at hread
      rcases hframes with hf | hf
      · rw [hf, if_pos List.mem_cons_self] at hread
        rw [hf]
        exact serves_handleRead hm hs0 hread [.writeTest]
      · rw [hf, if_neg (by simp)] at hread
        obtain rfl := Except.ok.inj hread
        rw [hf]
        exact .refl hasTimer _ _
    have hbefore := ((hset.trans hevent).trans htest).trans hblock
    have hall := hbefore.trans (serves_writeBlock hm (hbefore.plain hs) hwrite)
    rw [accepted_eq hread]
    exact hall

/-! ### Runs -/

/-- The bytes a run gives to the kernel. -/
def wire (srv : HttpServer) : HttpConn → List HttpInput → Bytes
  | _, [] => []
  | s, i :: is => accepted srv s i ++ ((s.step srv i).map fun t => wire srv t is).getD []

theorem plain_fresh (connId sockfd : Nat) : (fresh connId sockfd).Plain := ⟨rfl, rfl⟩

theorem fresh_goes (hasTimer : Bool) (connId sockfd : Nat) : Goes hasTimer [] []
    (.new connId sockfd callbacks, []) ((fresh connId sockfd).conn, []) := by
  have hcall : Goes hasTimer [] [] (.new connId sockfd callbacks, [])
      ((fresh connId sockfd).conn, [.callback .connected] ++ []) :=
    .call .established .establishedInLoop rfl rfl rfl (by simp)
  exact hcall.trans (.ret hasTimer _ .connected [])

theorem run_goes_from {is : List HttpInput} (hs : s.Plain)
    (h : run (HttpConn.step srv) s is = some t)
    (log : List Obs) : ∃ (inputs : List Input) (log' : List Obs),
      run ConnState.step ⟨s.conn, [], log⟩ inputs = some ⟨t.conn, [], log'⟩ ∧
      s.log.flatMap Exchange.data ++ inputs.flatMap (fun i => i.act.sendData) =
        t.log.flatMap Exchange.data ∧
      acceptedBytes log' = acceptedBytes log ++ wire srv s is := by
  induction is generalizing s log with
  | nil =>
    obtain rfl : s = t := Option.some.inj h
    exact ⟨[], log, rfl, List.append_nil _, (List.append_nil _).symm⟩
  | cons i is ih =>
    obtain ⟨u, hu, hrest⟩ := run_cons.mp h
    have hserves := step_goes hs hu
    obtain ⟨es, hes, hgo⟩ := id hserves
    obtain ⟨acts, log1, hrun, hsent, htaken⟩ := hgo log
    obtain ⟨inputs, log2, hrun', hsent', htaken'⟩ := ih (hserves.plain hs) hrest log1
    refine ⟨acts.map (fun act => ⟨act, i.hasTimer⟩) ++ inputs, log2,
      run_append.mpr ⟨_, hrun, hrun'⟩, ?_, ?_⟩
    · have hacts : (acts.map fun act => (⟨act, i.hasTimer⟩ : Input)).flatMap
          (fun i => i.act.sendData) =
          es.flatMap Exchange.data := by
        rw [List.flatMap_map, ← hsent]
      rw [List.flatMap_append, hacts, ← hsent', hes, List.flatMap_append, List.append_assoc]
    · rw [htaken', htaken, wire, hu, Option.map_some, Option.getD_some, List.append_assoc]

/-- **A connection of the server is a run of the machine.**  Whatever is known of every run of a
connection is known of it: the two have the same connection in every state between events, no code
is left to run, `Send` was called for the bytes of the responses in the log, and the kernel has
taken the same bytes. -/
theorem run_goes {connId sockfd : Nat} {is : List HttpInput}
    (h : run (HttpConn.step srv) (fresh connId sockfd) is = some s) :
    ∃ (inputs : List Input) (c : ConnState),
      run ConnState.step (.fresh connId sockfd callbacks) inputs = some c ∧ c.conn = s.conn ∧
      c.stack = [] ∧ inputs.flatMap (fun i => i.act.sendData) = s.log.flatMap Exchange.data ∧
      acceptedBytes c.log = wire srv (fresh connId sockfd) is := by
  obtain ⟨acts, log, hrun, hsent, htaken⟩ := fresh_goes false connId sockfd []
  obtain ⟨inputs, log', hrun', hsent', htaken'⟩ := run_goes_from (plain_fresh connId sockfd) h log
  have hstart : run ConnState.step (.fresh connId sockfd callbacks)
      (acts.map fun act => (⟨act, false⟩ : Input)) = some ⟨(fresh connId sockfd).conn, [], log⟩ :=
        hrun
  refine ⟨acts.map (fun act => (⟨act, false⟩ : Input)) ++ inputs, ⟨s.conn, [], log'⟩,
    run_append.mpr ⟨_, hstart, hrun'⟩, rfl, rfl, ?_, ?_⟩
  · rw [List.flatMap_append, List.flatMap_map]
    show acts.flatMap Act.sendData ++ _ = _
    rw [hsent, List.nil_append, ← hsent']
    rfl
  · rw [htaken', htaken]
    rfl

end HttpConn

end Flux
