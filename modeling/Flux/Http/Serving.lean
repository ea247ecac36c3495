import Flux.Http.Ending
import Flux.Http.RequestLine
import Flux.Http.Server

/-!
# What a call of `OnMessage` does

`answers` is what the server has to say to unread bytes: a response to each request the reader takes
off them, in their order, and one to a fault.  `onMessage_round` says what one round does, told by
the run of the reader, and `onMessage_outcome` what a call does: with every call nested in it by
`Shutdown` it appends exactly these responses to the log and to the output, and leaves the context
and the bytes the reader leaves.  The rounds it takes are bounded by `pending`, which falls with
every finished request; a nested call goes through all that is left, so that the outer one finds a
request it has to wait for, or nothing.
-/

namespace Flux

open Lib

namespace HttpServer

variable (srv : HttpServer)

def serveAll (n : Nat) : List HttpRequest → List Exchange
  | [] => []
  | req :: reqs => srv.serve n 200 req :: serveAll (n + 1) reqs

theorem serveAll_length (n : Nat) (reqs : List HttpRequest) :
    (srv.serveAll n reqs).length = reqs.length := by
  induction reqs generalizing n with
  | nil => rfl
  | cons req reqs ih => rw [serveAll, List.length_cons, ih, List.length_cons]

def rejectEnd (n : Nat) (req : HttpRequest) : Except Fault (HttpContext × Bytes) → List Exchange
  | .error (.status status) => [srv.reject n status req]
  | .error .threw | .ok _ => []

def answers (n : Nat) (c : HttpContext) (u : Bytes) : List Exchange :=
  srv.serveAll n ((httpReader srv.parse).run c u).1 ++
    srv.rejectEnd (n + ((httpReader srv.parse).run c u).1.length)
      ((httpReader srv.parse).stop c u).1.request ((httpReader srv.parse).run c u).2

end HttpServer

namespace HttpConn

def unread (s : HttpConn) : Bytes := s.conn.inBuffer.unread

/-- The context and the unread bytes an end leaves: a fault empties both. -/
def settled : Except Fault (HttpContext × Bytes) → HttpContext × Bytes
  | .error _ => (.new, [])
  | .ok q => q

/-- **What a call of `OnMessage` has done.** -/
structure Answered (srv : HttpServer) (s t : HttpConn) : Prop where
  log : t.log = s.log ++ srv.answers s.log.length s.context s.unread
  rest : (t.context, t.unread) = settled ((httpReader srv.parse).run s.context s.unread).2
  vector : t.conn.inBuffer.buffer = s.conn.inBuffer.buffer
  left : ∃ ls, t.left = s.left ++ ls ∧ ∀ l ∈ ls, l ≤ maxLine
  output : s.conn.statu ≠ .disconnected → t.conn.statu ≠ .disconnected ∧
    t.conn.outBuffer.unread = s.conn.outBuffer.unread ++
      (srv.answers s.log.length s.context s.unread).flatMap Exchange.data

/-- How a call can end: it returns, or a header has no length in it, or there is too much output. -/
inductive Outcome (srv : HttpServer) (s : HttpConn) : Except Stop HttpConn → Prop
  | done {t : HttpConn} (answered : Answered srv s t) : Outcome srv s (.ok t)
  | threw (h : ((httpReader srv.parse).run s.context s.unread).2 = .error .threw) :
      Outcome srv s (.error .threw)
  | overflow (h : bufferMaxSize < s.conn.outBuffer.unread.length +
      2 * ((srv.answers s.log.length s.context s.unread).flatMap Exchange.data).length) :
      Outcome srv s (.error .overflow)

/-! ### The pieces of a round -/

structure Keeps (s t : HttpConn) : Prop where
  context : t.context = s.context
  log : t.log = s.log
  left : t.left = s.left
  inBuffer : t.conn.inBuffer = s.conn.inBuffer

theorem releaseInLoop_inBuffer (c : Connection) (hasTimer : Bool) :
    (c.releaseInLoop hasTimer).conn.inBuffer = c.inBuffer := by
  rw [Connection.releaseInLoop_conn]

theorem release_keeps (hasTimer : Bool) (s : HttpConn) : Keeps s (s.release hasTimer) :=
  ⟨rfl, rfl, rfl, releaseInLoop_inBuffer _ _⟩

theorem goOn_keeps (hasTimer : Bool) (s : HttpConn) {e : Exec}
    (he : e.conn.inBuffer = s.conn.inBuffer) :
    Keeps s (s.goOn hasTimer e) := by
  unfold goOn
  split
  · exact ⟨rfl, rfl, rfl, (releaseInLoop_inBuffer _ _).trans he⟩
  · exact ⟨rfl, rfl, rfl, he⟩

theorem shutdownTail_inBuffer (c : Connection) : c.shutdownTail.conn.inBuffer = c.inBuffer := by
  unfold Connection.shutdownTail
  split
  · split <;> rfl
  · rfl

/-- With output left, the end of `ShutdownInLoop` changes nothing but the interest in it. -/
theorem goOn_shutdownTail (hasTimer : Bool) (s : HttpConn) (h : s.conn.outBuffer.unread ≠ []) :
    (s.goOn hasTimer s.conn.shutdownTail).conn.statu = s.conn.statu ∧
      (s.goOn hasTimer s.conn.shutdownTail).conn.outBuffer = s.conn.outBuffer := by
  have hpos : 0 < s.conn.outBuffer.readAbleSize :=
    Nat.pos_of_ne_zero (mt Buffer.unread_eq_nil_iff.mpr h)
  unfold goOn Connection.shutdownTail
  rw [if_pos hpos]
  split <;> exact ⟨rfl, rfl⟩

theorem shutdownInLoop_message (c : Connection) :
    .callback .message ∈ c.shutdownInLoop.frames ↔ 0 < c.inBuffer.readAbleSize := by
  simp only [Connection.shutdownInLoop, Exec.after_frames, Connection.invokeMessage,
    Connection.invoke]
  split
  · simp_all
  · simp_all

theorem answer_eq_ok {s t : HttpConn} {e : Exchange} (h : s.answer e = .ok t) :
    t.context = .new ∧ t.log = s.log ++ [e] ∧ t.left = s.left ∧ t.conn.inBuffer = s.conn.inBuffer ∧
      t.conn.statu = s.conn.statu ∧ (s.conn.statu ≠ .disconnected →
        t.conn.outBuffer.unread = s.conn.outBuffer.unread ++ e.data) := by
  unfold answer at h
  split at h
  · exact absurd h (by simp)
  · rename_i x hx
    obtain rfl := Except.ok.inj h
    obtain ⟨buf, hbuf, hx⟩ := Option.bind_eq_some_iff.mp hx
    have hdata : buf.unread = e.data := by
      rw [Buffer.writeAndPush_unread hbuf]
      rfl
    unfold Connection.sendInLoop at hx
    split at hx
    · rename_i hst
      obtain rfl := Option.some.inj hx
      exact ⟨rfl, rfl, rfl, rfl, rfl, fun hne => absurd hst hne⟩
    · rename_i hst
      obtain ⟨out, hout, rfl⟩ := Option.map_eq_some_iff.mp hx
      have hout' := Buffer.writeAndPush_unread hout
      rw [hdata] at hout'
      refine ⟨rfl, rfl, rfl, ?_, ?_, fun _ => ?_⟩
      · simp only
        split <;> rfl
      · simp only
        split <;> rfl
      · simp only
        split <;> exact hout'

theorem answer_output_le {s t : HttpConn} {e : Exchange} (h : s.answer e = .ok t) :
    t.conn.outBuffer.unread.length ≤ s.conn.outBuffer.unread.length + e.data.length := by
  by_cases hst : s.conn.statu = .disconnected
  · unfold answer at h
    split at h
    · exact absurd h (by simp)
    · rename_i x hx
      obtain rfl := Except.ok.inj h
      obtain ⟨buf, _, hx⟩ := Option.bind_eq_some_iff.mp hx
      rw [Connection.sendInLoop, if_pos hst] at hx
      obtain rfl := Option.some.inj hx
      exact Nat.le_add_right _ _
  · obtain ⟨_, _, _, _, _, hout⟩ := answer_eq_ok h
    rw [hout hst, List.length_append]

/-- A write into a buffer of which a part was read does not fit only if it is large. -/
theorem large_of_writeAndPush_none {b : Buffer} {data : Bytes} (h : b.writeAndPush data = none) :
    bufferMaxSize < b.unread.length + 2 * data.length := by
  by_contra hle
  have hfit : b.Fits data.length := by
    rw [Buffer.unread_length, Buffer.readAbleSize] at hle
    have hr := b.reader_le
    have hw := b.writer_le
    simp only [Buffer.Fits, Buffer.headIdleSize, Buffer.tailIdleSize]
    omega
  obtain ⟨b', hb, _⟩ := b.writeAndPush_of_fits data hfit
  exact absurd (h.symm.trans hb) (by simp)

theorem answer_error {s : HttpConn} {e : Exchange} {stop : Stop} (h : s.answer e = .error stop) :
    stop = .overflow ∧ bufferMaxSize < s.conn.outBuffer.unread.length + 2 * e.data.length := by
  unfold answer at h
  split at h
  · rename_i hx
    refine ⟨(Except.error.inj h).symm, ?_⟩
    cases hbuf : Buffer.new.writeAndPush e.data with
    | none =>
      have hlarge := large_of_writeAndPush_none hbuf
      have hnil : Buffer.new.unread.length = 0 := by rw [Buffer.unread_length]; rfl
      omega
    | some buf =>
      rw [hbuf, Option.bind_some, Connection.sendInLoop] at hx
      split at hx
      · exact absurd hx (by simp)
      · have hout := large_of_writeAndPush_none (Option.map_eq_none_iff.mp hx)
        rw [Buffer.writeAndPush_unread hbuf] at hout
        exact hout
  · exact absurd h (by simp)

theorem serve_data_ne_nil (srv : HttpServer) (n status : Nat) (req : HttpRequest) :
    (srv.serve n status req).data ≠ [] := by
  simp [HttpServer.serve, HttpResponse.bytes, HttpResponse.crlf]

theorem reject_data_ne_nil (srv : HttpServer) (n status : Nat) (req : HttpRequest) :
    (srv.reject n status req).data ≠ [] := by
  simp [HttpServer.reject, HttpResponse.bytes, HttpResponse.crlf]

/-! ### Waiting -/

variable {srv : HttpServer} {s t : HttpConn}

/-- The parser has nothing to do before more bytes come. -/
def Waits (srv : HttpServer) (s : HttpConn) : Prop :=
  HttpContext.readStep srv.parse s.context s.unread = .wait s.context s.unread

theorem Waits.run (h : Waits srv s) :
    (httpReader srv.parse).run s.context s.unread = ([], .ok (s.context, s.unread)) :=
  Reader.run_of_wait h

theorem Waits.answers (h : Waits srv s) (n : Nat) : srv.answers n s.context s.unread = [] := by
  rw [HttpServer.answers, h.run]
  rfl

theorem Waits.of_keeps (h : Waits srv s) (hk : Keeps s t) : Waits srv t := by
  have hu : t.unread = s.unread := congrArg Buffer.unread hk.inBuffer
  rw [Waits, hk.context, hu]
  exact h

/-- To leave all as it is answers what there is to answer while waiting. -/
theorem Answered.refl (h : Waits srv s) : Answered srv s s := by
  refine ⟨?_, ?_, rfl, ⟨[], (List.append_nil _).symm, by simp⟩, ?_⟩
  · rw [h.answers, List.append_nil]
  · rw [h.run]
    rfl
  · intro hst
    rw [h.answers]
    exact ⟨hst, (List.append_nil _).symm⟩

/-- The call returns: the number of bytes left is noted. -/
theorem Answered.returned (h : Answered srv s t) (hl : t.conn.inBuffer.readAbleSize ≤ maxLine) :
    Answered srv s t.returned := by
  obtain ⟨ls, hls, hle⟩ := h.left
  refine ⟨h.log, h.rest, h.vector, ⟨ls ++ [t.conn.inBuffer.readAbleSize], ?_, ?_⟩, h.output⟩
  · rw [HttpConn.returned, hls, List.append_assoc]
  · intro l hm
    rcases List.mem_append.mp hm with hm | hm
    · exact hle l hm
    · rw [List.mem_singleton.mp hm]
      exact hl

theorem readAbleSize_le_of_waits (hr : HttpContext.Sound s.context) (h : Waits srv s) :
    s.conn.inBuffer.readAbleSize ≤ maxLine := by
  rw [← Buffer.unread_length]
  exact (HttpContext.readStep_wait hr h).2

/-! ### A round -/

/-- **What a round does**, told by the run of the reader over the unread bytes. -/
inductive Round (srv : HttpServer) (hasTimer : Bool) (m : HttpConn → Except Stop HttpConn)
    (s : HttpConn) : Except Stop HttpConn → Prop
  | empty (none : s.unread = []) : Round srv hasTimer m s (.ok s.returned)
  | threw (run : ((httpReader srv.parse).run s.context s.unread).2 = .error .threw) :
      Round srv hasTimer m s (.error .threw)
  | fault {status : Nat} {context : HttpContext} {buf : Buffer}
      (run : (httpReader srv.parse).run s.context s.unread = ([], .error (.status status)))
      (vector : buf.buffer = s.conn.inBuffer.buffer) :
      Round srv hasTimer m s ((((s.received context buf).answer (srv.reject s.log.length status
        ((httpReader srv.parse).stop s.context s.unread).1.request)).bind fun s =>
          s.emptied.shutdown hasTimer m).map returned)
  /-- The request is not complete. -/
  | part {context : HttpContext} {buf : Buffer}
      (run : (httpReader srv.parse).run s.context s.unread = ([], .ok (context, buf.unread)))
      (vector : buf.buffer = s.conn.inBuffer.buffer) :
      Round srv hasTimer m s (.ok (s.received context buf).returned)
  | request {context : HttpContext} {buf : Buffer} {req : HttpRequest}
      (run : (httpReader srv.parse).run s.context s.unread =
        (req :: ((httpReader srv.parse).run .new buf.unread).1,
          ((httpReader srv.parse).run .new buf.unread).2))
      (stop : (httpReader srv.parse).stop s.context s.unread =
        (httpReader srv.parse).stop .new buf.unread)
      (vector : buf.buffer = s.conn.inBuffer.buffer)
      (pending : HttpContext.new.pending buf < s.context.pending s.conn.inBuffer) :
      Round srv hasTimer m s ((((s.received context buf).answer
        (srv.serve s.log.length 200 req)).bind fun t =>
          if (srv.serve s.log.length 200 req).closes then t.shutdown hasTimer m else .ok t).bind m)

theorem onMessage_round (hr : s.context.Ready) (hasTimer : Bool) (rounds : Nat) :
    Round srv hasTimer (onMessage srv hasTimer rounds) s
      (s.onMessage srv hasTimer (rounds + 1)) := by
  rw [onMessage]
  split
  · rename_i h0
    exact .empty (Buffer.unread_eq_nil_iff.mpr h0)
  · have hren : HttpContext.Rendered srv.parse ((httpReader srv.parse).run s.context s.unread)
        (s.context.recvHttpRequest srv.parse s.conn.inBuffer) :=
      HttpContext.recvHttpRequest_rendered hr.sound s.conn.inBuffer
    split
    · rename_i hrecv
      rw [hrecv] at hren
      exact .threw (congrArg Prod.snd hren)
    · rename_i context buf hrecv
      rw [hrecv, HttpContext.Rendered] at hren
      obtain ⟨hfault, hok, hover⟩ := HttpContext.recvHttpRequest_tells hr hrecv
      have hvec := (HttpContext.recvHttpRequest_readsTo hrecv).vector
      simp only
      split
      · rename_i h4
        rw [if_pos h4] at hren
        have hreq : context.request = ((httpReader srv.parse).stop s.context s.unread).1.request :=
          hfault h4
        rw [hreq]
        exact .fault hren hvec
      · rename_i h4
        rw [if_neg h4] at hren
        split
        · rename_i ho
          rw [if_pos ho] at hren
          exact .part hren hvec
        · rename_i ho
          rw [if_neg ho] at hren
          have h200 : context.respStatus = 200 := hok (Nat.lt_of_not_le h4)
          rw [h200]
          exact .request hren (hover (not_not.mp ho)) hvec
            (HttpContext.pending_reset_lt hrecv (not_not.mp ho))

theorem answered_part {context : HttpContext} {buf : Buffer}
    (hrun : (httpReader srv.parse).run s.context s.unread = ([], .ok (context, buf.unread)))
    (hvec : buf.buffer = s.conn.inBuffer.buffer) : Answered srv s (s.received context buf) := by
  have hans : srv.answers s.log.length s.context s.unread = [] := by
    rw [HttpServer.answers, hrun]
    rfl
  refine ⟨?_, ?_, hvec, ⟨[], (List.append_nil _).symm, by simp⟩, ?_⟩
  · rw [hans, List.append_nil]
    rfl
  · rw [hrun]
    rfl
  · intro hst
    rw [hans]
    exact ⟨hst, (List.append_nil _).symm⟩

theorem onMessage_waits (hr : s.context.Ready) (h : Waits srv s) (hasTimer : Bool) (rounds : Nat) :
    ∃ t, s.onMessage srv hasTimer (rounds + 1) = .ok t ∧ Answered srv s t := by
  have hround : Round srv hasTimer _ s _ := onMessage_round hr hasTimer rounds
  have hle := readAbleSize_le_of_waits hr.sound h
  have hwait := h.run
  generalize s.onMessage srv hasTimer (rounds + 1) = r at hround
  cases hround with
  | empty none => exact ⟨_, rfl, (Answered.refl h).returned hle⟩
  | threw run =>
    rw [hwait] at run
    exact absurd run (by simp)
  | fault run vector => exact absurd (hwait.symm.trans run) (by simp)
  | @part context buf run vector =>
    refine ⟨_, rfl, (answered_part run vector).returned ?_⟩
    have hun : buf.unread = s.unread := by
      have hend := Except.ok.inj (congrArg Prod.snd (run.symm.trans hwait))
      exact congrArg Prod.snd hend
    show buf.readAbleSize ≤ maxLine
    rw [← Buffer.unread_length, hun, HttpConn.unread, Buffer.unread_length]
    exact hle
  | request run stop vector pending => exact absurd (hwait.symm.trans run) (by simp)

/-! ### A request, a fault -/

theorem answers_next {n : Nat} {c : HttpContext} {u u' : Bytes} {req : HttpRequest}
    (hrun : (httpReader srv.parse).run c u = (req :: ((httpReader srv.parse).run .new u').1,
      ((httpReader srv.parse).run .new u').2))
    (hstop : (httpReader srv.parse).stop c u = (httpReader srv.parse).stop .new u') :
    srv.answers n c u = srv.serve n 200 req :: srv.answers (n + 1) .new u' := by
  rw [HttpServer.answers, hrun, hstop, HttpServer.serveAll, List.cons_append, List.length_cons,
    HttpServer.answers, Nat.add_right_comm, Nat.add_assoc n _ 1, Nat.add_comm _ 1, ← Nat.add_assoc]

theorem answers_fault {n status : Nat} {c : HttpContext} {u : Bytes}
    (hrun : (httpReader srv.parse).run c u = ([], .error (.status status))) :
    srv.answers n c u = [srv.reject n status ((httpReader srv.parse).stop c u).1.request] := by
  rw [HttpServer.answers, hrun]
  rfl

/-- Behind one answered request the call goes on as from a new context. -/
theorem Answered.cons {s1 : HttpConn} {e : Exchange}
    (hans : srv.answers s.log.length s.context s.unread =
      e :: srv.answers (s.log.length + 1) s1.context s1.unread)
    (hrun : settled ((httpReader srv.parse).run s.context s.unread).2 =
      settled ((httpReader srv.parse).run s1.context s1.unread).2)
    (hlog : s1.log = s.log ++ [e]) (hleft : s1.left = s.left)
    (hvec : s1.conn.inBuffer.buffer = s.conn.inBuffer.buffer)
    (hst : s1.conn.statu = s.conn.statu) (hout : s.conn.statu ≠ .disconnected →
      s1.conn.outBuffer.unread = s.conn.outBuffer.unread ++ e.data)
    (h : Answered srv s1 t) : Answered srv s t := by
  refine ⟨?_, ?_, h.vector.trans hvec, hleft ▸ h.left, ?_⟩
  · rw [h.log, hlog, hans, List.length_append, List.length_singleton, List.append_assoc,
      List.singleton_append]
  · rw [h.rest, hrun]
  · intro hne
    obtain ⟨hst', hout'⟩ := h.output (hst ▸ hne)
    refine ⟨hst', ?_⟩
    rw [hout', hout hne, hans, hlog, List.length_append, List.length_singleton, List.flatMap_cons,
      List.append_assoc]

/-- `ShutdownInLoop` sets the status, and the nested call goes through what is left. -/
theorem enter_outcome {e : Exec} {m : HttpConn → Except Stop HttpConn}
    (he : .callback .message ∈ e.frames ↔ 0 < e.conn.inBuffer.readAbleSize)
    (hi : HttpContext.Idle srv.parse s.context e.conn.inBuffer.unread)
    (hm : Outcome srv { s with conn := e.conn } (m { s with conn := e.conn })) :
    Outcome srv { s with conn := e.conn } (s.enter m e) := by
  unfold enter
  split
  · exact hm
  · rename_i hno
    refine .done (.refl (hi ?_))
    rw [Buffer.unread_eq_nil_iff]
    exact Nat.eq_zero_of_not_pos (mt he.mpr hno)

/-- The outer call behind a nested one: it finds the parser waiting. -/
theorem Answered.shutdown {t1 : HttpConn} {hasTimer : Bool}
    (h1 : Answered srv { s with conn := s.conn.shutdownInLoop.conn } t1) (hw : Waits srv t1)
    (hout : s.conn.statu ≠ .disconnected → s.conn.outBuffer.unread ≠ [])
    (h2 : Answered srv (t1.goOn hasTimer t1.conn.shutdownTail) t) : Answered srv s t := by
  have hk := goOn_keeps hasTimer t1 (shutdownTail_inBuffer t1.conn)
  have hw2 := hw.of_keeps hk
  have hin : s.conn.shutdownInLoop.conn.inBuffer = s.conn.inBuffer := by
    simp [Connection.shutdownInLoop]
  have hun : HttpConn.unread { s with conn := s.conn.shutdownInLoop.conn } = s.unread :=
    congrArg Buffer.unread hin
  have hlog := h2.log
  have hrest := h2.rest
  rw [hw2.answers, List.append_nil, hk.log] at hlog
  rw [hw2.run] at hrest
  have hlog1 := h1.log
  have hrest1 := h1.rest
  rw [hun] at hlog1 hrest1
  refine ⟨hlog.trans hlog1, ?_, ?_, ?_, ?_⟩
  · have hun2 : (t1.goOn hasTimer t1.conn.shutdownTail).unread = t1.unread :=
      congrArg Buffer.unread hk.inBuffer
    rw [hrest, ← hrest1]
    exact Prod.ext hk.context hun2
  · rw [h2.vector, hk.inBuffer, h1.vector, hin]
  · obtain ⟨ls1, hls1, hle1⟩ := h1.left
    obtain ⟨ls2, hls2, hle2⟩ := h2.left
    refine ⟨ls1 ++ ls2, ?_, fun l hm => (List.mem_append.mp hm).elim (hle1 l) (hle2 l)⟩
    rw [hls2, hk.left, hls1, List.append_assoc]
  · intro hst
    have hne := hout hst
    obtain ⟨hst1, hout1⟩ := h1.output (by simp [Connection.shutdownInLoop])
    have hout1' : t1.conn.outBuffer.unread = s.conn.outBuffer.unread ++
        (srv.answers s.log.length s.context s.unread).flatMap Exchange.data := by
      rw [hout1, hun]
      simp [Connection.shutdownInLoop]
    obtain ⟨hst2, hout2⟩ := goOn_shutdownTail hasTimer t1 (by
      rw [hout1']
      exact List.append_ne_nil_of_left_ne_nil hne _)
    obtain ⟨hst', hout'⟩ := h2.output (by rw [hst2]; exact hst1)
    refine ⟨hst', ?_⟩
    rw [hout', hw2.answers, List.flatMap_nil, List.append_nil, hout2, hout1']

/-- Where a call ends without a fault or an exception, the parser waits. -/
theorem Answered.waits (h : Answered srv s t) (hr : s.context.Ready) :
    t.context.Ready ∧ Waits srv t := by
  have hrest := h.rest
  cases hp : ((httpReader srv.parse).run s.context s.unread).2 with
  | error e =>
    rw [hp] at hrest
    obtain ⟨hctx, hun⟩ := Prod.mk.injEq .. ▸ hrest
    rw [Waits, hctx, hun]
    exact ⟨HttpContext.ready_new, rfl⟩
  | ok q =>
    rw [hp] at hrest
    obtain ⟨hctx, hun⟩ := Prod.mk.injEq .. ▸ hrest
    rw [Waits, hctx, hun]
    exact ⟨Reader.run_invariant (R := httpReader srv.parse)
      (fun hs h => HttpContext.readStep_ready_wait hs h)
      (fun hs h => HttpContext.readStep_ready_next hs h) hr hp, Reader.run_ok_step hp⟩

/-- Behind an answer there is output, unless the connection was released before. -/
theorem answer_output {s1 : HttpConn} {e : Exchange} (hne : e.data ≠ []) (h : s.answer e = .ok s1)
    (hst : s1.conn.statu ≠ .disconnected) : s1.conn.outBuffer.unread ≠ [] := by
  obtain ⟨_, _, _, _, hst1, hout⟩ := answer_eq_ok h
  rw [hout (hst1 ▸ hst)]
  exact List.append_ne_nil_of_right_ne_nil _ hne

theorem answered_fault {s1 : HttpConn} {status : Nat} {context : HttpContext} {buf : Buffer}
    (hasTimer : Bool) (m : HttpConn → Except Stop HttpConn)
    (hrun : (httpReader srv.parse).run s.context s.unread = ([], .error (.status status)))
    (hvec : buf.buffer = s.conn.inBuffer.buffer)
    (hans : (s.received context buf).answer (srv.reject s.log.length status
      ((httpReader srv.parse).stop s.context s.unread).1.request) = .ok s1) :
    ∃ t, (s1.emptied.shutdown hasTimer m).map returned = .ok t ∧ Answered srv s t := by
  obtain ⟨hctx, hlog, hleft, hin, hst, hout⟩ := answer_eq_ok hans
  have hzero : s1.emptied.conn.inBuffer.readAbleSize = 0 := by
    rw [emptied, Buffer.moveReadOffset_readAbleSize, Nat.sub_self]
  have hnil : s1.emptied.unread = [] := Buffer.unread_eq_nil_iff.mpr hzero
  have hnew : s1.emptied.context = .new := hctx
  have hwait : Waits srv s1.emptied := by
    rw [Waits, hnil, hnew]
    rfl
  have hno : ¬ .callback .message ∈ s1.emptied.conn.shutdownInLoop.frames := by
    rw [shutdownInLoop_message, hzero]
    exact Nat.lt_irrefl 0
  have hkeep : Keeps s1.emptied { s1.emptied with conn := s1.emptied.conn.shutdownInLoop.conn } :=
    ⟨rfl, rfl, rfl, by simp [Connection.shutdownInLoop]⟩
  have hgo := goOn_keeps hasTimer { s1.emptied with conn := s1.emptied.conn.shutdownInLoop.conn }
    (shutdownTail_inBuffer _)
  have hwait1 := hwait.of_keeps hkeep
  refine ⟨_, by rw [shutdown, enter, if_neg hno]; rfl, Answered.returned ?_ ?_⟩
  · have houtput := answer_output (reject_data_ne_nil srv _ _ _) hans
    have hrest : Answered srv s1.emptied _ :=
      Answered.shutdown (s := s1.emptied) (.refl hwait1) hwait1
      houtput (.refl (hwait1.of_keeps hgo))
    have hlog' : s1.emptied.log = s.log ++ [srv.reject s.log.length status
      ((httpReader srv.parse).stop s.context s.unread).1.request] := hlog
    refine Answered.cons ?_ ?_ hlog' hleft ((congrArg Buffer.buffer hin).trans hvec) hst hout hrest
    · rw [answers_fault hrun, hwait.answers]
    · rw [hrun, hwait.run, hnil, hnew]
      rfl
  · rw [hgo.inBuffer, hkeep.inBuffer, hzero]
    exact Nat.zero_le _

theorem Outcome.cons {s1 : HttpConn} {context : HttpContext} {buf : Buffer} {req : HttpRequest}
    {r : Except Stop HttpConn} (hvec : buf.buffer = s.conn.inBuffer.buffer)
    (hans : (s.received context buf).answer (srv.serve s.log.length 200 req) = .ok s1)
    (hrun : (httpReader srv.parse).run s.context s.unread =
      (req :: ((httpReader srv.parse).run .new buf.unread).1,
        ((httpReader srv.parse).run .new buf.unread).2))
    (hstop : (httpReader srv.parse).stop s.context s.unread =
      (httpReader srv.parse).stop .new buf.unread)
    (h : Outcome srv s1 r) : Outcome srv s r := by
  obtain ⟨hctx, hlog, hleft, hin, hst, hout⟩ := answer_eq_ok hans
  have hun : s1.unread = buf.unread := congrArg Buffer.unread hin
  cases h with
  | done h =>
    refine .done
      (Answered.cons ?_ ?_ hlog hleft ((congrArg Buffer.buffer hin).trans hvec) hst hout h)
    · rw [answers_next hrun hstop, hctx, hun]
    · rw [hrun, hctx, hun]
  | threw h => exact .threw (by rw [hrun, ← h, hctx, hun])
  | overflow h =>
    have hle := answer_output_le hans
    refine .overflow ?_
    rw [hlog, hctx, hun, List.length_append, List.length_singleton] at h
    rw [answers_next hrun hstop, List.flatMap_cons, List.length_append]
    have hlen : (s.received context buf).log.length = s.log.length := rfl
    have hsame : (s.received context buf).conn.outBuffer = s.conn.outBuffer := rfl
    rw [hlen] at h
    rw [hsame] at hle
    omega

/-- What follows a request that closes the connection: the nested call, and the round behind it. -/
theorem shutdown_outcome {hasTimer : Bool} {m : HttpConn → Except Stop HttpConn} {rounds : Nat}
    (hr : s.context.Ready) (hi : HttpContext.Idle srv.parse s.context s.unread)
    (hout : s.conn.statu ≠ .disconnected → s.conn.outBuffer.unread ≠ [])
    (hm : Outcome srv { s with conn := s.conn.shutdownInLoop.conn }
      (m { s with conn := s.conn.shutdownInLoop.conn })) :
    Outcome srv s ((s.shutdown hasTimer m).bind (onMessage srv hasTimer (rounds + 1))) := by
  have hin : s.conn.shutdownInLoop.conn.inBuffer = s.conn.inBuffer := by
    simp [Connection.shutdownInLoop]
  have hun : HttpConn.unread { s with conn := s.conn.shutdownInLoop.conn } = s.unread :=
    congrArg Buffer.unread hin
  have henter := enter_outcome (by rw [shutdownInLoop_message, hin]) (by rw [hin]; exact hi) hm
  rw [shutdown]
  generalize s.enter m s.conn.shutdownInLoop = r at henter
  cases henter with
  | overflow h =>
    have hout' : s.conn.shutdownInLoop.conn.outBuffer = s.conn.outBuffer := by
      simp [Connection.shutdownInLoop]
    rw [hun] at h
    change bufferMaxSize < s.conn.shutdownInLoop.conn.outBuffer.unread.length + _ at h
    rw [hout'] at h
    exact .overflow h
  | threw h =>
    rw [hun] at h
    exact .threw h
  | @done t1 h1 =>
    obtain ⟨hr1, hw1⟩ := h1.waits hr
    have hk := goOn_keeps hasTimer t1 (shutdownTail_inBuffer t1.conn)
    obtain ⟨t, ht, h2⟩ :=
      onMessage_waits (by rw [hk.context]; exact hr1) (hw1.of_keeps hk) hasTimer rounds
    show Outcome srv s (onMessage srv hasTimer (rounds + 1) _)
    rw [ht]
    exact .done (Answered.shutdown h1 hw1 hout h2)

/-- **A call of `OnMessage`, with all the calls nested in it.**  Given more rounds than `pending`,
it answers what the reader takes off the unread bytes, and leaves what the reader leaves. -/
theorem onMessage_outcome (hasTimer : Bool) {rounds : Nat} (hr : s.context.Ready)
    (hi : HttpContext.Idle srv.parse s.context s.unread)
    (hp : s.context.pending s.conn.inBuffer < rounds) :
    Outcome srv s (s.onMessage srv hasTimer rounds) := by
  induction rounds generalizing s with
  | zero => exact absurd hp (Nat.not_lt_zero _)
  | succ rounds ih =>
    have hround : Round srv hasTimer _ s _ := onMessage_round hr hasTimer rounds
    generalize s.onMessage srv hasTimer (rounds + 1) = r at hround
    cases hround with
    | empty none =>
      have hw : Waits srv s := hi none
      exact .done ((Answered.refl hw).returned (readAbleSize_le_of_waits hr.sound hw))
    | threw run => exact .threw run
    | @fault status context buf run vector =>
      cases hans : (s.received context buf).answer (srv.reject s.log.length status
          ((httpReader srv.parse).stop s.context s.unread).1.request) with
      | error stop =>
        obtain ⟨rfl, hlarge⟩ := answer_error hans
        refine .overflow ?_
        rw [answers_fault run, List.flatMap_singleton]
        exact hlarge
      | ok s1 =>
        obtain ⟨t, ht, h⟩ := answered_fault hasTimer (onMessage srv hasTimer rounds) run vector hans
        show Outcome srv s
            ((s1.emptied.shutdown hasTimer (onMessage srv hasTimer rounds)).map returned)
        rw [ht]
        exact .done h
    | part run vector =>
      have hdone := answered_part run vector
      obtain ⟨hr', hw'⟩ := hdone.waits hr
      exact .done (hdone.returned (readAbleSize_le_of_waits hr'.sound hw'))
    | @request context buf req run stop vector pending =>
      cases hans : (s.received context buf).answer (srv.serve s.log.length 200 req) with
      | error stop' =>
        obtain ⟨rfl, hlarge⟩ := answer_error hans
        refine .overflow ?_
        rw [answers_next run stop, List.flatMap_cons, List.length_append]
        exact lt_of_lt_of_le hlarge
          (Nat.add_le_add_left (Nat.mul_le_mul_left 2 (Nat.le_add_right _ _)) _)
      | ok s1 =>
        obtain ⟨hctx, _, _, hin, _, _⟩ := answer_eq_ok hans
        refine Outcome.cons vector hans run stop ?_
        have hr1 : s1.context.Ready := by rw [hctx]; exact HttpContext.ready_new
        have hi1 : HttpContext.Idle srv.parse s1.context s1.unread := by
          rw [hctx]
          exact HttpContext.idle_new _ _
        have hp1 : s1.context.pending s1.conn.inBuffer < rounds := by
          rw [hctx, hin]
          exact lt_of_lt_of_le pending (Nat.le_of_lt_succ hp)
        show Outcome srv s1 (Except.bind (if _ then _ else _) _)
        split
        · -- the nested call, and then this one again
          obtain ⟨k, rfl⟩ : ∃ k, rounds = k + 1 := ⟨rounds - 1, by omega⟩
          have hin1 : s1.conn.shutdownInLoop.conn.inBuffer = s1.conn.inBuffer := by
            simp [Connection.shutdownInLoop]
          refine shutdown_outcome hr1 hi1 (answer_output (serve_data_ne_nil srv _ _ _) hans) ?_
          refine ih hr1 ?_ ?_
          · show HttpContext.Idle srv.parse s1.context s1.conn.shutdownInLoop.conn.inBuffer.unread
            rw [hin1]
            exact hi1
          · show s1.context.pending s1.conn.shutdownInLoop.conn.inBuffer < k + 1
            rw [hin1]
            exact hp1
        · exact ih hr1 hi1 hp1

/-! ### As many rounds as it takes -/

theorem enter_congr {m m' : HttpConn → Except Stop HttpConn} {e : Exec}
    (h : s.enter m e ≠ .error .unfinished) (hm : ∀ x, m x ≠ .error .unfinished → m' x = m x) :
    s.enter m' e = s.enter m e := by
  unfold enter at h ⊢
  split
  · rename_i hc
    rw [if_pos hc] at h
    exact hm _ h
  · rfl

theorem shutdown_congr {hasTimer : Bool} {m m' : HttpConn → Except Stop HttpConn}
    (h : s.shutdown hasTimer m ≠ .error .unfinished)
    (hm : ∀ x, m x ≠ .error .unfinished → m' x = m x) :
    s.shutdown hasTimer m' = s.shutdown hasTimer m := by
  unfold shutdown at h ⊢
  rw [enter_congr (fun hu => h (by rw [hu]; rfl)) hm]

theorem onMessage_succ (srv : HttpServer) (hasTimer : Bool) {rounds : Nat} {s : HttpConn}
    (h : s.onMessage srv hasTimer rounds ≠ .error .unfinished) :
    s.onMessage srv hasTimer (rounds + 1) = s.onMessage srv hasTimer rounds := by
  induction rounds generalizing s with
  | zero => exact absurd rfl h
  | succ rounds ih =>
    have hm : ∀ x, onMessage srv hasTimer rounds x ≠ .error .unfinished →
        onMessage srv hasTimer (rounds + 1) x = onMessage srv hasTimer rounds x := fun x hx => ih hx
    rw [onMessage] at h
    rw [onMessage, onMessage]
    split
    · rfl
    · rename_i h0
      rw [if_neg h0] at h
      cases hrecv : s.context.recvHttpRequest srv.parse s.conn.inBuffer with
      | none => rfl
      | some q =>
        obtain ⟨context, buf⟩ := q
        rw [hrecv] at h
        simp only at h ⊢
        split
        · rename_i h4
          rw [if_pos h4] at h
          cases hans : (s.received context buf).answer
              (srv.reject (s.received context buf).log.length context.respStatus
                context.request) with
          | error stop => rfl
          | ok s1 =>
            rw [hans] at h
            have hs : s1.emptied.shutdown hasTimer (onMessage srv hasTimer rounds) ≠
                .error .unfinished := fun hu => h (by simp [Except.bind, hu, Except.map])
            simp only [Except.bind, shutdown_congr hs hm]
        · rename_i h4
          rw [if_neg h4] at h
          split
          · rfl
          · rename_i ho
            rw [if_neg ho] at h
            cases hans : (s.received context buf).answer
                (srv.serve (s.received context buf).log.length context.respStatus
                  context.request) with
            | error stop => rfl
            | ok s1 =>
              rw [hans] at h
              simp only [Except.bind] at h ⊢
              by_cases hc : (srv.serve (s.received context buf).log.length context.respStatus
                  context.request).closes = true
              · simp only [if_pos hc] at h ⊢
                have hs : s1.shutdown hasTimer (onMessage srv hasTimer rounds) ≠
                    .error .unfinished := by
                  intro hu
                  exact h (by rw [hu])
                rw [shutdown_congr hs hm]
                cases hsh : s1.shutdown hasTimer (onMessage srv hasTimer rounds) with
                | error stop => rfl
                | ok s2 =>
                  rw [hsh] at h
                  exact hm s2 h
              · simp only [if_neg hc] at h ⊢
                exact hm s1 h

theorem onMessage_of_le (srv : HttpServer) (hasTimer : Bool) {rounds more : Nat} {s : HttpConn}
    (h : s.onMessage srv hasTimer rounds ≠ .error .unfinished) (hle : rounds ≤ more) :
    s.onMessage srv hasTimer more = s.onMessage srv hasTimer rounds := by
  induction more, hle using Nat.le_induction with
  | base => rfl
  | succ more _ ih => rw [onMessage_succ srv hasTimer (by rw [ih]; exact h), ih]

/-! ### Termination and order -/

def Reached (parse : Bytes → LineResult) (c : HttpContext) : Prop :=
  ∃ stream requests u, (httpReader parse).run .new stream = (requests, .ok (c, u))

/-- Every length given in a header that the parser comes to is a decimal number that fits a
`long`. -/
def DecimalLengths (parse : Bytes → LineResult) (c : HttpContext) (u : Bytes) : Prop :=
  ∀ t r, (httpReader parse).Passes c u t r →
  t.request.hasHeader HttpRequest.contentLengthKey = true →
    ∃ n, Decimal (t.request.getHeader HttpRequest.contentLengthKey) n

/-- With no bytes a reached context waits. -/
theorem Reached.ready {parse : Bytes → LineResult} {c : HttpContext} (h : Reached parse c)
    (u : Bytes) :
    c.Ready ∧ HttpContext.Idle parse c u := by
  obtain ⟨stream, requests, v, hrun⟩ := h
  have hend := congrArg Prod.snd hrun
  have hr : c.Ready := Reader.run_invariant (R := httpReader parse)
    (fun hs h => HttpContext.readStep_ready_wait hs h)
    (fun hs h => HttpContext.readStep_ready_next hs h) HttpContext.ready_new hend
  have hw : HttpContext.readStep parse c v = .wait c v := Reader.run_ok_step hend
  refine ⟨hr, ?_⟩
  rintro rfl
  unfold HttpContext.readStep at hw ⊢
  rcases hr.sound.receiving with hc | hc | hc <;> simp only [hc] at hw ⊢
  · rfl
  · rfl
  · split at hw
    · exact absurd hw (by simp)
    · split at hw
      · rename_i hlt
        rw [if_pos hlt]
      · rename_i n _ hle
        split at hw
        · exact absurd hw (by simp)
        · rename_i hshort
          rw [if_neg hle, if_neg (by simp only [List.length_nil]; omega), HttpContext.withBody,
            List.append_nil]

theorem DecimalLengths.not_threw {parse : Bytes → LineResult} {c : HttpContext} {u : Bytes}
    (h : DecimalLengths parse c u) : ((httpReader parse).run c u).2 ≠ .error .threw := by
  intro herr
  obtain ⟨hstep, hpass⟩ := Reader.run_error herr
  have hlen := h _ _ hpass
  generalize ((httpReader parse).stop c u).1 = t at hstep hlen
  generalize ((httpReader parse).stop c u).2 = r at hstep
  obtain ⟨n, hsome⟩ := exists_contentLength hlen
  change HttpContext.readStep parse t r = .fail .threw at hstep
  unfold HttpContext.readStep at hstep
  split at hstep
  · obtain ⟨n, hn⟩ := HttpContext.Local.onLine_fail (HttpContext.afterLine_local parse t) hstep
    exact absurd hn (by simp)
  · obtain ⟨n, hn⟩ := HttpContext.Local.onLine_fail t.afterHead_local hstep
    exact absurd hn (by simp)
  · split at hstep
    · rename_i hnone
      exact absurd (hsome.symm.trans hnone) (by simp)
    · split at hstep
      · exact absurd hstep (by simp)
      · split at hstep <;> exact absurd hstep (by simp)
  · exact absurd hstep (by simp)
  · exact absurd hstep (by simp)

/-! ### Well-formed requests give decimal lengths -/

section Encoded

variable {parse : Bytes → LineResult} {c c' : HttpContext} {u u' : Bytes}

/-- A length is given in decimal, if there is one. -/
def Measured (c : HttpContext) : Prop :=
  c.request.hasHeader HttpRequest.contentLengthKey = true →
    ∃ n, Decimal (c.request.getHeader HttpRequest.contentLengthKey) n

theorem measured_collect {hs : List HeaderLine} {n : Nat}
    (hdec : ∀ h ∈ hs, h.key = HttpRequest.contentLengthKey → Decimal h.value n)
    (hc : c.request.headers = HeaderLine.collect [] hs) : Measured c := by
  intro hhas
  rw [HttpRequest.hasHeader, hc] at hhas
  obtain ⟨h, hm, hk, hv⟩ := HeaderLine.collect_get hhas
  rw [HttpRequest.getHeader, hc, ← hv]
  exact ⟨n, hdec h hm hk⟩

theorem DecimalLengths.of_wait (hm : Measured c)
    (h : HttpContext.readStep parse c u = .wait c' u') :
    DecimalLengths parse c u := by
  intro t r hpass
  obtain ⟨rfl, _⟩ := hpass.of_wait h
  exact hm

theorem DecimalLengths.of_next {done : List HttpRequest} (hm : Measured c)
    (h : HttpContext.readStep parse c u = .next done c' u') (hrest : DecimalLengths parse c' u') :
    DecimalLengths parse c u := by
  intro t r hpass
  rcases hpass.of_next h with ⟨rfl, _⟩ | hpass
  · exact hm
  · exact hrest t r hpass

theorem DecimalLengths.of_headers {hs taken : List HeaderLine} {n : Nat}
    (hdec : ∀ h ∈ taken ++ hs, h.key = HttpRequest.contentLengthKey → Decimal h.value n)
    (hhead : c.recvStatus = .head) (hc : c.request.headers = HeaderLine.collect [] taken)
    (hrest : DecimalLengths parse { c with request := { c.request with
      headers := HeaderLine.collect [] (taken ++ hs) } } u) :
    DecimalLengths parse c (hs.flatMap HeaderLine.encode ++ u) := by
  induction hs generalizing c taken with
  | nil =>
    rw [List.append_nil, ← hc] at hrest
    exact hrest
  | cons h hs ih =>
    rw [List.flatMap_cons, List.append_assoc]
    refine .of_next (measured_collect (fun h' hm => hdec h' (List.mem_append_left _ hm)) hc)
      (HttpContext.readStep_header hhead h _) ?_
    have htaken : taken ++ [h] ++ hs = taken ++ h :: hs := by
      rw [List.append_assoc, List.singleton_append]
    have hcollect : (c.request.setHeader h.key h.value).headers =
        HeaderLine.collect [] (taken ++ [h]) := by
      rw [HeaderLine.collect, List.foldl_append, HttpRequest.setHeader]
      simp only
      rw [hc]
      rfl
    exact ih (by rwa [htaken]) hhead hcollect (by rwa [htaken])

theorem DecimalLengths.of_encode (r : WireRequest parse) (h : DecimalLengths parse .new u) :
    DecimalLengths parse .new (r.encode ++ u) := by
  have hwire : r.encode ++ u =
      r.line ++
        newline :: (r.headers.flatMap HeaderLine.encode ++ (r.blank.bytes ++ (r.body ++ u))) := by
    simp [WireRequest.encode]
  have hmap : HeaderLine.collect [] r.headers = HeaderLine.headerMap r.headers :=
    HeaderLine.collect_eq r.distinct (by simp)
  have hmeasured : ∀ status, Measured (r.toOpening.context status) :=
    fun _ => measured_collect r.body_decimal rfl
  rw [hwire]
  refine .of_next (fun hhas => absurd hhas (by decide))
    (HttpContext.readStep_opening r.toOpening _) ?_
  refine .of_headers r.body_decimal rfl rfl ?_
  refine .of_next (hmeasured .head) (HttpContext.readStep_blank rfl r.blank _) ?_
  exact .of_next (hmeasured .body) (HttpContext.readStep_body (c := r.toOpening.context .body) rfl
    (HttpContext.Opening.request_body r.toOpening) (r.contentLength_eq r.request hmap) u) h

/-- **The lengths of pipelined requests are decimal.** -/
theorem decimalLengths_encodes (rs : List (WireRequest parse)) :
    DecimalLengths parse .new (rs.flatMap WireRequest.encode) := by
  induction rs with
  | nil => exact .of_wait (fun hhas => absurd hhas (by decide)) (HttpContext.idle_new parse [] rfl)
  | cons r rs ih => exact .of_encode r ih

end Encoded

/-- **`OnMessage` terminates and answers in order.**  For every unread input, every context that
requests lead to and decimal lengths, more rounds than `message` gives change nothing, and it
returns: the responses it has sent, nested calls included, are those to the requests the reader
takes off the input, each once and in their order, and they are what was appended to the output.
Only responses for which there is no room in the output keep it from returning. -/
theorem onMessage_terminates {srv : HttpServer} {s : HttpConn} (hasTimer : Bool)
    (hc : Reached srv.parse s.context) (hd : DecimalLengths srv.parse s.context s.unread) :
    (∀ rounds, s.context.pending s.conn.inBuffer < rounds →
      s.onMessage srv hasTimer rounds = s.message srv hasTimer) ∧
    ((∃ t, s.message srv hasTimer = .ok t ∧
      t.log = s.log ++ srv.answers s.log.length s.context s.unread ∧
      (s.conn.statu ≠ .disconnected → t.conn.outBuffer.unread = s.conn.outBuffer.unread ++
        (srv.answers s.log.length s.context s.unread).flatMap Exchange.data)) ∨
    (s.message srv hasTimer = .error .overflow ∧ bufferMaxSize < s.conn.outBuffer.unread.length +
      2 * ((srv.answers s.log.length s.context s.unread).flatMap Exchange.data).length)) := by
  obtain ⟨hr, hi⟩ := hc.ready s.unread
  have hout : Outcome srv s (s.message srv hasTimer) :=
    onMessage_outcome hasTimer hr hi (Nat.lt_succ_self _)
  have hne : s.message srv hasTimer ≠ .error .unfinished := by
    generalize s.message srv hasTimer = r at hout
    cases hout <;> simp
  refine ⟨fun rounds hlt => onMessage_of_le srv hasTimer hne hlt, ?_⟩
  generalize s.message srv hasTimer = r at hout
  cases hout with
  | done h => exact Or.inl ⟨_, rfl, h.log, fun hst => (h.output hst).2⟩
  | threw h => exact absurd h hd.not_threw
  | overflow h => exact Or.inr ⟨rfl, h⟩

end HttpConn

def connectionLine (keep : Bool) : HeaderLine where
  key := HttpResponse.connectionKey
  value := if keep then HttpResponse.keepAlive else HttpResponse.close
  ending := .crlf
  key_plain := by decide
  value_plain := by cases keep <;> decide
  key_symbol := by decide
  value_end := by cases keep <;> decide
  short := by cases keep <;> decide

namespace HttpConn

/-- A server with one route, which answers a `POST` with the body of the request. -/
def echo : HttpServer :=
  { HttpServer.bare [] with
    parse := HttpContext.parseLine
    postRoute := [⟨fun _ => true, fun _ req resp => resp.setContent req.body HttpServer.textHtml⟩] }

/-- `"POST /x HTTP/1.1"`, `"Connection: close"`, `"Content-Length: 2"`, and a body. -/
def closing : WireRequest echo.parse where
  line := ascii "POST /x HTTP/1.1".toList ++ [carriageReturn]
  line_plain := by decide
  line_short := by decide
  line_ok := ⟨_, _, _, _, rfl⟩
  headers := [connectionLine false, .oneDigit 2 .crlf]
  distinct := by decide
  blank := .crlf
  body := [newline, 71]
  body_decimal := by decide +kernel
  body_nil h := absurd rfl (h _ (List.mem_cons_of_mem _ List.mem_cons_self))

/-- Two such requests at once on a new connection: the second is answered in the call that
`Shutdown` nests. -/
theorem onMessage_terminates_twice : ∃ s t : HttpConn,
    s.unread = [closing, closing].flatMap WireRequest.encode ∧
    (∀ rounds, s.context.pending s.conn.inBuffer < rounds →
      s.onMessage echo true rounds = s.message echo true) ∧ s.message echo true = .ok t ∧
    t.log.map Exchange.request = [closing.expected, closing.expected] ∧
    (∀ e ∈ t.log, e.closes = true ∧ e.response.body = closing.body) ∧
    t.conn.outBuffer.unread = t.log.flatMap Exchange.data := by
  obtain ⟨b, _, hu⟩ :=
    Buffer.new.writeAndPush_of_fits ([closing, closing].flatMap WireRequest.encode)
    (Or.inr (by decide +kernel))
  let s : HttpConn := { fresh 1 7 with conn := { (fresh 1 7).conn with inBuffer := b } }
  have hun : s.unread = [closing, closing].flatMap WireRequest.encode := hu
  have hans : echo.answers 0 .new s.unread =
      echo.serveAll 0 [closing.expected, closing.expected] := by
    rw [HttpServer.answers, hun, HttpContext.run_encodes]
    exact List.append_nil _
  have hlens : DecimalLengths echo.parse s.context s.unread := by
    rw [hun]
    exact decimalLengths_encodes [closing, closing]
  obtain ⟨hrounds, ⟨t, ht, hlog, hout⟩ | ⟨_, hlarge⟩⟩ :=
    onMessage_terminates true ⟨[], [], [], Reader.run_of_wait rfl⟩ hlens
  · rw [show s.context = .new from rfl, show s.log = [] from rfl, List.length_nil,
      hans] at hlog hout
    rw [List.nil_append] at hlog
    refine ⟨s, t, hun, hrounds, ht, by rw [hlog]; rfl, ?_, ?_⟩
    · rw [hlog]
      decide +kernel
    · have hst : (fresh 1 7).conn.statu ≠ .disconnected := by decide
      rw [hout hst, hlog]
      rfl
  · have hsmall : ¬ bufferMaxSize < (fresh 1 7).conn.outBuffer.unread.length +
        2 * ((echo.serveAll 0 [closing.expected, closing.expected]).flatMap
          Exchange.data).length := by
      decide +kernel
    rw [show s.context = .new from rfl, show s.log = [] from rfl, List.length_nil, hans] at hlarge
    exact absurd hlarge hsmall

end HttpConn

end Flux
