import Flux.Reactor.Calls
import Flux.Reactor.Output

/-!
# `Send` from other threads

A thread that is not the one of a connection's loop calls `Send`: the data is copied and queued to
the loop, `SendInLoop` appends it to `_out_buffer` when the queue has come to it, and writable
events give it to the kernel.  In between the server does whatever it does, with other connections,
other threads, timers, failing sockets.

Nothing is lost on the way and nothing overtakes.  The calls themselves arrive in their order, so
what is left is one connection: what it has been given is with the kernel or in its buffer.  What
the kernel took, what lies in the buffer and what lies in the queue are together the data of the
calls so far, in the order of the calls; a connection that has been closed has had a first part of
it.

* `ConnState.run_output`: what a run of a connection does to the bytes.
* `TcpServer.foreign_sends_in_order`: the balance in every state of every run.
-/

namespace Flux

open Lib

/-! ### One connection -/

def Act.sendData : Act → Bytes
  | call (.send data) => data
  | _ => []

/-- The data a segment appends, if it gets that far. -/
def Segment.sendData : Segment → Bytes
  | sendInLoop buf => buf.unread
  | _ => []

theorem Comes.sendData {stack rest : List Frame} {act : Act} {seg : Segment}
    (h : Comes stack act seg rest) : seg.sendData = act.sendData := by
  cases h with
  | setREvents | handleEvent | consume | ret => rfl
  | @call op _ _ enters =>
    cases op with
    | send data =>
      obtain ⟨buf, hbuf, rfl⟩ := Option.map_eq_some_iff.mp enters
      show buf.unread = data
      rw [Buffer.writeAndPush_unread hbuf, Buffer.new_unread, List.nil_append]
    | _ =>
      obtain rfl := Option.some.inj enters
      rfl
  | @resume f _ _ _ goes =>
    cases f with
    | callback | recv | send => exact absurd goes (by simp [Frame.resumed])
    | _ =>
      obtain rfl := Option.some.inj goes
      rfl
  | @recv r => cases r <;> rfl
  | @send r => rcases r with _ | (_ | _) <;> rfl

/-- **A segment of an open connection**: what goes out and what is left is what was there and what
was given. -/
theorem Segment.exec_output {c : Connection} {hasTimer : Bool} {seg : Segment} {e : Exec}
    (h : seg.exec c hasTimer = some e) (hstatu : c.statu ≠ .disconnected) :
    acceptedBytes e.obs ++ e.conn.outBuffer.unread = c.outBuffer.unread ++ seg.sendData := by
  cases Segment.exec_effect h with
  | inert is kind =>
    have hdata : seg.sendData = [] := by
      cases seg <;> first | rfl | exact absurd kind (by simp [Segment.inert])
    rw [acceptedBytes_plain is.plain, is.same.outBuffer, hdata, List.nil_append, List.append_nil]
  | sendDropped statu => exact absurd statu hstatu
  | sendAppended statu append => simpa [acceptedBytes, Segment.sendData] using append
  | sendEnabled statu append => simpa [acceptedBytes, Segment.sendData] using append
  | sentSome opened taken left => simp [acceptedBytes, Segment.sendData, taken]
  | sentAll opened taken left => simp [acceptedBytes, Segment.sendData, left]
  | established statu plain | shutdown plain =>
    have ha := acceptedBytes_plain plain
    simp only [acceptedBytes] at ha ⊢
    simp [ha, Segment.sendData]
  | @release _ closeFd tail closes plain =>
    have ha := acceptedBytes_plain plain
    have hclose : acceptedBytes closeFd = [] := by
      rw [closes]
      split <;> rfl
    simp only [acceptedBytes] at ha hclose ⊢
    simp [ha, hclose, Segment.sendData, Connection.releaseInLoop_conn]
  | establishedLate | shutdownDone | shutdownWaits | shutdownEnables =>
    simp [acceptedBytes, Segment.sendData]

/-- **A segment of a closed connection** sends nothing and does not open it. -/
theorem Segment.exec_closed {c : Connection} {hasTimer : Bool} {seg : Segment} {e : Exec}
    (h : seg.exec c hasTimer = some e) (hclosed : c.socketOpen = false) :
    acceptedBytes e.obs = [] ∧ e.conn.socketOpen = false := by
  cases Segment.exec_effect h with
  | inert is => exact ⟨acceptedBytes_plain is.plain, is.same.socketOpen.trans hclosed⟩
  | sentSome opened | sentAll opened => exact absurd (opened.symm.trans hclosed) (by simp)
  | established statu plain | shutdown plain =>
    have ha := acceptedBytes_plain plain
    simp only [acceptedBytes] at ha ⊢
    exact ⟨by simp [ha], hclosed⟩
  | @release _ closeFd tail closes plain =>
    have ha := acceptedBytes_plain plain
    have hclose : acceptedBytes closeFd = [] := by
      rw [closes]
      split <;> rfl
    simp only [acceptedBytes] at ha hclose ⊢
    exact ⟨by simp [ha, hclose], by rw [Connection.releaseInLoop_conn]⟩
  | _ => exact ⟨rfl, hclosed⟩

namespace ConnState

variable {c c' : ConnState} {i : Input}

theorem step_output (hc : c.Coherent) (h : c.step i = some c') (hopen : c.conn.socketOpen = true) :
    acceptedBytes c'.log ++ c'.conn.outBuffer.unread =
      acceptedBytes c.log ++ c.conn.outBuffer.unread ++ i.act.sendData := by
  obtain ⟨seg, rest, e, hseg, he, rfl⟩ := step_eq_some.mp h
  rw [← (segment_comes hseg).sendData, acceptedBytes_append, List.append_assoc,
    Segment.exec_output he (hc.alive hopen), List.append_assoc]

theorem step_closed (h : c.step i = some c') (hclosed : c.conn.socketOpen = false) :
    acceptedBytes c'.log = acceptedBytes c.log ∧ c'.conn.socketOpen = false := by
  obtain ⟨seg, rest, e, -, he, rfl⟩ := step_eq_some.mp h
  obtain ⟨hacc, hop⟩ := Segment.exec_closed he hclosed
  exact ⟨by rw [acceptedBytes_append, hacc, List.append_nil], hop⟩

/-- The data of the calls of `Send` is with the kernel or in the buffer, and what the kernel has of
it is a first part for good. -/
theorem run_output {inputs : List Input} (sent : Bytes) (hc : c.Coherent)
    (hopen : c.conn.socketOpen = true → acceptedBytes c.log ++ c.conn.outBuffer.unread = sent)
    (hfirst : acceptedBytes c.log <+: sent) (h : run ConnState.step c inputs = some c') :
    (c'.conn.socketOpen = true → acceptedBytes c'.log ++ c'.conn.outBuffer.unread =
      sent ++ inputs.flatMap fun i => i.act.sendData) ∧
    acceptedBytes c'.log <+: sent ++ inputs.flatMap fun i => i.act.sendData := by
  induction inputs generalizing c sent with
  | nil =>
    obtain rfl : c = c' := Option.some.inj h
    rw [List.flatMap_nil, List.append_nil]
    exact ⟨hopen, hfirst⟩
  | cons i inputs ih =>
    obtain ⟨d, hd, hrest⟩ := run_cons.mp h
    rw [List.flatMap_cons, ← List.append_assoc]
    by_cases ho : c.conn.socketOpen = true
    · have hout := step_output hc hd ho
      rw [hopen ho] at hout
      exact ih _ (hc.step hd) (fun _ => hout) ⟨_, hout⟩ hrest
    · obtain ⟨hacc, hclosed⟩ := step_closed hd (by simpa using ho)
      refine ih _ (hc.step hd) (fun hop => absurd (hop.symm.trans hclosed) (by simp)) ?_ hrest
      rw [hacc]
      exact hfirst.trans (List.prefix_append _ _)

end ConnState

/-! ### Calls and queues -/

/-- The data a step hands over in a call of `Send` on connection `k`. -/
def ServerAct.sendData (k : Nat) : ServerAct → Bytes
  | .call _ j op _ => if j = k then (Act.call op).sendData else []
  | _ => []

/-- The data of the calls of `Send` on connection `k`, in the order of the calls. -/
def calledBytes (k : Nat) (acts : List ServerAct) : Bytes := acts.flatMap (ServerAct.sendData k)

def Task.sendData (k : Nat) : Task → Bytes
  | .conn j op => if j = k then (Act.call op).sendData else []
  | _ => []

def queuedBytes (k : Nat) (tasks : List Task) : Bytes := tasks.flatMap (Task.sendData k)

def opsData (ops : List ConnOp) : Bytes := ops.flatMap fun op => (Act.call op).sendData

/-- Every `Send` is one of `P`. -/
def HasSends (P : ConnOp → Bool) : Prop := ∀ data, P (.send data) = true

variable {P : ConnOp → Bool}

theorem HasSends.act (hP : HasSends P) (a : Act) : opsData (a.calls P) = a.sendData := by
  cases a with
  | call op =>
    rw [Act.calls]
    split
    · exact List.append_nil _
    · cases op with
      | send data => exact absurd (hP data) ‹_›
      | _ => rfl
  | _ => rfl

theorem opsData_flatMap {α : Type} (xs : List α) (ops : α → List ConnOp) :
    opsData (xs.flatMap ops) = xs.flatMap fun x => opsData (ops x) :=
  List.flatMap_assoc

theorem HasSends.inputs (hP : HasSends P) (inputs : List Input) :
    opsData (inputs.flatMap fun i => i.act.calls P) = inputs.flatMap fun i => i.act.sendData := by
  simp only [opsData_flatMap, hP.act]

theorem HasSends.called (hP : HasSends P) (k : Nat) (acts : List ServerAct) :
    opsData (calledOps P k acts) = calledBytes k acts := by
  rw [calledOps, opsData_flatMap, calledBytes]
  refine congrArg acts.flatMap (funext fun a => ?_)
  cases a with
  | call thread j op hasTimer =>
    rw [ServerAct.calls, ServerAct.sendData]
    split
    · exact hP.act _
    · rfl
  | _ => rfl

theorem HasSends.queued (hP : HasSends P) (k : Nat) (tasks : List Task) :
    opsData (queuedOps P k tasks) = queuedBytes k tasks := by
  rw [queuedOps, opsData_flatMap, queuedBytes]
  refine congrArg tasks.flatMap (funext fun task => ?_)
  cases task with
  | conn j op =>
    rw [Task.calls, Task.sendData]
    split
    · exact hP.act _
    · rfl
  | _ => rfl

/-- What a connection has been given is with the kernel or in its buffer. -/
theorem ConnState.Past.output {c : ConnState} {own : List Input} {done : List ConnOp}
    (hP : HasSends P)
    (h : c.Past P own done) :
    (c.conn.socketOpen = true → acceptedBytes c.log ++ c.conn.outBuffer.unread = opsData done) ∧
    acceptedBytes c.log <+: opsData done := by
  obtain ⟨connId, sockfd, callbacks, inputs, hrun, -, rfl⟩ := h
  rw [hP.inputs]
  exact ConnState.run_output [] (ConnState.coherent_fresh connId sockfd callbacks) (fun _ => rfl)
    (List.prefix_refl _) hrun

namespace TcpServer

variable {s : TcpServer} {k : Nat}

/-! ### The server -/

/-- `Send` of the connection is not called in the thread of its own loop. -/
def Foreign (k : Nat) (s : TcpServer) (a : ServerAct) : Prop :=
  ∀ m data hasTimer, s.made[k]? = some m → a ≠ .call (some m.loop) k (.send data) hasTimer

def isSend : ConnOp → Bool
  | .send _ => true
  | _ => false

theorem Foreign.ops {a : ServerAct} (h : Foreign k s a) : ForeignOps isSend k s a := by
  intro m op hasTimer hop hm
  cases op with
  | send data => exact h m data hasTimer hm
  | _ => exact absurd hop (by simp [isSend])

/-- **What other threads send arrives in the order of their calls, whole and once.**  In every state
of every run of the server, whatever happens in its loops, for every connection whose own loop does
not call `Send` on it: the bytes the kernel took, those of its buffer and those queued for it are
together the data of the calls so far, while its socket is open; and what the kernel took of it is a
first part of that data for good. -/
theorem foreign_sends_in_order (settings : Settings) (acts : List ServerAct) (s : TcpServer)
    (hr : Lib.run step (new settings) acts = some s) (k : Nat)
    (hforeign : Each step (Foreign k) (new settings) acts) (m : Member) (hm : s.made[k]? = some m) :
    (m.state.conn.socketOpen = true → acceptedBytes m.state.log ++ m.state.conn.outBuffer.unread ++
      queuedBytes k (s.tasks m.loop) = calledBytes k acts) ∧
    acceptedBytes m.state.log <+: calledBytes k acts := by
  have hP : HasSends isSend := fun _ => rfl
  have hhist := (history_new isSend settings k).run ⟨rfl, fun _ => rfl⟩ (wired_new settings)
    (hforeign.mono fun _ _ h => h.ops) hr
  obtain ⟨done, hpast, hcalled⟩ := hhist.past hm
  obtain ⟨hopen, hfirst⟩ := hpast.output hP
  have hbytes : opsData done ++ queuedBytes k (s.tasks m.loop) = calledBytes k acts := by
    rw [List.append_nil] at hcalled
    rw [← hP.called, ← hP.queued]
    exact (List.flatMap_append.symm).trans (congrArg opsData hcalled)
  constructor
  · intro ho
    rw [hopen ho]
    exact hbytes
  · exact hfirst.trans ⟨_, hbytes⟩

/-- Sends from threads without a loop are those of other threads. -/
theorem each_foreign {acts : List ServerAct}
    (h : ∀ a ∈ acts, ∀ loop data hasTimer, a ≠ .call (some loop) k (.send data) hasTimer) :
    Each step (Foreign k) s acts := by
  refine each_of_mem (fun a ha _ => ?_) s
  intro m data hasTimer _
  exact h a ha m.loop data hasTimer

/-- Two sends, the second of them while the first is with the kernel in part. -/
theorem foreign_sends_in_order_two :
    ∃ acts s m, Lib.run step (new ⟨1, none, false, false, false⟩) acts = some s ∧
    s.made[0]? = some m ∧
      acceptedBytes m.state.log = [104] ∧ calledBytes 0 acts = [104, 105, 33] ∧
      acceptedBytes m.state.log ++ m.state.conn.outBuffer.unread ++ queuedBytes 0 (s.tasks m.loop) =
        calledBytes 0 acts := by
  let acts : List ServerAct :=
    [.accept 5, .advance false, .advance false, .runTask (.worker 0) false,
      .call none 0 (.send [104, 105]) false, .runTask (.worker 0) false] ++
    ([.setREvents EPOLLOUT, .handleEvent, .resume, .resume, .send (.sent 1)].map fun a =>
      .conn 0 ⟨a, false⟩) ++ [.call none 0 (.send [33]) false]
  have hrun : (run step (new ⟨1, none, false, false, false⟩) acts).bind
      (fun s => (s.made[0]?).map fun m =>
      (acceptedBytes m.state.log, m.state.conn.socketOpen)) = some ([104], true) := by
    decide +kernel
  obtain ⟨s, hs, hp⟩ := Option.bind_eq_some_iff.mp hrun
  obtain ⟨m, hm, hpair⟩ := Option.map_eq_some_iff.mp hp
  obtain ⟨hacc, hopen⟩ := Prod.mk.inj hpair
  have hforeign : Each step (Foreign 0) (new ⟨1, none, false, false, false⟩) acts :=
    each_foreign (by simp [acts])
  exact ⟨acts, s, m, hs, hm, hacc, rfl,
    (foreign_sends_in_order ⟨1, none, false, false, false⟩ acts s hs 0 hforeign m hm).1 hopen⟩

end TcpServer

end Flux
