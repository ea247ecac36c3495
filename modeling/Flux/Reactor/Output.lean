import Flux.Reactor.ConnectionRun

/-!
# Output

What becomes of the bytes given to `Send`.  In a run in which nothing breaks (no failed `send`, no
`EPOLLERR` or `EPOLLHUP`, no `Release` and no timer) they reach the kernel in order, what has not
reached it is in `_out_buffer` and watched for, and when the socket is closed there is nothing left.

`Delivering` is the invariant.  Its last clause is about the only point at which such a run comes to
a release: a handler stands at its call of `Release` only on top of the stack and only with an empty
output buffer, so no callback can add output between that decision and the close.
-/

namespace Flux

open Lib

def sentBytes (log : List Obs) : Bytes :=
  log.flatMap fun o => match o with
    | .sendInLoop data => data
    | _ => []

def acceptedBytes (log : List Obs) : Bytes :=
  log.flatMap fun o => match o with
    | .accepted data => data
    | _ => []

theorem sentBytes_append (l l' : List Obs) : sentBytes (l ++ l') = sentBytes l ++ sentBytes l' :=
  List.flatMap_append

theorem acceptedBytes_append (l l' : List Obs) :
    acceptedBytes (l ++ l') = acceptedBytes l ++ acceptedBytes l' :=
  List.flatMap_append

theorem sentBytes_plain {obs : List Obs} (h : ∀ o ∈ obs, o.plain = true) : sentBytes obs = [] := by
  rw [sentBytes, List.flatMap_eq_nil_iff]
  intro o ho
  have hp := h o ho
  cases o <;> first | rfl | exact absurd hp (by simp [Obs.plain])

theorem acceptedBytes_plain {obs : List Obs} (h : ∀ o ∈ obs, o.plain = true) :
    acceptedBytes obs = [] := by
  rw [acceptedBytes, List.flatMap_eq_nil_iff]
  intro o ho
  have hp := h o ho
  cases o <;> first | rfl | exact absurd hp (by simp [Obs.plain])

/-! ### Runs in which nothing breaks -/

def Act.quiet : Act → Bool
  | setREvents events => !hasBits events EPOLLERR && !hasBits events EPOLLHUP
  | call .release => false
  | send (.error _) => false
  | _ => true

theorem quiet_setREvents {events : BitVec 32} (h : (Act.setREvents events).quiet = true) :
    hasBits events EPOLLERR = false ∧ hasBits events EPOLLHUP = false := by
  change (!hasBits events EPOLLERR && !hasBits events EPOLLHUP) = true at h
  simpa only [Bool.and_eq_true, Bool.not_eq_true'] using h

/-- An input of such a run, on a connection whose socket is still open. -/
def Quiet (s : ConnState) (i : Input) : Prop := s.conn.socketOpen = true ∧ i.act.quiet = true

instance (s : ConnState) (i : Input) : Decidable (Quiet s i) :=
  inferInstanceAs (Decidable (_ ∧ _))

/-- A handler at its call of `Release` has nothing above it and nothing left to send. -/
def ReleaseReady (s : ConnState) : Prop :=
  .releaseCall ∉ s.stack ∨
    ∃ rest, s.stack = .releaseCall :: rest ∧ .releaseCall ∉ rest ∧ s.conn.outBuffer.unread = []

structure Delivering (s : ConnState) : Prop where
  order : acceptedBytes s.log ++ s.conn.outBuffer.unread = sentBytes s.log
  calm : hasBits s.conn.channel.revents EPOLLERR = false ∧
    hasBits s.conn.channel.revents EPOLLHUP = false
  ready : ReleaseReady s
  complete : s.conn.socketOpen = false → acceptedBytes s.log = sentBytes s.log

theorem delivering_fresh (connId sockfd : Nat) (callbacks : Callbacks) :
    Delivering (.fresh connId sockfd callbacks) where
  order := rfl
  calm := ⟨hasBits_zero _, hasBits_zero _⟩
  ready := Or.inl (by simp [ConnState.fresh])
  complete := fun h => absurd h (by simp [ConnState.fresh, Connection.new])

/-! ### The call of `Release` -/

/-- **Who comes to a call of `Release`**: `ShutdownInLoop` and `HandleWrite` with nothing left to
send, a failed `send`, an error event. -/
theorem Segment.exec_releaseCall {c : Connection} {hasTimer : Bool} {seg : Segment} {e : Exec}
    (h : seg.exec c hasTimer = some e) (hf : .releaseCall ∈ e.frames) :
    e.frames = [.releaseCall] ∧ e.conn.outBuffer.unread = [] ∨ c.Breaks seg := by
  cases Segment.exec_effect h with
  | shutdownDone out => exact Or.inl ⟨rfl, out⟩
  | sentAll opened taken left =>
    refine Or.inl ⟨?_, left⟩
    simp only at hf ⊢
    split at hf
    · rw [if_pos ‹_›]
    · exact absurd hf (by simp)
  | sendDropped | sendAppended | sendEnabled | shutdownWaits | shutdownEnables | sentSome |
      establishedLate => exact absurd hf (by simp)
  | established statu plain calls | shutdown plain calls | release closes plain calls =>
    exact absurd hf calls
  | inert is => exact Or.inr (is.breaks hf)

/-! ### What a step keeps -/

/-- The part of the invariant about the output, kept by every segment that leaves the socket
open. -/
theorem Delivering.order_exec {s : ConnState} (hd : Delivering s) (hc : s.Coherent)
    {hasTimer : Bool}
    {seg : Segment} {e : Exec} (hopen : s.conn.socketOpen = true)
    (he : seg.exec s.conn hasTimer = some e) :
    acceptedBytes (s.log ++ e.obs) ++ e.conn.outBuffer.unread = sentBytes (s.log ++ e.obs) := by
  have horder := hd.order
  rw [acceptedBytes_append, sentBytes_append]
  cases Segment.exec_effect he with
  | inert is =>
    rw [acceptedBytes_plain is.plain, sentBytes_plain is.plain, is.same.outBuffer, List.append_nil,
      List.append_nil]
    exact horder
  | sendDropped statu => exact absurd statu (hc.alive hopen)
  | sendAppended statu append | sendEnabled statu append =>
    rw [append, ← horder]
    simp [acceptedBytes, sentBytes]
  | sentSome opened taken left =>
    rw [taken, ← horder]
    simp [acceptedBytes, sentBytes]
  | sentAll opened taken left =>
    rw [left, ← horder]
    simp [acceptedBytes, sentBytes]
  | established statu plain | shutdown plain =>
    have ha := acceptedBytes_plain plain
    have hs := sentBytes_plain plain
    simp only [acceptedBytes, sentBytes] at ha hs horder ⊢
    simp [ha, hs, horder]
  | release closes plain =>
    have ha := acceptedBytes_plain plain
    have hs := sentBytes_plain plain
    rw [if_pos hopen] at closes
    simp only [acceptedBytes, sentBytes] at ha hs horder ⊢
    simp [ha, hs, horder, closes, Connection.releaseInLoop_conn]
  | establishedLate | shutdownDone | shutdownWaits | shutdownEnables =>
    simpa [acceptedBytes, sentBytes] using horder

theorem Delivering.calm_exec {s : ConnState} (hd : Delivering s) {i : Input} (hq : Quiet s i)
    {seg : Segment} {rest : List Frame} {e : Exec} (hcomes : Comes s.stack i.act seg rest)
    (he : seg.exec s.conn i.hasTimer = some e) :
    hasBits e.conn.channel.revents EPOLLERR = false ∧
      hasBits e.conn.channel.revents EPOLLHUP = false := by
  have hcalm := hd.calm
  cases Segment.exec_effect he with
  | inert is =>
    rcases is.revents with hrev | hset
    · rw [hrev]
      exact hcalm
    · have hact : i.act = .setREvents _ := (hset ▸ hcomes).cause
      exact quiet_setREvents (hact ▸ hq.2)
  | release => rwa [Connection.releaseInLoop_conn]
  | _ => exact hcalm

theorem Delivering.ready_exec {s : ConnState} (hd : Delivering s) {i : Input} (hq : Quiet s i)
    {seg : Segment} {rest : List Frame} {e : Exec} (hcomes : Comes s.stack i.act seg rest)
    (he : seg.exec s.conn i.hasTimer = some e) (log : List Obs) :
    ReleaseReady ⟨e.conn, e.frames ++ rest, log⟩ := by
  have hrest : .releaseCall ∉ rest := by
    rcases hd.ready with hno | ⟨below, hstack, hno, _⟩
    · intro hm
      exact hno (hcomes.suffix.mem hm)
    · rw [hstack] at hcomes
      rwa [hcomes.at_releaseCall.2]
  by_cases hf : .releaseCall ∈ e.frames
  · rcases Segment.exec_releaseCall he hf with ⟨hframes, hout⟩ | hbad | hbad | hbad
    · exact Or.inr ⟨rest, by rw [hframes]; rfl, hrest, hout⟩
    · have hact : i.act = .send (.error false) := (hbad ▸ hcomes).cause.1
      have hquiet := hq.2
      rw [hact] at hquiet
      exact absurd hquiet (by decide)
    · exact absurd (hd.calm.1.symm.trans hbad) (by simp)
    · exact absurd (hd.calm.2.symm.trans hbad) (by simp)
  · exact Or.inl fun hm => (List.mem_append.mp hm).elim hf hrest

/-- The only way such a run closes the socket is a release with an empty output buffer. -/
theorem Delivering.closes {s : ConnState} (hd : Delivering s) {i : Input} (hq : Quiet s i)
    {seg : Segment} {rest : List Frame} {e : Exec} (hcomes : Comes s.stack i.act seg rest)
    (he : seg.exec s.conn i.hasTimer = some e) (hclosed : e.conn.socketOpen = false) :
    e.conn.outBuffer.unread = [] := by
  have hopen := hq.1
  cases Segment.exec_effect he with
  | inert is => exact absurd (is.same.socketOpen.symm.trans hclosed) (by simp [hopen])
  | release =>
    rw [Connection.releaseInLoop_conn]
    rcases hcomes.cause with hact | ⟨_, hstack⟩
    · have hquiet := hq.2
      rw [hact] at hquiet
      exact absurd hquiet (by decide)
    · rcases hd.ready with hno | ⟨_, _, _, hout⟩
      · exact absurd (by rw [hstack]; exact List.mem_cons_self) hno
      · exact hout
  | _ => exact absurd hclosed (by simp [hopen])

/-- **A step of such a run keeps the output in order.** -/
theorem Delivering.step {s t : ConnState} {i : Input} (hd : Delivering s) (hc : s.Coherent)
    (hq : Quiet s i) (h : s.step i = some t) : Delivering t := by
  obtain ⟨seg, rest, e, hseg, he, rfl⟩ := ConnState.step_eq_some.mp h
  have hcomes := segment_comes hseg
  have horder := hd.order_exec hc hq.1 he
  refine ⟨horder, hd.calm_exec hq hcomes he, hd.ready_exec hq hcomes he _, ?_⟩
  intro hclosed
  have hout := hd.closes hq hcomes he hclosed
  rwa [hout, List.append_nil] at horder

/-- **Output is delivered in order, never stranded, and a graceful shutdown loses nothing.**  In
every state of a run in which nothing breaks, up to the first close of the socket, the bytes the
kernel took and the unread bytes of `_out_buffer` together are the data of all `SendInLoop` calls,
unsent output is watched for, and at the close everything has been taken. -/
theorem output_delivered (connId sockfd : Nat) (callbacks : Callbacks) (acts : List Input)
    (s : ConnState) (hr : run ConnState.step (.fresh connId sockfd callbacks) acts = some s)
    (hq : Each ConnState.step Quiet (.fresh connId sockfd callbacks) acts) :
    acceptedBytes s.log ++ s.conn.outBuffer.unread = sentBytes s.log ∧
    (s.conn.outBuffer.unread ≠ [] → s.conn.channel.writeAble = true) ∧
    (s.conn.socketOpen = false → acceptedBytes s.log = sentBytes s.log) := by
  have hinv : s.Coherent ∧ Delivering s := by
    refine run_invariant (I := fun s => s.Coherent ∧ Delivering s) (fun s i t hi hq hs => ?_)
      ⟨ConnState.coherent_fresh .., delivering_fresh ..⟩ hq hr
    exact ⟨hi.1.step hs, hi.2.step hi.1 hq hs⟩
  exact ⟨hinv.2.order, hinv.1.watched, hinv.2.complete⟩

/-- Two bytes sent one at a time, with a shutdown in between, up to the close. -/
theorem output_delivered_shutdown :
    ∃ acts s, run ConnState.step (.fresh 1 5 ⟨false, true, false, false⟩) acts = some s ∧
      s.conn.socketOpen = false ∧ sentBytes s.log = [104, 105] ∧
      acceptedBytes s.log ++ s.conn.outBuffer.unread = sentBytes s.log ∧
      (s.conn.outBuffer.unread ≠ [] → s.conn.channel.writeAble = true) ∧
      (s.conn.socketOpen = false → acceptedBytes s.log = sentBytes s.log) := by
  let acts : List Input :=
    [.call .established, .call (.send [104, 105]), .setREvents EPOLLOUT, .handleEvent,
      .resume, .resume,
      .send (.sent 1), .call .shutdown, .resume, .handleEvent, .resume, .resume, .send (.sent 1),
      .resume].map fun a => ⟨a, false⟩
  have hrun : (run ConnState.step (.fresh 1 5 ⟨false, true, false, false⟩) acts).map
      (fun s => (s.conn.socketOpen, sentBytes s.log)) = some (false, [104, 105]) := by
    decide +kernel
  obtain ⟨s, hs, hp⟩ := Option.map_eq_some_iff.mp hrun
  simp only [Prod.mk.injEq] at hp
  exact ⟨acts, s, hs, hp.1, hp.2,
    output_delivered 1 5 ⟨false, true, false, false⟩ acts s hs (by decide +kernel)⟩

end Flux
