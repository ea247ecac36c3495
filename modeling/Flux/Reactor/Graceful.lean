import Flux.Reactor.Sending

/-!
# A graceful shutdown

`Shutdown` says: no more, and close when what has been sent is out.  The calls before it may come
from other threads, through the queue of the loop, and so may `Shutdown` itself; what they sent may
still be on its way when `ShutdownInLoop` runs, in `_out_buffer`, and the kernel takes it in
portions.

Unless something breaks, nothing of it is lost: `ShutdownInLoop` finds in the buffer, or behind it,
all that was sent before the call, and the socket is closed by the writable event that empties the
buffer, or by `ShutdownInLoop` itself when there is nothing to wait for.

* `ConnState.Standing`: a connection that nobody has begun to shut down stays open.
* `ConnState.Owes`: what was there when it began is with the kernel or still in the buffer.
* `TcpServer.shutdown_loses_nothing`: **what was sent before the first `Shutdown` has arrived at the
  close**.
-/

namespace Flux

open Lib

/-- `ShutdownInLoop` alone goes on to its tail. -/
theorem Segment.exec_shutdownTail {c : Connection} {hasTimer : Bool} {seg : Segment} {e : Exec}
    (h : seg.exec c hasTimer = some e) (hf : .shutdownTail ∈ e.frames) : seg = .shutdownInLoop := by
  have hinvoke {c' : Connection} {k : Callback} {isSet : Bool} {behind : List Frame}
      (hf : .shutdownTail ∈ (c'.invoke k isSet behind).frames) : .shutdownTail ∈ behind :=
    (Connection.mem_invoke hf).resolve_left (by simp)
  cases seg with
  | shutdownInLoop => rfl
  | handleEvent | sendFailed | releaseTail =>
    obtain rfl := Option.some.inj h
    exact absurd (hinvoke hf) (by simp)
  | readTest =>
    obtain rfl := Option.some.inj h
    unfold Connection.readTest at hf
    split at hf <;> exact absurd hf (by simp)
  | writeTest =>
    obtain rfl := Option.some.inj h
    unfold Connection.writeTest at hf
    split at hf
    · exact absurd hf (by simp)
    · split at hf
      · exact absurd (hinvoke hf) (by simp)
      · split at hf
        · exact absurd (hinvoke hf) (by simp)
        · exact absurd hf (by simp)
  | recvData data =>
    obtain ⟨buf, _, _, rfl⟩ := recvData_exec h
    exact absurd (hinvoke hf) (by simp)
  | recvAgain =>
    obtain rfl := recvAgain_exec h
    exact absurd hf (by simp)
  | consume n =>
    obtain ⟨hn, rfl⟩ := consume_exec h
    exact absurd hf (by simp)
  | establishedInLoop =>
    obtain rfl := Option.some.inj h
    unfold Connection.establishedInLoop at hf
    split at hf
    · exact absurd hf (by simp)
    · exact absurd (hinvoke hf) (by simp)
  | releaseInLoop =>
    obtain rfl := Option.some.inj h
    rw [Connection.releaseInLoop_frames] at hf
    split at hf <;> exact absurd hf (by simp)
  | setREvents _ | sendAgain | ret | enableInactiveReleaseInLoop _ | cancelInactiveReleaseInLoop =>
    obtain rfl := Option.some.inj h
    exact absurd hf List.not_mem_nil
  | sendInLoop _ | shutdownTail =>
    cases Segment.exec_effect h with
    | inert _ kind => exact absurd kind Bool.false_ne_true
    | _ => exact absurd hf (by simp)
  | sent _ =>
    cases Segment.exec_effect h with
    | inert _ kind => exact absurd kind Bool.false_ne_true
    | sentAll =>
      simp only at hf
      split at hf <;> exact absurd hf (by simp)
    | sentSome => exact absurd hf List.not_mem_nil

namespace ConnState

variable {c c' : ConnState} {i : Input} {sent : Bytes}

/-! ### Before the shutdown -/

/-- **Nobody has begun to shut the connection down**, and nothing has gone wrong. -/
structure Standing (c : ConnState) : Prop where
  coherent : c.Coherent
  delivering : Delivering c
  opened : c.conn.socketOpen = true
  going : c.conn.statu ≠ .disconnecting
  noTail : .shutdownTail ∉ c.stack
  noCall : .releaseCall ∉ c.stack

theorem standing_fresh (connId sockfd : Nat) (callbacks : Callbacks) :
    (fresh connId sockfd callbacks).Standing where
  coherent := coherent_fresh ..
  delivering := delivering_fresh ..
  opened := rfl
  going := by simp [fresh, Connection.new]
  noTail := List.not_mem_nil
  noCall := List.not_mem_nil

theorem Standing.step (h : c.Standing) (hquiet : i.act.quiet = true) (hshuts : i.act.shuts = false)
    (hs : c.step i = some c') : c'.Standing := by
  have hq : Quiet c i := ⟨h.opened, hquiet⟩
  have hdel := h.delivering.step h.coherent hq hs
  have hcoh := h.coherent.step hs
  obtain ⟨seg, rest, e, hseg, he, rfl⟩ := step_eq_some.mp hs
  have hcomes := segment_comes hseg
  have hnoShut : seg ≠ .shutdownInLoop := by
    rintro rfl
    exact absurd (hcomes.cause.symm.trans hshuts) (by simp)
  have hnoTail : seg ≠ .shutdownTail := by
    rintro rfl
    exact h.noTail (hcomes.cause.2 ▸ List.mem_cons_self)
  have hnoRelease : seg ≠ .releaseInLoop := by
    rintro rfl
    rcases hcomes.cause with hact | ⟨_, hstack⟩
    · exact absurd (hact ▸ hquiet) (by decide)
    · exact h.noCall (hstack ▸ List.mem_cons_self)
  have hconn : e.conn.socketOpen = true ∧ e.conn.statu ≠ .disconnecting := by
    cases Segment.exec_effect he with
    | inert is => exact ⟨is.same.socketOpen.trans h.opened, is.same.statu ▸ h.going⟩
    | established => exact ⟨h.opened, by simp⟩
    | shutdown => exact absurd rfl hnoShut
    | release => exact absurd rfl hnoRelease
    | shutdownDone | shutdownWaits | shutdownEnables => exact absurd rfl hnoTail
    | _ => exact ⟨h.opened, h.going⟩
  refine ⟨hcoh, hdel, hconn.1, hconn.2, ?_, ?_⟩
  · intro hm
    rcases List.mem_append.mp hm with hf | hr
    · exact hnoShut (Segment.exec_shutdownTail he hf)
    · exact h.noTail (hcomes.suffix.subset hr)
  · intro hm
    rcases List.mem_append.mp hm with hf | hr
    · cases Segment.exec_effect he with
      | inert is =>
        rcases is.breaks hf with hbad | hbad | hbad
        · have hact : i.act = .send (.error false) := (hbad ▸ hcomes).cause.1
          exact absurd (hact ▸ hquiet) (by decide)
        · exact absurd (h.delivering.calm.1.symm.trans hbad) (by simp)
        · exact absurd (h.delivering.calm.2.symm.trans hbad) (by simp)
      | sentAll =>
        simp only [if_neg h.going] at hf
        exact absurd hf List.not_mem_nil
      | established _ _ calls | shutdown _ calls | release _ _ calls => exact calls hf
      | shutdownDone => exact hnoTail rfl
      | _ => exact absurd hf List.not_mem_nil
    · exact h.noCall (hcomes.suffix.subset hr)

/-! ### Behind it -/

/-- **These bytes are owed**: with the kernel or in the buffer while the socket is open, and with
the kernel once it is closed. -/
structure Owes (sent : Bytes) (c : ConnState) : Prop where
  coherent : c.Coherent
  delivering : c.conn.socketOpen = true → Delivering c
  held : c.conn.socketOpen = true → sent <+: acceptedBytes c.log ++ c.conn.outBuffer.unread
  paid : c.conn.socketOpen = false → sent <+: acceptedBytes c.log

theorem Owes.step (h : Owes sent c) (hquiet : i.act.quiet = true) (hs : c.step i = some c') :
    Owes sent c' := by
  cases hopen : c.conn.socketOpen with
  | true =>
    have hq : Quiet c i := ⟨hopen, hquiet⟩
    have hdel := h.delivering hopen
    have hheld : sent <+: acceptedBytes c'.log ++ c'.conn.outBuffer.unread := by
      rw [step_output h.coherent hs hopen]
      exact (h.held hopen).trans (List.prefix_append _ _)
    refine ⟨h.coherent.step hs, fun _ => hdel.step h.coherent hq hs, fun _ => hheld,
      fun hclosed => ?_⟩
    have hempty : c'.conn.outBuffer.unread = [] := by
      obtain ⟨seg, rest, e, hseg, he, rfl⟩ := step_eq_some.mp hs
      exact hdel.closes hq (segment_comes hseg) he hclosed
    rwa [hempty, List.append_nil] at hheld
  | false =>
    obtain ⟨hacc, hclosed⟩ := step_closed hs hopen
    refine ⟨h.coherent.step hs, ?_, ?_, fun _ => hacc ▸ h.paid hopen⟩
    · exact fun hop => absurd (hop.symm.trans hclosed) (by simp)
    · exact fun hop => absurd (hop.symm.trans hclosed) (by simp)

theorem Owes.run {inputs : List Input} (h : Owes sent c) (hquiet : ∀ i ∈ inputs, i.act.quiet = true)
    (hr : run ConnState.step c inputs = some c') : Owes sent c' := by
  induction inputs generalizing c with
  | nil =>
    obtain rfl : c = c' := Option.some.inj hr
    exact h
  | cons i inputs ih =>
    obtain ⟨d, hd, hr⟩ := run_cons.mp hr
    exact ih (h.step (hquiet i List.mem_cons_self) hd)
      (fun j hj => hquiet j (List.mem_cons_of_mem i hj)) hr

/-- What a standing connection has been given, it owes. -/
theorem Standing.owes (h : c.Standing)
    (hsent : acceptedBytes c.log ++ c.conn.outBuffer.unread = sent) :
    Owes sent c where
  coherent := h.coherent
  delivering _ := h.delivering
  held _ := hsent ▸ List.prefix_refl _
  paid hclosed := absurd (h.opened.symm.trans hclosed) (by simp)

/-! ### Whole runs -/

/-- **A quiet run of a connection** from a state in which it stands: it stands still, or it has been
shut down, and then it owes what it had been given before. -/
theorem Standing.run {inputs : List Input} (h : c.Standing)
    (hsent : acceptedBytes c.log ++ c.conn.outBuffer.unread = sent)
    (hquiet : ∀ i ∈ inputs, i.act.quiet = true) (hr : run ConnState.step c inputs = some c') :
    (∀ i ∈ inputs, i.act.shuts = false) ∧ c'.Standing ∨
    (∃ i ∈ inputs, i.act.shuts = true) ∧
      Owes (sent ++ (inputs.takeWhile fun i => !i.act.shuts).flatMap fun i => i.act.sendData)
        c' := by
  induction inputs generalizing c sent with
  | nil =>
    obtain rfl : c = c' := Option.some.inj hr
    exact Or.inl ⟨by simp, h⟩
  | cons i inputs ih =>
    have htail : ∀ j ∈ inputs, j.act.quiet = true :=
      fun j hj => hquiet j (List.mem_cons_of_mem i hj)
    cases hshuts : i.act.shuts with
    | true =>
      refine Or.inr ⟨⟨i, List.mem_cons_self, hshuts⟩, ?_⟩
      rw [List.takeWhile_cons_of_neg (by simp [hshuts]), List.flatMap_nil, List.append_nil]
      exact (h.owes hsent).run hquiet hr
    | false =>
      obtain ⟨d, hd, hr⟩ := run_cons.mp hr
      have hstand := h.step (hquiet i List.mem_cons_self) hshuts hd
      have hout := step_output h.coherent hd h.opened
      rw [hsent] at hout
      rw [List.takeWhile_cons_of_pos (by simp [hshuts]), List.flatMap_cons, ← List.append_assoc]
      rcases ih hstand hout htail hr with ⟨hnone, hc⟩ | ⟨⟨j, hj, hjs⟩, howes⟩
      · exact Or.inl ⟨by simpa [hshuts] using hnone, hc⟩
      · exact Or.inr ⟨⟨j, List.mem_cons_of_mem i hj, hjs⟩, howes⟩

end ConnState

/-! ### The server -/

def ServerAct.isShutdown (k : Nat) : ServerAct → Bool
  | .call _ j .shutdown _ => j = k
  | _ => false

variable {k : Nat}

theorem mem_calledOps {P : ConnOp → Bool} {op : ConnOp} {acts : List ServerAct} :
    op ∈ calledOps P k acts ↔
    P op = true ∧ ∃ thread hasTimer, .call thread k op hasTimer ∈ acts := by
  rw [calledOps, List.mem_flatMap]
  constructor
  · rintro ⟨a, ha, hop⟩
    cases a with
    | call thread j op' hasTimer =>
      simp only [ServerAct.calls] at hop
      split at hop
      · rename_i hj
        subst hj
        rw [Act.calls] at hop
        split at hop
        · obtain rfl := List.mem_singleton.mp hop
          exact ⟨‹_›, thread, hasTimer, ha⟩
        · exact absurd hop List.not_mem_nil
      · exact absurd hop List.not_mem_nil
    | _ => exact absurd hop List.not_mem_nil
  · rintro ⟨hop, thread, hasTimer, ha⟩
    refine ⟨_, ha, ?_⟩
    rw [ServerAct.calls, if_pos rfl, Act.calls, if_pos hop]
    exact List.mem_singleton_self op

/-- The calls before the first `Shutdown` are those of the steps before it. -/
theorem calledOps_takeWhile (k : Nat) (acts : List ServerAct) :
    (calledOps ConnOp.isOutput k acts).takeWhile (· != .shutdown) =
      calledOps ConnOp.isOutput k (acts.takeWhile fun a => !a.isShutdown k) := by
  refine takeWhile_flatMap ?_ ?_
  · intro a _ ha op hop
    cases a with
    | call thread j op' hasTimer =>
      simp only [ServerAct.calls, Act.calls] at hop
      cases op' <;> simp_all [ServerAct.isShutdown, ConnOp.isOutput]
    | _ => exact absurd hop List.not_mem_nil
  · intro a _ ha
    cases a with
    | call thread j op hasTimer =>
      cases op with
      | shutdown =>
        obtain rfl : j = k := by simpa [ServerAct.isShutdown] using ha
        exact ⟨.shutdown, [], if_pos rfl, rfl⟩
      | _ => exact absurd ha (by simp [ServerAct.isShutdown])
    | _ => exact absurd ha (by simp [ServerAct.isShutdown])

/-- And so it is with the inputs of a connection, when nothing else shuts it down. -/
theorem inputs_takeWhile {inputs : List Input}
    (h : ∀ i ∈ inputs, i.act.shuts = true → i.act = .call .shutdown) :
    (inputs.flatMap fun i => i.act.calls ConnOp.isOutput).takeWhile (· != .shutdown) =
      (inputs.takeWhile fun i => !i.act.shuts).flatMap fun i => i.act.calls ConnOp.isOutput := by
  refine takeWhile_flatMap ?_ ?_
  · intro i _ hi op hop
    cases hact : i.act with
    | call op' =>
      rw [hact] at hi hop
      cases op' <;> simp_all [Act.calls, Act.shuts, ConnOp.isOutput]
    | _ => exact absurd (hact ▸ hop) List.not_mem_nil
  · intro i hi hshuts
    rw [h i hi (by simpa using hshuts)]
    exact ⟨.shutdown, [], rfl, rfl⟩

namespace TcpServer

variable {s : TcpServer}

/-- **A graceful shutdown loses nothing.**  In every run of the server, whatever else goes on in it:
take a connection that no thread releases, whose own loop leaves sending and shutting down to the
others, and on which nothing breaks: no failed `send`, no error event, no end of the stream.  If its
socket is closed, then somebody has called `Shutdown`, and the kernel has taken, in order, all that
was sent in calls before the first one. -/
theorem shutdown_loses_nothing (settings : Settings) (acts : List ServerAct) (s : TcpServer)
    (hr : Lib.run step (new settings) acts = some s) (k : Nat)
    (hforeign : Each step (ForeignOps ConnOp.isOutput k) (new settings) acts)
    (hrelease : ∀ thread hasTimer, .call thread k .release hasTimer ∉ acts)
    (hown : ∀ i ∈ ownInputs k acts, i.act.quiet = true ∧ i.act.shuts = false)
    (m : Member) (hm : s.made[k]? = some m) (hclosed : m.state.conn.socketOpen = false) :
    (∃ a ∈ acts, a.isShutdown k = true) ∧
      calledBytes k (acts.takeWhile fun a => !a.isShutdown k) <+: acceptedBytes m.state.log := by
  have hP : HasSends ConnOp.isOutput := fun _ => rfl
  have hhist :=
    (history_new ConnOp.isOutput settings k).run ⟨rfl, fun _ => rfl⟩ (wired_new settings)
    hforeign hr
  obtain ⟨done, ⟨connId, sockfd, callbacks, inputs, hrun, hfilter, hdone⟩, hcalled⟩ := hhist.past hm
  rw [List.append_nil, List.nil_append] at hcalled
  rw [List.nil_append] at hfilter
  -- an input is one of its own or a call that has been made
  have hcase : ∀ i ∈ inputs, i ∈ ownInputs k acts ∨ ∃ op, i.act = .call op ∧ op ≠ .release := by
    intro i hi
    cases hact : i.act with
    | call op =>
      refine Or.inr ⟨op, rfl, ?_⟩
      rintro rfl
      have hmem : ConnOp.release ∈ done := by
        rw [← hdone, List.mem_flatMap]
        exact ⟨i, hi, by rw [hact]; exact List.mem_singleton_self _⟩
      have hmade : ConnOp.release ∈ calledOps ConnOp.isOutput k acts :=
        hcalled ▸ List.mem_append_left _ hmem
      obtain ⟨-, thread, hasTimer, ha⟩ := mem_calledOps.mp hmade
      exact hrelease thread hasTimer ha
    | _ => exact Or.inl (hfilter ▸ List.mem_filter.mpr ⟨hi, by rw [hact]; rfl⟩)
  have hquiet : ∀ i ∈ inputs, i.act.quiet = true := by
    intro i hi
    rcases hcase i hi with hmine | ⟨op, hact, hop⟩
    · exact (hown i hmine).1
    · rw [hact]
      cases op <;> first | rfl | exact absurd rfl hop
  have hshuts : ∀ i ∈ inputs, i.act.shuts = true → i.act = .call .shutdown := by
    intro i hi hs
    rcases hcase i hi with hmine | ⟨op, hact, -⟩
    · exact absurd ((hown i hmine).2.symm.trans hs) (by simp)
    · rw [hact] at hs ⊢
      cases op <;> first | rfl | exact absurd hs (by simp [Act.shuts])
  have hstand := ConnState.standing_fresh connId sockfd callbacks
  rcases hstand.run rfl hquiet hrun with ⟨-, hopen⟩ | ⟨⟨i, hi, hs⟩, howes⟩
  · exact absurd (hopen.opened.symm.trans hclosed) (by simp)
  · have hmem : ConnOp.shutdown ∈ done := by
      rw [← hdone, List.mem_flatMap]
      exact ⟨i, hi, by rw [hshuts i hi hs]; exact List.mem_singleton_self _⟩
    constructor
    · obtain ⟨-, thread, hasTimer, ha⟩ := mem_calledOps.mp (hcalled ▸ List.mem_append_left _ hmem)
      exact ⟨_, ha, decide_eq_true rfl⟩
    · have hbytes : calledBytes k (acts.takeWhile fun a => !a.isShutdown k) =
          (inputs.takeWhile fun i => !i.act.shuts).flatMap fun i => i.act.sendData := by
        rw [← hP.called, ← calledOps_takeWhile, ← hcalled, takeWhile_append_of_mem ⟨_, hmem, rfl⟩,
          ← hdone, inputs_takeWhile hshuts, hP.inputs]
      rw [hbytes]
      exact howes.paid hclosed

/-- Two bytes and the shutdown behind them, from another thread; the kernel takes them one at a
time. -/
theorem shutdown_loses_nothing_two :
    ∃ acts s m, Lib.run step (new ⟨1, none, false, false, false⟩) acts = some s ∧
    s.made[0]? = some m ∧
      m.state.conn.socketOpen = false ∧
      calledBytes 0 (acts.takeWhile fun a => !a.isShutdown 0) = [104, 105] ∧
      (∃ a ∈ acts, a.isShutdown 0 = true) ∧
      calledBytes 0 (acts.takeWhile fun a => !a.isShutdown 0) <+: acceptedBytes m.state.log := by
  let acts : List ServerAct :=
    [.accept 5, .advance false, .advance false, .runTask (.worker 0) false,
      .call none 0 (.send [104, 105]) false, .call none 0 .shutdown false,
      .runTask (.worker 0) false,
      .runTask (.worker 0) false] ++
    ([.resume, .setREvents EPOLLOUT, .handleEvent, .resume, .resume, .send (.sent 1),
      .handleEvent, .resume,
      .resume, .send (.sent 1), .resume].map fun a => .conn 0 ⟨a, false⟩)
  have hrun : (run step (new ⟨1, none, false, false, false⟩) acts).bind
      (fun s => (s.made[0]?).map fun m =>
      m.state.conn.socketOpen) = some false := by
    decide +kernel
  obtain ⟨s, hs, hp⟩ := Option.bind_eq_some_iff.mp hrun
  obtain ⟨m, hm, hclosed⟩ := Option.map_eq_some_iff.mp hp
  have hown : ∀ i ∈ ownInputs 0 acts, i.act.quiet = true ∧ i.act.shuts = false := by decide +kernel
  exact ⟨acts, s, m, hs, hm, hclosed, rfl,
    shutdown_loses_nothing ⟨1, none, false, false, false⟩ acts s hs 0
      (each_foreignOps (by simp [acts]))
      (by simp [acts]) hown m hm hclosed⟩

end TcpServer

end Flux
