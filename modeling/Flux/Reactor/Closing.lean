import Flux.Reactor.ConnectionRun

/-!
# After the close

`ReleaseInLoop` has no guard on the status, and neither has `ShutdownInLoop`: both run again on a
connection that is already released.  This file says exactly what comes of it.

`closedOnce_iff` is about callbacks: in a run the closed callback is invoked at most once, and the
message callback never after it, exactly when behind the closed callback no call of `Release` is
made or left to be made, and no failure (`Shutdown`, a `recv`, a `send`, an error event) finds input
unread.  `disconnected_final_iff` is about the connection itself: what `ReleaseInLoop` has left
stays so exactly when no later step enters `ShutdownInLoop`.
-/

namespace Flux

open Lib

/-! ### Which segments invoke which callback -/

def Segment.calls (c : Connection) (k : Callback) : Segment → Prop
  | handleEvent => k = .anyEvent ∧ c.callbacks.anyEvent = true
  | establishedInLoop => k = .connected ∧ c.statu = .connecting ∧ c.callbacks.connected = true
  | releaseInLoop => k = .closed ∧ c.callbacks.closed = true
  | releaseTail => k = .srvClosed ∧ c.callbacks.srvClosed = true
  | shutdownInLoop | sendFailed => k = .message ∧ 0 < c.inBuffer.readAbleSize
  | writeTest => k = .message ∧ 0 < c.inBuffer.readAbleSize ∧
      hasBits c.channel.revents EPOLLOUT = false ∧
      (hasBits c.channel.revents EPOLLERR = true ∨ hasBits c.channel.revents EPOLLHUP = true)
  | recvData _ => k = .message
  | _ => False

theorem mem_invoke_obs {c : Connection} {k k' : Callback} {isSet : Bool} {behind : List Frame} :
    .callback k' ∈ (c.invoke k isSet behind).obs ↔ k' = k ∧ isSet = true := by
  rw [Connection.invoke_obs]
  cases isSet <;> simp

theorem mem_invokeMessage_obs {c : Connection} {k : Callback} {behind : List Frame} :
    .callback k ∈ (c.invokeMessage behind).obs ↔ k = .message ∧ 0 < c.inBuffer.readAbleSize := by
  rw [Connection.invokeMessage, mem_invoke_obs, decide_eq_true_eq]

theorem Connection.writeTest_calls (c : Connection) (k : Callback) :
    .callback k ∈ c.writeTest.obs ↔ Segment.writeTest.calls c k := by
  have hmem : .callback k ∈ c.handleClose.obs ↔ k = .message ∧ 0 < c.inBuffer.readAbleSize :=
    mem_invokeMessage_obs
  simp only [Connection.writeTest, Segment.calls]
  cases hasBits c.channel.revents EPOLLOUT <;> cases hasBits c.channel.revents EPOLLERR <;>
    cases hasBits c.channel.revents EPOLLHUP <;> simp [hmem]

/-- **A segment invokes exactly these callbacks.** -/
theorem Segment.exec_calls {c : Connection} {hasTimer : Bool} {seg : Segment} {e : Exec}
    (h : seg.exec c hasTimer = some e) (k : Callback) : .callback k ∈ e.obs ↔ seg.calls c k := by
  cases seg with
  | recvData data =>
    obtain ⟨buf, _, hpos, rfl⟩ := Segment.recvData_exec h
    rw [mem_invokeMessage_obs]
    exact and_iff_left hpos
  | sendFailed =>
    obtain rfl := Option.some.inj h
    exact mem_invokeMessage_obs
  | shutdownInLoop =>
    obtain rfl := Option.some.inj h
    refine (List.mem_append.trans (or_iff_right ?_)).trans mem_invokeMessage_obs
    simp
  | writeTest =>
    obtain rfl := Option.some.inj h
    exact c.writeTest_calls k
  | handleEvent =>
    obtain rfl := Option.some.inj h
    refine (List.mem_append.trans (or_iff_right ?_)).trans mem_invoke_obs
    split <;> simp
  | releaseTail =>
    obtain rfl := Option.some.inj h
    exact mem_invoke_obs
  | establishedInLoop =>
    obtain rfl := Option.some.inj h
    unfold Connection.establishedInLoop
    split
    · rename_i hst
      simp [calls, hst]
    · rename_i hst
      have hconn : c.statu = .connecting := not_not.mp hst
      refine (List.mem_append.trans (or_iff_right (by simp))).trans (mem_invoke_obs.trans ?_)
      simp [calls, hconn]
  | releaseInLoop =>
    obtain rfl := Option.some.inj h
    rw [Connection.releaseInLoop_obs]
    cases hasTimer <;> cases c.socketOpen <;> cases hcb : c.callbacks.closed <;> simp [calls, hcb]
  | sendInLoop _ | shutdownTail | sent _ =>
    cases Segment.exec_effect h with
    | inert _ kind => exact absurd kind Bool.false_ne_true
    | _ => simp [calls]
  | setREvents _ | sendAgain | ret =>
    obtain rfl := Option.some.inj h
    simp [calls]
  | readTest =>
    obtain rfl := Option.some.inj h
    unfold Connection.readTest
    split <;> simp [calls]
  | recvAgain =>
    obtain rfl := recvAgain_exec h
    simp [calls]
  | enableInactiveReleaseInLoop sec =>
    obtain rfl := Option.some.inj h
    cases hasTimer <;> simp [Connection.enableInactiveReleaseInLoop, calls]
  | cancelInactiveReleaseInLoop =>
    obtain rfl := Option.some.inj h
    cases hasTimer <;> simp [Connection.cancelInactiveReleaseInLoop, calls]
  | consume n =>
    obtain ⟨hn, rfl⟩ := consume_exec h
    simp [calls]

/-! ### Closed once -/

/-- Behind an invocation of the closed callback there is neither another one nor one of the message
callback. -/
def ClosedOnce (log : List Obs) : Prop :=
  log.Pairwise fun o o' => o = .callback .closed →
    o' ≠ .callback .closed ∧ o' ≠ .callback .message

instance (log : List Obs) : Decidable (ClosedOnce log) :=
  inferInstanceAs (Decidable (List.Pairwise _ log))

/-- A segment that invokes the closed callback invokes it once, and no message callback. -/
theorem Segment.exec_closedOnce {c : Connection} {hasTimer : Bool} {seg : Segment} {e : Exec}
    (h : seg.exec c hasTimer = some e) : ClosedOnce e.obs := by
  by_cases hc : .callback .closed ∈ e.obs
  · have hcalls := (Segment.exec_calls h .closed).mp hc
    cases seg with
    | releaseInLoop =>
      obtain rfl := Option.some.inj h
      rw [Connection.releaseInLoop_obs]
      cases c.socketOpen <;> cases hasTimer <;> cases c.callbacks.closed <;> decide
    | _ => simp [Segment.calls] at hcalls
  · refine List.pairwise_iff_forall_sublist.mpr ?_
    intro o o' hsub ho
    exact absurd (hsub.subset (by simp [ho])) hc

namespace ConnState

variable {s t : ConnState} {i : Input} {seg : Segment} {rest : List Frame}

/-- `Release` is called, from outside or by a timer that expires, or a handler left at its own call
of it goes on. -/
def AtRelease (s : ConnState) (i : Input) : Prop :=
  i.act = .call .release ∨ i.act = .resume ∧ s.stack.head? = some .releaseCall

/-- A `Shutdown` call, a `recv` or a `send` that fails, or `HandleEvent` behind its read block with
`EPOLLERR` or `EPOLLHUP` reported and `EPOLLOUT` not. -/
def AtFailure (s : ConnState) (i : Input) : Prop :=
  i.act.shuts = true ∨ i.act = .send (.error false) ∨
    (i.act = .resume ∧ s.stack.head? = some .writeTest) ∧
      hasBits s.conn.channel.revents EPOLLOUT = false ∧
      (hasBits s.conn.channel.revents EPOLLERR = true ∨
        hasBits s.conn.channel.revents EPOLLHUP = true)

theorem atRelease_iff (h : Comes s.stack i.act seg rest) :
    s.AtRelease i ↔ seg = .releaseInLoop := by
  constructor
  · rintro (hact | ⟨hact, htop⟩)
    · rw [hact] at h
      exact (Option.some.inj h.called).symm
    · rw [hact] at h
      exact (Option.some.inj (h.resumed htop)).symm
  · rintro rfl
    exact h.cause.imp id fun ⟨hact, hstack⟩ => ⟨hact, by rw [hstack, List.head?_cons]⟩

theorem atFailure_iff (h : Comes s.stack i.act seg rest) :
    s.AtFailure i ↔ seg = .shutdownInLoop ∨ seg = .sendFailed ∨ seg = .writeTest ∧
      hasBits s.conn.channel.revents EPOLLOUT = false ∧
      (hasBits s.conn.channel.revents EPOLLERR = true ∨
        hasBits s.conn.channel.revents EPOLLHUP = true) := by
  refine or_congr h.shuts_iff (or_congr ?_ (and_congr_left' ?_))
  · refine ⟨fun hact => ?_, fun hseg => (hseg ▸ h).cause.1⟩
    rw [hact] at h
    cases h
    rfl
  · constructor
    · rintro ⟨hact, htop⟩
      rw [hact] at h
      exact (Option.some.inj (h.resumed htop)).symm
    · rintro rfl
      exact ⟨h.cause.1, by rw [h.cause.2, List.head?_cons]⟩

/-- Behind the close of the socket, unread input reaches the message callback by a failure alone. -/
theorem calls_message_iff {e : Exec} (h : Comes s.stack i.act seg rest)
    (hclosed : s.conn.socketOpen = false) (he : seg.exec s.conn i.hasTimer = some e) :
    .callback .message ∈ e.obs ↔ 0 < s.conn.inBuffer.readAbleSize ∧ s.AtFailure i := by
  rw [Segment.exec_calls he, atFailure_iff h]
  cases seg with
  | recvData data =>
    obtain ⟨_, hopen, _⟩ := Segment.recvData_exec he
    exact absurd (hclosed.symm.trans hopen) (by simp)
  | shutdownInLoop | sendFailed | writeTest => simp [Segment.calls]
  | _ => simp [Segment.calls]

/-- Once the closed callback has run, no step comes to a call of `Release`, and none with unread
input to a failure. -/
def StaysClosed (s : ConnState) (i : Input) : Prop :=
  .callback .closed ∈ s.log →
    ¬ s.AtRelease i ∧ (0 < s.conn.inBuffer.readAbleSize → ¬ s.AtFailure i)

/-- What the closed callback shows: it is set, and the socket is closed. -/
def ClosedLogged (s : ConnState) : Prop :=
  .callback .closed ∈ s.log → s.conn.callbacks.closed = true ∧ s.conn.socketOpen = false

theorem ClosedLogged.step (hl : s.ClosedLogged) (hc : s.Coherent) (h : s.step i = some t) :
    t.ClosedLogged := by
  have hkeeps := hc.closed_step h
  obtain ⟨seg, rest, e, hseg, he, rfl⟩ := step_eq_some.mp h
  intro hm
  rw [(Segment.exec_setUp he).2]
  rcases List.mem_append.mp hm with hlog | hobs
  · exact ⟨(hl hlog).1, hkeeps (hl hlog).2⟩
  · have hcalls := (Segment.exec_calls he .closed).mp hobs
    cases seg with
    | releaseInLoop =>
      obtain rfl := Option.some.inj he
      exact ⟨hcalls.2, by rw [Connection.releaseInLoop_conn]⟩
    | _ => simp [Segment.calls] at hcalls

theorem closedOnce_step (hl : s.ClosedLogged) (hq : ClosedOnce s.log) (h : s.step i = some t) :
    ClosedOnce t.log ↔ s.StaysClosed i := by
  obtain ⟨seg, rest, e, hseg, he, rfl⟩ := step_eq_some.mp h
  have hcomes := segment_comes hseg
  have hclosed : .callback .closed ∈ e.obs ↔ seg = .releaseInLoop ∧
      s.conn.callbacks.closed = true := by
    rw [Segment.exec_calls he]
    cases seg <;> simp [Segment.calls]
  rw [ClosedOnce, List.pairwise_append]
  constructor
  · rintro ⟨_, _, hcross⟩ hc
    obtain ⟨hset, hsock⟩ := hl hc
    constructor
    · intro hrel
      have hm := hclosed.mpr ⟨(atRelease_iff hcomes).mp hrel, hset⟩
      exact (hcross _ hc _ hm rfl).1 rfl
    · intro hpos hfail
      have hm := (calls_message_iff hcomes hsock he).mpr ⟨hpos, hfail⟩
      exact (hcross _ hc _ hm rfl).2 rfl
  · intro hstays
    refine ⟨hq, Segment.exec_closedOnce he, ?_⟩
    intro o ho o' ho' hoc
    have hc : .callback .closed ∈ s.log := hoc ▸ ho
    obtain ⟨hrel, hfail⟩ := hstays hc
    constructor
    · rintro rfl
      exact hrel ((atRelease_iff hcomes).mpr (hclosed.mp ho').1)
    · rintro rfl
      obtain ⟨hpos, hf⟩ := (calls_message_iff hcomes (hl hc).2 he).mp ho'
      exact hfail hpos hf

end ConnState

/-- **When a connection is closed once.**  In a run of a connection the closed callback is invoked
at most once and the message callback never after it, exactly when behind the closed callback
`Release` is not called any more, by a handler, a timer or anyone else, and no failure comes while
input is unread. -/
theorem closedOnce_iff (connId sockfd : Nat) (callbacks : Callbacks) (acts : List Input)
    (s : ConnState) (hr : run ConnState.step (.fresh connId sockfd callbacks) acts = some s) :
    ClosedOnce s.log ↔
      Each ConnState.step ConnState.StaysClosed (.fresh connId sockfd callbacks) acts := by
  refine run_iff_each (I := fun s => s.Coherent ∧ s.ClosedLogged) (Q := fun s => ClosedOnce s.log)
    (fun s i t hi h => ⟨hi.1.step h, hi.2.step hi.1 h⟩) ?_ ?_ ?_ ?_ ?_ hr
  · intro s i t h hq
    exact hq.sublist (ConnState.step_log h).sublist
  · intro s i t hi hq hok h
    exact (ConnState.closedOnce_step hi.2 hq h).mpr hok
  · intro s i t hi hq h hqt
    exact (ConnState.closedOnce_step hi.2 hq h).mp hqt
  · exact ⟨ConnState.coherent_fresh .., fun h => absurd h (by simp [ConnState.fresh])⟩
  · exact List.Pairwise.nil

/-- A run in which the peer closes and nothing else is reported. -/
theorem closedOnce_iff_close :
    ∃ acts s, run ConnState.step (.fresh 1 5 ⟨false, true, false, false⟩) acts = some s ∧
      .callback .closed ∈ s.log ∧ (ClosedOnce s.log ↔
        Each ConnState.step ConnState.StaysClosed (.fresh 1 5 ⟨false, true, false, false⟩)
          acts) := by
  let acts : List Input :=
    [.call .established, .setREvents (EPOLLIN ||| EPOLLRDHUP), .handleEvent, .resume, .recv .closed,
      .resume, .resume, .ret, .resume, .resume].map fun a => ⟨a, false⟩
  have hrun : (run ConnState.step (.fresh 1 5 ⟨false, true, false, false⟩) acts).map
      (fun s => decide (.callback .closed ∈ s.log)) = some true := by
    decide +kernel
  obtain ⟨s, hs, hp⟩ := Option.map_eq_some_iff.mp hrun
  exact ⟨acts, s, hs, of_decide_eq_true hp,
    closedOnce_iff 1 5 ⟨false, true, false, false⟩ acts s hs⟩

/-- The peer hangs up: `EPOLLIN` and `EPOLLHUP` are reported together, the failed read releases the
connection, and `HandleEvent` goes on to `HandleClose`, which releases it again. -/
theorem closedOnce_hangup :
    ¬ ∀ (connId sockfd : Nat) (callbacks : Callbacks) (acts : List Input) (s : ConnState),
      run ConnState.step (.fresh connId sockfd callbacks) acts = some s → ClosedOnce s.log := by
  intro h
  let acts : List Input :=
    [.call .established, .setREvents (EPOLLIN ||| EPOLLRDHUP ||| EPOLLHUP), .handleEvent, .resume,
      .recv .closed, .resume, .resume, .ret, .resume, .resume, .resume].map fun a => ⟨a, false⟩
  have hrun : (run ConnState.step (.fresh 1 5 ⟨false, true, false, false⟩) acts).map
      (fun s => decide (ClosedOnce s.log)) = some false := by
    decide +kernel
  obtain ⟨s, hs, hp⟩ := Option.map_eq_some_iff.mp hrun
  exact of_decide_eq_false hp (h 1 5 ⟨false, true, false, false⟩ acts s hs)

/-! ### What a release leaves -/

/-- A status other than `DISCONNECTED`, an append to the output or an update of the interest. -/
def Obs.revives : Obs → Bool
  | setStatu st => st != .disconnected
  | append _ | updateEvent _ => true
  | _ => false

theorem Obs.revives_of_plain {o : Obs} (h : o.plain = true) : o.revives = false := by
  cases o <;> first | rfl | exact absurd h Bool.false_ne_true

/-- **A segment of a released connection** revives it exactly when it is `ShutdownInLoop`. -/
theorem Segment.exec_revives {c : Connection} {hasTimer : Bool} {seg : Segment} {e : Exec}
    (hclosed : c.socketOpen = false) (hst : c.statu = .disconnected)
    (hw : c.outBuffer.unread ≠ [] → c.channel.writeAble = true)
    (h : seg.exec c hasTimer = some e) :
    ((∀ o ∈ e.obs, o.revives = false) ↔ seg ≠ .shutdownInLoop) ∧
      (seg ≠ .shutdownInLoop → e.conn.statu = .disconnected) := by
  cases Segment.exec_effect h with
  | inert is kind =>
    refine ⟨iff_of_true (fun o ho => Obs.revives_of_plain (is.plain o ho)) ?_,
      fun _ => is.same.statu.trans hst⟩
    rintro rfl
    exact absurd kind Bool.false_ne_true
  | established statu => exact absurd (hst.symm.trans statu) (by decide)
  | sendAppended statu | sendEnabled statu => exact absurd hst statu
  | sentSome opened | sentAll opened => exact absurd (hclosed.symm.trans opened) (by decide)
  | shutdownEnables out off => exact absurd ((hw out).symm.trans off) (by decide)
  | shutdown =>
    exact ⟨iff_of_false (fun hall => absurd (hall _ List.mem_cons_self) (by decide)) (by simp),
      fun h => absurd rfl h⟩
  | release closes plain =>
    refine ⟨iff_of_true (fun o ho => ?_) (by simp), fun _ => by rw [Connection.releaseInLoop_conn]⟩
    rw [hclosed, if_neg (by decide)] at closes
    rw [closes, List.append_nil, List.mem_append] at ho
    rcases ho with ho | ho
    · simp only [List.mem_cons, List.not_mem_nil, or_false] at ho
      rcases ho with rfl | rfl | rfl <;> rfl
    · exact Obs.revives_of_plain (plain o ho)
  | establishedLate | sendDropped | shutdownDone | shutdownWaits =>
    exact ⟨iff_of_true (by simp [Obs.revives]) (by simp), fun _ => hst⟩

/-- Behind `ReleaseInLoop` the status stays `DISCONNECTED`, nothing is appended to the output and
the interest is not updated. -/
def DisconnectedFinal (log : List Obs) : Prop :=
  log.Pairwise fun o o' => o = .releaseInLoop → o'.revives = false

instance (log : List Obs) : Decidable (DisconnectedFinal log) :=
  inferInstanceAs (Decidable (List.Pairwise _ log))

/-- Behind a release, no `ShutdownInLoop`. -/
def StaysReleased (s : ConnState) (i : Input) : Prop :=
  .releaseInLoop ∈ s.log → i.act.shuts = false

/-- `ReleaseInLoop` itself revives nothing. -/
theorem Segment.exec_release_final {c : Connection} {hasTimer : Bool} {seg : Segment} {e : Exec}
    (h : seg.exec c hasTimer = some e) (hm : .releaseInLoop ∈ e.obs) :
    (∀ o ∈ e.obs, o.revives = false) ∧ e.conn.statu = .disconnected := by
  cases Segment.exec_effect h with
  | inert is => exact absurd hm (not_mem_of_plain is.plain rfl)
  | established _ plain | shutdown plain =>
    have hno : Obs.releaseInLoop ∉ _ := not_mem_of_plain plain rfl
    exact absurd hm (by simp [hno])
  | release closes plain =>
    refine ⟨?_, by rw [Connection.releaseInLoop_conn]⟩
    intro o ho
    rw [List.mem_append, List.mem_append] at ho
    rcases ho with (ho | ho) | ho
    · simp only [List.mem_cons, List.not_mem_nil, or_false] at ho
      rcases ho with rfl | rfl | rfl <;> rfl
    · rw [closes] at ho
      split at ho
      · rw [List.mem_singleton.mp ho]
        rfl
      · exact absurd ho (by simp)
    · exact Obs.revives_of_plain (plain o ho)
  | _ => exact absurd hm (by simp)

/-- What holds in every state of a run: while nothing was revived, a released connection is
`DISCONNECTED`. -/
structure Settled (s : ConnState) : Prop where
  coherent : s.Coherent
  statu : DisconnectedFinal s.log → .releaseInLoop ∈ s.log → s.conn.statu = .disconnected

theorem disconnectedFinal_step {s t : ConnState} {i : Input} (hs : Settled s)
    (hq : DisconnectedFinal s.log) (h : s.step i = some t) :
    (DisconnectedFinal t.log ↔ StaysReleased s i) ∧
      (StaysReleased s i → .releaseInLoop ∈ t.log → t.conn.statu = .disconnected) := by
  obtain ⟨seg, rest, e, hseg, he, rfl⟩ := ConnState.step_eq_some.mp h
  have henters := (segment_comes hseg).shuts_iff
  by_cases hrel : .releaseInLoop ∈ s.log
  · obtain ⟨hrevives, hstatu⟩ := Segment.exec_revives (hs.coherent.released.mpr hrel)
      (hs.statu hq hrel) hs.coherent.watched he
    have hstays : StaysReleased s i ↔ seg ≠ .shutdownInLoop := by
      rw [StaysReleased, ne_eq, ← henters, Bool.not_eq_true]
      exact ⟨fun h => h hrel, fun h _ => h⟩
    refine ⟨?_, fun hok _ => hstatu (hstays.mp hok)⟩
    rw [hstays, ← hrevives, DisconnectedFinal, List.pairwise_append]
    constructor
    · intro h o ho
      exact h.2.2 _ hrel o ho rfl
    · intro h
      exact ⟨hq, List.pairwise_of_forall_mem_list fun _ _ o ho _ => h o ho,
        fun _ _ o ho _ => h o ho⟩
  · have hstays : StaysReleased s i := fun hm => absurd hm hrel
    refine ⟨iff_of_true ?_ hstays, ?_⟩
    · refine List.pairwise_append.mpr ⟨hq, ?_, fun o ho _ _ h => absurd (h ▸ ho) hrel⟩
      refine List.pairwise_of_forall_mem_list ?_
      intro o ho o' ho' h
      exact (Segment.exec_release_final he (h ▸ ho)).1 o' ho'
    · intro _ hm
      exact (Segment.exec_release_final he ((List.mem_append.mp hm).resolve_left hrel)).2

theorem Settled.step {s t : ConnState} {i : Input} (hs : Settled s) (h : s.step i = some t) :
    Settled t := by
  refine ⟨hs.coherent.step h, ?_⟩
  intro hq hm
  have hqs : DisconnectedFinal s.log := hq.sublist (ConnState.step_log h).sublist
  obtain ⟨hiff, hstatu⟩ := disconnectedFinal_step hs hqs h
  exact hstatu (hiff.mp hq) hm

/-- **When `DISCONNECTED` is final.**  In a run of a connection, once `ReleaseInLoop` has run the
status stays `DISCONNECTED`, nothing is appended to the output and the interest is not updated,
exactly when no step behind the release enters `ShutdownInLoop`. -/
theorem disconnected_final_iff (connId sockfd : Nat) (callbacks : Callbacks) (acts : List Input)
    (s : ConnState) (hr : run ConnState.step (.fresh connId sockfd callbacks) acts = some s) :
    DisconnectedFinal s.log ↔
      Each ConnState.step StaysReleased (.fresh connId sockfd callbacks) acts := by
  refine run_iff_each (I := Settled) (Q := fun s => DisconnectedFinal s.log)
    (fun s i t hi h => hi.step h) ?_ ?_ ?_ ?_ List.Pairwise.nil hr
  · intro s i t h hq
    exact hq.sublist (ConnState.step_log h).sublist
  · intro s i t hi hq hok h
    exact (disconnectedFinal_step hi hq h).1.mpr hok
  · intro s i t hi hq h hqt
    exact (disconnectedFinal_step hi hq h).1.mp hqt
  · exact ⟨ConnState.coherent_fresh .., fun _ h => absurd h (by simp [ConnState.fresh])⟩

/-- A release, and then everything but a shutdown. -/
theorem disconnected_final_iff_calls :
    ∃ acts s, run ConnState.step (.fresh 1 5 ⟨false, true, false, false⟩) acts = some s ∧
      .releaseInLoop ∈ s.log ∧ (DisconnectedFinal s.log ↔
        Each ConnState.step StaysReleased (.fresh 1 5 ⟨false, true, false, false⟩) acts) := by
  let acts : List Input :=
    [.call .established, .call .release, .ret, .resume, .call .established, .call (.send [1]),
      .call (.enableInactiveRelease 10), .call .release].map fun a => ⟨a, false⟩
  have hrun : (run ConnState.step (.fresh 1 5 ⟨false, true, false, false⟩) acts).map
      (fun s => decide (.releaseInLoop ∈ s.log)) = some true := by
    decide +kernel
  obtain ⟨s, hs, hp⟩ := Option.map_eq_some_iff.mp hrun
  exact ⟨acts, s, hs, of_decide_eq_true hp,
    disconnected_final_iff 1 5 ⟨false, true, false, false⟩ acts s hs⟩

/-- A released connection with an unread byte is shut down: the message callback runs again, what it
sends is appended and the interest of the closed descriptor is updated. -/
theorem disconnected_final_shutdown :
    ¬ ∀ (connId sockfd : Nat) (callbacks : Callbacks) (acts : List Input) (s : ConnState),
      run ConnState.step (.fresh connId sockfd callbacks) acts = some s →
      DisconnectedFinal s.log := by
  intro h
  let acts : List Input :=
    [.call .established, .setREvents EPOLLIN, .handleEvent, .resume, .recv (.data [1]),
      .ret, .resume,
      .call .release, .ret, .resume, .call .shutdown, .call (.send [2])].map fun a => ⟨a, false⟩
  have hrun : (run ConnState.step (.fresh 1 5 ⟨false, true, false, false⟩) acts).map
      (fun s => decide (DisconnectedFinal s.log)) = some false := by
    decide +kernel
  obtain ⟨s, hs, hp⟩ := Option.map_eq_some_iff.mp hrun
  exact of_decide_eq_false hp (h 1 5 ⟨false, true, false, false⟩ acts s hs)

end Flux
