import Flux.Reactor.Descriptors

/-!
# Connected before the first message

`EstablishedInLoop` switches the read interest on and only then calls the connected callback; what
the user sets up there, a context above all, the message callback takes for granted.  In between,
code in other threads may send, shut down and release, events may be reported for the write interest
and for errors, and both of these end in a message callback if there is input.

* `Connection.Deaf`: nothing can have come in, and nothing is watched for.
* `ConnState.Introduced`: the connected callback is called once at most, and up to then the
  connection is deaf.
* `TcpServer.message_after_connected`: so it is on every connection of a server, as long as the
  poller reports input only where input is watched for.
-/

namespace Flux

open Lib

def readBits (events : BitVec 32) : Bool :=
  hasBits events EPOLLIN || hasBits events EPOLLRDHUP || hasBits events EPOLLPRI

/-- No `b` without an `a` before it. -/
def Precedes {α : Type} (a b : α) (l : List α) : Prop := ∀ pre post, l = pre ++ b :: post → a ∈ pre

theorem Precedes.append {α : Type} {a b : α} {l more : List α} (h : Precedes a b l)
    (hmore : b ∈ more → a ∈ l) : Precedes a b (l ++ more) := by
  intro pre post he
  rcases List.append_eq_append_iff.mp he with ⟨mid, rfl, hm⟩ | ⟨mid, rfl, hm⟩
  · exact List.mem_append_left _ (hmore (hm ▸ by simp))
  · cases mid with
    | nil =>
      rw [List.nil_append] at hm
      rw [List.append_nil] at h hmore
      exact hmore (hm ▸ List.mem_cons_self)
    | cons x mid =>
      obtain ⟨rfl, -⟩ := List.cons.inj hm
      exact h pre mid rfl

/-! ### Deaf connections -/

namespace Connection

/-- Nothing has come in and nothing is watched for. -/
structure Deaf (c : Connection) : Prop where
  revents : readBits c.channel.revents = false
  readAble : c.channel.readAble = false
  inBuffer : c.inBuffer.readAbleSize = 0

end Connection

/-- And nothing is about to be read. -/
structure Exec.Deaf (e : Exec) : Prop where
  conn : e.conn.Deaf
  frames : .recv ∉ e.frames

theorem Channel.enableWrite_readAble (c : Channel) : c.enableWrite.readAble = c.readAble := by
  have hdisj : EPOLLIN &&& EPOLLOUT = 0#32 := by decide
  rw [readAble, hasBits, enableWrite, BitVec.and_comm, BitVec.and_or_distrib_left, hdisj,
    BitVec.or_zero, BitVec.and_comm]
  rfl

theorem Channel.disableWrite_readAble (c : Channel) : c.disableWrite.readAble = c.readAble := by
  have hkeep : ~~~EPOLLOUT &&& EPOLLIN = EPOLLIN := by decide
  rw [readAble, hasBits, disableWrite, BitVec.and_assoc, hkeep]
  rfl

namespace Connection.Deaf

variable {c : Connection}

theorem invoke (h : c.Deaf) {k : Callback} {isSet : Bool} {behind : List Frame}
    (hb : .recv ∉ behind) :
    (c.invoke k isSet behind).Deaf := by
  refine ⟨by rwa [invoke_conn], fun hm => ?_⟩
  rcases mem_invoke hm with heq | hm
  · exact absurd heq (by simp)
  · exact hb hm

theorem enableWrite (h : c.Deaf) : Deaf { c with channel := c.channel.enableWrite } :=
  ⟨h.revents, (Channel.enableWrite_readAble _).trans h.readAble, h.inBuffer⟩

/-- **A segment leaves a deaf connection deaf**, if it is neither given events of the read interest
nor data, nor establishes the connection. -/
theorem exec (h : c.Deaf) {seg : Segment} {hasTimer : Bool} {e : Exec}
    (he : seg.exec c hasTimer = some e) (hevents : ∀ events, seg = .setREvents events →
      readBits events = false) (hdata : ∀ data, seg ≠ .recvData data)
    (hlate : seg = .establishedInLoop → c.statu ≠ .connecting) : e.Deaf := by
  have hquiet : ∀ obs, Exec.Deaf ⟨c, [], obs⟩ := fun _ => ⟨h, List.not_mem_nil⟩
  cases seg with
  | setREvents events =>
    obtain rfl := Option.some.inj he
    exact ⟨⟨hevents events rfl, h.readAble, h.inBuffer⟩, List.not_mem_nil⟩
  | handleEvent =>
    obtain rfl := Option.some.inj he
    have hinv : (c.invoke .anyEvent c.callbacks.anyEvent [.readTest]).Deaf := h.invoke (by simp)
    exact ⟨hinv.conn, hinv.frames⟩
  | readTest =>
    obtain rfl := Option.some.inj he
    have hrev := h.revents
    unfold readBits at hrev
    rw [Connection.readTest, hrev]
    exact ⟨h, by simp⟩
  | writeTest =>
    obtain rfl := Option.some.inj he
    have hclose : c.handleClose.Deaf := h.invoke (by simp)
    unfold Connection.writeTest
    split
    · exact ⟨h, by simp⟩
    · split
      · exact hclose
      · split
        · exact hclose
        · exact hquiet _
  | recvAgain =>
    simp only [Segment.exec] at he
    split at he
    · obtain rfl := Option.some.inj he
      exact hquiet _
    · exact absurd he (by simp)
  | recvData data => exact absurd rfl (hdata data)
  | sent n =>
    cases Segment.exec_effect he with
    | inert _ kind => exact absurd kind Bool.false_ne_true
    | sentSome => exact ⟨⟨h.revents, h.readAble, h.inBuffer⟩, List.not_mem_nil⟩
    | sentAll =>
      refine ⟨⟨h.revents, (Channel.disableWrite_readAble _).trans h.readAble, h.inBuffer⟩, ?_⟩
      show _ ∉ ite _ _ _
      split <;> simp
  | sendAgain =>
    obtain rfl := Option.some.inj he
    exact hquiet _
  | sendFailed =>
    obtain rfl := Option.some.inj he
    exact h.invoke (by simp)
  | establishedInLoop =>
    cases Segment.exec_effect he with
    | inert _ kind => exact absurd kind Bool.false_ne_true
    | established statu => exact absurd statu (hlate rfl)
    | establishedLate => exact hquiet _
  | sendInLoop buf =>
    cases Segment.exec_effect he with
    | inert _ kind => exact absurd kind Bool.false_ne_true
    | sendDropped => exact hquiet _
    | sendAppended => exact ⟨⟨h.revents, h.readAble, h.inBuffer⟩, List.not_mem_nil⟩
    | sendEnabled =>
      exact ⟨⟨h.revents, (Channel.enableWrite_readAble _).trans h.readAble, h.inBuffer⟩,
        List.not_mem_nil⟩
  | shutdownInLoop =>
    obtain rfl := Option.some.inj he
    have hst : Connection.Deaf { c with statu := .disconnecting } :=
      ⟨h.revents, h.readAble, h.inBuffer⟩
    have hinv : (Connection.invoke { c with statu := .disconnecting } .message
      (decide (0 < c.inBuffer.readAbleSize)) [.shutdownTail]).Deaf := hst.invoke (by simp)
    exact ⟨hinv.conn, hinv.frames⟩
  | shutdownTail =>
    cases Segment.exec_effect he with
    | inert _ kind => exact absurd kind Bool.false_ne_true
    | shutdownDone => exact ⟨h, by simp⟩
    | shutdownWaits => exact hquiet _
    | shutdownEnables => exact ⟨h.enableWrite, List.not_mem_nil⟩
  | releaseInLoop =>
    obtain rfl := Option.some.inj he
    refine ⟨?_, ?_⟩
    · rw [releaseInLoop_conn]
      exact ⟨h.revents, h.readAble, h.inBuffer⟩
    · rw [releaseInLoop_frames]
      split <;> simp
  | releaseTail =>
    obtain rfl := Option.some.inj he
    exact h.invoke List.not_mem_nil
  | enableInactiveReleaseInLoop sec =>
    obtain rfl := Option.some.inj he
    exact ⟨⟨h.revents, h.readAble, h.inBuffer⟩, List.not_mem_nil⟩
  | cancelInactiveReleaseInLoop =>
    obtain rfl := Option.some.inj he
    exact ⟨⟨h.revents, h.readAble, h.inBuffer⟩, List.not_mem_nil⟩
  | consume n =>
    obtain ⟨hn, rfl⟩ := Segment.consume_exec he
    refine ⟨⟨h.revents, h.readAble, ?_⟩, List.not_mem_nil⟩
    have hin := h.inBuffer
    rw [Buffer.moveReadOffset_readAbleSize]
    omega
  | ret =>
    obtain rfl := Option.some.inj he
    exact hquiet _

end Connection.Deaf

/-! ### One connection -/

/-- **A connection and its connected callback.** -/
structure ConnState.Introduced (c : ConnState) : Prop where
  /-- Up to the callback nothing comes in. -/
  deaf : .callback .connected ∉ c.log → c.conn.Deaf ∧ .recv ∉ c.stack
  late : .callback .connected ∈ c.log → c.conn.statu ≠ .connecting
  once : c.log.count (.callback .connected) ≤ 1
  first : Precedes (.callback .connected) (.callback .message) c.log

def Act.reportsRead : Act → Bool
  | setREvents events => readBits events
  | _ => false

def ConnState.Heeds (c : ConnState) (i : Input) : Prop :=
  i.act.reportsRead = true → c.conn.channel.readAble = true

instance (c : ConnState) (i : Input) : Decidable (c.Heeds i) := inferInstanceAs (Decidable (_ → _))

/-- No segment makes a connection a new one. -/
theorem Segment.exec_connecting {c : Connection} {hasTimer : Bool} {seg : Segment} {e : Exec}
    (h : seg.exec c hasTimer = some e) (hst : e.conn.statu = .connecting) :
    c.statu = .connecting := by
  cases Segment.exec_effect h with
  | inert is => exact is.same.statu.symm.trans hst
  | established statu => exact statu
  | release =>
    rw [Connection.releaseInLoop_conn] at hst
    exact absurd hst (by simp)
  | shutdown => exact absurd hst (by simp)
  | _ => exact hst

theorem establishedInLoop_shows {c : Connection} (hst : c.statu = .connecting)
    (hset : c.callbacks.connected = true) : c.establishedInLoop.obs = [.establishedInLoop,
      .setStatu .connected, .updateEvent c.channel.enableRead.events, .callback .connected] ∧
    c.establishedInLoop.conn.statu = .connected := by
  simp [Connection.establishedInLoop, Connection.invoke, hst, hset]

namespace ConnState

variable {c c' : ConnState} {i : Input}

theorem introduced_fresh (id fd : Nat) (callbacks : Callbacks) :
    (fresh id fd callbacks).Introduced where
  deaf _ :=
    ⟨⟨by simp [readBits, fresh, Connection.new, Channel.new], hasBits_zero _, rfl⟩,
      List.not_mem_nil⟩
  late h := absurd h List.not_mem_nil
  once := Nat.zero_le _
  first := by
    intro pre post h
    exact absurd h.symm (by simp [fresh])

/-- Behind its connected callback a connection is not introduced again. -/
theorem Introduced.behind {seg : Segment} {rest : List Frame} {e : Exec} (h : c.Introduced)
    (hin : .callback .connected ∈ c.log) (he : seg.exec c.conn i.hasTimer = some e) :
    Introduced ⟨e.conn, e.frames ++ rest, c.log ++ e.obs⟩ := by
  have hno : .callback .connected ∉ e.obs := by
    rw [Segment.exec_calls he]
    intro hcalls
    cases seg <;> simp [Segment.calls] at hcalls
    exact h.late hin hcalls.1
  refine ⟨fun hn => absurd (List.mem_append_left _ hin) hn, ?_, ?_, ?_⟩
  · intro _ hst
    exact h.late hin (Segment.exec_connecting he hst)
  · rw [List.count_append, List.count_eq_zero_of_not_mem hno]
    exact h.once
  · exact h.first.append fun _ => hin

/-- Up to it, a segment leaves the connection deaf or calls it. -/
theorem Introduced.ahead {seg : Segment} {rest : List Frame} {e : Exec} (h : c.Introduced)
    (hset : c.conn.callbacks.connected = true) (hin : .callback .connected ∉ c.log)
    (hcomes : Comes c.stack i.act seg rest) (hheeds : c.Heeds i)
    (he : seg.exec c.conn i.hasTimer = some e) :
    Introduced ⟨e.conn, e.frames ++ rest, c.log ++ e.obs⟩ := by
  obtain ⟨hdeaf, hstack⟩ := h.deaf hin
  have hdata : ∀ data, seg ≠ .recvData data := by
    rintro data rfl
    exact hstack (hcomes.cause.2 ▸ List.mem_cons_self)
  have hmessage : .callback .message ∉ e.obs := by
    rw [Segment.exec_calls he]
    intro hcalls
    have hnone := hdeaf.inBuffer
    cases seg with
    | recvData data => exact hdata data rfl
    | shutdownInLoop | sendFailed =>
      have hpos := hcalls.2
      omega
    | writeTest =>
      have hpos := hcalls.2.1
      omega
    | _ => simp [Segment.calls] at hcalls
  have hzero : c.log.count (.callback .connected) = 0 := List.count_eq_zero_of_not_mem hin
  have hfirst : Precedes (.callback .connected) (.callback .message) (c.log ++ e.obs) :=
    h.first.append fun hm => absurd hm hmessage
  by_cases hest : seg = .establishedInLoop ∧ c.conn.statu = .connecting
  · obtain ⟨rfl, hst⟩ := hest
    obtain rfl := Option.some.inj he
    obtain ⟨hobs, hstatu⟩ := establishedInLoop_shows hst hset
    refine ⟨fun hn => absurd (List.mem_append_right _ (by rw [hobs]; simp)) hn, ?_, ?_, hfirst⟩
    · intro _
      rw [hstatu]
      simp
    · rw [List.count_append, hzero, hobs]
      simp
  · have hno : .callback .connected ∉ e.obs := by
      rw [Segment.exec_calls he]
      intro hcalls
      cases seg <;> simp [Segment.calls] at hcalls
      exact hest ⟨rfl, hcalls.1⟩
    have hevents : ∀ events, seg = .setREvents events → readBits events = false := by
      rintro events rfl
      by_contra hread
      have hreports : i.act.reportsRead = true := by
        have hact : i.act = .setREvents events := hcomes.cause
        rw [hact]
        exact Bool.not_eq_false _ ▸ hread
      have hwatched := hheeds hreports
      exact absurd (hwatched.symm.trans hdeaf.readAble) (by simp)
    obtain ⟨hconn, hframes⟩ := hdeaf.exec he hevents hdata fun hseg hst => hest ⟨hseg, hst⟩
    refine ⟨fun _ => ⟨hconn, ?_⟩, ?_, ?_, hfirst⟩
    · rw [List.mem_append, not_or]
      exact ⟨hframes, fun hm => hstack (hcomes.suffix.subset hm)⟩
    · intro hm
      exact absurd hm (by simp [hin, hno])
    · rw [List.count_append, hzero, List.count_eq_zero_of_not_mem hno]
      exact Nat.zero_le _

theorem Introduced.step (h : c.Introduced) (hset : c.conn.callbacks.connected = true)
    (hheeds : c.Heeds i) (hs : c.step i = some c') : c'.Introduced := by
  obtain ⟨seg, rest, e, hseg, he, rfl⟩ := step_eq_some.mp hs
  by_cases hin : .callback .connected ∈ c.log
  · exact h.behind hin he
  · exact h.ahead hset hin (segment_comes hseg) hheeds he

end ConnState

/-! ### The server -/

namespace TcpServer

/-- Every connection has its events reported as it asked. -/
def Heeds (s : TcpServer) : ServerAct → Prop
  | .conn k i => ∀ m ∈ s.made[k]?, m.state.Heeds i
  | _ => True

instance (s : TcpServer) : ∀ a, Decidable (s.Heeds a)
  | .conn k i => inferInstanceAs (Decidable (∀ m ∈ s.made[k]?, m.state.Heeds i))
  | .accept _ | .advance _ | .call _ _ _ _ | .addTimerTask _ | .runTask _ _ => isTrue trivial

/-- **No message before the connected callback.**  In every run of a server whose poller reports
input only on connections that watch for it, each connection with a connected callback is given it
once at most, and no message callback comes before. -/
theorem message_after_connected (settings : Settings) (acts : List ServerAct) (s : TcpServer)
    (hheeds : Each TcpServer.step Heeds (.new settings) acts)
    (hr : run TcpServer.step (.new settings) acts = some s) {k : Nat} {m : Member}
    (hm : s.made[k]? = some m) (hset : m.state.conn.callbacks.connected = true) :
    Precedes (.callback .connected) (.callback .message) m.state.log ∧
      m.state.log.count (.callback .connected) ≤ 1 := by
  let P : ConnState → Prop := fun c => c.conn.callbacks.connected = true → c.Introduced
  have hinv : s.Wired ∧ ∀ {k : Nat} {m : Member}, s.made[k]? = some m → P m.state := by
    refine run_invariant (I := fun s => s.Wired ∧ ∀ {k : Nat} {m : Member}, s.made[k]? = some m →
      P m.state) ?_ ⟨wired_new settings, fun h => absurd h (by simp [new])⟩ hheeds hr
    rintro s a t ⟨hw, hall⟩ hok ht
    refine ⟨hw.step ht, each_made_of ConnState.Heeds (fun id fd callbacks _ => ?_) ?_ ?_
      ?_ hw hall ht⟩
    · exact ConnState.introduced_fresh id fd callbacks
    · intro c i c' hP hi hs hset'
      obtain ⟨seg, rest, e, _, he, rfl⟩ := ConnState.step_eq_some.mp hs
      have hback : c.conn.callbacks.connected = true := (Segment.exec_setUp he).2 ▸ hset'
      exact (hP hback).step hback hi hs
    · intro c op hasTimer h
      exact absurd h Bool.false_ne_true
    · rintro k i x rfl hx
      exact hok x hx
  exact ⟨(hinv.2 hm hset).first, (hinv.2 hm hset).once⟩

/-- A write is reported before the connection is established, and input when it is. -/
theorem message_after_connected_early :
    ∃ acts s m, run TcpServer.step (.new ⟨1, none, true, false, false⟩) acts = some s ∧
      s.made[0]? = some m ∧ .callback .message ∈ m.state.log ∧
      Precedes (.callback .connected) (.callback .message) m.state.log := by
  let acts : List ServerAct :=
    [.accept 5, .advance false, .call (some (.worker 0)) 0 (.send [1]) false,
      .conn 0 ⟨.setREvents EPOLLOUT, false⟩, .conn 0 ⟨.handleEvent, false⟩,
      .conn 0 ⟨.resume, false⟩,
      .conn 0 ⟨.resume, false⟩, .conn 0 ⟨.send (.sent 1), false⟩, .runTask (.worker 0) false,
      .conn 0 ⟨.ret, false⟩, .conn 0 ⟨.setREvents EPOLLIN, false⟩, .conn 0 ⟨.handleEvent, false⟩,
      .conn 0 ⟨.resume, false⟩, .conn 0 ⟨.recv (.data [7]), false⟩]
  have hrun : (run TcpServer.step (.new ⟨1, none, true, false, false⟩) acts).map (fun s =>
      (s.made[0]?).map fun m => (m.state.conn.callbacks.connected,
        decide (.callback .message ∈ m.state.log))) = some (some (true, true)) := by
    decide +kernel
  obtain ⟨s, hs, hp⟩ := Option.map_eq_some_iff.mp hrun
  obtain ⟨m, hm, hp⟩ := Option.map_eq_some_iff.mp hp
  obtain ⟨hset, hmessage⟩ := Prod.mk.inj hp
  exact ⟨acts, s, m, hs, hm, of_decide_eq_true hmessage, (message_after_connected
    ⟨1, none, true, false, false⟩ acts s (by decide +kernel) hs hm hset).1⟩

end TcpServer

end Flux
