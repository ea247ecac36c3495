import Flux.Reactor.ConnectionRun

/-!
# Before the first registration

A connection is enrolled once it has asked the poller for an update.  Up to then it is untouched:
nothing was received or is to be sent, no event was reported, and `EstablishedInLoop` has not been
entered, even when the connection is being shut down already.  `Untouched.step` is what the
isolation of connections needs: a step leaves an untouched connection untouched, enrolled or closed.
-/

namespace Flux

def Act.reports : Act → Bool
  | setREvents _ => true
  | _ => false

/-- The connection has asked the poller for something. -/
def ConnState.Enrolled (c : ConnState) : Prop := ∃ events, .updateEvent events ∈ c.log

/-- The frames of an event that has nothing to report. -/
def Frame.idle : Frame → Bool
  | callback _ | readTest | writeTest => true
  | _ => false

/-- Where an unregistered connection can be: still connecting, or in the middle of a
`ShutdownInLoop` that has no output to wait for. -/
inductive Pending : ConnStatu → List Frame → Prop
  | connecting {stack} (idle : ∀ f ∈ stack, f.idle = true) : Pending .connecting stack
  | shutdown {rest} : Pending .disconnecting (.shutdownTail :: rest)
  | release {rest} : Pending .disconnecting (.releaseCall :: rest)

/-- While user code or the loop runs, it is still connecting. -/
theorem Pending.of_user {st : ConnStatu} {stack : List Frame} (hp : Pending st stack)
    (hu : userRuns stack = true) : st = .connecting ∧ ∀ f ∈ stack, f.idle = true := by
  cases hp with
  | connecting idle => exact ⟨rfl, idle⟩
  | shutdown | release => exact absurd hu Bool.false_ne_true

structure ConnState.Untouched (c : ConnState) : Prop where
  revents : c.conn.channel.revents = 0#32
  writeAble : c.conn.channel.writeAble = false
  inBuffer : c.conn.inBuffer.readAbleSize = 0
  outBuffer : c.conn.outBuffer.readAbleSize = 0
  early : .establishedInLoop ∉ c.log
  pending : Pending c.conn.statu c.stack

namespace ConnState

theorem Enrolled.step {c c' : ConnState} {i : Input} (hc : c.Enrolled) (h : c.step i = some c') :
    c'.Enrolled :=
  hc.imp fun _ hm => (step_log h).subset hm

theorem open_of_step {c c' : ConnState} {i : Input} (h : c.step i = some c')
    (hopen : c'.conn.socketOpen = true) : c.conn.socketOpen = true := by
  obtain ⟨seg, rest, e, _, he, rfl⟩ := step_eq_some.mp h
  cases Segment.exec_effect he with
  | inert is => exact is.same.socketOpen.symm.trans hopen
  | release => exact absurd hopen (by rw [Connection.releaseInLoop_conn]; exact Bool.false_ne_true)
  | _ => exact hopen

theorem untouched_fresh (id fd : Nat) (callbacks : Callbacks) :
    (fresh id fd callbacks).Untouched where
  revents := rfl
  writeAble := hasBits_zero _
  inBuffer := rfl
  outBuffer := rfl
  early := by simp [fresh]
  pending := .connecting (by simp [fresh])

theorem Untouched.of_exec {c : ConnState} {e : Exec} {rest : List Frame} (hu : c.Untouched)
    (channel : e.conn.channel = c.conn.channel) (inBuffer : e.conn.inBuffer.readAbleSize = 0)
    (outBuffer : e.conn.outBuffer = c.conn.outBuffer) (plain : .establishedInLoop ∉ e.obs)
    (pending : Pending e.conn.statu (e.frames ++ rest)) :
    Untouched ⟨e.conn, e.frames ++ rest, c.log ++ e.obs⟩ where
  revents := by rw [channel, hu.revents]
  writeAble := by rw [channel, hu.writeAble]
  inBuffer := inBuffer
  outBuffer := by rw [outBuffer, hu.outBuffer]
  early := fun hm => (List.mem_append.mp hm).elim hu.early plain
  pending := pending

theorem Untouched.call {c : ConnState} {op : ConnOp} {seg : Segment} {e : Exec} {hasTimer : Bool}
    (hu : c.Untouched) (user : userRuns c.stack = true) (enters : op.segment = some seg)
    (he : seg.exec c.conn hasTimer = some e) :
    e.conn.socketOpen = false ∨ (∃ events, .updateEvent events ∈ e.obs) ∨
      Untouched ⟨e.conn, e.frames ++ c.stack, c.log ++ e.obs⟩ := by
  obtain ⟨hst, hidle⟩ := hu.pending.of_user user
  cases op with
  | established =>
    obtain rfl := Option.some.inj enters
    obtain rfl := Option.some.inj he
    exact Or.inr
      (Or.inl ⟨c.conn.channel.enableRead.events, by simp [Connection.establishedInLoop, hst]⟩)
  | send data =>
    obtain ⟨buf, _, rfl⟩ := Option.map_eq_some_iff.mp enters
    cases Segment.exec_effect he with
    | inert _ kind => exact absurd kind Bool.false_ne_true
    | sendDropped statu => exact absurd (hst.symm.trans statu) (by decide)
    | sendAppended _ _ on => exact absurd (hu.writeAble.symm.trans on) Bool.false_ne_true
    | sendEnabled => exact Or.inr (Or.inl ⟨c.conn.channel.enableWrite.events, by simp⟩)
  | shutdown =>
    obtain rfl := Option.some.inj enters
    obtain rfl := Option.some.inj he
    have hframes : c.conn.shutdownInLoop.frames = [.shutdownTail] := by
      simp [Connection.shutdownInLoop, Connection.invokeMessage, Connection.invoke, hu.inBuffer]
    refine Or.inr (Or.inr (hu.of_exec ?_ ?_ ?_ ?_ ?_))
    · simp [Connection.shutdownInLoop]
    · simpa [Connection.shutdownInLoop] using hu.inBuffer
    · simp [Connection.shutdownInLoop]
    · simp [Connection.shutdownInLoop, Connection.invokeMessage, Connection.invoke, hu.inBuffer]
    · rw [hframes, show c.conn.shutdownInLoop.conn.statu = .disconnecting by
        simp [Connection.shutdownInLoop]]
      exact .shutdown
  | release =>
    obtain rfl := Option.some.inj enters
    obtain rfl := Option.some.inj he
    exact Or.inl (by rw [Connection.releaseInLoop_conn])
  | enableInactiveRelease sec =>
    obtain rfl := Option.some.inj enters
    obtain rfl := Option.some.inj he
    refine Or.inr (Or.inr (hu.of_exec rfl hu.inBuffer rfl ?_ hu.pending))
    cases hasTimer <;> simp [Connection.enableInactiveReleaseInLoop]
  | cancelInactiveRelease =>
    obtain rfl := Option.some.inj enters
    obtain rfl := Option.some.inj he
    refine Or.inr (Or.inr (hu.of_exec rfl hu.inBuffer rfl ?_ hu.pending))
    cases hasTimer <;> simp [Connection.cancelInactiveReleaseInLoop]

theorem Untouched.resume {c : ConnState} {f : Frame} {rest : List Frame} {seg : Segment} {e : Exec}
    {hasTimer : Bool} (hu : c.Untouched) (top : c.stack = f :: rest) (goes : f.resumed = some seg)
    (he : seg.exec c.conn hasTimer = some e) :
    e.conn.socketOpen = false ∨ (∃ events, .updateEvent events ∈ e.obs) ∨
      Untouched ⟨e.conn, e.frames ++ rest, c.log ++ e.obs⟩ := by
  have hpend := hu.pending
  rw [top] at hpend
  generalize hst : c.conn.statu = st at hpend
  cases hpend with
  | connecting idle =>
    have hrest : Pending c.conn.statu rest :=
      hst ▸ .connecting fun f hf => idle f (List.mem_cons_of_mem _ hf)
    have hf := idle f List.mem_cons_self
    cases f with
    | readTest =>
      obtain rfl := Option.some.inj goes
      obtain rfl := Option.some.inj he
      have hexec : c.conn.readTest = ⟨c.conn, [.writeTest], []⟩ := by
        simp [Connection.readTest, hu.revents]
      rw [hexec]
      refine Or.inr (Or.inr (hu.of_exec rfl hu.inBuffer rfl (by simp) (hst ▸ .connecting ?_)))
      rintro f (_ | ⟨_, hf⟩)
      · rfl
      · exact idle f (List.mem_cons_of_mem _ hf)
    | writeTest =>
      obtain rfl := Option.some.inj goes
      obtain rfl := Option.some.inj he
      have hexec : c.conn.writeTest = ⟨c.conn, [], []⟩ := by
        simp [Connection.writeTest, hu.revents]
      rw [hexec]
      exact Or.inr (Or.inr (hu.of_exec rfl hu.inBuffer rfl (by simp) hrest))
    | callback => exact absurd goes (by simp [Frame.resumed])
    | _ => exact absurd hf Bool.false_ne_true
  | shutdown =>
    obtain rfl := Option.some.inj goes
    obtain rfl := Option.some.inj he
    have hexec : c.conn.shutdownTail = ⟨c.conn, [.releaseCall], []⟩ := by
      simp [Connection.shutdownTail, hu.outBuffer]
    rw [hexec]
    exact Or.inr (Or.inr (hu.of_exec rfl hu.inBuffer rfl (by simp) (hst ▸ .release)))
  | release =>
    obtain rfl := Option.some.inj goes
    obtain rfl := Option.some.inj he
    exact Or.inl (by rw [Connection.releaseInLoop_conn])

/-- **Up to its first registration** a connection stays as it is until it is released. -/
theorem Untouched.step {c c' : ConnState} {i : Input} (hu : c.Untouched)
    (hi : i.act.reports = false) (h : c.step i = some c') :
    c'.conn.socketOpen = false ∨ c'.Enrolled ∨ c'.Untouched := by
  obtain ⟨seg, rest, e, hseg, he, rfl⟩ := step_eq_some.mp h
  have henrolls : (∃ events, .updateEvent events ∈ e.obs) →
      Enrolled ⟨e.conn, e.frames ++ rest, c.log ++ e.obs⟩ :=
    Exists.imp fun _ hm => List.mem_append_right _ hm
  have hcomes := segment_comes hseg
  generalize i.act = act at hi hcomes
  cases hcomes with
  | setREvents => exact absurd hi.symm Bool.false_ne_true
  | handleEvent top =>
    obtain rfl := Option.some.inj he
    obtain ⟨hst, -⟩ := hu.pending.of_user (by rw [top]; rfl)
    refine Or.inr (Or.inr (hu.of_exec ?_ ?_ ?_ ?_ ?_))
    · simp [Connection.handleEvent]
    · simpa [Connection.handleEvent] using hu.inBuffer
    · simp [Connection.handleEvent]
    · cases hr : c.conn.enableInactiveRelease <;>
        simp [Connection.handleEvent, Connection.invoke_obs, hr]
    · have hconn : c.conn.handleEvent.conn.statu = .connecting := by
        simp [Connection.handleEvent, hst]
      rw [hconn, top]
      refine .connecting ?_
      intro f hf
      rw [List.append_nil] at hf
      rcases Connection.mem_invoke hf with rfl | hf
      · rfl
      · rw [List.mem_singleton.mp hf]
        rfl
  | call user enters => exact (hu.call user enters he).imp_right (Or.imp_left henrolls)
  | consume user =>
    obtain ⟨hn, rfl⟩ := Segment.consume_exec he
    refine Or.inr (Or.inr (hu.of_exec rfl ?_ rfl (by simp) hu.pending))
    have hin := hu.inBuffer
    rw [Buffer.moveReadOffset_readAbleSize]
    omega
  | ret top =>
    obtain rfl := Option.some.inj he
    obtain ⟨hst, hidle⟩ := hu.pending.of_user (by rw [top]; rfl)
    refine Or.inr (Or.inr (hu.of_exec rfl hu.inBuffer rfl (by simp) (hst ▸ .connecting ?_)))
    intro f hf
    exact hidle f (top ▸ List.mem_cons_of_mem _ hf)
  | resume top goes => exact (hu.resume top goes he).imp_right (Or.imp_left henrolls)
  | recv top | send top =>
    have hpend := hu.pending
    rw [top] at hpend
    generalize c.conn.statu = st at hpend
    cases hpend with
    | connecting idle => exact absurd (idle _ List.mem_cons_self) Bool.false_ne_true

end ConnState

end Flux
