import Flux.Lib.Run
import Flux.Reactor.Connection

/-!
# Runs of a connection

A connection with the stack of what it has left to do and the log of what it has done.  An `Act`
is what moves it: the poller reports events and the loop calls `HandleEvent`, user code calls an
operation or takes input while it runs, a callback returns, the kernel answers, or the code goes on
by itself (`resume`).  `segment` says which piece of code an act runs and what stays on the stack
below it; `step` runs it.

Between two acts of one connection anything may happen elsewhere, so a run of this machine is what
one connection sees of any interleaving in its loop.
-/

namespace Flux

open Lib

/-- The public operations of a connection, as they arrive in its loop. -/
inductive ConnOp
  | established
  | send (data : Bytes)
  | shutdown
  | release
  | enableInactiveRelease (sec : Nat)
  | cancelInactiveRelease
deriving DecidableEq, Repr

/-- What `NonBlockRecv` answers: 0, −2, −1 or data. -/
inductive RecvResult
  | again
  | closed
  | error
  | data (data : Bytes)
deriving DecidableEq, Repr

/-- What `NonBlockSend` answers: a count (0 for `EAGAIN`), or −1, with what the test of `errno`
behind it finds. -/
inductive SendResult
  | sent (n : Nat)
  | error (again : Bool)
deriving DecidableEq, Repr

inductive Act
  | setREvents (events : BitVec 32)
  | handleEvent
  | call (op : ConnOp)
  | consume (n : Nat)
  | ret
  | resume
  | recv (r : RecvResult)
  | send (r : SendResult)
deriving DecidableEq, Repr

/-- An act, and what `HasTimer` of the loop answers while it runs. -/
structure Input where
  act : Act
  hasTimer : Bool
deriving DecidableEq, Repr

structure ConnState where
  conn : Connection
  stack : List Frame
  log : List Obs

def ConnState.fresh (connId sockfd : Nat) (callbacks : Callbacks) : ConnState where
  conn := .new connId sockfd callbacks
  stack := []
  log := []

/-- The code of the user, or of the loop outside any handler, is running. -/
def userRuns : List Frame → Bool
  | [] => true
  | .callback _ :: _ => true
  | _ => false

/-- The `InLoop` function behind an operation; `Send` first copies the data into a buffer of its
own, which can go wrong like any other write. -/
def ConnOp.segment : ConnOp → Option Segment
  | established => some .establishedInLoop
  | send data => (Buffer.new.writeAndPush data).map .sendInLoop
  | shutdown => some .shutdownInLoop
  | release => some .releaseInLoop
  | enableInactiveRelease sec => some (.enableInactiveReleaseInLoop sec)
  | cancelInactiveRelease => some .cancelInactiveReleaseInLoop

/-- How the code goes on by itself at a frame. -/
def Frame.resumed : Frame → Option Segment
  | readTest => some .readTest
  | writeTest => some .writeTest
  | shutdownTail => some .shutdownTail
  | releaseCall => some .releaseInLoop
  | releaseTail => some .releaseTail
  | callback _ | recv | send => none

/-- How `HandleRead` goes on: −1 and −2 are both a `ShutdownInLoop`. -/
def RecvResult.segment : RecvResult → Segment
  | again => .recvAgain
  | closed | error => .shutdownInLoop
  | data d => .recvData d

def SendResult.segment : SendResult → Segment
  | sent n => .sent n
  | error again => if again then .sendAgain else .sendFailed

/-- The segment an act runs, and the stack below it.  `none` is an act that cannot happen here. -/
def segment (stack : List Frame) : Act → Option (Segment × List Frame)
  | .setREvents events => if stack = [] then some (.setREvents events, stack) else none
  | .handleEvent => if stack = [] then some (.handleEvent, stack) else none
  | .call op => if userRuns stack then op.segment.map (·, stack) else none
  | .consume n => if userRuns stack then some (.consume n, stack) else none
  | .ret =>
    match stack with
    | .callback _ :: rest => some (.ret, rest)
    | _ => none
  | .resume =>
    match stack with
    | f :: rest => f.resumed.map (·, rest)
    | [] => none
  | .recv r =>
    match stack with
    | .recv :: rest => some (r.segment, rest)
    | _ => none
  | .send r =>
    match stack with
    | .send :: rest => some (r.segment, rest)
    | _ => none

/-- Where a segment comes from: a call while user code or the loop runs, the frame on top going on
by itself, or the frame on top getting what it waits for. -/
inductive Comes (stack : List Frame) : Act → Segment → List Frame → Prop
  | setREvents {events} (top : stack = []) :
      Comes stack (.setREvents events) (.setREvents events) stack
  | handleEvent (top : stack = []) : Comes stack .handleEvent .handleEvent stack
  | call {op seg} (user : userRuns stack = true) (enters : op.segment = some seg) :
      Comes stack (.call op) seg stack
  | consume {n} (user : userRuns stack = true) : Comes stack (.consume n) (.consume n) stack
  | ret {k rest} (top : stack = .callback k :: rest) : Comes stack .ret .ret rest
  | resume {f seg rest} (top : stack = f :: rest) (goes : f.resumed = some seg) :
      Comes stack .resume seg rest
  | recv {r rest} (top : stack = .recv :: rest) : Comes stack (.recv r) r.segment rest
  | send {r rest} (top : stack = .send :: rest) : Comes stack (.send r) r.segment rest

theorem segment_comes {stack rest : List Frame} {act : Act} {seg : Segment}
    (h : segment stack act = some (seg, rest)) : Comes stack act seg rest := by
  cases act with
  | setREvents events | handleEvent | consume n =>
    simp only [segment] at h
    split at h
    · simp only [Option.some.injEq, Prod.mk.injEq] at h
      obtain ⟨rfl, rfl⟩ := h
      constructor
      assumption
    · exact absurd h (by simp)
  | call op =>
    simp only [segment] at h
    split at h
    · obtain ⟨s, hs, hp⟩ := Option.map_eq_some_iff.mp h
      simp only [Prod.mk.injEq] at hp
      obtain ⟨rfl, rfl⟩ := hp
      exact .call ‹_› hs
    · exact absurd h (by simp)
  | ret | recv r | send r =>
    simp only [segment] at h
    split at h
    · simp only [Option.some.injEq, Prod.mk.injEq] at h
      obtain ⟨rfl, rfl⟩ := h
      constructor
      rfl
    · exact absurd h (by simp)
  | resume =>
    simp only [segment] at h
    split at h
    · obtain ⟨s, hs, hp⟩ := Option.map_eq_some_iff.mp h
      simp only [Prod.mk.injEq] at hp
      obtain ⟨rfl, rfl⟩ := hp
      exact .resume rfl hs
    · exact absurd h (by simp)

/-- The acts that run `ShutdownInLoop`: a call, or a `recv` that finds the end of the stream or
fails. -/
def Act.shuts : Act → Bool
  | call .shutdown | recv .closed | recv .error => true
  | _ => false

def Segment.Cause (stack : List Frame) (act : Act) (rest : List Frame) : Segment → Prop
  | setREvents events => act = .setREvents events
  | handleEvent => act = .handleEvent
  | readTest => act = .resume ∧ stack = .readTest :: rest
  | writeTest => act = .resume ∧ stack = .writeTest :: rest
  | recvAgain => act = .recv .again ∧ stack = .recv :: rest
  | recvData data => act = .recv (.data data) ∧ stack = .recv :: rest
  | sent n => act = .send (.sent n) ∧ stack = .send :: rest
  | sendAgain => act = .send (.error true) ∧ stack = .send :: rest
  | sendFailed => act = .send (.error false) ∧ stack = .send :: rest
  | establishedInLoop => act = .call .established
  | sendInLoop _ => ∃ data, act = .call (.send data)
  | shutdownInLoop => act.shuts = true
  | shutdownTail => act = .resume ∧ stack = .shutdownTail :: rest
  | releaseInLoop => act = .call .release ∨ act = .resume ∧ stack = .releaseCall :: rest
  | releaseTail => act = .resume ∧ stack = .releaseTail :: rest
  | enableInactiveReleaseInLoop sec => act = .call (.enableInactiveRelease sec)
  | cancelInactiveReleaseInLoop => act = .call .cancelInactiveRelease
  | consume n => act = .consume n
  | ret => act = .ret

namespace Comes

variable {stack rest : List Frame} {act : Act} {seg : Segment}

theorem suffix (h : Comes stack act seg rest) : rest <:+ stack := by
  cases h with
  | setREvents | handleEvent | call | consume => exact List.suffix_rfl
  | ret top | resume top | recv top | send top => exact top ▸ List.suffix_cons _ _

/-- **Each segment has the one act that brings it about**, and takes its frame from the stack. -/
theorem cause (h : Comes stack act seg rest) : seg.Cause stack act rest := by
  cases h with
  | setREvents | handleEvent | consume | ret => rfl
  | @call op _ _ enters =>
    cases op with
    | send data =>
      obtain ⟨buf, _, rfl⟩ := Option.map_eq_some_iff.mp enters
      exact ⟨data, rfl⟩
    | release =>
      obtain rfl := Option.some.inj enters
      exact Or.inl rfl
    | _ =>
      obtain rfl := Option.some.inj enters
      rfl
  | @resume f _ _ top goes =>
    cases f with
    | callback | recv | send => exact absurd goes (by simp [Frame.resumed])
    | releaseCall =>
      obtain rfl := Option.some.inj goes
      exact Or.inr ⟨rfl, top⟩
    | _ =>
      obtain rfl := Option.some.inj goes
      exact ⟨rfl, top⟩
  | @recv r _ top =>
    cases r with
    | closed | error => rfl
    | again | data => exact ⟨rfl, top⟩
  | @send r _ top =>
    rcases r with n | (_ | _)
    · exact ⟨rfl, top⟩
    · exact ⟨rfl, top⟩
    · exact ⟨rfl, top⟩

theorem called {op : ConnOp} (h : Comes stack (.call op) seg rest) : op.segment = some seg := by
  cases h
  assumption

theorem resumed {f : Frame} (h : Comes stack .resume seg rest) (top : stack.head? = some f) :
    f.resumed = some seg := by
  cases h with
  | resume hstack goes =>
    rw [hstack, List.head?_cons, Option.some.injEq] at top
    exact top ▸ goes

/-- `ShutdownInLoop` is what these acts run. -/
theorem shuts_iff (h : Comes stack act seg rest) : act.shuts = true ↔ seg = .shutdownInLoop := by
  refine ⟨fun hs => ?_, fun hseg => (hseg ▸ h).cause⟩
  cases h with
  | setREvents | handleEvent | consume | ret | resume => exact absurd hs Bool.false_ne_true
  | @call op _ _ enters =>
    cases op <;> first | exact absurd hs Bool.false_ne_true | exact (Option.some.inj enters).symm
  | @recv r => cases r <;> first | exact absurd hs Bool.false_ne_true | rfl
  | send => exact absurd hs Bool.false_ne_true

theorem at_releaseCall {below : List Frame} (h : Comes (.releaseCall :: below) act seg rest) :
    seg = .releaseInLoop ∧ rest = below := by
  cases h with
  | setREvents top | handleEvent top => exact absurd top (by simp)
  | call user | consume user => exact absurd user (by simp [userRuns])
  | ret top | recv top | send top => exact absurd (List.cons.inj top).1 (by simp)
  | resume top goes =>
    obtain ⟨rfl, rfl⟩ := List.cons.inj top
    exact ⟨(Option.some.inj goes).symm, rfl⟩

end Comes

namespace ConnState

def step (s : ConnState) (i : Input) : Option ConnState :=
  (segment s.stack i.act).bind fun p =>
    (p.1.exec s.conn i.hasTimer).map fun e => ⟨e.conn, e.frames ++ p.2, s.log ++ e.obs⟩

def runs (s : ConnState) (i : Input) : Option Segment := (segment s.stack i.act).map (·.1)

/-- **All that a step does**: it runs a segment on what is below it. -/
theorem step_eq_some {s t : ConnState} {i : Input} :
    s.step i = some t ↔ ∃ seg rest e, segment s.stack i.act = some (seg, rest) ∧
      seg.exec s.conn i.hasTimer = some e ∧ t = ⟨e.conn, e.frames ++ rest, s.log ++ e.obs⟩ := by
  rw [step, Option.bind_eq_some_iff]
  constructor
  · rintro ⟨⟨seg, rest⟩, hseg, h⟩
    obtain ⟨e, he, rfl⟩ := Option.map_eq_some_iff.mp h
    exact ⟨seg, rest, e, hseg, he, rfl⟩
  · rintro ⟨seg, rest, e, hseg, he, rfl⟩
    exact ⟨(seg, rest), hseg, by rw [he, Option.map_some]⟩

theorem runs_eq {s : ConnState} {i : Input} {seg : Segment} {rest : List Frame}
    (h : segment s.stack i.act = some (seg, rest)) : s.runs i = some seg := by
  rw [runs, h]
  rfl

theorem step_log {s t : ConnState} {i : Input} (h : s.step i = some t) : s.log <+: t.log := by
  obtain ⟨seg, rest, e, _, _, rfl⟩ := step_eq_some.mp h
  exact List.prefix_append _ _

/-! ### What holds in every state -/

/-- The socket is closed by `ReleaseInLoop` and by nothing else, the status of an open connection is
never `DISCONNECTED` and that of a closed one never again `CONNECTING`, and unsent output is watched
for. -/
structure Coherent (s : ConnState) : Prop where
  released : s.conn.socketOpen = false ↔ .releaseInLoop ∈ s.log
  alive : s.conn.socketOpen = true → s.conn.statu ≠ .disconnected
  gone : s.conn.socketOpen = false → s.conn.statu ≠ .connecting
  watched : s.conn.outBuffer.unread ≠ [] → s.conn.channel.writeAble = true

theorem coherent_fresh (connId sockfd : Nat) (callbacks : Callbacks) :
    Coherent (fresh connId sockfd callbacks) :=
  ⟨by simp [fresh, Connection.new], fun _ => by simp [fresh, Connection.new],
    fun h => absurd h (by simp [fresh, Connection.new]), fun h => absurd Buffer.new_unread h⟩

end ConnState

theorem Connection.Same.writeAble {c c' : Connection} (h : c.Same c') :
    c'.channel.writeAble = c.channel.writeAble := by
  rw [Channel.writeAble, h.events, Channel.writeAble]

theorem not_mem_of_plain {obs : List Obs} (h : ∀ o ∈ obs, o.plain = true) {o : Obs}
    (ho : o.plain = false) : o ∉ obs := fun hm => by simp [h o hm] at ho

namespace ConnState

theorem Coherent.of_exec {s : ConnState} {e : Exec} {stack : List Frame} (hc : Coherent s)
    (released : e.conn.socketOpen = false ↔ s.conn.socketOpen = false ∨ .releaseInLoop ∈ e.obs)
    (alive : e.conn.socketOpen = true → e.conn.statu ≠ .disconnected)
    (gone : e.conn.socketOpen = false → e.conn.statu ≠ .connecting)
    (watched : e.conn.outBuffer.unread ≠ [] → e.conn.channel.writeAble = true) :
    Coherent ⟨e.conn, stack, s.log ++ e.obs⟩ :=
  ⟨by rw [List.mem_append, ← hc.released]; exact released, alive, gone, watched⟩

theorem Coherent.step {s t : ConnState} {i : Input} (hc : Coherent s) (h : s.step i = some t) :
    Coherent t := by
  obtain ⟨seg, rest, e, _, he, rfl⟩ := step_eq_some.mp h
  have halive := hc.alive
  have hgone := hc.gone
  have hwatched := hc.watched
  cases Segment.exec_effect he with
  | inert is =>
    refine hc.of_exec ?_ ?_ ?_ ?_
    · rw [is.same.socketOpen]
      exact ⟨Or.inl, fun h => h.elim id fun hm => absurd hm (not_mem_of_plain is.plain rfl)⟩
    · rw [is.same.socketOpen, is.same.statu]
      exact halive
    · rw [is.same.socketOpen, is.same.statu]
      exact hgone
    · rw [is.same.outBuffer, is.same.writeAble]
      exact hwatched
  | established statu plain =>
    have hno : Obs.releaseInLoop ∉ _ := not_mem_of_plain plain rfl
    refine hc.of_exec (by simp [hno]) (fun _ => by simp) (fun _ => by simp) (fun h => ?_)
    exact (Channel.enableRead_writeAble _).trans (hwatched h)
  | establishedLate => exact hc.of_exec (by simp) halive hgone hwatched
  | sendDropped => exact hc.of_exec (by simp) halive hgone hwatched
  | sendAppended statu append on => exact hc.of_exec (by simp) halive hgone fun _ => on
  | sendEnabled =>
    exact hc.of_exec (by simp) halive hgone fun _ => Channel.enableWrite_writeAble _
  | shutdown plain =>
    have hno : Obs.releaseInLoop ∉ _ := not_mem_of_plain plain rfl
    exact hc.of_exec (by simp [hno]) (fun _ => by simp) (fun _ => by simp) hwatched
  | shutdownDone => exact hc.of_exec (by simp) halive hgone hwatched
  | shutdownWaits => exact hc.of_exec (by simp) halive hgone hwatched
  | shutdownEnables =>
    exact hc.of_exec (by simp) halive hgone fun _ => Channel.enableWrite_writeAble _
  | sentSome opened taken left =>
    refine hc.of_exec (by simp) halive hgone fun _ => hwatched fun hnil => left ?_
    rw [taken, hnil, List.drop_nil]
  | sentAll opened taken left => exact hc.of_exec (by simp) halive hgone fun h => absurd left h
  | release closes plain closed =>
    refine hc.of_exec ?_ ?_ ?_ ?_
    · simp [Connection.releaseInLoop_conn]
    · simp [Connection.releaseInLoop_conn]
    · simp [Connection.releaseInLoop_conn]
    · simpa [Connection.releaseInLoop_conn] using hwatched

theorem Coherent.closed_step {s t : ConnState} {i : Input} (hc : Coherent s) (h : s.step i = some t)
    (hclosed : s.conn.socketOpen = false) : t.conn.socketOpen = false := by
  rw [(hc.step h).released]
  exact (step_log h).subset (hc.released.mp hclosed)

end ConnState

end Flux
