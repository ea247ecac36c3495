import Flux.Reactor.Capacity
import Flux.Reactor.Channel

/-!
# `Connection`

A connection and the code that runs in its loop.  A handler of the source runs until it hands
control to the user's code, by a callback, or to the kernel, by a `recv` or a `send`, and goes on
behind that point later; user code may call the connection again in between.  So a handler is cut
here into segments: a `Segment` is a piece of code with no such point inside, and what is left to do
behind one is a stack of frames.  `Segment.exec` runs one: the connection after it, the frames it
leaves, and what it did that others can see (`Obs`).

`RunInLoop` in the loop's own thread is a call, and a task queued from another thread is a call from
an empty stack; both are segments that begin like any other.

`_message_callback` is called unchecked by the source and taken to be set.  The other callbacks may
be empty.
-/

namespace Flux

inductive ConnStatu
  | disconnected
  | connecting
  | connected
  | disconnecting
deriving DecidableEq, Repr

inductive Callback
  | connected
  | message
  | closed
  | anyEvent
  | srvClosed
deriving DecidableEq, Repr

/-- Which of the callbacks that may be empty are set. -/
structure Callbacks where
  connected : Bool
  closed : Bool
  anyEvent : Bool
  srvClosed : Bool
deriving DecidableEq, Repr

structure Connection where
  connId : Nat
  sockfd : Nat
  enableInactiveRelease : Bool
  statu : ConnStatu
  /-- `_socket` still holds a descriptor. -/
  socketOpen : Bool
  channel : Channel
  inBuffer : Buffer
  outBuffer : Buffer
  callbacks : Callbacks

/-- What is left to do behind a point where control was handed away. -/
inductive Frame
  /-- User code is running. -/
  | callback (k : Callback)
  /-- `HandleEvent` behind the event callback. -/
  | readTest
  /-- `HandleEvent` behind its read block. -/
  | writeTest
  /-- `HandleRead` at `NonBlockRecv`. -/
  | recv
  /-- `HandleWrite` at `NonBlockSend`. -/
  | send
  /-- `ShutdownInLoop` behind the message callback. -/
  | shutdownTail
  /-- A handler at its call of `Release`. -/
  | releaseCall
  /-- `ReleaseInLoop` behind `_closed_callback`. -/
  | releaseTail
deriving DecidableEq, Repr

/-- What a segment does that others can see. -/
inductive Obs
  /-- The `InLoop` functions that were entered. -/
  | establishedInLoop
  | sendInLoop (data : Bytes)
  | releaseInLoop
  /-- An assignment to `_statu`. -/
  | setStatu (st : ConnStatu)
  /-- An append to `_out_buffer`. -/
  | append (data : Bytes)
  /-- `Poller::UpdateEvent` with the mask of the channel, and `Poller::RemoveEvent`. -/
  | updateEvent (events : BitVec 32)
  | removeEvent
  /-- `close(2)` of the descriptor. -/
  | closeFd
  | callback (k : Callback)
  /-- Bytes the kernel took from `send`. -/
  | accepted (data : Bytes)
  /-- The timer wheel of the loop, under the id of the connection. -/
  | timerAdd (sec : Nat)
  | timerRefresh
  | timerCancel
deriving DecidableEq, Repr

structure Exec where
  conn : Connection
  frames : List Frame
  obs : List Obs

namespace Connection

/-- The constructor, with the callbacks its owner sets right behind it. -/
def new (connId sockfd : Nat) (callbacks : Callbacks) : Connection where
  connId := connId
  sockfd := sockfd
  enableInactiveRelease := false
  statu := .connecting
  socketOpen := true
  channel := .new
  inBuffer := .new
  outBuffer := .new
  callbacks := callbacks

def invoke (c : Connection) (k : Callback) (isSet : Bool) (behind : List Frame) : Exec :=
  if isSet then ⟨c, .callback k :: behind, [.callback k]⟩ else ⟨c, behind, []⟩

/-- `if (_in_buffer.ReadAbleSize() > 0) _message_callback(…)`, and the frames behind it. -/
def invokeMessage (c : Connection) (behind : List Frame) : Exec :=
  c.invoke .message (0 < c.inBuffer.readAbleSize) behind

end Connection

def Exec.after (obs : List Obs) (e : Exec) : Exec := { e with obs := obs ++ e.obs }

namespace Connection

variable (c : Connection)

/-! ### Events -/

/-- `HandleEvent` up to the return of the event callback, which is `HandleAnyEvent`. -/
def handleEvent : Exec :=
  (c.invoke .anyEvent c.callbacks.anyEvent [.readTest]).after
    (if c.enableInactiveRelease then [.timerRefresh] else [])

def readTest : Exec :=
  if hasBits c.channel.revents EPOLLIN || hasBits c.channel.revents EPOLLRDHUP ||
      hasBits c.channel.revents EPOLLPRI then ⟨c, [.recv, .writeTest], []⟩
  else ⟨c, [.writeTest], []⟩

def handleClose : Exec := c.invokeMessage [.releaseCall]

def writeTest : Exec :=
  if hasBits c.channel.revents EPOLLOUT then ⟨c, [.send], []⟩
  else if hasBits c.channel.revents EPOLLERR then c.handleClose
  else if hasBits c.channel.revents EPOLLHUP then c.handleClose
  else ⟨c, [], []⟩

def recvData (data : Bytes) : Option Exec :=
  (c.inBuffer.writeAndPush data).map fun buf => { c with inBuffer := buf }.invokeMessage []

/-- `HandleWrite` behind a `send` that took `n` bytes. -/
def sent (n : Nat) : Option Exec :=
  if h : n ≤ c.outBuffer.readAbleSize then
    let taken := c.outBuffer.readAsString n
    let c := { c with outBuffer := c.outBuffer.moveReadOffset n h }
    if c.outBuffer.readAbleSize = 0 then
      let c := { c with channel := c.channel.disableWrite }
      some ⟨c, if c.statu = .disconnecting then [.releaseCall] else [],
        [.accepted taken, .updateEvent c.channel.events]⟩
    else some ⟨c, [], [.accepted taken]⟩
  else none

def sendFailed : Exec := c.invokeMessage [.releaseCall]

/-! ### The functions that run in the loop -/

def establishedInLoop : Exec :=
  if c.statu ≠ .connecting then ⟨c, [], [.establishedInLoop]⟩
  else
    let c := { c with statu := .connected, channel := c.channel.enableRead }
    (c.invoke .connected c.callbacks.connected []).after
      [.establishedInLoop, .setStatu .connected, .updateEvent c.channel.events]

def cancelInactiveReleaseInLoop (hasTimer : Bool) : Exec :=
  ⟨{ c with enableInactiveRelease := false }, [], if hasTimer then [.timerCancel] else []⟩

def enableInactiveReleaseInLoop (hasTimer : Bool) (sec : Nat) : Exec :=
  ⟨{ c with enableInactiveRelease := true }, [],
    [if hasTimer then .timerRefresh else .timerAdd sec]⟩

/-- `ReleaseInLoop` up to the return of `_closed_callback`. -/
def releaseInLoop (hasTimer : Bool) : Exec :=
  let closed : List Obs := if c.socketOpen then [.closeFd] else []
  let c := { c with statu := .disconnected, socketOpen := false }
  let cancelled : Exec :=
    if hasTimer then c.cancelInactiveReleaseInLoop hasTimer else ⟨c, [], []⟩
  (cancelled.conn.invoke .closed c.callbacks.closed [.releaseTail]).after
    ([.releaseInLoop, .setStatu .disconnected, .removeEvent] ++ closed ++ cancelled.obs)

def releaseTail : Exec := c.invoke .srvClosed c.callbacks.srvClosed []

def sendInLoop (buf : Buffer) : Option Exec :=
  if c.statu = .disconnected then some ⟨c, [], [.sendInLoop buf.unread]⟩
  else
    (c.outBuffer.writeAndPush buf.unread).map fun out =>
      let c := { c with outBuffer := out }
      if c.channel.writeAble = false then
        let c := { c with channel := c.channel.enableWrite }
        ⟨c, [], [.sendInLoop buf.unread, .append buf.unread, .updateEvent c.channel.events]⟩
      else ⟨c, [], [.sendInLoop buf.unread, .append buf.unread]⟩

/-- `ShutdownInLoop` up to the return of the message callback. -/
def shutdownInLoop : Exec :=
  let c := { c with statu := .disconnecting }
  (c.invokeMessage [.shutdownTail]).after [.setStatu .disconnecting]

def shutdownTail : Exec :=
  if 0 < c.outBuffer.readAbleSize then
    if c.channel.writeAble = false then
      let c := { c with channel := c.channel.enableWrite }
      ⟨c, [], [.updateEvent c.channel.events]⟩
    else ⟨c, [], []⟩
  else ⟨c, [.releaseCall], []⟩

/-- The user takes bytes out of `_in_buffer`. -/
def consume (n : Nat) : Option Exec :=
  if h : n ≤ c.inBuffer.readAbleSize then
    some ⟨{ c with inBuffer := c.inBuffer.moveReadOffset n h }, [], []⟩
  else none

end Connection

/-! ### Segments -/

/-- The pieces of code, each with what it was given. -/
inductive Segment
  /-- `Poller::Poll` reports events. -/
  | setREvents (events : BitVec 32)
  | handleEvent
  | readTest
  | writeTest
  | recvAgain
  | recvData (data : Bytes)
  | sent (n : Nat)
  | sendAgain
  | sendFailed
  | establishedInLoop
  | sendInLoop (buf : Buffer)
  | shutdownInLoop
  | shutdownTail
  | releaseInLoop
  | releaseTail
  | enableInactiveReleaseInLoop (sec : Nat)
  | cancelInactiveReleaseInLoop
  | consume (n : Nat)
  /-- A callback returns. -/
  | ret

/-- Run a segment; `hasTimer` is what `HasTimer` of the loop answers while it runs.  A closed socket
neither brings nor takes data. -/
def Segment.exec (c : Connection) (hasTimer : Bool) : Segment → Option Exec
  | setREvents events => some ⟨{ c with channel := c.channel.setREvents events }, [], []⟩
  | handleEvent => some c.handleEvent
  | readTest => some c.readTest
  | writeTest => some c.writeTest
  | recvAgain => if c.socketOpen then some ⟨c, [], []⟩ else none
  | recvData data =>
      if c.socketOpen ∧ 0 < data.length ∧ data.length ≤ 65535 then c.recvData data else none
  | sent n => if c.socketOpen then c.sent n else none
  | sendAgain => some ⟨c, [], []⟩
  | sendFailed => some c.sendFailed
  | establishedInLoop => some c.establishedInLoop
  | sendInLoop buf => c.sendInLoop buf
  | shutdownInLoop => some c.shutdownInLoop
  | shutdownTail => some c.shutdownTail
  | releaseInLoop => some (c.releaseInLoop hasTimer)
  | releaseTail => some c.releaseTail
  | enableInactiveReleaseInLoop sec => some (c.enableInactiveReleaseInLoop hasTimer sec)
  | cancelInactiveReleaseInLoop => some (c.cancelInactiveReleaseInLoop hasTimer)
  | consume n => c.consume n
  | ret => some ⟨c, [], []⟩

/-! ### What a segment leaves alone -/

/-- Callbacks and timers: no business of the socket, the status or the interest. -/
def Obs.plain : Obs → Bool
  | callback _ | timerAdd _ | timerRefresh | timerCancel => true
  | _ => false

/-- The segments that touch neither the status nor the socket, the output or the interest. -/
def Segment.inert : Segment → Bool
  | sent _ | establishedInLoop | sendInLoop _ | shutdownInLoop | shutdownTail | releaseInLoop =>
    false
  | _ => true

/-- The parts of a connection an inert segment keeps. -/
structure Connection.Same (c c' : Connection) : Prop where
  connId : c'.connId = c.connId
  sockfd : c'.sockfd = c.sockfd
  statu : c'.statu = c.statu
  socketOpen : c'.socketOpen = c.socketOpen
  outBuffer : c'.outBuffer = c.outBuffer
  events : c'.channel.events = c.channel.events
  callbacks : c'.callbacks = c.callbacks

theorem Connection.Same.refl (c : Connection) : c.Same c := ⟨rfl, rfl, rfl, rfl, rfl, rfl, rfl⟩

namespace Connection

variable (c : Connection)

@[simp] theorem invoke_conn (k : Callback) (isSet : Bool) (behind : List Frame) :
    (c.invoke k isSet behind).conn = c := by
  unfold invoke
  split <;> rfl

theorem invoke_obs (k : Callback) (isSet : Bool) (behind : List Frame) :
    (c.invoke k isSet behind).obs = if isSet then [.callback k] else [] := by
  unfold invoke
  split <;> rfl

theorem invoke_plain {k : Callback} {isSet : Bool} {behind : List Frame} {o : Obs}
    (h : o ∈ (c.invoke k isSet behind).obs) : o.plain = true := by
  rw [invoke_obs] at h
  split at h
  · rw [List.mem_singleton.mp h]
    rfl
  · exact absurd h (by simp)

@[simp] theorem invokeMessage_conn (behind : List Frame) : (c.invokeMessage behind).conn = c :=
  c.invoke_conn _ _ _

theorem releaseInLoop_conn (hasTimer : Bool) : (c.releaseInLoop hasTimer).conn =
    { c with
      statu := .disconnected
      socketOpen := false
      enableInactiveRelease := if hasTimer then false else c.enableInactiveRelease } := by
  cases hasTimer <;> simp [releaseInLoop, cancelInactiveReleaseInLoop, Exec.after]

theorem releaseInLoop_obs (hasTimer : Bool) : (c.releaseInLoop hasTimer).obs =
    [.releaseInLoop, .setStatu .disconnected, .removeEvent] ++
      (if c.socketOpen then [.closeFd] else []) ++ (if hasTimer then [.timerCancel] else []) ++
      (if c.callbacks.closed then [.callback .closed] else []) := by
  cases hasTimer <;> simp [releaseInLoop, cancelInactiveReleaseInLoop, Exec.after, invoke_obs]

theorem releaseInLoop_frames (hasTimer : Bool) : (c.releaseInLoop hasTimer).frames =
    (if c.callbacks.closed then [.callback .closed] else []) ++ [.releaseTail] := by
  cases hasTimer <;> cases hc : c.callbacks.closed <;>
    simp [releaseInLoop, cancelInactiveReleaseInLoop, Exec.after, invoke, hc]

end Connection

@[simp] theorem Exec.after_conn (obs : List Obs) (e : Exec) : (e.after obs).conn = e.conn := rfl

@[simp] theorem Exec.after_obs (obs : List Obs) (e : Exec) : (e.after obs).obs = obs ++ e.obs := rfl

@[simp] theorem Exec.after_frames (obs : List Obs) (e : Exec) : (e.after obs).frames = e.frames :=
  rfl

/-- An inert segment comes to a call of `Release` only after a failed `send` or an error event. -/
def Connection.Breaks (c : Connection) (seg : Segment) : Prop :=
  seg = .sendFailed ∨ hasBits c.channel.revents EPOLLERR = true ∨
    hasBits c.channel.revents EPOLLHUP = true

theorem Connection.mem_invoke {c : Connection} {k : Callback} {isSet : Bool} {behind : List Frame}
    {f : Frame} (h : f ∈ (c.invoke k isSet behind).frames) : f = .callback k ∨ f ∈ behind := by
  unfold Connection.invoke at h
  split at h
  · exact List.mem_cons.mp h
  · exact Or.inr h

/-- What an inert segment shows: the connection is the same where it counts, and no more. -/
structure Connection.Inert (c : Connection) (seg : Segment) (e : Exec) : Prop where
  same : c.Same e.conn
  revents : e.conn.channel.revents = c.channel.revents ∨ seg = .setREvents e.conn.channel.revents
  plain : ∀ o ∈ e.obs, o.plain = true
  breaks : .releaseCall ∈ e.frames → c.Breaks seg

theorem Connection.Inert.of_invoke {c c' : Connection} {seg : Segment} {k : Callback} {isSet : Bool}
    {behind : List Frame} (same : c.Same c') (revents : c'.channel.revents = c.channel.revents)
    (breaks : .releaseCall ∈ behind → c.Breaks seg) : c.Inert seg (c'.invoke k isSet behind) where
  same := by rwa [Connection.invoke_conn]
  revents := Or.inl (by rw [Connection.invoke_conn, revents])
  plain := fun _ => c'.invoke_plain
  breaks h := breaks ((Connection.mem_invoke h).resolve_left (by simp))

theorem Connection.Inert.of_silent {c c' : Connection} {seg : Segment} {frames : List Frame}
    (same : c.Same c') (revents : c'.channel.revents = c.channel.revents)
    (breaks : .releaseCall ∉ frames) : c.Inert seg ⟨c', frames, []⟩ where
  same := same
  revents := Or.inl revents
  plain := by simp
  breaks h := absurd h breaks

theorem Connection.writeTest_inert (c : Connection) : c.Inert .writeTest c.writeTest := by
  unfold Connection.writeTest
  split
  · exact .of_silent (.refl c) rfl (by simp)
  · split
    · exact .of_invoke (.refl c) rfl fun _ => Or.inr (Or.inl ‹_›)
    · split
      · exact .of_invoke (.refl c) rfl fun _ => Or.inr (Or.inr ‹_›)
      · exact .of_silent (.refl c) rfl (by simp)

/-! The segments that may find nothing to run on. -/

theorem Segment.recvAgain_exec {c : Connection} {hasTimer : Bool} {e : Exec}
    (h : Segment.recvAgain.exec c hasTimer = some e) : e = ⟨c, [], []⟩ := by
  simp only [Segment.exec] at h
  split at h
  · exact (Option.some.inj h).symm
  · exact absurd h (by simp)

theorem Segment.recvData_exec {c : Connection} {hasTimer : Bool} {data : Bytes} {e : Exec}
    (h : (Segment.recvData data).exec c hasTimer = some e) :
    ∃ buf : Buffer, c.socketOpen = true ∧ 0 < buf.readAbleSize ∧
      e = { c with inBuffer := buf }.invokeMessage [] := by
  simp only [Segment.exec] at h
  split at h
  · rename_i hg
    obtain ⟨buf, hbuf, rfl⟩ := Option.map_eq_some_iff.mp h
    refine ⟨buf, hg.1, ?_, rfl⟩
    rw [← Buffer.unread_length, Buffer.writeAndPush_unread hbuf, List.length_append]
    omega
  · exact absurd h (by simp)

theorem Segment.consume_exec {c : Connection} {hasTimer : Bool} {n : Nat} {e : Exec}
    (h : (Segment.consume n).exec c hasTimer = some e) : ∃ hn : n ≤ c.inBuffer.readAbleSize,
      e = ⟨{ c with inBuffer := c.inBuffer.moveReadOffset n hn }, [], []⟩ := by
  simp only [Segment.exec, Connection.consume] at h
  split at h
  · exact ⟨‹_›, (Option.some.inj h).symm⟩
  · exact absurd h (by simp)

theorem Segment.inert_exec {c : Connection} {hasTimer : Bool} {seg : Segment} {e : Exec}
    (hi : seg.inert = true) (h : seg.exec c hasTimer = some e) : c.Inert seg e := by
  cases seg with
  | sent _ | establishedInLoop | sendInLoop _ | shutdownInLoop | shutdownTail | releaseInLoop =>
    exact absurd hi Bool.false_ne_true
  | setREvents events =>
    obtain rfl := Option.some.inj h
    exact ⟨⟨rfl, rfl, rfl, rfl, rfl, rfl, rfl⟩, Or.inr rfl, by simp, by simp⟩
  | handleEvent =>
    obtain rfl := Option.some.inj h
    have hin : c.Inert .handleEvent (c.invoke .anyEvent c.callbacks.anyEvent [.readTest]) :=
      .of_invoke (.refl c) rfl (by simp)
    refine ⟨hin.same, hin.revents, ?_, hin.breaks⟩
    intro o ho
    rcases List.mem_append.mp ho with ho | ho
    · split at ho
      · rw [List.mem_singleton.mp ho]
        rfl
      · exact absurd ho (by simp)
    · exact hin.plain o ho
  | readTest =>
    obtain rfl := Option.some.inj h
    unfold Connection.readTest
    split <;> exact .of_silent (.refl c) rfl (by simp)
  | writeTest =>
    obtain rfl := Option.some.inj h
    exact c.writeTest_inert
  | recvAgain =>
    obtain rfl := recvAgain_exec h
    exact .of_silent (.refl c) rfl (by simp)
  | recvData data =>
    obtain ⟨buf, _, _, rfl⟩ := recvData_exec h
    exact .of_invoke ⟨rfl, rfl, rfl, rfl, rfl, rfl, rfl⟩ rfl (by simp)
  | sendAgain =>
    obtain rfl := Option.some.inj h
    exact .of_silent (.refl c) rfl (by simp)
  | sendFailed =>
    obtain rfl := Option.some.inj h
    exact .of_invoke (.refl c) rfl fun _ => Or.inl rfl
  | releaseTail =>
    obtain rfl := Option.some.inj h
    exact .of_invoke (.refl c) rfl (by simp)
  | enableInactiveReleaseInLoop sec =>
    obtain rfl := Option.some.inj h
    refine ⟨⟨rfl, rfl, rfl, rfl, rfl, rfl, rfl⟩, Or.inl rfl, ?_,
      by simp [Connection.enableInactiveReleaseInLoop]⟩
    intro o ho
    rw [List.mem_singleton.mp ho]
    split <;> rfl
  | cancelInactiveReleaseInLoop =>
    obtain rfl := Option.some.inj h
    refine ⟨⟨rfl, rfl, rfl, rfl, rfl, rfl, rfl⟩, Or.inl rfl, ?_,
      by simp [Connection.cancelInactiveReleaseInLoop]⟩
    intro o ho
    simp only [Connection.cancelInactiveReleaseInLoop] at ho
    split at ho
    · rw [List.mem_singleton.mp ho]
      rfl
    · exact absurd ho (by simp)
  | consume n =>
    obtain ⟨hn, rfl⟩ := consume_exec h
    exact .of_silent ⟨rfl, rfl, rfl, rfl, rfl, rfl, rfl⟩ rfl (by simp)
  | ret =>
    obtain rfl := Option.some.inj h
    exact .of_silent (.refl c) rfl (by simp)

/-! ### What a segment can do -/

/-- **Everything a segment can do** to the status, the socket, the output and the interest, with
what it shows of it. -/
inductive Effect (c : Connection) : Segment → Exec → Prop
  | inert {seg e} (is : c.Inert seg e) (kind : seg.inert = true) : Effect c seg e
  /-- `EstablishedInLoop` past its guard. -/
  | established {frames tail} (statu : c.statu = .connecting) (plain : ∀ o ∈ tail, o.plain = true)
      (calls : .releaseCall ∉ frames) :
      Effect c .establishedInLoop
        ⟨{ c with statu := .connected, channel := c.channel.enableRead }, frames,
          [.establishedInLoop, .setStatu .connected, .updateEvent c.channel.enableRead.events] ++
            tail⟩
  /-- `EstablishedInLoop` stopped by its guard. -/
  | establishedLate (statu : c.statu ≠ .connecting) :
      Effect c .establishedInLoop ⟨c, [], [.establishedInLoop]⟩
  /-- `SendInLoop` stopped by its guard. -/
  | sendDropped {buf} (statu : c.statu = .disconnected) :
      Effect c (.sendInLoop buf) ⟨c, [], [.sendInLoop buf.unread]⟩
  /-- An append under a write interest that is on. -/
  | sendAppended {buf out} (statu : c.statu ≠ .disconnected)
      (append : out.unread = c.outBuffer.unread ++ buf.unread) (on : c.channel.writeAble = true) :
      Effect c (.sendInLoop buf)
        ⟨{ c with outBuffer := out }, [], [.sendInLoop buf.unread, .append buf.unread]⟩
  /-- An append that switches the write interest on. -/
  | sendEnabled {buf out} (statu : c.statu ≠ .disconnected)
      (append : out.unread = c.outBuffer.unread ++ buf.unread) (off : c.channel.writeAble = false) :
      Effect c (.sendInLoop buf)
        ⟨{ c with outBuffer := out, channel := c.channel.enableWrite }, [],
          [.sendInLoop buf.unread, .append buf.unread, .updateEvent c.channel.enableWrite.events]⟩
  | shutdown {frames tail} (plain : ∀ o ∈ tail, o.plain = true) (calls : .releaseCall ∉ frames) :
      Effect c .shutdownInLoop
        ⟨{ c with statu := .disconnecting }, frames, .setStatu .disconnecting :: tail⟩
  /-- `ShutdownInLoop` without unsent output goes on to a release. -/
  | shutdownDone (out : c.outBuffer.unread = []) : Effect c .shutdownTail ⟨c, [.releaseCall], []⟩
  /-- Unsent output that is watched for. -/
  | shutdownWaits (out : c.outBuffer.unread ≠ []) (on : c.channel.writeAble = true) :
      Effect c .shutdownTail ⟨c, [], []⟩
  /-- Unsent output that is not. -/
  | shutdownEnables (out : c.outBuffer.unread ≠ []) (off : c.channel.writeAble = false) :
      Effect c .shutdownTail
        ⟨{ c with channel := c.channel.enableWrite }, [],
          [.updateEvent c.channel.enableWrite.events]⟩
  /-- A `send` that left bytes behind. -/
  | sentSome {n out} (opened : c.socketOpen = true)
      (taken : out.unread = c.outBuffer.unread.drop n) (left : out.unread ≠ []) :
      Effect c (.sent n) ⟨{ c with outBuffer := out }, [], [.accepted (c.outBuffer.unread.take n)]⟩
  /-- A `send` that emptied the buffer. -/
  | sentAll {n out} (opened : c.socketOpen = true) (taken : c.outBuffer.unread.take n =
      c.outBuffer.unread) (left : out.unread = []) :
      Effect c (.sent n)
        ⟨{ c with outBuffer := out, channel := c.channel.disableWrite },
          if c.statu = .disconnecting then [.releaseCall] else [],
          [.accepted c.outBuffer.unread, .updateEvent c.channel.disableWrite.events]⟩
  | release {hasTimer} {closeFd tail} (closes : closeFd = if c.socketOpen then [.closeFd] else [])
      (plain : ∀ o ∈ tail, o.plain = true)
      (calls : .releaseCall ∉ (c.releaseInLoop hasTimer).frames)
      (closed : .callback .closed ∈ tail ↔ c.callbacks.closed = true) :
      Effect c .releaseInLoop ⟨(c.releaseInLoop hasTimer).conn, (c.releaseInLoop hasTimer).frames,
        [.releaseInLoop, .setStatu .disconnected, .removeEvent] ++ closeFd ++ tail⟩

theorem Buffer.unread_eq_nil_iff {b : Buffer} : b.unread = [] ↔ b.readAbleSize = 0 := by
  rw [← List.length_eq_zero_iff, Buffer.unread_length]

theorem Connection.sent_effect {c : Connection} {n : Nat} {e : Exec} (ho : c.socketOpen = true)
    (h : c.sent n = some e) : Effect c (.sent n) e := by
  unfold Connection.sent at h
  split at h
  · rename_i hn
    have hun : (c.outBuffer.moveReadOffset n hn).unread = c.outBuffer.unread.drop n :=
      Buffer.moveReadOffset_unread _ _ _
    simp only at h
    split at h
    · rename_i h0
      obtain rfl := Option.some.inj h
      have hnil := Buffer.unread_eq_nil_iff.mpr h0
      have hall : c.outBuffer.unread.take n = c.outBuffer.unread := by
        rw [hun, List.drop_eq_nil_iff] at hnil
        exact List.take_of_length_le hnil
      rw [Buffer.readAsString, hall]
      exact .sentAll ho hall hnil
    · rename_i h0
      obtain rfl := Option.some.inj h
      exact .sentSome ho hun (mt Buffer.unread_eq_nil_iff.mp h0)
  · exact absurd h (by simp)

theorem Connection.sendInLoop_effect {c : Connection} {buf : Buffer} {e : Exec}
    (h : c.sendInLoop buf = some e) : Effect c (.sendInLoop buf) e := by
  unfold Connection.sendInLoop at h
  split at h
  · rename_i hst
    obtain rfl := Option.some.inj h
    exact .sendDropped hst
  · rename_i hst
    obtain ⟨out, hout, rfl⟩ := Option.map_eq_some_iff.mp h
    have happ := Buffer.writeAndPush_unread hout
    cases hw : c.channel.writeAble with
    | false =>
      simp only [hw, if_true]
      exact .sendEnabled hst happ hw
    | true =>
      simp only [hw, Bool.true_eq_false, if_false]
      exact .sendAppended hst happ hw

theorem Connection.shutdownTail_effect (c : Connection) :
    Effect c .shutdownTail c.shutdownTail := by
  unfold Connection.shutdownTail
  split
  · rename_i hout
    have hne : c.outBuffer.unread ≠ [] :=
      mt Buffer.unread_eq_nil_iff.mp (Nat.pos_iff_ne_zero.mp hout)
    cases hw : c.channel.writeAble with
    | false =>
      simp only [if_true]
      exact .shutdownEnables hne hw
    | true =>
      simp only [Bool.true_eq_false, if_false]
      exact .shutdownWaits hne hw
  · rename_i hout
    exact .shutdownDone (Buffer.unread_eq_nil_iff.mpr (Nat.eq_zero_of_not_pos hout))

theorem Connection.releaseInLoop_effect (c : Connection) (hasTimer : Bool) :
    Effect c .releaseInLoop (c.releaseInLoop hasTimer) := by
  have hobs : (c.releaseInLoop hasTimer).obs =
      [.releaseInLoop, .setStatu .disconnected, .removeEvent] ++
        (if c.socketOpen then [.closeFd] else []) ++ ((if hasTimer then [.timerCancel] else []) ++
          (if c.callbacks.closed then [.callback .closed] else [])) := by
    rw [releaseInLoop_obs, List.append_assoc]
  have heff := @Effect.release c hasTimer _ ((if hasTimer then [.timerCancel] else []) ++
      (if c.callbacks.closed then [.callback .closed] else [])) rfl
    (by cases hasTimer <;> cases c.callbacks.closed <;> simp [Obs.plain])
    (by rw [releaseInLoop_frames]; cases c.callbacks.closed <;> simp)
    (by cases hasTimer <;> cases c.callbacks.closed <;> simp)
  rw [← hobs] at heff
  exact heff

/-- **What a segment did is one of the effects.** -/
theorem Segment.exec_effect {c : Connection} {hasTimer : Bool} {seg : Segment} {e : Exec}
    (h : seg.exec c hasTimer = some e) : Effect c seg e := by
  cases seg with
  | establishedInLoop =>
    obtain rfl := Option.some.inj h
    unfold Connection.establishedInLoop
    split
    · exact .establishedLate ‹_›
    · have hst : c.statu = .connecting := not_not.mp ‹_›
      cases hcb : c.callbacks.connected <;> simp only [Connection.invoke, hcb]
      · exact .established hst (by simp) (by simp)
      · exact .established hst (by simp [Obs.plain]) (by simp)
  | sendInLoop buf => exact Connection.sendInLoop_effect h
  | shutdownInLoop =>
    obtain rfl := Option.some.inj h
    simp only [Connection.shutdownInLoop, Connection.invokeMessage, Connection.invoke]
    split
    · exact .shutdown (by simp [Obs.plain]) (by simp)
    · exact .shutdown (by simp) (by simp)
  | shutdownTail =>
    obtain rfl := Option.some.inj h
    exact c.shutdownTail_effect
  | sent n =>
    simp only [Segment.exec] at h
    split at h
    · exact Connection.sent_effect ‹_› h
    · exact absurd h (by simp)
  | releaseInLoop =>
    obtain rfl := Option.some.inj h
    exact c.releaseInLoop_effect hasTimer
  | _ => exact .inert (Segment.inert_exec rfl h) rfl

/-- The id and the callbacks are set once and for all. -/
theorem Segment.exec_setUp {c : Connection} {hasTimer : Bool} {seg : Segment} {e : Exec}
    (h : seg.exec c hasTimer = some e) :
    e.conn.connId = c.connId ∧ e.conn.callbacks = c.callbacks := by
  cases Segment.exec_effect h with
  | inert is => exact ⟨is.same.connId, is.same.callbacks⟩
  | release =>
    rw [Connection.releaseInLoop_conn]
    exact ⟨rfl, rfl⟩
  | _ => exact ⟨rfl, rfl⟩

end Flux
