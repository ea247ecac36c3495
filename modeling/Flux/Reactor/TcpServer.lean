import Flux.Reactor.Closing
import Flux.Reactor.Release
import Mathlib.Logic.Function.Basic

/-!
# `TcpServer`

The server: its base loop accepts, the loops of its pool serve, and with no pool the base loop does
both.  `NewConnection` is cut at its calls, because `RunInLoop` runs a call on the spot in the
loop's own thread and queues it anywhere else, and what runs on the spot is user code that may call
the server again.  A task queue belongs to its loop; user code may be running in any thread.

`RemoveConnection` is what `_server_closed_callback` is for: it has its type, and nothing else calls
it.  `NewConnection` sets four callbacks and not this one, and it enters the connection under
`_next_id` as it is at the end, when a timer task added in between has moved it on.

* `TcpServer.Wired`: nothing ever calls `RemoveConnection`.
* `TcpServer.step_does`: all that a step of the server does, given that.
-/

namespace Flux

open Lib

/-- The loop that accepts, and those of the pool. -/
inductive LoopId
  | base
  | worker (i : Nat)
deriving DecidableEq, Repr

/-- A connection object and its `_loop`. -/
structure Member where
  loop : LoopId
  state : ConnState

def Member.id (m : Member) : Nat := m.state.conn.connId

/-- What is queued to a loop.  Connection objects are named by their place among those ever made. -/
inductive Task
  | conn (k : Nat) (op : ConnOp)
  | addTimerTask
  | removeConnection (k : Nat)
deriving DecidableEq, Repr

/-- The calls `NewConnection` still has to make. -/
inductive Stage
  | enable
  | established
  | insert
deriving DecidableEq, Repr

/-- What the user sets before the start.  A timeout is set with `EnableInactiveRelease`. -/
structure Settings where
  threadCount : Nat
  timeout : Option Nat
  connected : Bool
  closed : Bool
  anyEvent : Bool

structure TcpServer where
  settings : Settings
  nextId : Nat
  /-- `_next_idx` of the pool. -/
  nextIdx : Nat
  /-- The connection objects ever made. -/
  made : List Member
  /-- `_conns`. -/
  conns : Nat → Option Nat
  /-- The connection `NewConnection` is busy with. -/
  accepting : Option (Nat × Stage)
  tasks : LoopId → List Task

inductive ServerAct
  /-- The acceptor calls `NewConnection`. -/
  | accept (fd : Nat)
  /-- `NewConnection` goes on. -/
  | advance (hasTimer : Bool)
  /-- User code in a thread calls an operation of a connection; `none` is a thread without a
  loop. -/
  | call (thread : Option LoopId) (k : Nat) (op : ConnOp) (hasTimer : Bool)
  | addTimerTask (thread : Option LoopId)
  /-- `RunAllTask` of a loop comes to the next task. -/
  | runTask (loop : LoopId) (hasTimer : Bool)
  /-- A connection goes on by itself. -/
  | conn (k : Nat) (i : Input)

def Act.isCall : Act → Bool
  | call _ => true
  | _ => false

namespace TcpServer

def new (settings : Settings) : TcpServer where
  settings := settings
  nextId := 0
  nextIdx := 0
  made := []
  conns _ := none
  accepting := none
  tasks _ := []

def bumpId (s : TcpServer) : TcpServer := { s with nextId := (s.nextId + 1) % 2 ^ 64 }

/-- `LoopThreadPool::NextLoop`, with the `_next_idx` it leaves. -/
def nextLoop (s : TcpServer) : LoopId × Nat :=
  if s.settings.threadCount = 0 then (.base, s.nextIdx)
  else
    let idx := (s.nextIdx + 1) % s.settings.threadCount
    (.worker idx, idx)

/-- `NewConnection` up to its first call. -/
def newConnection (s : TcpServer) (fd : Nat) : TcpServer :=
  let s := s.bumpId
  let callbacks : Callbacks :=
    ⟨s.settings.connected, s.settings.closed, s.settings.anyEvent, false⟩
  { s with
    nextIdx := s.nextLoop.2
    made := s.made ++ [⟨s.nextLoop.1, .fresh s.nextId fd callbacks⟩]
    accepting := some (s.made.length, if s.settings.timeout.isSome then .enable else .established) }

/-- `_conns.insert`, which leaves an entry that is there alone. -/
def insert (s : TcpServer) (id k : Nat) : TcpServer :=
  if s.conns id = none then { s with conns := Function.update s.conns id (some k) } else s

def removeConnectionInLoop (s : TcpServer) (m : Member) : TcpServer :=
  if s.conns m.id = none then s else { s with conns := Function.update s.conns m.id none }

def queueInLoop (s : TcpServer) (loop : LoopId) (task : Task) : TcpServer :=
  { s with tasks := Function.update s.tasks loop (s.tasks loop ++ [task]) }

def dequeue (s : TcpServer) (loop : LoopId) (rest : List Task) : TcpServer :=
  { s with tasks := Function.update s.tasks loop rest }

/-- `RemoveConnection`, in the thread of the connection. -/
def removeConnection (s : TcpServer) (k : Nat) (m : Member) : TcpServer :=
  if m.loop = .base then s.removeConnectionInLoop m else s.queueInLoop .base (.removeConnection k)

/-- A connection takes a step; if that invokes `_server_closed_callback`, the server reacts. -/
def stepConn (s : TcpServer) (k : Nat) (i : Input) : Option TcpServer :=
  (s.made[k]?).bind fun m => (m.state.step i).map fun c =>
    let s := { s with made := s.made.set k ⟨m.loop, c⟩ }
    if .callback .srvClosed ∈ c.log.drop m.state.log.length then s.removeConnection k ⟨m.loop, c⟩
    else s

def exec (s : TcpServer) (hasTimer : Bool) : Task → Option TcpServer
  | .conn k op => s.stepConn k ⟨.call op, hasTimer⟩
  | .addTimerTask => some s.bumpId
  | .removeConnection k => (s.made[k]?).map s.removeConnectionInLoop

def runInLoop (s : TcpServer) (thread : Option LoopId) (loop : LoopId) (task : Task)
    (hasTimer : Bool) : Option TcpServer :=
  if thread = some loop then s.exec hasTimer task else some (s.queueInLoop loop task)

/-- `NewConnection` at its next call.  It comes to the insertion when a call that ran on the spot
has returned. -/
def advance (s : TcpServer) (hasTimer : Bool) : Option TcpServer :=
  s.accepting.bind fun p => (s.made[p.1]?).bind fun m =>
    match p.2 with
    | .enable =>
      { s with accepting := some (p.1, .established) }.runInLoop (some .base) m.loop
        (.conn p.1 (.enableInactiveRelease (s.settings.timeout.getD 0))) hasTimer
    | .established =>
      { s with accepting := some (p.1, .insert) }.runInLoop (some .base) m.loop
        (.conn p.1 .established) hasTimer
    | .insert =>
      if m.loop = .base ∧ m.state.stack ≠ [] then none
      else some ({ s with accepting := none }.insert s.nextId p.1)

/-- User code can be running in the thread: inside `NewConnection` the base loop runs user code only
below a call that runs on the spot. -/
def runsUser (s : TcpServer) (thread : Option LoopId) : Bool :=
  match thread, s.accepting with
  | some .base, some p => (s.made[p.1]?).any fun m => m.loop = .base ∧ m.state.stack ≠ []
  | _, _ => true

def step (s : TcpServer) : ServerAct → Option TcpServer
  | .accept fd => if s.accepting = none then some (s.newConnection fd) else none
  | .advance hasTimer => s.advance hasTimer
  | .call thread k op hasTimer =>
    if s.runsUser thread then
      (s.made[k]?).bind fun m => s.runInLoop thread m.loop (.conn k op) hasTimer
    else none
  | .addTimerTask thread =>
    if s.runsUser thread then s.runInLoop thread .base .addTimerTask false else none
  | .runTask loop hasTimer =>
    match s.tasks loop with
    | [] => none
    | task :: rest =>
      if loop = .base ∧ s.accepting ≠ none then none
      else (s.dequeue loop rest).exec hasTimer task
  | .conn k i => if i.act.isCall then none else s.stepConn k i

variable {s t : TcpServer} {k : Nat} {hasTimer : Bool}

/-! ### What is wired to what -/

/-- What holds in every state: no connection has a `_server_closed_callback`, so no removal is ever
queued, and the entries of the table are of connections `NewConnection` is done with. -/
structure Wired (s : TcpServer) : Prop where
  members : ∀ {k : Nat} {m : Member}, s.made[k]? = some m →
    m.state.conn.callbacks.srvClosed = false ∧ m.state.TailLogged
  tasks : ∀ loop k, .removeConnection k ∉ s.tasks loop
  inserted : ∀ {id k}, s.conns id = some k →
    k < s.made.length ∧ ∀ stage, s.accepting ≠ some (k, stage)

theorem wired_new (settings : Settings) : (new settings).Wired where
  members h := absurd h (by simp [new])
  tasks _ _ := List.not_mem_nil
  inserted h := absurd h (by simp [new])

/-- The server in which connection `k` has come to state `c`. -/
def stepped (s : TcpServer) (k : Nat) (m : Member) (c : ConnState) : TcpServer :=
  { s with made := s.made.set k ⟨m.loop, c⟩ }

theorem stepped_made {m x : Member} {c : ConnState} {j : Nat} (hm : s.made[k]? = some m) :
    (s.stepped k m c).made[j]? = some x ↔
      j = k ∧ x = ⟨m.loop, c⟩ ∨ j ≠ k ∧ s.made[j]? = some x := by
  have hk : k < s.made.length := (List.getElem?_eq_some_iff.mp hm).1
  by_cases hj : j = k
  · subst hj
    simp [stepped, hk, eq_comm]
  · simp [stepped, hj, List.getElem?_set_ne (Ne.symm hj)]

theorem queueInLoop_tasks (s : TcpServer) (loop loop' : LoopId) (task : Task) :
    (s.queueInLoop loop task).tasks loop' =
      if loop' = loop then s.tasks loop ++ [task] else s.tasks loop' :=
  Function.update_apply _ _ _ _

theorem dequeue_tasks (s : TcpServer) (loop loop' : LoopId) (rest : List Task) :
    (s.dequeue loop rest).tasks loop' = if loop' = loop then rest else s.tasks loop' :=
  Function.update_apply _ _ _ _

/-- **A step of a connection is all that happens**: the server is never called back. -/
theorem stepConn_cases {i : Input} (hs : s.Wired) (h : s.stepConn k i = some t) :
    ∃ m c, s.made[k]? = some m ∧ m.state.step i = some c ∧ t = s.stepped k m c := by
  obtain ⟨m, hm, h⟩ := Option.bind_eq_some_iff.mp h
  obtain ⟨c, hc, h⟩ := Option.map_eq_some_iff.mp h
  refine ⟨m, c, hm, hc, ?_⟩
  rw [← h]
  refine if_neg ?_
  obtain ⟨seg, rest, e, _, he, rfl⟩ := ConnState.step_eq_some.mp hc
  rw [List.drop_left, Segment.exec_calls he]
  intro hcalls
  cases seg with
  | releaseTail => exact absurd hcalls.2 (by simp [(hs.members hm).1])
  | _ => simp [Segment.calls] at hcalls

theorem exec_cases {task : Task} (hs : s.Wired) (htask : ∀ k, task ≠ .removeConnection k)
    (h : s.exec hasTimer task = some t) :
    task = .addTimerTask ∧ t = s.bumpId ∨ ∃ k op m c, task = .conn k op ∧ s.made[k]? = some m ∧
      m.state.step ⟨.call op, hasTimer⟩ = some c ∧ t = s.stepped k m c := by
  cases task with
  | addTimerTask => exact Or.inl ⟨rfl, (Option.some.inj h).symm⟩
  | removeConnection k => exact absurd rfl (htask k)
  | conn k op =>
    obtain ⟨m, c, hm, hc, rfl⟩ := stepConn_cases hs h
    exact Or.inr ⟨k, op, m, c, rfl, hm, hc, rfl⟩

theorem Wired.stepped {i : Input} {m : Member} {c : ConnState} (hs : s.Wired)
    (hm : s.made[k]? = some m) (hc : m.state.step i = some c) : (s.stepped k m c).Wired where
  members hx := by
    rcases (stepped_made hm).mp hx with ⟨-, rfl⟩ | ⟨-, hx⟩
    · obtain ⟨hsrv, htail⟩ := hs.members hm
      obtain ⟨seg, rest, e, _, he, rfl⟩ := ConnState.step_eq_some.mp hc
      exact ⟨by rw [(Segment.exec_setUp he).2, hsrv], htail.step hc⟩
    · exact hs.members hx
  tasks := hs.tasks
  inserted hx := by
    obtain ⟨hlt, hacc⟩ := hs.inserted hx
    exact ⟨by rwa [TcpServer.stepped, List.length_set], hacc⟩

theorem Wired.queueInLoop {loop : LoopId} {task : Task} (hs : s.Wired)
    (htask : ∀ k, task ≠ .removeConnection k) : (s.queueInLoop loop task).Wired where
  members := hs.members
  tasks loop' k hm := by
    rw [queueInLoop_tasks] at hm
    split at hm
    · rw [List.mem_append, List.mem_singleton] at hm
      exact hm.elim (hs.tasks loop k) fun h => htask k h.symm
    · exact hs.tasks loop' k hm
  inserted := hs.inserted

theorem Wired.exec {task : Task} (hs : s.Wired) (htask : ∀ k, task ≠ .removeConnection k)
    (h : s.exec hasTimer task = some t) : t.Wired := by
  rcases exec_cases hs htask h with ⟨-, rfl⟩ | ⟨k, op, m, c, -, hm, hc, rfl⟩
  · exact ⟨hs.members, hs.tasks, hs.inserted⟩
  · exact hs.stepped hm hc

theorem Wired.runInLoop {thread : Option LoopId} {loop : LoopId} {task : Task} (hs : s.Wired)
    (htask : ∀ k, task ≠ .removeConnection k)
    (h : s.runInLoop thread loop task hasTimer = some t) : t.Wired := by
  unfold TcpServer.runInLoop at h
  split at h
  · exact hs.exec htask h
  · obtain rfl := Option.some.inj h
    exact hs.queueInLoop htask

theorem Wired.accepting {stage stage' : Stage} (hs : s.Wired) (h : s.accepting = some (k, stage)) :
    Wired { s with accepting := some (k, stage') } where
  members := hs.members
  tasks := hs.tasks
  inserted hx := by
    obtain ⟨hlt, hacc⟩ := hs.inserted hx
    refine ⟨hlt, fun st heq => hacc stage ?_⟩
    simp only [Option.some.injEq, Prod.mk.injEq] at heq
    rw [h, heq.1]

theorem Wired.dequeue {loop : LoopId} {task : Task} {rest : List Task} (hs : s.Wired)
    (h : s.tasks loop = task :: rest) :
    (s.dequeue loop rest).Wired ∧ ∀ k, task ≠ .removeConnection k := by
  refine ⟨⟨hs.members, ?_, hs.inserted⟩, ?_⟩
  · intro loop' k hm
    rw [dequeue_tasks] at hm
    split at hm
    · exact hs.tasks loop k (h ▸ List.mem_cons_of_mem _ hm)
    · exact hs.tasks loop' k hm
  · intro k heq
    exact hs.tasks loop k (h ▸ heq ▸ List.mem_cons_self)

theorem Wired.newConnection {fd : Nat} (hs : s.Wired) : (s.newConnection fd).Wired where
  members {j m} hx := by
    have hx' : (s.made ++ [_])[j]? = some m := hx
    rw [List.getElem?_append] at hx'
    split at hx'
    · exact hs.members hx'
    · rw [List.getElem?_singleton] at hx'
      split at hx'
      · obtain rfl := Option.some.inj hx'
        exact ⟨rfl, fun h => absurd h List.not_mem_nil⟩
      · exact absurd hx' (by simp)
  tasks := hs.tasks
  inserted hx := by
    obtain ⟨hlt, -⟩ := hs.inserted hx
    constructor
    · exact hlt.trans (by simp [TcpServer.newConnection, bumpId])
    · intro stage heq
      simp only [TcpServer.newConnection, bumpId, Option.some.injEq, Prod.mk.injEq] at heq
      omega

theorem insert_conns (s : TcpServer) (id k id' : Nat) : (s.insert id k).conns id' =
    if s.conns id = none ∧ id' = id then some k else s.conns id' := by
  unfold insert
  by_cases h : s.conns id = none
  · simp [h, Function.update_apply]
  · simp [h]

theorem insert_frame (s : TcpServer) (id k : Nat) : (s.insert id k).made = s.made ∧
    (s.insert id k).accepting = s.accepting ∧ (s.insert id k).tasks = s.tasks := by
  unfold insert
  split <;> exact ⟨rfl, rfl, rfl⟩

def inserted (s : TcpServer) (k : Nat) : TcpServer := { s with accepting := none }.insert s.nextId k

theorem Wired.done {m : Member} (hs : s.Wired) (hm : s.made[k]? = some m) :
    (s.inserted k).Wired := by
  obtain ⟨hmade, hacc, htasks⟩ := insert_frame { s with accepting := none } s.nextId k
  refine ⟨fun hx => hs.members (hmade ▸ hx), fun loop k' => htasks ▸ hs.tasks loop k',
    ?_⟩
  intro id j hx
  rw [TcpServer.inserted, hmade, hacc]
  refine ⟨?_, by simp⟩
  rw [TcpServer.inserted, insert_conns] at hx
  split at hx
  · obtain rfl := Option.some.inj hx
    exact (List.getElem?_eq_some_iff.mp hm).1
  · exact (hs.inserted hx).1

/-- **All that a step does.** -/
inductive Does (s : TcpServer) : ServerAct → TcpServer → Prop
  | accept {fd} (idle : s.accepting = none) : Does s (.accept fd) (s.newConnection fd)
  /-- `NewConnection` makes its next call. -/
  | goesOn {k stage stage' loop op hasTimer t} (acc : s.accepting = some (k, stage))
      (early : stage ≠ .insert) (ran : { s with accepting := some (k, stage') }.runInLoop
        (some .base) loop (.conn k op) hasTimer = some t) : Does s (.advance hasTimer) t
  | inserts {k m hasTimer} (acc : s.accepting = some (k, .insert)) (made : s.made[k]? = some m) :
      Does s (.advance hasTimer) (s.inserted k)
  | call {thread k loop op hasTimer t}
      (ran : s.runInLoop thread loop (.conn k op) hasTimer = some t) :
      Does s (.call thread k op hasTimer) t
  | addTimerTask {thread t} (ran : s.runInLoop thread .base .addTimerTask false = some t) :
      Does s (.addTimerTask thread) t
  | runTask {loop task rest hasTimer t} (queued : s.tasks loop = task :: rest)
      (ran : (s.dequeue loop rest).exec hasTimer task = some t) : Does s (.runTask loop hasTimer) t
  | conn {k i m c} (made : s.made[k]? = some m) (stepped : m.state.step i = some c) :
      Does s (.conn k i) (s.stepped k m c)

theorem step_does {a : ServerAct} (hs : s.Wired) (h : s.step a = some t) : Does s a t := by
  cases a with
  | accept fd =>
    simp only [TcpServer.step] at h
    split at h
    · obtain rfl := Option.some.inj h
      exact .accept ‹_›
    · exact absurd h (by simp)
  | advance hasTimer =>
    obtain ⟨⟨k, stage⟩, hacc, h⟩ := Option.bind_eq_some_iff.mp h
    obtain ⟨m, hm, h⟩ := Option.bind_eq_some_iff.mp h
    cases stage with
    | enable | established => exact .goesOn hacc (by simp) h
    | insert =>
      simp only at h
      split at h
      · exact absurd h (by simp)
      · obtain rfl := Option.some.inj h
        exact .inserts hacc hm
  | call thread k op hasTimer =>
    simp only [TcpServer.step] at h
    split at h
    · obtain ⟨m, _, h⟩ := Option.bind_eq_some_iff.mp h
      exact .call h
    · exact absurd h (by simp)
  | addTimerTask thread =>
    simp only [TcpServer.step] at h
    split at h
    · exact .addTimerTask h
    · exact absurd h (by simp)
  | runTask loop hasTimer =>
    simp only [TcpServer.step] at h
    split at h
    · exact absurd h (by simp)
    · split at h
      · exact absurd h (by simp)
      · exact .runTask ‹_› h
  | conn k i =>
    simp only [TcpServer.step] at h
    split at h
    · exact absurd h (by simp)
    · obtain ⟨m, c, hm, hc, rfl⟩ := stepConn_cases hs h
      exact .conn hm hc

theorem Wired.step {a : ServerAct} (hs : s.Wired) (h : s.step a = some t) : t.Wired := by
  cases step_does hs h with
  | accept => exact hs.newConnection
  | goesOn acc _ ran => exact (hs.accepting acc).runInLoop (by simp) ran
  | inserts _ made => exact hs.done made
  | call ran | addTimerTask ran => exact hs.runInLoop (by simp) ran
  | runTask queued ran =>
    obtain ⟨hpop, htask⟩ := hs.dequeue queued
    exact hpop.exec htask ran
  | conn made stepped => exact hs.stepped made stepped

end TcpServer

end Flux
