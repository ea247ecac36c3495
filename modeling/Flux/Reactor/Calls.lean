import Flux.Reactor.LoopThreadPool

/-!
# Calls from other threads

A thread that is not the one of a connection's loop calls an operation of the connection: it is
queued to the loop and carried out when the queue has come to it.  In between the server does
whatever it does, with other connections, other threads, timers, failing sockets.

Nothing is lost on the way and nothing overtakes.  `History` says so of one connection and of any
choice of operations: it has got where it is from the start by its own events and by calls, as a
single thread could have made them, and the calls it has had, those in hand and those in the queue
are together the calls so far, in the order they were made.

* `TcpServer.calls_in_order`: the history of a connection in every state of every run.
-/

namespace Flux

open Lib

/-! ### Calls and queues -/

def ConnOp.isOutput : ConnOp → Bool
  | send _ | shutdown | release => true
  | established | enableInactiveRelease _ | cancelInactiveRelease => false

def Act.calls (P : ConnOp → Bool) : Act → List ConnOp
  | call op => if P op then [op] else []
  | _ => []

def ServerAct.calls (P : ConnOp → Bool) (k : Nat) : ServerAct → List ConnOp
  | .call _ j op _ => if j = k then (Act.call op).calls P else []
  | _ => []

/-- The calls of operations of `P` on connection `k`, in their order. -/
def calledOps (P : ConnOp → Bool) (k : Nat) (acts : List ServerAct) : List ConnOp :=
  acts.flatMap (ServerAct.calls P k)

def Task.calls (P : ConnOp → Bool) (k : Nat) : Task → List ConnOp
  | .conn j op => if j = k then (Act.call op).calls P else []
  | _ => []

/-- The operations of `P` that are queued for connection `k`. -/
def queuedOps (P : ConnOp → Bool) (k : Nat) (tasks : List Task) : List ConnOp :=
  tasks.flatMap (Task.calls P k)

/-- What connection `j` takes by itself, if that is `k`. -/
def Input.own (k j : Nat) (i : Input) : List Input :=
  if j = k ∧ i.act.isCall = false then [i] else []

def ServerAct.own (k : Nat) : ServerAct → List Input
  | .conn j i => i.own k j
  | _ => []

/-- What connection `k` takes by itself, in its order. -/
def ownInputs (k : Nat) (acts : List ServerAct) : List Input := acts.flatMap (ServerAct.own k)

variable {P : ConnOp → Bool} {own : List Input} {hand called done : List ConnOp} {k : Nat}

theorem queuedOps_concat (P : ConnOp → Bool) (k : Nat) (tasks : List Task) (task : Task) :
    queuedOps P k (tasks ++ [task]) = queuedOps P k tasks ++ task.calls P k := by
  rw [queuedOps, List.flatMap_append, List.flatMap_singleton]
  rfl

/-- **How a connection has got where it is**: by these inputs of its own, and these calls. -/
def ConnState.Past (P : ConnOp → Bool) (c : ConnState) (own : List Input) (done : List ConnOp) :
    Prop :=
  ∃ connId sockfd callbacks inputs,
    run ConnState.step (.fresh connId sockfd callbacks) inputs = some c ∧
      inputs.filter (fun i => !i.act.isCall) = own ∧ inputs.flatMap (fun i => i.act.calls P) = done

theorem ConnState.past_fresh (P : ConnOp → Bool) (connId sockfd : Nat) (callbacks : Callbacks) :
    (ConnState.fresh connId sockfd callbacks).Past P [] [] :=
  ⟨connId, sockfd, callbacks, [], rfl, rfl, rfl⟩

theorem ConnState.Past.step {c c' : ConnState} {i : Input} (h : c.Past P own done)
    (hc : c.step i = some c') : c'.Past P (own ++ i.own k k) (done ++ i.act.calls P) := by
  obtain ⟨connId, sockfd, callbacks, inputs, hrun, rfl, rfl⟩ := h
  refine ⟨connId, sockfd, callbacks, inputs ++ [i], ?_, ?_, ?_⟩
  · exact run_append.mpr ⟨c, hrun, run_cons.mpr ⟨c', hc, rfl⟩⟩
  · rw [List.filter_append, Input.own]
    cases hcall : i.act.isCall with
    | true => simp [hcall]
    | false => simp [hcall]
  · rw [List.flatMap_append, List.flatMap_singleton]

namespace TcpServer

variable {s t : TcpServer} {hasTimer : Bool}

/-- **The history of a connection**, with what is just being handed over from the queue. -/
structure History (P : ConnOp → Bool) (s : TcpServer) (k : Nat) (hand : List ConnOp)
    (own : List Input)
    (called : List ConnOp) : Prop where
  absent : s.made[k]? = none →
    hand = [] ∧ own = [] ∧ called = [] ∧ ∀ loop, queuedOps P k (s.tasks loop) = []
  elsewhere : ∀ {m : Member}, s.made[k]? = some m → ∀ loop, loop ≠ m.loop →
    queuedOps P k (s.tasks loop) = []
  past : ∀ {m : Member}, s.made[k]? = some m →
    ∃ done, m.state.Past P own done ∧ done ++ hand ++ queuedOps P k (s.tasks m.loop) = called

theorem history_new (P : ConnOp → Bool) (settings : Settings) (k : Nat) :
    (new settings).History P k [] [] [] where
  absent _ := ⟨rfl, rfl, rfl, fun _ => rfl⟩
  elsewhere h := absurd h (by simp [new])
  past h := absurd h (by simp [new])

theorem History.of_same (h : s.History P k hand own called) (hmade : t.made = s.made)
    (htasks : t.tasks = s.tasks) : t.History P k hand own called := by
  refine ⟨?_, ?_, ?_⟩
  · rw [hmade, htasks]
    exact h.absent
  · rw [hmade, htasks]
    exact h.elsewhere
  · rw [hmade, htasks]
    exact h.past

/-- **A connection takes a step**, its own with what is in hand for it. -/
theorem History.stepped {j : Nat} {i : Input} {m : Member} {c : ConnState}
    (h : s.History P k (if j = k then i.act.calls P else []) own called) (hm : s.made[j]? = some m)
    (hc : m.state.step i = some c) :
    (s.stepped j m c).History P k [] (own ++ i.own k j) called := by
  by_cases hj : j = k
  · subst hj
    rw [if_pos rfl] at h
    have hself : ∀ {x : Member}, (s.stepped j m c).made[j]? = some x → x = ⟨m.loop, c⟩ := by
      intro x hx
      rcases (stepped_made hm).mp hx with ⟨-, hx⟩ | ⟨hne, -⟩
      · exact hx
      · exact absurd rfl hne
    refine ⟨?_, ?_, ?_⟩
    · intro hnone
      have hsome := (stepped_made (c := c) hm).mpr (Or.inl ⟨rfl, rfl⟩)
      exact absurd (hnone.symm.trans hsome) (by simp)
    · intro x hx
      rw [hself hx]
      show ∀ loop, loop ≠ m.loop → queuedOps P j (s.tasks loop) = []
      exact h.elsewhere hm
    · intro x hx
      rw [hself hx]
      obtain ⟨done, hpast, hcalled⟩ := h.past hm
      refine ⟨done ++ i.act.calls P, hpast.step hc, ?_⟩
      rw [List.append_nil]
      exact hcalled
  · rw [if_neg hj] at h
    have hown : own ++ i.own k j = own := by
      rw [Input.own, if_neg (fun hc => hj hc.1), List.append_nil]
    have hother : (s.stepped j m c).made[k]? = s.made[k]? := List.getElem?_set_ne hj
    rw [hown]
    refine ⟨?_, ?_, ?_⟩
    · rw [hother]
      exact h.absent
    · rw [hother]
      exact h.elsewhere
    · rw [hother]
      exact h.past

/-- **A task comes from its queue.** -/
theorem History.dequeue {loop : LoopId} {task : Task} {rest : List Task}
    (h : s.History P k [] own called) (hq : s.tasks loop = task :: rest) :
    (s.dequeue loop rest).History P k (task.calls P k) own called := by
  have hhead : queuedOps P k (s.tasks loop) = task.calls P k ++ queuedOps P k rest := by
    rw [hq]
    rfl
  have hnone : queuedOps P k (s.tasks loop) = [] → task.calls P k = [] ∧
      queuedOps P k rest = [] := by
    rw [hhead]
    exact List.append_eq_nil_iff.mp
  have hqueue : ∀ loop', queuedOps P k (s.tasks loop') = [] →
      queuedOps P k ((s.dequeue loop rest).tasks loop') = [] := by
    intro loop' hempty
    rw [dequeue_tasks]
    split
    · rename_i heq
      exact (hnone (heq ▸ hempty)).2
    · exact hempty
  refine ⟨?_, ?_, ?_⟩
  · intro hk
    obtain ⟨-, hown, hcalled, hall⟩ := h.absent hk
    exact ⟨(hnone (hall loop)).1, hown, hcalled, fun loop' => hqueue loop' (hall loop')⟩
  · intro m hm loop' hne
    exact hqueue loop' (h.elsewhere hm loop' hne)
  · intro m hm
    obtain ⟨done, hpast, hcalled⟩ := h.past hm
    refine ⟨done, hpast, ?_⟩
    rw [dequeue_tasks]
    by_cases hloop : m.loop = loop
    · rw [if_pos hloop, ← hcalled, hloop, hhead]
      simp
    · have hempty := h.elsewhere hm loop (Ne.symm hloop)
      rw [if_neg hloop, (hnone hempty).1]
      exact hcalled

/-- **A call is queued**, to the loop of its connection. -/
theorem History.queueInLoop {loop : LoopId} {task : Task} (h : s.History P k [] own called)
    (hmine : task.calls P k ≠ [] → ∃ m, s.made[k]? = some m ∧ m.loop = loop) :
    (s.queueInLoop loop task).History P k [] own (called ++ task.calls P k) := by
  have hqueue : ∀ loop', queuedOps P k ((s.queueInLoop loop task).tasks loop') =
      queuedOps P k (s.tasks loop') ++ if loop' = loop then task.calls P k else [] := by
    intro loop'
    rw [queueInLoop_tasks]
    split
    · rename_i heq
      rw [queuedOps_concat, heq]
    · rw [List.append_nil]
  -- what is queued elsewhere is for another connection
  have hforeign : ∀ {m : Member}, s.made[k]? = some m → m.loop ≠ loop → task.calls P k = [] := by
    intro m hm hloop
    by_contra hne
    obtain ⟨x, hx, hxl⟩ := hmine hne
    obtain rfl := Option.some.inj (hx.symm.trans hm)
    exact hloop hxl
  refine ⟨?_, ?_, ?_⟩
  · intro hk
    obtain ⟨-, hown, hcalled, hall⟩ := h.absent hk
    have hdata : task.calls P k = [] := by
      by_contra hne
      obtain ⟨m, hm, -⟩ := hmine hne
      exact absurd (hk.symm.trans hm) (by simp)
    refine ⟨rfl, hown, by rw [hcalled, hdata]; rfl, fun loop' => ?_⟩
    rw [hqueue, hall, hdata]
    simp
  · intro m hm loop' hne
    rw [hqueue, h.elsewhere hm loop' hne, List.nil_append]
    split
    · rename_i heq
      exact hforeign hm fun hloop => hne (heq.trans hloop.symm)
    · rfl
  · intro m hm
    obtain ⟨done, hpast, hcalled⟩ := h.past hm
    refine ⟨done, hpast, ?_⟩
    rw [hqueue, ← hcalled]
    by_cases hloop : m.loop = loop
    · simp [hloop]
    · simp [hloop, hforeign hm hloop]

/-! ### A step of the server -/

theorem History.newConnection {fd : Nat} (h : s.History P k [] own called) :
    (s.newConnection fd).History P k [] own called := by
  have hmade : ∃ m : Member, (s.newConnection fd).made = s.made ++ [m] ∧
      m.state = .fresh m.state.conn.connId m.state.conn.sockfd m.state.conn.callbacks :=
    ⟨_, rfl, rfl⟩
  obtain ⟨new, hmade, hfresh⟩ := hmade
  have hk : ∀ {m}, (s.newConnection fd).made[k]? = some m →
      s.made[k]? = some m ∨ s.made[k]? = none ∧ m = new := by
    intro m hm
    rw [hmade, List.getElem?_append] at hm
    split at hm
    · exact Or.inl hm
    · rename_i hlt
      rw [List.getElem?_singleton] at hm
      split at hm
      · exact Or.inr ⟨List.getElem?_eq_none (Nat.le_of_not_lt hlt), (Option.some.inj hm).symm⟩
      · exact absurd hm (by simp)
  refine ⟨?_, ?_, ?_⟩
  · intro hnone
    refine h.absent ?_
    rw [hmade, List.getElem?_append] at hnone
    split at hnone
    · exact hnone
    · rename_i hlt
      exact List.getElem?_eq_none (Nat.le_of_not_lt hlt)
  · intro m hm loop hne
    rcases hk hm with hold | ⟨hnone, rfl⟩
    · exact h.elsewhere hold loop hne
    · exact (h.absent hnone).2.2.2 loop
  · intro m hm
    rcases hk hm with hold | ⟨hnone, rfl⟩
    · exact h.past hold
    · obtain ⟨-, rfl, rfl, hall⟩ := h.absent hnone
      refine ⟨[], ?_, hall m.loop⟩
      rw [hfresh]
      exact ConnState.past_fresh P ..

/-- **A call that goes through `RunInLoop`.**  In another thread it is queued; in that of the loop
it runs on the spot, and then it must not be one of `P` on the connection itself. -/
theorem History.runInLoop {thread : Option LoopId} {loop : LoopId} {j : Nat} {op : ConnOp}
    (hs : s.Wired)
    (h : s.History P k [] own called) (hloop : ∃ m, s.made[j]? = some m ∧ m.loop = loop)
    (hother : thread = some loop → j = k → P op = false)
    (hran : s.runInLoop thread loop (.conn j op) hasTimer = some t) :
    t.History P k [] own (called ++ (Task.conn j op).calls P k) := by
  unfold TcpServer.runInLoop at hran
  split at hran
  · rename_i hthread
    obtain ⟨m, c, hm, hc, rfl⟩ := stepConn_cases hs hran
    have hnil : (if j = k then (Act.call op).calls P else []) = [] := by
      split
      · exact if_neg (by rw [hother hthread ‹_›]; exact Bool.false_ne_true)
      · rfl
    have hown : Input.own k j ⟨.call op, hasTimer⟩ = [] := if_neg fun hn => Bool.noConfusion hn.2
    have hhist : s.History P k (if j = k then (Act.call op).calls P else []) own called := by
      rwa [hnil]
    have hnext := hhist.stepped hm hc
    rw [Task.calls, hnil, List.append_nil]
    rwa [hown, List.append_nil] at hnext
  · obtain rfl := Option.some.inj hran
    refine h.queueInLoop fun hne => ?_
    obtain rfl : j = k := by
      by_contra hjk
      exact hne (if_neg hjk)
    exact hloop

/-- No operation of `P` is called on the connection in the thread of its own loop. -/
def ForeignOps (P : ConnOp → Bool) (k : Nat) (s : TcpServer) (a : ServerAct) : Prop :=
  ∀ m op hasTimer, P op = true → s.made[k]? = some m → a ≠ .call (some m.loop) k op hasTimer

/-- `NewConnection` calls none of them itself. -/
def UserOps (P : ConnOp → Bool) : Prop :=
  P .established = false ∧ ∀ sec, P (.enableInactiveRelease sec) = false

/-- **A step of the server** makes history. -/
theorem History.step {a : ServerAct} (hP : UserOps P) (hs : s.Wired)
    (h : s.History P k [] own called)
    (hforeign : ForeignOps P k s a) (hstep : s.step a = some t) :
    t.History P k [] (own ++ a.own k) (called ++ a.calls P k) := by
  cases a with
  | accept fd =>
    simp only [TcpServer.step] at hstep
    split at hstep
    · obtain rfl := Option.some.inj hstep
      show (s.newConnection fd).History P k [] (own ++ []) (called ++ [])
      rw [List.append_nil, List.append_nil]
      exact h.newConnection
    · exact absurd hstep (by simp)
  | advance hasTimer =>
    show t.History P k [] (own ++ []) (called ++ [])
    rw [List.append_nil, List.append_nil]
    obtain ⟨⟨j, stage⟩, hacc, hstep⟩ := Option.bind_eq_some_iff.mp hstep
    obtain ⟨m, hm, hstep⟩ := Option.bind_eq_some_iff.mp hstep
    -- `NewConnection` calls nothing of interest
    have hown : ∀ {stage' : Stage} {op : ConnOp}, P op = false →
        { s with accepting := some (j, stage') }.runInLoop (some .base) m.loop
          (.conn j op) hasTimer = some t →
          t.History P k [] own called := by
      intro stage' op hop hran
      have hnil : (Task.conn j op).calls P k = [] := by
        rw [Task.calls, Act.calls, hop]
        simp
      have hnext := History.runInLoop (hs.accepting hacc) (h.of_same rfl rfl) ⟨m, hm, rfl⟩
        (fun _ _ => hop) hran
      rwa [hnil, List.append_nil] at hnext
    cases stage with
    | enable => exact hown (hP.2 _) hstep
    | established => exact hown hP.1 hstep
    | insert =>
      simp only at hstep
      split at hstep
      · exact absurd hstep (by simp)
      · obtain rfl := Option.some.inj hstep
        obtain ⟨hmade, -, htasks⟩ := insert_frame { s with accepting := none } s.nextId j
        exact h.of_same hmade htasks
  | call thread j op hasTimer =>
    show t.History P k [] (own ++ []) _
    rw [List.append_nil]
    simp only [TcpServer.step] at hstep
    split at hstep
    · obtain ⟨m, hm, hstep⟩ := Option.bind_eq_some_iff.mp hstep
      refine h.runInLoop hs ⟨m, hm, rfl⟩ ?_ hstep
      rintro rfl rfl
      by_contra hop
      exact hforeign m op hasTimer (by simpa using hop) hm rfl
    · exact absurd hstep (by simp)
  | addTimerTask thread =>
    show t.History P k [] (own ++ []) (called ++ [])
    rw [List.append_nil, List.append_nil]
    simp only [TcpServer.step] at hstep
    split at hstep
    · unfold TcpServer.runInLoop at hstep
      split at hstep
      · obtain rfl := Option.some.inj hstep
        exact h.of_same rfl rfl
      · obtain rfl := Option.some.inj hstep
        have hnil : Task.addTimerTask.calls P k = [] := rfl
        have hnext : (s.queueInLoop .base .addTimerTask).History P k [] own
            (called ++ Task.addTimerTask.calls P k) :=
          h.queueInLoop fun hne => absurd hnil hne
        rwa [hnil, List.append_nil] at hnext
    · exact absurd hstep (by simp)
  | runTask loop hasTimer =>
    show t.History P k [] (own ++ []) (called ++ [])
    rw [List.append_nil, List.append_nil]
    simp only [TcpServer.step] at hstep
    split at hstep
    · exact absurd hstep (by simp)
    · rename_i task rest hq
      split at hstep
      · exact absurd hstep (by simp)
      · obtain ⟨hpop, htask⟩ := hs.dequeue hq
        have hhand := h.dequeue hq
        rcases exec_cases hpop htask hstep with ⟨rfl, rfl⟩ | ⟨j, op, m, c, rfl, hm, hc, rfl⟩
        · exact hhand.of_same rfl rfl
        · have hown : Input.own k j ⟨.call op, hasTimer⟩ = [] :=
            if_neg fun hn => Bool.noConfusion hn.2
          have hnext := hhand.stepped hm hc
          rwa [hown, List.append_nil] at hnext
  | conn j i =>
    show t.History P k [] (own ++ i.own k j) (called ++ [])
    rw [List.append_nil]
    simp only [TcpServer.step] at hstep
    split at hstep
    · exact absurd hstep (by simp)
    · rename_i hcall
      obtain ⟨m, c, hm, hc, rfl⟩ := stepConn_cases hs hstep
      have hnil : (if j = k then i.act.calls P else []) = [] := by
        split
        · cases hact : i.act with
          | call op => exact absurd (by rw [hact]; rfl) hcall
          | _ => rfl
        · rfl
      have hhist : s.History P k (if j = k then i.act.calls P else []) own called := by rwa [hnil]
      exact hhist.stepped hm hc

/-! ### Whole runs -/

theorem History.run {acts : List ServerAct} (hP : UserOps P) (hs : s.Wired)
    (h : s.History P k [] own called) (hforeign : Each TcpServer.step (ForeignOps P k) s acts)
    (hr : Lib.run TcpServer.step s acts = some t) :
    t.History P k [] (own ++ ownInputs k acts) (called ++ calledOps P k acts) := by
  induction acts generalizing s own called with
  | nil =>
    obtain rfl : s = t := Option.some.inj hr
    rw [ownInputs, calledOps, List.flatMap_nil, List.flatMap_nil, List.append_nil, List.append_nil]
    exact h
  | cons a acts ih =>
    obtain ⟨u, hu, hr⟩ := run_cons.mp hr
    have hnext := ih (hs.step hu) (h.step hP hs hforeign.1 hu) (hforeign.2 u hu) hr
    rwa [List.append_assoc, List.append_assoc] at hnext

/-- **A connection of the server is a connection on its own**, and what other threads call on it
takes effect in the order of the calls.  In every state of every run of the server, whatever happens
in its loops, for every connection and every choice of operations, without the two that
`NewConnection` calls, that its own loop does not call on it: the connection has got where it is
from the start by its own inputs, in their order, and by calls; and the calls of these operations it
has had and those queued for it are together the calls so far, in their order. -/
theorem calls_in_order (settings : Settings) (acts : List ServerAct) (s : TcpServer)
    (hr : Lib.run step (new settings) acts = some s) (P : ConnOp → Bool) (hP : UserOps P) (k : Nat)
    (hforeign : Each step (ForeignOps P k) (new settings) acts) (m : Member)
    (hm : s.made[k]? = some m) :
    ∃ done, m.state.Past P (ownInputs k acts) done ∧
      done ++ queuedOps P k (s.tasks m.loop) = calledOps P k acts := by
  have hhist := (history_new P settings k).run hP (wired_new settings) hforeign hr
  obtain ⟨done, hpast, hcalled⟩ := hhist.past hm
  rw [List.append_nil] at hcalled
  exact ⟨done, hpast, hcalled⟩

/-- Calls from threads without a loop are those of other threads. -/
theorem each_foreignOps {acts : List ServerAct}
    (h : ∀ a ∈ acts, ∀ loop op hasTimer, a ≠ .call (some loop) k op hasTimer) :
    Each step (ForeignOps P k) s acts := by
  refine each_of_mem (fun a ha _ => ?_) s
  intro m op hasTimer _ _
  exact h a ha m.loop op hasTimer

/-- A send and a shutdown, the send carried out and the shutdown still queued, when another send is
called. -/
theorem calls_in_order_two :
    ∃ acts s m done, Lib.run step (new ⟨1, none, false, false, false⟩) acts = some s ∧
      s.made[0]? = some m ∧ m.state.Past ConnOp.isOutput (ownInputs 0 acts) done ∧
      done ++ queuedOps ConnOp.isOutput 0 (s.tasks m.loop) = [.send [104], .shutdown, .send [105]] ∧
      queuedOps ConnOp.isOutput 0 (s.tasks m.loop) = [.shutdown, .send [105]] := by
  let acts : List ServerAct :=
    [.accept 5, .advance false, .advance false, .runTask (.worker 0) false,
      .call none 0 (.send [104]) false,
      .call none 0 .shutdown false, .runTask (.worker 0) false, .call none 0 (.send [105]) false]
  have hrun : (run step (new ⟨1, none, false, false, false⟩) acts).bind
      (fun s => (s.made[0]?).map fun m =>
      queuedOps ConnOp.isOutput 0 (s.tasks m.loop)) = some [.shutdown, .send [105]] := by
    decide +kernel
  obtain ⟨s, hs, hp⟩ := Option.bind_eq_some_iff.mp hrun
  obtain ⟨m, hm, hqueued⟩ := Option.map_eq_some_iff.mp hp
  obtain ⟨done, hpast, hcalls⟩ :=
    calls_in_order ⟨1, none, false, false, false⟩ acts s hs ConnOp.isOutput
    ⟨rfl, fun _ => rfl⟩ 0 (each_foreignOps (by simp [acts])) m hm
  exact ⟨acts, s, m, done, hs, hm, hpast, hcalls, hqueued⟩

end TcpServer

end Flux
