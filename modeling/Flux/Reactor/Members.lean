import Flux.Reactor.ConnTable

/-!
# Who owns the connections

The table `_conns` is what keeps a connection object alive between its events: the callbacks of its
channel name it by a raw `this`, and what its operations queue, and its timer, bind
`shared_from_this` and hold it only as long as they last.  `NewConnection` enters it under
`_next_id` as it is at the end, which a timer task may have moved on since, and an `insert` that
finds its number taken does nothing and would leave the object without an owner.

* `TcpServer.Numbered`: the numbers given out so far, and where they lead.
* `TcpServer.Numbered.step`: a step keeps this, as long as the numbers last.
* `TcpServer.members_owned`: in every run with fewer than `2 ^ 64` of them each connection that
  `NewConnection` is done with has one entry, and no two share an id.
-/

namespace Flux

open Lib

/-- The acts that use up a number, now or when their task runs. -/
def ServerAct.numbers : ServerAct → Bool
  | .accept _ | .addTimerTask _ => true
  | _ => false

namespace TcpServer

variable {s t : TcpServer} {k n : Nat} {hasTimer : Bool}

def ids (s : TcpServer) : List Nat := s.made.map Member.id

/-- **The numbers given out.**  At most `n`, those of queued tasks counted. -/
structure Numbered (n : Nat) (s : TcpServer) : Prop where
  room : s.nextId + (s.tasks .base).count .addTimerTask ≤ n
  /-- Timer tasks are tasks of the base loop. -/
  workers : ∀ i, .addTimerTask ∉ s.tasks (.worker i)
  ordered : s.ids.Pairwise (· < ·)
  bounded : ∀ i ∈ s.ids, i ≤ s.nextId
  /-- `NewConnection` is busy with the last. -/
  busy : ∀ {k stage}, s.accepting = some (k, stage) → k + 1 = s.ids.length
  entered : ∀ k < s.ids.length, (∀ stage, s.accepting ≠ some (k, stage)) → ∃ id, s.conns id = some k
  /-- A connection is entered under a number from its own up to that of the next. -/
  entry : ∀ {id k}, s.conns id = some k → id ≤ s.nextId ∧ (∀ i, s.ids[k]? = some i → i ≤ id) ∧
    ∀ j i, k < j → s.ids[j]? = some i → id < i
  once : ∀ {id id' k}, s.conns id = some k → s.conns id' = some k → id = id'

theorem numbered_new (settings : Settings) : (new settings).Numbered 0 where
  room := by simp [new]
  workers i := List.not_mem_nil
  ordered := List.Pairwise.nil
  bounded i h := absurd h (by simp [new, ids])
  busy h := absurd h (by simp [new])
  entered k h := absurd h (by simp [new, ids])
  entry h := absurd h (by simp [new])
  once h := absurd h (by simp [new])

/-! ### One step -/

theorem Numbered.frame (h : s.Numbered n) (hids : t.ids = s.ids) (hnext : t.nextId = s.nextId)
    (hconns : t.conns = s.conns) (hacc : t.accepting = s.accepting)
    (hroom : (t.tasks .base).count .addTimerTask ≤ (s.tasks .base).count .addTimerTask)
    (hworkers : ∀ i, .addTimerTask ∉ t.tasks (.worker i)) : t.Numbered n where
  room := by
    have := h.room
    omega
  workers := hworkers
  ordered := hids ▸ h.ordered
  bounded := by
    rw [hids, hnext]
    exact h.bounded
  busy := by
    rw [hids, hacc]
    exact h.busy
  entered := by
    rw [hids, hacc, hconns]
    exact h.entered
  entry := by
    rw [hids, hnext, hconns]
    exact h.entry
  once := hconns ▸ h.once

theorem stepped_ids {m : Member} {c : ConnState} {i : Input} (hm : s.made[k]? = some m)
    (hc : m.state.step i = some c) : (s.stepped k m c).ids = s.ids := by
  have hid : Member.id ⟨m.loop, c⟩ = m.id := by
    obtain ⟨seg, rest, e, _, he, rfl⟩ := ConnState.step_eq_some.mp hc
    exact (Segment.exec_setUp he).1
  have hk := (List.getElem?_eq_some_iff.mp hm).2
  show (s.made.set k ⟨m.loop, c⟩).map Member.id = s.made.map Member.id
  rw [List.map_set, hid]
  refine List.ext_getElem? ?_
  intro j
  rw [List.getElem?_set]
  split
  · rename_i hj
    subst hj
    rw [List.getElem?_map, hm]
    simp [(List.getElem?_eq_some_iff.mp hm).1]
  · rfl

theorem Numbered.stepped {m : Member} {c : ConnState} {i : Input} (h : s.Numbered n)
    (hm : s.made[k]? = some m) (hc : m.state.step i = some c) : (s.stepped k m c).Numbered n :=
  h.frame (stepped_ids hm hc) rfl rfl rfl le_rfl h.workers

theorem Numbered.bumpId (h : s.Numbered n) (hn : n < 2 ^ 64)
    (hroom : s.nextId + 1 + (s.tasks .base).count .addTimerTask ≤ n) : s.bumpId.Numbered n := by
  have hnext : s.bumpId.nextId = s.nextId + 1 := Nat.mod_eq_of_lt (by omega)
  refine ⟨hnext ▸ hroom, h.workers, h.ordered, ?_, h.busy, h.entered, ?_, h.once⟩
  · intro i hi
    have := h.bounded i hi
    omega
  · intro id k hk
    obtain ⟨hle, hown, hlater⟩ := h.entry hk
    exact ⟨by omega, hown, hlater⟩

theorem Numbered.more (h : s.Numbered n) {n' : Nat} (hn : n ≤ n') : s.Numbered n' :=
  ⟨h.room.trans hn, h.workers, h.ordered, h.bounded, h.busy, h.entered, h.entry, h.once⟩

theorem count_queue {task : Task} {tasks : List Task} (h : task ≠ .addTimerTask) :
    (tasks ++ [task]).count .addTimerTask = tasks.count .addTimerTask := by
  rw [List.count_append, List.count_singleton, if_neg (by simpa using h), Nat.add_zero]

theorem Numbered.queueConn {loop : LoopId} {op : ConnOp} (h : s.Numbered n) :
    (s.queueInLoop loop (.conn k op)).Numbered n := by
  refine h.frame rfl rfl rfl rfl ?_ ?_
  · rw [queueInLoop_tasks]
    split
    · rename_i hl
      rw [hl, count_queue (by simp)]
    · exact le_rfl
  · intro i
    rw [queueInLoop_tasks]
    split
    · rename_i hl
      rw [List.mem_append, ← hl]
      rintro (hm | hm)
      · exact h.workers i hm
      · exact absurd hm (by simp)
    · exact h.workers i

theorem Numbered.runConn {thread : Option LoopId} {loop : LoopId} {op : ConnOp} (h : s.Numbered n)
    (hs : s.Wired) (ran : s.runInLoop thread loop (.conn k op) hasTimer = some t) :
    t.Numbered n := by
  unfold TcpServer.runInLoop at ran
  split at ran
  · obtain ⟨m, c, hm, hc, rfl⟩ := stepConn_cases hs ran
    exact h.stepped hm hc
  · obtain rfl := Option.some.inj ran
    exact h.queueConn

theorem Numbered.runTimer {thread : Option LoopId} (h : s.Numbered n) (hn : n + 1 < 2 ^ 64)
    (ran : s.runInLoop thread .base .addTimerTask hasTimer = some t) : t.Numbered (n + 1) := by
  have hroom := h.room
  unfold TcpServer.runInLoop at ran
  split at ran
  · obtain rfl := Option.some.inj ran
    exact (h.more (Nat.le_succ n)).bumpId hn (by omega)
  · obtain rfl := Option.some.inj ran
    refine ⟨?_, ?_, h.ordered, h.bounded, h.busy, h.entered, h.entry, h.once⟩
    · rw [queueInLoop_tasks, if_pos rfl, List.count_append, List.count_singleton]
      show s.nextId + _ ≤ n + 1
      simp only [BEq.rfl, if_true]
      omega
    · intro i
      rw [queueInLoop_tasks, if_neg (by simp)]
      exact h.workers i

theorem Numbered.runTask {loop : LoopId} {task : Task} {rest : List Task} (h : s.Numbered n)
    (hs : s.Wired) (hn : n < 2 ^ 64) (queued : s.tasks loop = task :: rest)
    (ran : (s.dequeue loop rest).exec hasTimer task = some t) : t.Numbered n := by
  obtain ⟨hpop, htask⟩ := hs.dequeue queued
  have hroom := h.room
  have hbase : ((s.dequeue loop rest).tasks .base).count .addTimerTask +
      (if task = .addTimerTask ∧ loop = .base then 1 else 0) =
      (s.tasks .base).count .addTimerTask := by
    rw [dequeue_tasks]
    by_cases hl : loop = .base
    · subst hl
      rw [if_pos rfl, queued, List.count_cons]
      simp
    · rw [if_neg (Ne.symm hl), if_neg fun hc => hl hc.2, Nat.add_zero]
  have hworkers : ∀ i, .addTimerTask ∉ (s.dequeue loop rest).tasks (.worker i) := by
    intro i hm
    rw [dequeue_tasks] at hm
    split at hm
    · rename_i hl
      exact h.workers i (hl ▸ queued ▸ List.mem_cons_of_mem _ hm)
    · exact h.workers i hm
  have hdeq : (s.dequeue loop rest).Numbered n := h.frame rfl rfl rfl rfl (by omega) hworkers
  rcases exec_cases hpop htask ran with ⟨rfl, rfl⟩ | ⟨k, op, m, c, -, hm, hc, rfl⟩
  · cases loop with
    | worker i => exact absurd (queued ▸ List.mem_cons_self) (h.workers i)
    | base =>
      refine hdeq.bumpId hn ?_
      simp only [and_self, if_true] at hbase
      show s.nextId + 1 + _ ≤ n
      omega
  · exact hdeq.stepped hm hc

theorem Numbered.newConnection {fd : Nat} (h : s.Numbered n) (hs : s.Wired) (hn : n + 1 < 2 ^ 64)
    (idle : s.accepting = none) : (s.newConnection fd).Numbered (n + 1) := by
  have hroom := h.room
  have hnext : (s.newConnection fd).nextId = s.nextId + 1 := Nat.mod_eq_of_lt (by omega)
  have hids : (s.newConnection fd).ids = s.ids ++ [s.nextId + 1] := by
    show (s.made ++ [_]).map Member.id = _
    rw [List.map_append]
    exact congrArg (s.ids ++ [·]) hnext
  have hacc : ∃ stage, (s.newConnection fd).accepting = some (s.ids.length, stage) :=
    ⟨_, by rw [ids, List.length_map]; rfl⟩
  obtain ⟨stage₀, hacc⟩ := hacc
  refine ⟨?_, h.workers, ?_, ?_, ?_, ?_, ?_, h.once⟩
  · rw [hnext]
    show s.nextId + 1 + (s.tasks .base).count .addTimerTask ≤ n + 1
    omega
  · rw [hids, List.pairwise_append]
    refine ⟨h.ordered, List.pairwise_singleton _ _, ?_⟩
    intro i hi j hj
    have hle := h.bounded i hi
    have heq := List.mem_singleton.mp hj
    omega
  · intro i hi
    rw [hids, List.mem_append, List.mem_singleton] at hi
    rcases hi with hi | rfl
    · have hle := h.bounded i hi
      omega
    · exact hnext.ge
  · intro k stage hk
    obtain ⟨rfl, -⟩ := Prod.mk.inj (Option.some.inj (hacc.symm.trans hk))
    rw [hids, List.length_append, List.length_singleton]
  · intro k hk hne
    rw [hids, List.length_append, List.length_singleton] at hk
    rcases Nat.lt_succ_iff_lt_or_eq.mp hk with hk | rfl
    · exact h.entered k hk (by simp [idle])
    · exact absurd hacc (hne stage₀)
  · intro id k hk
    obtain ⟨hle, hown, hlater⟩ := h.entry hk
    have hlt : k < s.ids.length := by
      rw [ids, List.length_map]
      exact (hs.inserted hk).1
    refine ⟨by omega, ?_, ?_⟩
    · intro i hi
      rw [hids, List.getElem?_append_left hlt] at hi
      exact hown i hi
    · intro j i hj hi
      rw [hids, List.getElem?_append] at hi
      split at hi
      · exact hlater j i hj hi
      · rw [List.getElem?_singleton] at hi
        split at hi
        · have heq := Option.some.inj hi
          omega
        · exact absurd hi (by simp)

/-- **The insertion finds its number free**: what is in the table is older than the connection. -/
theorem Numbered.free (h : s.Numbered n) (hs : s.Wired) {stage : Stage} {m : Member}
    (hacc : s.accepting = some (k, stage)) (hm : s.made[k]? = some m) :
    s.conns s.nextId = none := by
  have hid : s.ids[k]? = some m.id := by rw [ids, List.getElem?_map, hm, Option.map_some]
  have hlen := h.busy hacc
  refine Option.eq_none_iff_forall_not_mem.mpr ?_
  intro j hj
  have hj : s.conns s.nextId = some j := hj
  have hlt := (hs.inserted hj).1
  rw [ids, List.length_map] at hlen
  have hne : j ≠ k := by
    rintro rfl
    exact (hs.inserted hj).2 stage hacc
  have hlater := (h.entry hj).2.2 k m.id (by omega) hid
  have hbound := h.bounded m.id (List.mem_of_getElem? hid)
  omega

theorem Numbered.inserted (h : s.Numbered n) (hs : s.Wired) {stage : Stage} {m : Member}
    (hacc : s.accepting = some (k, stage)) (hm : s.made[k]? = some m) :
    (s.inserted k).Numbered n := by
  obtain ⟨hmade, hacc', htasks⟩ := insert_frame { s with accepting := none } s.nextId k
  have hnext : (s.inserted k).nextId = s.nextId := by
    unfold TcpServer.inserted TcpServer.insert
    split <;> rfl
  have hids : (s.inserted k).ids = s.ids := congrArg (List.map Member.id) hmade
  have htasks : (s.inserted k).tasks = s.tasks := htasks
  have hconns : ∀ id, (s.inserted k).conns id = if id = s.nextId then some k else s.conns id := by
    intro id
    rw [TcpServer.inserted, insert_conns]
    simp [h.free hs hacc hm]
  have hnew : ∀ id, s.conns id ≠ some k := fun id hid => (hs.inserted hid).2 stage hacc
  have hlen := h.busy hacc
  refine ⟨by rw [hnext, htasks]; exact h.room, htasks ▸ h.workers, hids ▸ h.ordered,
    by rw [hids, hnext]; exact h.bounded, ?_, ?_, ?_, ?_⟩
  · intro j st hj
    exact absurd (hacc'.symm.trans hj) (by simp)
  · intro j hj _
    rw [hids] at hj
    by_cases hjk : j = k
    · subst hjk
      exact ⟨s.nextId, by rw [hconns, if_pos rfl]⟩
    · obtain ⟨id, hid⟩ := h.entered j hj (by simp [hacc, Ne.symm hjk])
      refine ⟨id, ?_⟩
      rw [hconns, if_neg]
      · exact hid
      · rintro rfl
        exact absurd ((h.free hs hacc hm).symm.trans hid) (by simp)
  · intro id j hj
    rw [hconns] at hj
    rw [hnext, hids]
    split at hj
    · rename_i hid
      obtain rfl := Option.some.inj hj
      subst hid
      refine ⟨le_rfl, fun i hi => h.bounded i (List.mem_of_getElem? hi), ?_⟩
      intro j' i hj' hi
      have hlt := (List.getElem?_eq_some_iff.mp hi).1
      omega
    · exact h.entry hj
  · intro id id' j hid hid'
    rw [hconns] at hid hid'
    split at hid <;> split at hid'
    · omega
    · obtain rfl := Option.some.inj hid
      exact absurd hid' (hnew id')
    · obtain rfl := Option.some.inj hid'
      exact absurd hid (hnew id)
    · exact h.once hid hid'

/-- **A step keeps the numbers in order**, as long as they last. -/
theorem Numbered.step {a : ServerAct} (h : s.Numbered n) (hs : s.Wired)
    (hn : n + (if a.numbers then 1 else 0) < 2 ^ 64) (hstep : s.step a = some t) :
    t.Numbered (n + if a.numbers then 1 else 0) := by
  cases step_does hs hstep with
  | accept idle => exact h.newConnection hs hn idle
  | @goesOn k stage stage' loop op hasTimer _ acc _ ran =>
    have hgone : Numbered n { s with accepting := some (k, stage') } := by
      refine ⟨h.room, h.workers, h.ordered, h.bounded, ?_, ?_, h.entry, h.once⟩
      · intro j st hj
        obtain ⟨rfl, -⟩ := Prod.mk.inj (Option.some.inj hj)
        exact h.busy acc
      · intro j hj hne
        refine h.entered j hj fun st heq => ?_
        obtain ⟨rfl, -⟩ := Prod.mk.inj (Option.some.inj (acc.symm.trans heq))
        exact hne stage' rfl
    exact hgone.runConn (hs.accepting acc) ran
  | inserts acc made => exact h.inserted hs acc made
  | call ran => exact h.runConn hs ran
  | addTimerTask ran => exact h.runTimer hn ran
  | runTask queued ran => exact h.runTask hs hn queued ran
  | conn hm hc => exact h.stepped hm hc

/-! ### Whole runs -/

theorem Numbered.run (acts : List ServerAct) (h : s.Numbered n) (hs : s.Wired)
    (hn : n + acts.countP ServerAct.numbers < 2 ^ 64)
    (hr : Lib.run TcpServer.step s acts = some t) :
    t.Numbered (n + acts.countP ServerAct.numbers) := by
  induction acts generalizing s n with
  | nil =>
    obtain rfl := Option.some.inj hr
    exact h
  | cons a acts ih =>
    obtain ⟨u, hu, hr⟩ := run_cons.mp hr
    have hsum : n + (a :: acts).countP ServerAct.numbers =
        n + (if a.numbers then 1 else 0) + acts.countP ServerAct.numbers := by
      rw [List.countP_cons]
      omega
    rw [hsum] at hn ⊢
    exact ih (h.step hs (by omega) hu) (hs.step hu) hn hr

/-- **Every connection has one owner.** -/
structure Owned (s : TcpServer) : Prop where
  /-- Once `NewConnection` is done with it, it is in the table, under one id and no other. -/
  entered : ∀ {k : Nat} {m : Member}, s.made[k]? = some m →
  (∀ stage, s.accepting ≠ some (k, stage)) →
    ∃ id, m.id ≤ id ∧ ∀ id', s.conns id' = some k ↔ id' = id
  /-- No two connections have the same id. -/
  distinct : ∀ {j k : Nat} {x y : Member}, s.made[j]? = some x → s.made[k]? = some y →
  x.id = y.id → j = k
  /-- An entry is found under the id of its own connection or under that of a timer. -/
  own : ∀ {id j k : Nat} {y : Member}, s.conns id = some j → s.made[k]? = some y → y.id = id → j = k

theorem Numbered.owned (h : s.Numbered n) (hs : s.Wired) : s.Owned where
  entered {k m} hm hne := by
    have hid : s.ids[k]? = some m.id := by rw [ids, List.getElem?_map, hm, Option.map_some]
    obtain ⟨id, hentry⟩ := h.entered k (List.getElem?_eq_some_iff.mp hid).1 hne
    refine ⟨id, (h.entry hentry).2.1 m.id hid, fun id' => ⟨fun h' => h.once h' hentry, ?_⟩⟩
    rintro rfl
    exact hentry
  distinct {j k x y} hx hy heq := by
    have hxi : s.ids[j]? = some x.id := by rw [ids, List.getElem?_map, hx, Option.map_some]
    have hyi : s.ids[k]? = some y.id := by rw [ids, List.getElem?_map, hy, Option.map_some]
    have hnodup : s.ids.Nodup := h.ordered.imp fun hlt => Nat.ne_of_lt hlt
    exact (List.getElem?_inj (List.getElem?_eq_some_iff.mp hxi).1 hnodup).mp (by rw [hxi, hyi, heq])
  own {id j k y} hj hy heq := by
    have hyi : s.ids[k]? = some y.id := by rw [ids, List.getElem?_map, hy, Option.map_some]
    obtain ⟨-, hown, hlater⟩ := h.entry hj
    have hj' : j < s.ids.length := by
      rw [ids, List.length_map]
      exact (hs.inserted hj).1
    rcases Nat.lt_trichotomy j k with hlt | rfl | hlt
    · have := hlater k y.id hlt hyi
      omega
    · rfl
    · -- the connection of the entry is younger than the id it stands under
      have hord := List.pairwise_iff_getElem.mp h.ordered k j
        (List.getElem?_eq_some_iff.mp hyi).1 hj' hlt
      have hge := hown _ (List.getElem?_eq_getElem hj')
      rw [(List.getElem?_eq_some_iff.mp hyi).2] at hord
      omega

end TcpServer

open TcpServer in
/-- **Connections stay owned.**  In every run of a server that accepts and adds timer tasks fewer
than `2 ^ 64` times, each connection that `NewConnection` is done with has exactly one entry in the
table and keeps it through every step that follows, and no two connections have the same id. -/
theorem members_owned (settings : Settings) (acts more : List ServerAct) (s t : TcpServer)
    (hacts : acts.countP ServerAct.numbers < 2 ^ 64)
    (hr : run TcpServer.step (.new settings) acts = some s)
    (ht : run TcpServer.step s more = some t) :
    s.Owned ∧ ∀ id k, s.conns id = some k → t.conns id = some k := by
  have hwired : s.Wired := run_preserves (fun _ _ _ hi h => Wired.step hi h) (wired_new settings) hr
  have hnum := (numbered_new settings).run acts (wired_new settings) (by omega) hr
  exact ⟨hnum.owned hwired, fun _ _ hentry => entry_stays settings acts more s t hr ht hentry⟩

/-- The connected callback of the first connection adds a timer task, which takes the number the
connection is then entered under; it stays there when its peer closes it. -/
theorem members_owned_moved :
    ∃ acts more s t, run TcpServer.step (.new ⟨0, none, true, false, false⟩) acts = some s ∧
      run TcpServer.step s more = some t ∧ s.ids = [1, 3] ∧ s.conns 1 = none ∧ s.conns 2 = some 0 ∧
      (∃ m, t.made[0]? = some m ∧ m.state.ReleaseDone) ∧ s.Owned ∧ t.conns 2 = some 0 := by
  let acts : List ServerAct :=
    [.accept 5, .advance false, .addTimerTask (some .base), .conn 0 ⟨.ret, false⟩, .advance false,
      .accept 6, .advance false, .conn 1 ⟨.ret, false⟩, .advance false]
  let more : List ServerAct :=
    [.setREvents (EPOLLIN ||| EPOLLRDHUP), .handleEvent, .resume, .recv .closed, .resume, .resume,
      .resume].map fun a => .conn 0 ⟨a, false⟩
  have hrun : ((run TcpServer.step (.new ⟨0, none, true, false, false⟩) acts).bind fun s =>
      (run TcpServer.step s more).map fun t =>
        (s.ids, s.conns 1, s.conns 2, (t.made[0]?).map fun m =>
        (decide (.releaseInLoop ∈ m.state.log), decide (.releaseTail ∉ m.state.stack)))) =
      some ([1, 3], none, some 0, some (true, true)) := by
    decide +kernel
  obtain ⟨s, hs, hmap⟩ := Option.bind_eq_some_iff.mp hrun
  obtain ⟨t, ht, hp⟩ := Option.map_eq_some_iff.mp hmap
  simp only [Prod.mk.injEq] at hp
  obtain ⟨hids, hfirst, hsecond, hmade⟩ := hp
  obtain ⟨m, hm, hdone⟩ := Option.map_eq_some_iff.mp hmade
  simp only [Prod.mk.injEq, decide_eq_true_eq] at hdone
  obtain ⟨howned, hstays⟩ :=
    members_owned ⟨0, none, true, false, false⟩ acts more s t (by decide) hs ht
  exact ⟨acts, more, s, t, hs, ht, hids, hfirst, hsecond, ⟨m, hm, hdone⟩, howned,
    hstays 2 0 hsecond⟩

end Flux
