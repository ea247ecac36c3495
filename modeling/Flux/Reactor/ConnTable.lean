import Flux.Reactor.TcpServer

/-!
# `_conns`

What becomes of the table of the server in a run.  The server never hears of a closed connection, so
nothing leaves the table (`TcpServer.entry_stays`).

* `TcpServer.Tracks`: the table has no connection that is closed, and has every other.
* `tracks_iff`: every state of a run is such a state exactly when every step of it meets
  `TcpServer.KeepsTrack`.
* `tracks_closed_by_peer`: one client that connects and goes away again stays in the table.
-/

namespace Flux

open Lib

namespace TcpServer

variable {s t : TcpServer} {k : Nat} {hasTimer : Bool}

/-! ### The table and the connections -/

/-- When the base loop has nothing queued, no connection with its release behind it is in the
table. -/
def Forgets (s : TcpServer) : Prop :=
  s.tasks .base = [] → ∀ (k : Nat) (m : Member), s.made[k]? = some m → m.state.ReleaseDone →
    s.conns m.id = none

/-- A connection `NewConnection` is done with is in the table up to its release. -/
def Keeps (s : TcpServer) : Prop :=
  ∀ (k : Nat) (m : Member), s.made[k]? = some m → (∀ stage, s.accepting ≠ some (k, stage)) →
    .releaseInLoop ∉ m.state.log → s.conns m.id = some k

/-- **The table keeps track of the connections.** -/
structure Tracks (s : TcpServer) : Prop where
  forgets : s.Forgets
  keeps : s.Keeps

/-- What a step needs for that, said of the state before it.

The insertion finds `_next_id` where it was and still free, unless the connection is released
already; and it does not enter the id of a connection with its release behind it, unless the base
loop has tasks left.  A `ReleaseInLoop` comes to its end, and the base loop to its last task, only
while no connection with its release behind it is in the table. -/
def KeepsTrack (s : TcpServer) : ServerAct → Prop
  | .advance _ => ∀ (k : Nat) (m : Member), s.accepting = some (k, .insert) → s.made[k]? = some m →
      (.releaseInLoop ∉ m.state.log → m.id = s.nextId ∧ s.conns s.nextId = none) ∧
      (s.tasks .base = [] → s.conns s.nextId = none → ∀ (j : Nat) (x : Member),
        s.made[j]? = some x → x.state.ReleaseDone → x.id ≠ s.nextId)
  | .conn k i => s.tasks .base = [] → ∀ m : Member, s.made[k]? = some m → m.state.EndsRelease i →
      s.conns m.id = none
  | .runTask .base _ => ∀ task, s.tasks .base = [task] → ∀ (k : Nat) (m : Member),
      s.made[k]? = some m → m.state.ReleaseDone → task ≠ .conn k .release → s.conns m.id = none
  | _ => True

theorem Keeps.stepped {i : Input} {m : Member} {c : ConnState} (hk : s.Keeps)
    (hm : s.made[k]? = some m) (hc : m.state.step i = some c) : (s.stepped k m c).Keeps := by
  intro j x hx hacc hlog
  rcases (stepped_made hm).mp hx with ⟨rfl, rfl⟩ | ⟨-, hx⟩
  · have hid : Member.id ⟨m.loop, c⟩ = m.id := by
      obtain ⟨seg, rest, e, _, he, rfl⟩ := ConnState.step_eq_some.mp hc
      exact (Segment.exec_setUp he).1
    rw [hid]
    exact hk j m hm hacc fun h => hlog ((ConnState.step_log hc).subset h)
  · exact hk j x hx hacc hlog

theorem forgets_stepped {i : Input} {m : Member} {c : ConnState} (hs : s.Wired)
    (hm : s.made[k]? = some m) (hc : m.state.step i = some c) : (s.stepped k m c).Forgets ↔
      (s.tasks .base = [] →
        (m.state.ReleaseDone ∧ m.state.runs i ≠ some .releaseInLoop ∨ m.state.EndsRelease i →
          s.conns m.id = none) ∧
        ∀ (j : Nat) (x : Member), j ≠ k → s.made[j]? = some x → x.state.ReleaseDone →
          s.conns x.id = none) := by
  have hid : Member.id ⟨m.loop, c⟩ = m.id := by
    obtain ⟨seg, rest, e, _, he, rfl⟩ := ConnState.step_eq_some.mp hc
    exact (Segment.exec_setUp he).1
  refine imp_congr_right ?_
  intro _
  rw [← ConnState.releaseDone_step (hs.members hm).2 hc]
  constructor
  · refine fun h => ⟨?_, fun j x hj hx => h j x ((stepped_made hm).mpr (Or.inr ⟨hj, hx⟩))⟩
    intro hdone
    exact hid ▸ h k _ ((stepped_made hm).mpr (Or.inl ⟨rfl, rfl⟩)) hdone
  · rintro ⟨hself, hother⟩ j x hx
    rcases (stepped_made hm).mp hx with ⟨rfl, rfl⟩ | ⟨hj, hx⟩
    · exact hid.symm ▸ hself
    · exact hother j x hj hx

theorem tracks_stepped_iff {i : Input} {m : Member} {c : ConnState} (hk : s.Keeps)
    (hm : s.made[k]? = some m) (hc : m.state.step i = some c) :
    (s.stepped k m c).Tracks ↔ (s.stepped k m c).Forgets :=
  ⟨fun h => h.forgets, fun h => ⟨h, hk.stepped hm hc⟩⟩

theorem Forgets.called {op : ConnOp} {m : Member} {c : ConnState} (hf : s.Forgets) (hs : s.Wired)
    (hm : s.made[k]? = some m) (hc : m.state.step ⟨.call op, hasTimer⟩ = some c) :
    (s.stepped k m c).Forgets := by
  refine (forgets_stepped hs hm hc).mpr fun htasks => ⟨?_, fun j x _ => hf htasks j x⟩
  rintro (⟨hdone, -⟩ | ⟨hact, -⟩)
  · exact hf htasks k m hm hdone
  · exact absurd hact (by simp)

theorem Forgets.queueInLoop {loop : LoopId} {task : Task} (hf : s.Forgets) :
    (s.queueInLoop loop task).Forgets := by
  intro htasks
  rw [queueInLoop_tasks] at htasks
  split at htasks
  · exact absurd htasks (by simp)
  · exact hf htasks

theorem Tracks.exec {task : Task} (ht : s.Tracks) (hs : s.Wired)
    (htask : ∀ k, task ≠ .removeConnection k) (h : s.exec hasTimer task = some t) : t.Tracks := by
  rcases exec_cases hs htask h with ⟨-, rfl⟩ | ⟨k, op, m, c, -, hm, hc, rfl⟩
  · exact ⟨ht.forgets, ht.keeps⟩
  · exact ⟨ht.forgets.called hs hm hc, ht.keeps.stepped hm hc⟩

theorem Tracks.runInLoop {thread : Option LoopId} {loop : LoopId} {task : Task} (ht : s.Tracks)
    (hs : s.Wired) (htask : ∀ k, task ≠ .removeConnection k)
    (h : s.runInLoop thread loop task hasTimer = some t) : t.Tracks := by
  unfold TcpServer.runInLoop at h
  split at h
  · exact ht.exec hs htask h
  · obtain rfl := Option.some.inj h
    exact ⟨ht.forgets.queueInLoop, ht.keeps⟩

theorem Tracks.newConnection {fd : Nat} (ht : s.Tracks) (hidle : s.accepting = none) :
    (s.newConnection fd).Tracks := by
  have hmade : ∀ {j : Nat} {x : Member}, (s.newConnection fd).made[j]? = some x →
      s.made[j]? = some x ∨ j = s.made.length ∧ x.state.log = [] := by
    intro j x hx
    have hx' : (s.made ++ [_])[j]? = some x := hx
    rcases Nat.lt_trichotomy j s.made.length with hj | hj | hj
    · exact Or.inl (by rwa [List.getElem?_append_left hj] at hx')
    · subst hj
      rw [List.getElem?_concat_length] at hx'
      exact Or.inr ⟨rfl, by rw [← Option.some.inj hx']; rfl⟩
    · rw [List.getElem?_eq_none (by simp; omega)] at hx'
      exact absurd hx' (by simp)
  constructor
  · intro htasks j x hx hdone
    rcases hmade hx with hx | ⟨-, hlog⟩
    · exact ht.forgets htasks j x hx hdone
    · exact absurd hdone.1 (by simp [hlog])
  · intro j x hx hacc hlog
    rcases hmade hx with hx | ⟨rfl, -⟩
    · exact ht.keeps j x hx (by simp [hidle]) hlog
    · exact absurd rfl (hacc _)

theorem tracks_inserted {m : Member} (ht : s.Tracks) (hs : s.Wired)
    (hacc : s.accepting = some (k, .insert)) (hm : s.made[k]? = some m) :
    (s.inserted k).Tracks ↔ s.KeepsTrack (.advance hasTimer) := by
  obtain ⟨hmade, hacc', htasks⟩ := insert_frame { s with accepting := none } s.nextId k
  have hconns : ∀ id, (s.inserted k).conns id =
      if s.conns s.nextId = none ∧ id = s.nextId then some k else s.conns id :=
    fun id => insert_conns _ _ _ _
  have hnew : ∀ id, s.conns id ≠ some k := fun id h => (hs.inserted h).2 _ hacc
  constructor
  · intro h k' m' hk' hm'
    obtain ⟨rfl, -⟩ := Prod.mk.inj (Option.some.inj (hacc.symm.trans hk'))
    obtain rfl := Option.some.inj (hm.symm.trans hm')
    constructor
    · intro hlog
      have hentry := h.keeps k m (hmade.symm ▸ hm) (by rw [inserted, hacc']; simp) hlog
      rw [hconns] at hentry
      split at hentry
      · exact ⟨‹_ ∧ _›.2, ‹_ ∧ _›.1⟩
      · exact absurd hentry (hnew _)
    · intro hempty hfree j x hx hdone hid
      have hentry := h.forgets (htasks.symm ▸ hempty) j x (hmade.symm ▸ hx) hdone
      rw [hconns, if_pos ⟨hfree, hid⟩] at hentry
      exact absurd hentry (by simp)
  · intro h
    obtain ⟨hself, hothers⟩ := h k m hacc hm
    constructor
    · intro hempty j x hx hdone
      have hempty' : s.tasks .base = [] := htasks ▸ hempty
      have hx' : s.made[j]? = some x := hmade ▸ hx
      rw [hconns, if_neg fun hc => hothers hempty' hc.1 j x hx' hdone hc.2]
      exact ht.forgets hempty' j x hx' hdone
    · intro j x hx hfin hlog
      have hx' : s.made[j]? = some x := hmade ▸ hx
      rw [hconns]
      by_cases hj : j = k
      · subst hj
        obtain rfl := Option.some.inj (hm.symm.trans hx')
        obtain ⟨hid, hfree⟩ := hself hlog
        exact if_pos ⟨hfree, hid⟩
      · have hentry := ht.keeps j x hx' (fun stage heq => ?_) hlog
        · rwa [if_neg fun hc => absurd (hc.1.symm.trans (hc.2 ▸ hentry)) (by simp)]
        · rw [hacc, Option.some.injEq, Prod.mk.injEq] at heq
          exact hj heq.1.symm

theorem tracks_lastTask {task : Task} (ht : s.Tracks) (hs : s.Wired)
    (htasks : s.tasks .base = [task])
    (h : (s.dequeue .base []).exec hasTimer task = some t) :
    t.Tracks ↔ s.KeepsTrack (.runTask .base hasTimer) := by
  obtain ⟨hpop, htask⟩ := hs.dequeue htasks
  have hempty : (s.dequeue .base []).tasks .base = [] := by
    rw [dequeue_tasks]
    exact if_pos rfl
  have hok : s.KeepsTrack (.runTask .base hasTimer) ↔ ∀ (k : Nat) (m : Member),
      s.made[k]? = some m → m.state.ReleaseDone → task ≠ .conn k .release →
      s.conns m.id = none := by
    refine ⟨fun h => h task htasks, ?_⟩
    intro h task' htask'
    obtain rfl := (List.cons.inj (htasks.symm.trans htask')).1
    exact h
  rw [hok]
  rcases exec_cases hpop htask h with ⟨rfl, rfl⟩ | ⟨k, op, m, c, rfl, hm, hc, rfl⟩
  · refine ⟨fun h j x hx hdone _ => h.forgets hempty j x hx hdone, fun h => ⟨?_,
      ht.keeps⟩⟩
    intro _ j x hx hdone
    exact h j x hx hdone (by simp)
  · have hruns : m.state.runs ⟨.call op, hasTimer⟩ ≠ some .releaseInLoop ↔ op ≠ .release :=
      not_congr (ConnState.runs_release_iff hc)
    have hkeeps : (s.dequeue .base []).Keeps := ht.keeps
    have hcalled : ¬ m.state.EndsRelease ⟨.call op, hasTimer⟩ := fun h => absurd h.1 (by simp)
    rw [tracks_stepped_iff hkeeps hm hc, forgets_stepped hpop hm hc, hruns]
    constructor
    · intro h j x hx hdone hne
      by_cases hj : j = k
      · subst hj
        obtain rfl := Option.some.inj (hm.symm.trans hx)
        exact (h hempty).1 (Or.inl ⟨hdone, fun hop => hne (by rw [hop])⟩)
      · exact (h hempty).2 j x hj hx hdone
    · intro h _
      refine ⟨?_, fun j x hj hx hdone => h j x hx hdone (by simp [Ne.symm hj])⟩
      rintro (⟨hdone, hop⟩ | hend)
      · exact h k m hm hdone (by simp [hop])
      · exact absurd hend hcalled

/-- **What a step does to the table.** -/
theorem tracks_step {a : ServerAct} (hs : s.Wired) (ht : s.Tracks) (h : s.step a = some t) :
    t.Tracks ↔ s.KeepsTrack a := by
  cases step_does hs h with
  | accept idle => exact iff_of_true (ht.newConnection idle) trivial
  | @goesOn k stage stage' loop op hasTimer _ acc early ran =>
    have ht' : Tracks { s with accepting := some (k, stage') } := by
      refine ⟨ht.forgets, fun j x hx hfin => ht.keeps j x hx fun st heq => hfin stage' ?_⟩
      rw [acc, Option.some.injEq, Prod.mk.injEq] at heq
      rw [heq.1]
    refine iff_of_true (ht'.runInLoop (hs.accepting acc) (by simp) ran) ?_
    intro k' m' hk' _
    exact absurd (Prod.mk.inj (Option.some.inj (acc.symm.trans hk'))).2 early
  | inserts acc made => exact tracks_inserted ht hs acc made
  | call ran | addTimerTask ran => exact iff_of_true (ht.runInLoop hs (by simp) ran) trivial
  | @runTask loop task rest hasTimer _ queued ran =>
    obtain ⟨hpop, htask⟩ := hs.dequeue queued
    by_cases hlast : loop = .base ∧ rest = []
    · obtain ⟨rfl, rfl⟩ := hlast
      exact tracks_lastTask ht hs queued ran
    · have hforgets : (s.dequeue loop rest).Forgets := by
        intro hempty
        rw [dequeue_tasks] at hempty
        split at hempty
        · exact absurd ⟨Eq.symm ‹_›, hempty⟩ hlast
        · exact ht.forgets hempty
      refine iff_of_true (Tracks.exec ⟨hforgets, ht.keeps⟩ hpop htask ran) ?_
      cases loop with
      | worker => trivial
      | base =>
        intro task' htask'
        exact absurd ⟨rfl, (List.cons.inj (queued.symm.trans htask')).2⟩ hlast
  | @conn k i m c made stepped =>
    rw [tracks_stepped_iff ht.keeps made stepped, forgets_stepped hs made stepped]
    constructor
    · intro h hempty m' hm' hend
      obtain rfl := Option.some.inj (made.symm.trans hm')
      exact (h hempty).1 (Or.inr hend)
    · intro h hempty
      refine ⟨?_, fun j x _ hx => ht.forgets hempty j x hx⟩
      rintro (⟨hdone, -⟩ | hend)
      · exact ht.forgets hempty k m made hdone
      · exact h hempty m made hend

theorem tracks_new (settings : Settings) : (new settings).Tracks where
  forgets _ _ _ hx := absurd hx (by simp [new])
  keeps _ _ hx := absurd hx (by simp [new])

/-! ### Nothing leaves the table -/

variable {id : Nat}

theorem exec_conns {task : Task} (hs : s.Wired)
    (htask : ∀ k, task ≠ .removeConnection k) (h : s.exec hasTimer task = some t) :
    t.conns = s.conns := by
  rcases exec_cases hs htask h with ⟨-, rfl⟩ | ⟨k, op, m, c, -, -, -, rfl⟩ <;> rfl

theorem runInLoop_conns {thread : Option LoopId} {loop : LoopId} {task : Task} (hs : s.Wired)
    (htask : ∀ k, task ≠ .removeConnection k)
    (h : s.runInLoop thread loop task hasTimer = some t) : t.conns = s.conns := by
  unfold TcpServer.runInLoop at h
  split at h
  · exact exec_conns hs htask h
  · obtain rfl := Option.some.inj h
    rfl

theorem step_conns {a : ServerAct} (hs : s.Wired) (h : s.step a = some t)
    (hentry : s.conns id = some k) : t.conns id = some k := by
  cases step_does hs h with
  | accept | conn => exact hentry
  | goesOn acc _ ran =>
    rw [runInLoop_conns (hs.accepting acc) (by simp) ran]
    exact hentry
  | inserts =>
    rw [inserted, insert_conns, if_neg]
    · exact hentry
    · rintro ⟨hfree, rfl⟩
      exact absurd (hfree.symm.trans hentry) (by simp)
  | call ran | addTimerTask ran => rw [runInLoop_conns hs (by simp) ran, hentry]
  | runTask queued ran =>
    obtain ⟨hpop, htask⟩ := hs.dequeue queued
    rw [exec_conns hpop htask ran]
    exact hentry

/-- **An entry of the table stays**, whatever becomes of the connection. -/
theorem entry_stays (settings : Settings) (before after : List ServerAct) (s t : TcpServer)
    (hs : run step (new settings) before = some s) (ht : run step s after = some t)
    (hentry : s.conns id = some k) : t.conns id = some k := by
  have hwired : s.Wired := run_preserves (fun _ _ _ hi h => Wired.step hi h) (wired_new settings) hs
  have hinv : t.Wired ∧ t.conns id = some k :=
    run_preserves (I := fun s => s.Wired ∧ s.conns id = some k)
      (fun _ _ _ hi h => ⟨hi.1.step h, step_conns hi.1 h hi.2⟩) ⟨hwired, hentry⟩ ht
  exact hinv.2

end TcpServer

/-- **When the server keeps track of its connections.**  In every state of a run the table has no
connection whose release is over, as soon as the base loop has run what is queued to it, and it has
every other connection `NewConnection` is done with, exactly when every step of the run meets
`TcpServer.KeepsTrack`. -/
theorem tracks_iff (settings : Settings) (acts : List ServerAct) (s : TcpServer)
    (hr : run TcpServer.step (.new settings) acts = some s) :
    Always TcpServer.step TcpServer.Tracks (.new settings) acts ↔
      Each TcpServer.step TcpServer.KeepsTrack (.new settings) acts :=
  always_iff_each (fun _ _ _ hs h => TcpServer.Wired.step hs h)
    (fun _ _ _ hs ht h => TcpServer.tracks_step hs ht h) (TcpServer.wired_new settings)
    (TcpServer.tracks_new settings) hr

/-- Two connections accepted for a pool of two loops.  The first is closed by its peer and released
on its loop while a timer task waits for the base loop, which then runs it. -/
theorem tracks_iff_pool :
    ∃ acts s m, run TcpServer.step (.new ⟨2, some 10, true, true, false⟩) acts = some s ∧
      s.conns 1 = some 0 ∧ s.conns 2 = some 1 ∧ s.made[0]? = some m ∧ m.state.ReleaseDone ∧
      (Always TcpServer.step TcpServer.Tracks (.new ⟨2, some 10, true, true, false⟩) acts ↔
        Each TcpServer.step TcpServer.KeepsTrack (.new ⟨2, some 10, true, true, false⟩) acts) := by
  let acts : List ServerAct :=
    [.accept 5, .advance false, .runTask (.worker 1) false, .advance false, .advance false,
      .accept 6,
      .advance false, .advance false, .advance false, .runTask (.worker 1) false,
      .conn 0 ⟨.ret, false⟩, .addTimerTask none] ++
    ([.setREvents (EPOLLIN ||| EPOLLRDHUP), .handleEvent, .resume, .recv .closed, .resume,
      .resume, .ret,
      .resume].map fun a => .conn 0 ⟨a, false⟩) ++ [.runTask .base false]
  have hrun : (run TcpServer.step (.new ⟨2, some 10, true, true, false⟩) acts).map (fun s =>
      (s.conns 1, s.conns 2, (s.made[0]?).map fun m =>
        (decide (.releaseInLoop ∈ m.state.log), decide (.releaseTail ∉ m.state.stack)))) =
      some (some 0, some 1, some (true, true)) := by
    decide +kernel
  obtain ⟨s, hs, hp⟩ := Option.map_eq_some_iff.mp hrun
  simp only [Prod.mk.injEq] at hp
  obtain ⟨hfirst, hsecond, hmade⟩ := hp
  obtain ⟨m, hm, hdone⟩ := Option.map_eq_some_iff.mp hmade
  simp only [Prod.mk.injEq, decide_eq_true_eq] at hdone
  exact ⟨acts, s, m, hs, hfirst, hsecond, hm, hdone,
    tracks_iff ⟨2, some 10, true, true, false⟩ acts s hs⟩

/-- A client connects to a server without a pool and goes away: the connection is released, the base
loop has nothing to do, and the table has the connection still. -/
theorem tracks_closed_by_peer :
    ¬ ∀ (settings : Settings) (acts : List ServerAct) (s : TcpServer),
      run TcpServer.step (.new settings) acts = some s → s.Tracks := by
  intro h
  let acts : List ServerAct :=
    [.accept 5, .advance false, .advance false] ++
      [.setREvents (EPOLLIN ||| EPOLLRDHUP), .handleEvent, .resume, .recv .closed, .resume, .resume,
        .resume, .resume].map fun a => .conn 0 ⟨a, false⟩
  have hrun : (run TcpServer.step (.new ⟨0, none, false, false, false⟩) acts).map (fun s =>
      (s.conns 1, decide (s.tasks .base = []), (s.made[0]?).map fun m =>
        (m.id, decide (.releaseInLoop ∈ m.state.log), decide (.releaseTail ∉ m.state.stack)))) =
      some (some 0, true, some (1, true, true)) := by
    decide +kernel
  obtain ⟨s, hs, hp⟩ := Option.map_eq_some_iff.mp hrun
  simp only [Prod.mk.injEq, decide_eq_true_eq] at hp
  obtain ⟨hentry, hempty, hmade⟩ := hp
  obtain ⟨m, hm, hm'⟩ := Option.map_eq_some_iff.mp hmade
  simp only [Prod.mk.injEq, decide_eq_true_eq] at hm'
  obtain ⟨hid, hlog, hstack⟩ := hm'
  have hgone := (h _ acts s hs).forgets hempty 0 m hm ⟨hlog, hstack⟩
  rw [hid, hentry] at hgone
  exact absurd hgone (by simp)

end Flux
