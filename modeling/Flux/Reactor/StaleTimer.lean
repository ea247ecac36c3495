import Flux.Reactor.Inactivity

/-!
# A stale timer

`NewConnection` enables the release of an inactive connection first of all, and only once.  From
then on either the task is in the wheel with its entry in the table, or no pointer to it is left in
the wheel.  In the first case `ReleaseInLoop` finds the entry and cancels the task; in the second
there is no callback to run.  `Guarded` says so, a step keeps it (`Guarded.step`), and
`stale_timer_silent` reads it off where the callback of the task is due.
-/

namespace Flux

open Lib

namespace TimerWheel

variable {w : TimerWheel} {id : Nat}

/-! ### No pointer left -/

theorem NoRef.of_same {w' : TimerWheel} (hw : w.NoRef id) (h : SameFor id w w') : w'.NoRef id := by
  intro p r hr hn
  have hn' := h.named.mp hn
  exact hw p r ((h.slots p r hn').mp hr) hn'

theorem NoRef.popFront (hw : w.NoRef id) {pt : Nat} {rest : List Nat}
    (hs : w.wheel w.tick = pt :: rest) : (w.popFront rest).NoRef id :=
  fun p r hr => hw p r (mem_popFront hs hr)

theorem NoRef.erase (hw : w.NoRef id) (id' : Nat) : (w.removeTimer id').NoRef id := by
  rw [removeTimer_timers]
  exact hw

theorem NoRef.expired (hv : w.Valid) (hw : w.NoRef id) {pt : Nat} (he : w.timers id = some pt) :
    w.Expired pt :=
  fun p hp => hw p pt hp (hv.entries id pt he)

theorem NoRef.refresh (hv : w.Valid) (hw : w.NoRef id) : (w.timerRefreshInLoop id).NoRef id := by
  rcases timerRefreshInLoop_cases hv id with ⟨_, he⟩ | ⟨pt, _, _, he⟩ | ⟨pt, _, hn, hx, _, _, _⟩
  · rw [he]
    exact hw
  · rw [he]
    exact hw
  · exact absurd (hw.expired hv hn) hx

theorem NoRef.cancel (hw : w.NoRef id) : (w.timerCancelInLoop id).NoRef id := by
  rcases timerCancelInLoop_cases w id with ⟨_, he⟩ | ⟨pt, _, he⟩
  · rw [he]
    exact hw
  · rw [he]
    exact fun p r hr hn => hw p r hr (named_modify.mp hn)

end TimerWheel

namespace TimedConn

/-- The id of the task whose callback runs when `RunTimerTask` lets the next pointer go. -/
def callbackDue (s : TimedConn) : Option Nat :=
  match s.phase, s.wheel.wheel s.wheel.tick with
  | .clearing, pt :: rest =>
    if (s.wheel.popFront rest).Expired pt then
      ((s.wheel.popFront rest).tasks[pt]?).bind fun task =>
        if task.canceled then none else some task.id
    else none
  | _, _ => none

theorem callbackDue_eq_some {s : TimedConn} {id : Nat} (h : s.callbackDue = some id) :
    ∃ pt rest task, s.phase = .clearing ∧ s.wheel.wheel s.wheel.tick = pt :: rest ∧
      (s.wheel.popFront rest).Expired pt ∧ (s.wheel.popFront rest).tasks[pt]? = some task ∧
      task.canceled = false ∧ task.id = id := by
  unfold callbackDue at h
  split at h
  · rename_i pt rest hphase hslot
    split at h
    · obtain ⟨task, ht, h⟩ := Option.bind_eq_some_iff.mp h
      rw [Option.ite_none_left_eq_some] at h
      exact ⟨pt, rest, task, hphase, hslot, ‹_›, ht, Bool.eq_false_iff.mpr h.1, Option.some.inj h.2⟩
    · exact absurd h (by simp)
  · exact absurd h (by simp)

/-- **The timer cannot release the connection a second time**: its task is in the wheel with an
entry, and cancelled if the connection has been released; or no pointer to it is left. -/
structure Guarded (s : TimedConn) : Prop where
  valid : s.wheel.Valid
  task : (∃ c, s.wheel.Shows s.id (some c) ∧ (.releaseInLoop ∈ s.conn.log → c.canceled = true) ∧
    s.phase ≠ .dying s.id) ∨ s.wheel.NoRef s.id

/-- Not a second `EnableInactiveRelease`. -/
def Later (a : TimedAct) : Prop := ∀ sec, a ≠ .conn (.call (.enableInactiveRelease sec))

/-- What an operation on the timer makes of a countdown. -/
def obeyed (c : Countdown) : Obs → Countdown
  | .timerRefresh => c.restart
  | .timerCancel => c.cancel
  | _ => c

theorem Guarded.connStep {s t : TimedConn} {act : Act} (h : Guarded s) (hl : Later (.conn act))
    (hs : s.connStep act = some t) : Guarded t := by
  have hid := connStep_id hs
  obtain ⟨seg, rest, e, hcomes, he, hc, hp, _, hw⟩ := connStep_eq_some hs
  refine ⟨hw ▸ h.valid.obeys _ _, ?_⟩
  have hone := seg.timers_cases s.conn.conn (s.wheel.hasTimer s.id)
  have hnoadd : ∀ o : Obs, (∀ sec, o = .timerAdd sec → s.wheel.hasTimer s.id = false ∧
      seg = .enableInactiveReleaseInLoop sec) → ∀ sec, o ≠ .timerAdd sec := by
    intro o hadd sec ho
    obtain ⟨_, rfl⟩ := hadd sec ho
    exact hl sec (congrArg TimedAct.conn hcomes.cause)
  rw [hid, hw, hp, hc]
  rcases h.task with ⟨c, hsh, hcancel, hphase⟩ | hno
  · refine Or.inl ?_
    have hlog : ∀ {c' : Countdown}, (c.canceled = true → c'.canceled = true) →
        (seg = .releaseInLoop → c'.canceled = true) →
        .releaseInLoop ∈ s.conn.log ++ e.obs → c'.canceled = true := by
      intro c' hkeep hnew hm
      rcases List.mem_append.mp hm with hm | hm
      · exact hkeep (hcancel hm)
      · exact hnew ((Segment.exec_enters he).mp hm)
    rcases hone with ht | ⟨o, ht, hadd⟩
    · refine ⟨c, by rw [ht]; exact hsh, hlog (fun hk => hk) ?_, hphase⟩
      rintro rfl
      rw [Segment.timers, hsh.hasTimer] at ht
      exact absurd ht (by simp)
    · rw [ht]
      refine ⟨obeyed c o, ?_, hlog ?_ ?_, hphase⟩
      · cases o with
        | timerAdd sec => exact absurd rfl (hnoadd _ hadd sec)
        | timerRefresh => exact hsh.refresh h.valid
        | timerCancel => exact hsh.cancel
        | _ => exact hsh
      · cases o with
        | timerCancel => exact fun _ => rfl
        | _ => exact fun hk => hk
      · rintro rfl
        rw [Segment.timers, hsh.hasTimer] at ht
        obtain rfl := List.singleton_inj.mp ht
        rfl
  · refine Or.inr ?_
    rcases hone with ht | ⟨o, ht, hadd⟩
    · rw [ht]
      exact hno
    · rw [ht]
      cases o with
      | timerAdd sec => exact absurd rfl (hnoadd _ hadd sec)
      | timerRefresh => exact hno.refresh h.valid
      | timerCancel => exact hno.cancel
      | _ => exact hno

/-- What one pointer less leaves of the guard: the task of the connection dies, or it holds on. -/
theorem Guarded.popFront {s : TimedConn} (h : Guarded s) {pt : Nat} {rest : List Nat}
    (hslot : s.wheel.wheel s.wheel.tick = pt :: rest) :
    (∃ c, (s.wheel.popFront rest).Shows s.id (some c) ∧
      (.releaseInLoop ∈ s.conn.log → c.canceled = true) ∧ s.phase ≠ .dying s.id ∧
      ((s.wheel.popFront rest).Expired pt → ¬ s.wheel.Named s.id pt)) ∨
    (s.wheel.popFront rest).NoRef s.id := by
  rcases h.task with ⟨c, hsh, hcancel, hphase⟩ | hno
  · rcases hsh.popFront hslot with ⟨hsh', hother⟩ | ⟨_, _, _, _, _, hno⟩
    · exact Or.inl ⟨c, hsh', hcancel, hphase, hother⟩
    · exact Or.inr hno
  · exact Or.inr (hno.popFront hslot)

theorem Guarded.step {s t : TimedConn} {a : TimedAct} (h : Guarded s) (hl : Later a)
    (hs : s.step a = some t) : Guarded t := by
  cases stepped hs with
  | conn may goes => exact h.connStep hl goes
  | others valid same ne =>
    refine ⟨valid h.valid, ?_⟩
    rcases h.task with ⟨c, hsh, hrest⟩ | hno
    · exact Or.inl ⟨c, hsh.of_same (same h.valid), hrest⟩
    · exact Or.inr (hno.of_same (same h.valid))
  | tick phase stack =>
    exact ⟨h.valid, h.task.imp_left fun ⟨c, hsh, hcancel, _⟩ => ⟨c, hsh, hcancel, by simp⟩⟩
  | kept phase slot live =>
    refine ⟨h.valid.popFront slot, ?_⟩
    exact (h.popFront slot).imp_left fun ⟨c, hsh, hcancel, hphase, _⟩ => ⟨c, hsh, hcancel, hphase⟩
  | canceled phase slot dead known mark =>
    refine ⟨(h.valid.popFront slot).removeTimer _, ?_⟩
    rcases h.popFront slot with ⟨c, hsh, hcancel, hphase, hother⟩ | hno
    · have hne := fun hid => hother dead ⟨_, known, hid⟩
      exact Or.inl ⟨c, hsh.removeTimer_other hne, hcancel, hphase⟩
    · exact Or.inr (hno.erase _)
  | foreign phase slot dead known ne =>
    refine ⟨h.valid.popFront slot, ?_⟩
    exact (h.popFront slot).imp_left fun ⟨c, hsh, hcancel, _⟩ =>
      ⟨c, hsh, hcancel, fun hd => ne (TickPhase.dying.inj hd)⟩
  | @own pt rest task _ phase slot dead known mark id goes =>
    -- the task of the connection dies, so no pointer to it is left when its callback runs
    refine Guarded.connStep
      (s := { s with wheel := s.wheel.popFront rest, phase := .dying task.id })
      ⟨h.valid.popFront slot, Or.inr ?_⟩ (by simp [Later]) goes
    rcases h.popFront slot with ⟨_, _, _, _, hother⟩ | hno
    · exact absurd ⟨task, known, id⟩ (hother dead)
    · exact hno
  | @release id phase stack =>
    refine ⟨h.valid.removeTimer id, ?_⟩
    rcases h.task with ⟨c, hsh, hcancel, hphase⟩ | hno
    · have hne : id ≠ s.id := by
        rintro rfl
        exact hphase phase
      exact Or.inl ⟨c, hsh.removeTimer_other hne, hcancel, by simp⟩
    · exact Or.inr (hno.erase id)
  | tock phase slot =>
    refine ⟨⟨h.valid.refs, h.valid.entries⟩, ?_⟩
    rcases h.task with ⟨c, hsh, hcancel, _⟩ | hno
    · have hadv := hsh.advance slot
      rw [Option.bind_some, Countdown.next, if_neg (left_ne_one hsh slot)] at hadv
      exact Or.inl ⟨_, hadv, hcancel, by simp⟩
    · exact Or.inr hno

/-- A guarded connection whose callback is due has not been released. -/
theorem Guarded.callback {s : TimedConn} (h : Guarded s) (hdue : s.callbackDue = some s.id) :
    .releaseInLoop ∉ s.conn.log := by
  obtain ⟨pt, rest, task, _, hslot, hx, ht, hmark, hid⟩ := callbackDue_eq_some hdue
  have hnamed : s.wheel.Named s.id pt := ⟨task, ht, hid⟩
  have hmem : pt ∈ s.wheel.wheel s.wheel.tick := by
    rw [hslot]
    exact List.mem_cons_self
  rcases h.task with ⟨c, hsh, hcancel, _⟩ | hno
  · rcases hsh.popFront hslot with ⟨_, hother⟩ | ⟨c', hc', _, _, ht', _⟩
    · exact absurd hnamed (hother hx)
    · obtain rfl := Option.some.inj hc'
      obtain rfl := Option.some.inj (ht.symm.trans ht')
      intro hlog
      exact absurd (hmark.symm.trans (hcancel hlog)) (by simp)
  · exact absurd hnamed (hno _ _ hmem)

/-! ### From the first operation on -/

/-- Before its first operation the connection is new and has no timer. -/
structure Untouched (s : TimedConn) (connId : Nat) : Prop where
  conn : s.id = connId ∧ s.conn.stack = [] ∧ s.conn.log = []
  valid : s.wheel.Valid
  clean : s.wheel.Shows connId none
  phase : s.phase ≠ .dying connId

theorem Untouched.step {s t : TimedConn} {a : TimedAct} {connId : Nat} (h : Untouched s connId)
    (ha : ∀ act, a ≠ .conn act) (hs : s.step a = some t) : Untouched t connId := by
  obtain ⟨hid, _⟩ := h.conn
  cases stepped hs with
  | conn may goes => exact absurd rfl (ha _)
  | others valid same ne =>
    exact ⟨h.conn, valid h.valid, h.clean.of_same (hid ▸ same h.valid), h.phase⟩
  | tick phase stack => exact ⟨h.conn, h.valid, h.clean, by simp⟩
  | kept phase slot live =>
    exact ⟨h.conn, h.valid.popFront slot, ⟨h.clean.1, h.clean.2.popFront slot⟩, h.phase⟩
  | @canceled pt rest task phase slot dead known mark =>
    have hne : task.id ≠ connId := by
      intro hk
      exact h.clean.2 _ pt (by rw [slot]; exact List.mem_cons_self) ⟨task, known, hk⟩
    have hsh : (s.wheel.popFront rest).Shows connId none := ⟨h.clean.1, h.clean.2.popFront slot⟩
    exact ⟨h.conn, (h.valid.popFront slot).removeTimer _, hsh.removeTimer_other hne, h.phase⟩
  | foreign phase slot dead known ne =>
    exact ⟨h.conn, h.valid.popFront slot, ⟨h.clean.1, h.clean.2.popFront slot⟩,
      fun hd => ne ((TickPhase.dying.inj hd).trans hid.symm)⟩
  | @own pt rest task _ phase slot dead known mark id goes =>
    exact absurd ⟨task, known, id.trans hid⟩
      (h.clean.2 _ pt (by rw [slot]; exact List.mem_cons_self))
  | @release id phase stack =>
    have hne : id ≠ connId := by
      rintro rfl
      exact h.phase phase
    exact ⟨h.conn, h.valid.removeTimer id, h.clean.removeTimer_other hne, by simp⟩
  | tock phase slot =>
    exact ⟨h.conn, ⟨h.valid.refs, h.valid.entries⟩, h.clean.advance slot, by simp⟩

theorem Untouched.enable {s t : TimedConn} {connId timeout : Nat} (h : Untouched s connId)
    (ht : timeout < 60) (hs : s.step (.conn (.call (.enableInactiveRelease timeout))) = some t) :
    Guarded t := by
  obtain ⟨rfl, hstack, hlog⟩ := h.conn
  cases stepped hs with
  | others _ _ _ theirs => exact absurd rfl (theirs _)
  | conn may goes =>
    have hid := connStep_id goes
    obtain ⟨seg, rest, e, hcomes, he, hc, hp, _, hw⟩ := connStep_eq_some goes
    cases hcomes with
    | call user enters =>
      obtain rfl := Option.some.inj enters
      rw [Segment.timers, h.clean.hasTimer] at hw
      refine ⟨hw ▸ h.valid.add, Or.inl ⟨.start timeout, ?_, ?_, ?_⟩⟩
      · rw [hid, hw]
        exact TimerWheel.Shows.add h.valid h.clean ht
      · rw [hc, hlog]
        intro hm
        exact absurd ((Segment.exec_enters he).mp hm) (by simp)
      · rw [hp, hid]
        exact h.phase

/-- **A stale timer never releases a released connection.**  In every run in which
`EnableInactiveRelease` is the first operation on the connection and is not called again, with
whatever else is done to the connection and to the wheel: where the callback of its task runs,
`ReleaseInLoop` has not run before. -/
theorem stale_timer_silent {connId sockfd timeout : Nat} {callbacks : Callbacks}
    {before behind : List TimedAct} {s : TimedConn} (ht : timeout < 60)
    (hbefore : ∀ a ∈ before, ∀ act, a ≠ .conn act) (hbehind : ∀ a ∈ behind, Later a)
    (h : run step (fresh connId sockfd callbacks)
      (before ++ .conn (.call (.enableInactiveRelease timeout)) :: behind) = some s)
    (hdue : s.callbackDue = some connId) : .releaseInLoop ∉ s.conn.log := by
  obtain ⟨t, hfirst, h⟩ := run_append.mp h
  obtain ⟨u, hu, hrest⟩ := run_cons.mp h
  have hfresh : Untouched (fresh connId sockfd callbacks) connId :=
    ⟨⟨rfl, rfl, rfl⟩, TimerWheel.valid_new, TimerWheel.shows_new connId, by simp [fresh]⟩
  have hclean : Untouched t connId :=
    run_preserves_of (I := fun s => Untouched s connId) (P := fun a => ∀ act, a ≠ .conn act)
      (fun _ _ _ hs ha hstep => hs.step ha hstep) hfresh hbefore hfirst
  have hguard : Guarded u ∧ u.id = connId :=
    ⟨hclean.enable ht hu, (step_id hu).trans hclean.conn.1⟩
  have hend : Guarded s ∧ s.id = connId :=
    run_preserves_of (I := fun s => Guarded s ∧ s.id = connId)
      (fun _ _ _ hs ha hstep => ⟨hs.1.step ha hstep, (step_id hstep).trans hs.2⟩) hguard
        hbehind hrest
  exact hend.1.callback (by rw [hend.2, hdue])

/-- The timer of a connection that stays idle: its callback is due, and is the first release. -/
theorem stale_timer_silent_due : ∃ s, run step (fresh 1 7 ⟨true, true, false, true⟩)
      ([.add 2 0] ++ .conn (.call (.enableInactiveRelease 1)) ::
        [.conn (.call .established), .conn .ret, .tick, .drop, .release, .tock, .tick]) = some s ∧
    s.callbackDue = some 1 ∧ .releaseInLoop ∉ s.conn.log := by
  have hrun : (run step (fresh 1 7 ⟨true, true, false, true⟩)
      ([.add 2 0] ++ .conn (.call (.enableInactiveRelease 1)) ::
        [.conn (.call .established), .conn .ret, .tick, .drop, .release, .tock, .tick])).any
        fun s =>
      decide (s.callbackDue = some 1) := by decide +kernel
  obtain ⟨s, hs, hdue⟩ := (Option.any_eq_true _ _).mp hrun
  refine ⟨s, hs, of_decide_eq_true hdue, ?_⟩
  exact stale_timer_silent (by decide) (by simp) (by simp [Later]) hs (of_decide_eq_true hdue)

end TimedConn

end Flux
