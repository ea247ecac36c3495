import Flux.Reactor.StaleTimer

/-!
# Idle connections

What `EnableInactiveRelease` is for: each event on the connection sets the timer anew, so the timer
releases a connection that has been idle for as long as was asked for, and no other.

* `TimedConn.idleTicks`: how many calls of `RunTimerTask` have ended since the last event.
* `TimedConn.Watch`: what the timer of an open connection shows about them.
* `TimedConn.released_when_idle`: a connection that is not released has not been idle for longer
  than the timeout, and the timer's callback comes in the call behind so many idle ones.
-/

namespace Flux

open Lib

/-- An event is the only way to `HandleEvent`. -/
theorem Comes.handleEvent_iff {stack rest : List Frame} {act : Act} {seg : Segment}
    (h : Comes stack act seg rest) : seg = .handleEvent ↔ act = .handleEvent := by
  constructor
  · rintro rfl
    exact h.cause
  · rintro rfl
    cases h
    rfl

/-- Segments that leave the release of an inactive connection as it is set. -/
def Segment.keepsRelease : Segment → Bool
  | enableInactiveReleaseInLoop _ | cancelInactiveReleaseInLoop | releaseInLoop => false
  | _ => true

theorem Segment.exec_enabled {c : Connection} {hasTimer : Bool} {seg : Segment} {e : Exec}
    (h : seg.exec c hasTimer = some e) (hkeeps : seg.keepsRelease = true) :
    e.conn.enableInactiveRelease = c.enableInactiveRelease := by
  cases seg with
  | enableInactiveReleaseInLoop | cancelInactiveReleaseInLoop | releaseInLoop =>
    exact absurd hkeeps (by simp [keepsRelease])
  | setREvents _ | sendAgain | ret =>
    obtain rfl := Option.some.inj h
    rfl
  | recvAgain =>
    obtain rfl := Segment.recvAgain_exec h
    rfl
  | recvData data =>
    obtain ⟨buf, _, _, rfl⟩ := Segment.recvData_exec h
    rw [Connection.invokeMessage_conn]
  | consume n =>
    obtain ⟨hn, rfl⟩ := Segment.consume_exec h
    rfl
  | handleEvent =>
    obtain rfl := Option.some.inj h
    simp [Connection.handleEvent]
  | readTest =>
    obtain rfl := Option.some.inj h
    unfold Connection.readTest
    split <;> rfl
  | writeTest =>
    obtain rfl := Option.some.inj h
    unfold Connection.writeTest
    split
    · rfl
    · split
      · simp [Connection.handleClose]
      · split
        · simp [Connection.handleClose]
        · rfl
  | sendFailed | releaseTail =>
    obtain rfl := Option.some.inj h
    simp [Connection.sendFailed, Connection.releaseTail]
  | sent n | establishedInLoop | sendInLoop buf | shutdownInLoop | shutdownTail =>
    cases Segment.exec_effect h with
    | inert is kind => exact absurd kind (by simp [Segment.inert])
    | _ => rfl

theorem Segment.timers_keeps {c : Connection} {hasTimer : Bool} {seg : Segment}
    (hkeeps : seg.keepsRelease = true) (hne : seg ≠ .handleEvent) : seg.timers c hasTimer = [] := by
  cases seg with
  | handleEvent => exact absurd rfl hne
  | enableInactiveReleaseInLoop | cancelInactiveReleaseInLoop | releaseInLoop =>
    exact absurd hkeeps (by simp [keepsRelease])
  | _ => rfl

namespace TimedConn

/-- The calls of `RunTimerTask` ended since the last event, with one act more. -/
def idleBehind (n : Nat) : TimedAct → Nat
  | .conn .handleEvent => 0
  | .tock => n + 1
  | _ => n

def idleTicks (acts : List TimedAct) : Nat := acts.foldl idleBehind 0

/-- The release stays enabled: no second `EnableInactiveRelease` and no `CancelInactiveRelease`. -/
def Undisturbed (a : TimedAct) : Prop := Later a ∧ a ≠ .conn (.call .cancelInactiveRelease)

/-- **The timer of an open connection** shows for how long it has been idle. -/
structure Watch (timeout n : Nat) (s : TimedConn) : Prop where
  coherent : s.conn.Coherent
  guarded : Guarded s
  counts : s.conn.conn.socketOpen = true → s.conn.conn.enableInactiveRelease = true ∧ n ≤ timeout ∧
    s.wheel.Shows s.id (some ⟨timeout, timeout + 1 - n, false⟩)

variable {s t : TimedConn} {timeout n : Nat}

theorem open_of_connStep {act : Act} (hc : s.conn.Coherent) (hs : s.connStep act = some t)
    (hopen : t.conn.conn.socketOpen = true) : s.conn.conn.socketOpen = true := by
  obtain ⟨_, _, _, _, _, _, _, hstep, _⟩ := connStep_eq_some hs
  by_contra hno
  have hclosed : t.conn.conn.socketOpen = false := by
    rw [(hc.step hstep).released]
    exact (ConnState.step_log hstep).subset (hc.released.mp (by simpa using hno))
  exact absurd (hclosed.symm.trans hopen) (by simp)

/-- An act of the connection: an event sets the timer anew, and what else leaves the socket open
lets it run. -/
theorem Watch.connStep {act : Act} (h : Watch timeout n s) (hu : Undisturbed (.conn act))
    (hs : s.connStep act = some t) : Watch timeout (idleBehind n (.conn act)) t := by
  obtain ⟨seg, rest, e, hcomes, he, hc, -, hstep, hw⟩ := connStep_eq_some hs
  refine ⟨h.coherent.step hstep, h.guarded.connStep hu.1 hs, fun hopen => ?_⟩
  obtain ⟨hen, hn, hsh⟩ := h.counts (open_of_connStep h.coherent hs hopen)
  have hkeeps : seg.keepsRelease = true := by
    cases seg with
    | enableInactiveReleaseInLoop sec =>
      exact absurd (congrArg TimedAct.conn hcomes.cause) (hu.1 sec)
    | cancelInactiveReleaseInLoop => exact absurd (congrArg TimedAct.conn hcomes.cause) hu.2
    | releaseInLoop =>
      have hlog : .releaseInLoop ∈ t.conn.log := by
        rw [hc]
        exact List.mem_append_right _ ((Segment.exec_enters he).mpr rfl)
      exact absurd ((h.coherent.step hstep).released.mpr hlog) (by simp [hopen])
    | _ => rfl
  have hflag : t.conn.conn.enableInactiveRelease = true := by
    rw [hc]
    exact (Segment.exec_enabled he hkeeps).trans hen
  rw [connStep_id hs, hw]
  by_cases hevent : seg = .handleEvent
  · obtain rfl := hcomes.handleEvent_iff.mp hevent
    rw [hevent, Segment.timers, if_pos hen]
    exact ⟨hflag, Nat.zero_le _, hsh.refresh h.guarded.valid⟩
  · have hidle : idleBehind n (.conn act) = n := by
      cases act with
      | handleEvent => exact absurd (hcomes.handleEvent_iff.mpr rfl) hevent
      | _ => rfl
    rw [Segment.timers_keeps hkeeps hevent, hidle]
    exact ⟨hflag, hn, hsh⟩

theorem Watch.step {a : TimedAct} (h : Watch timeout n s) (hu : Undisturbed a)
    (hs : s.step a = some t) :
    Watch timeout (idleBehind n a) t := by
  have hguard := h.guarded.step hu.1 hs
  cases stepped hs with
  | conn may goes => exact h.connStep hu goes
  | @others a w valid same ne theirs =>
    refine ⟨h.coherent, hguard, fun hopen => ?_⟩
    obtain ⟨hen, hn, hsh⟩ := h.counts hopen
    have hidle : idleBehind n a = n := by
      cases a with
      | conn act => exact absurd rfl (theirs act)
      | tock => exact absurd rfl ne
      | _ => rfl
    rw [hidle]
    exact ⟨hen, hn, hsh.of_same (same h.guarded.valid)⟩
  | tick phase stack => exact ⟨h.coherent, hguard, h.counts⟩
  | kept phase slot live =>
    refine ⟨h.coherent, hguard, fun hopen => ?_⟩
    obtain ⟨hen, hn, hsh⟩ := h.counts hopen
    rcases hsh.popFront slot with ⟨hsh', -⟩ | ⟨_, _, _, hx, _⟩
    · exact ⟨hen, hn, hsh'⟩
    · exact absurd hx live
  | canceled phase slot dead known mark =>
    refine ⟨h.coherent, hguard, fun hopen => ?_⟩
    obtain ⟨hen, hn, hsh⟩ := h.counts hopen
    rcases hsh.popFront slot with ⟨hsh', hother⟩ | ⟨c, hc, _, _, ht, _⟩
    · exact ⟨hen, hn, hsh'.removeTimer_other fun hid => hother dead ⟨_, known, hid⟩⟩
    · -- the task of an open connection is not cancelled
      obtain rfl := Option.some.inj hc
      obtain rfl := Option.some.inj (known.symm.trans ht)
      exact absurd mark (by simp)
  | foreign phase slot dead known ne =>
    refine ⟨h.coherent, hguard, fun hopen => ?_⟩
    obtain ⟨hen, hn, hsh⟩ := h.counts hopen
    rcases hsh.popFront slot with ⟨hsh', -⟩ | ⟨_, _, _, _, ht, _⟩
    · exact ⟨hen, hn, hsh'⟩
    · obtain rfl := Option.some.inj (known.symm.trans ht)
      exact absurd rfl ne
  | own phase slot dead known mark id goes =>
    obtain ⟨_, _, _, _, _, _, _, hstep, _⟩ := connStep_eq_some goes
    have hclosed := closed_of_release goes h.coherent
    exact ⟨h.coherent.step hstep, hguard, fun hopen => absurd (hclosed.symm.trans hopen) (by simp)⟩
  | @release id phase stack =>
    refine ⟨h.coherent, hguard, fun hopen => ?_⟩
    obtain ⟨hen, hn, hsh⟩ := h.counts hopen
    have hne : id ≠ s.id := by
      rintro rfl
      rcases h.guarded.task with ⟨_, _, _, hphase⟩ | hno
      · exact hphase phase
      · obtain ⟨pt, hr⟩ := hsh
        obtain ⟨p, hp, -⟩ := hr.last
        exact hno p pt hp ⟨_, hr.task, rfl⟩
    exact ⟨hen, hn, hsh.removeTimer_other hne⟩
  | tock phase slot =>
    refine ⟨h.coherent, hguard, fun hopen => ?_⟩
    obtain ⟨hen, hn, hsh⟩ := h.counts hopen
    have hne : timeout + 1 - n ≠ 1 := left_ne_one hsh slot
    have hadv := hsh.advance slot
    rw [Option.bind_some, Countdown.next, if_neg hne, Nat.sub_sub] at hadv
    exact ⟨hen, by show n + 1 ≤ timeout; omega, hadv⟩

theorem Watch.run {acts : List TimedAct} (h : Watch timeout n s) (hu : ∀ a ∈ acts, Undisturbed a)
    (hr : Lib.run TimedConn.step s acts = some t) : Watch timeout (acts.foldl idleBehind n) t := by
  induction acts generalizing s n with
  | nil =>
    obtain rfl := Option.some.inj hr
    exact h
  | cons a acts ih =>
    obtain ⟨u, hu', hr⟩ := run_cons.mp hr
    exact ih (h.step (hu a List.mem_cons_self) hu')
      (fun b hb => hu b (List.mem_cons_of_mem a hb)) hr

/-- Where the callback is due, the connection has been idle for its timeout. -/
theorem Watch.due (h : Watch timeout n s) (hdue : s.callbackDue = some s.id) :
    .releaseInLoop ∉ s.conn.log ∧ n = timeout := by
  have hno := h.guarded.callback hdue
  have hopen : s.conn.conn.socketOpen = true := by
    by_contra hclosed
    exact hno (h.coherent.released.mp (by simpa using hclosed))
  refine ⟨hno, ?_⟩
  obtain ⟨-, hn, hsh⟩ := h.counts hopen
  obtain ⟨pt, rest, task, -, hslot, hx, ht, -, hid⟩ := callbackDue_eq_some hdue
  rcases hsh.popFront hslot with ⟨-, hother⟩ | ⟨c, hc, hleft, _⟩
  · exact absurd ⟨task, ht, hid⟩ (hother hx)
  · obtain rfl := Option.some.inj hc
    have hone : timeout + 1 - n = 1 := hleft
    omega

/-- `EnableInactiveRelease` on a connection that nothing has touched yet. -/
theorem Untouched.watch {connId : Nat} (h : Untouched s connId) (htimed : Timed s)
    (ht : timeout < 60)
    (hs : s.step (.conn (.call (.enableInactiveRelease timeout))) = some t) :
    Watch timeout 0 t := by
  obtain ⟨rfl, -, -⟩ := h.conn
  obtain ⟨hsh, -, -, -⟩ := enable_shows htimed ht h.clean hs
  refine ⟨?_, h.enable ht hs, fun _ => ⟨?_, Nat.zero_le _, ?_⟩⟩
  · cases stepped hs with
    | others _ _ _ theirs => exact absurd rfl (theirs _)
    | conn may goes =>
      obtain ⟨_, _, _, _, _, _, _, hstep, _⟩ := connStep_eq_some goes
      exact htimed.coherent.step hstep
  · cases stepped hs with
    | others _ _ _ theirs => exact absurd rfl (theirs _)
    | conn may goes =>
      obtain ⟨seg, rest, e, hcomes, he, hc, -, -, -⟩ := connStep_eq_some goes
      cases hcomes with
      | call user enters =>
        obtain rfl := Option.some.inj enters
        obtain rfl := Option.some.inj he
        rw [hc]
        rfl
  · rw [step_id hs]
    exact hsh

/-- **A connection is released when it has been idle for its timeout**, and not before.  In every
run in which `EnableInactiveRelease` is the first operation on the connection and neither it nor
`CancelInactiveRelease` is called again, with whatever else happens to the connection and to the
wheel: a connection that `ReleaseInLoop` has not run for has had an event within the last calls of
`RunTimerTask`, as many as its timeout; and where the callback of its timer comes, it has not been
released and has been idle for exactly so many. -/
theorem released_when_idle {connId sockfd timeout : Nat} {callbacks : Callbacks}
    {before behind : List TimedAct} {s : TimedConn} (ht : timeout < 60)
    (hbefore : ∀ a ∈ before, ∀ act, a ≠ .conn act) (hbehind : ∀ a ∈ behind, Undisturbed a)
    (h : run step (fresh connId sockfd callbacks)
      (before ++ .conn (.call (.enableInactiveRelease timeout)) :: behind) = some s) :
    (.releaseInLoop ∉ s.conn.log → idleTicks behind ≤ timeout) ∧
      (s.callbackDue = some connId → .releaseInLoop ∉ s.conn.log ∧ idleTicks behind = timeout) := by
  obtain ⟨t, hfirst, h⟩ := run_append.mp h
  obtain ⟨u, hu, hrest⟩ := run_cons.mp h
  have hfresh : Untouched (fresh connId sockfd callbacks) connId :=
    ⟨⟨rfl, rfl, rfl⟩, TimerWheel.valid_new, TimerWheel.shows_new connId, by simp [fresh]⟩
  have hclean : Untouched t connId :=
    run_preserves_of (I := fun s => Untouched s connId) (P := fun a => ∀ act, a ≠ .conn act)
      (fun _ _ _ hs ha hstep => hs.step ha hstep) hfresh hbefore hfirst
  have htimed : Timed t :=
    (timed_run (fun a ha sec hsec => absurd hsec (hbefore a ha _)) hfirst).1
  have hwatch := (hclean.watch htimed ht hu).run hbehind hrest
  have hid : s.id = connId := by
    have hstays : s.id = u.id :=
      run_preserves (I := fun z => z.id = u.id) (fun _ _ _ hz hstep => (step_id hstep).trans hz)
        rfl hrest
    rw [hstays, step_id hu, hclean.conn.1]
  refine ⟨fun hno => ?_, fun hdue => hwatch.due (hid ▸ hdue)⟩
  refine (hwatch.counts ?_).2.1
  by_contra hclosed
  exact hno (hwatch.coherent.released.mp (by simpa using hclosed))

/-- A timeout of two, and an event behind the first call of `RunTimerTask`: the callback is due in
the fourth. -/
theorem released_when_idle_two :
    ∃ behind s, run step (fresh 1 7 ⟨true, true, false, true⟩)
        ([] ++ .conn (.call (.enableInactiveRelease 2)) :: behind) = some s ∧
        behind.count .tick = 4 ∧
      s.callbackDue = some 1 ∧ .releaseInLoop ∉ s.conn.log ∧ idleTicks behind = 2 := by
  let behind : List TimedAct :=
    [.conn (.call .established), .conn .ret, .tick, .tock, .conn (.setREvents EPOLLOUT),
      .conn .handleEvent,
      .conn .resume, .conn .resume, .conn (.send (.error true)), .tick, .tock, .tick, .drop,
      .tock, .tick]
  have hrun : (run step (fresh 1 7 ⟨true, true, false, true⟩)
      ([] ++ .conn (.call (.enableInactiveRelease 2)) :: behind)).any fun s =>
        decide (s.callbackDue = some 1) := by
    decide +kernel
  obtain ⟨s, hs, hdue⟩ := (Option.any_eq_true _ _).mp hrun
  have hbehind : ∀ a ∈ behind, Undisturbed a := by simp [behind, Undisturbed, Later]
  refine ⟨behind, s, hs, rfl, of_decide_eq_true hdue, ?_⟩
  exact (released_when_idle (by decide) (by simp) hbehind hs).2 (of_decide_eq_true hdue)

end TimedConn

end Flux
