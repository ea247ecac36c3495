import Flux.Reactor.Release
import Flux.Reactor.TimerWheel

/-!
# Inactivity release

A connection together with the timer wheel of its loop.  The connection asks the wheel for
`HasTimer` and starts, refreshes and cancels the task under its own id; the task's callback is
`Connection::Release`.  Others use the wheel under other ids.

`RunTimerTask` is cut into the pointers it lets go, since a destructor runs a callback in the middle
of it: the release of this connection, or code of somebody else.  While such a callback runs, a
push into the slot that is being cleared has no defined meaning and is refused.

`enable_arms_iff` is about `EnableInactiveReleaseInLoop` on a connection that has a timer already:
it only refreshes that timer, with the timeout and the cancel mark it has.  And from the callback of
another timer it cannot start one of timeout zero at all.
-/

namespace Flux

open Lib

inductive TickPhase
  | idle
  /-- Between two pointers of the slot. -/
  | clearing
  /-- In the callback of the task with this id, which is being destroyed. -/
  | dying (id : Nat)
deriving DecidableEq, Repr

structure TimedConn where
  conn : ConnState
  wheel : TimerWheel
  phase : TickPhase

inductive TimedAct
  /-- An act of the connection. -/
  | conn (act : Act)
  /-- The wheel in the hands of others. -/
  | add (id timeout : Nat)
  | refresh (id : Nat)
  | cancel (id : Nat)
  /-- `RunTimerTask` begins. -/
  | tick
  /-- It lets the next pointer go. -/
  | drop
  /-- A destructor goes on behind its callback. -/
  | release
  /-- `RunTimerTask` ends. -/
  | tock
deriving DecidableEq, Repr

/-- What an observation of a connection does to the wheel, before the check on pushes. -/
def TimerWheel.obey (w : TimerWheel) (id : Nat) : Obs → TimerWheel
  | .timerAdd sec => w.timerAddInLoop id sec
  | .timerRefresh => w.timerRefreshInLoop id
  | .timerCancel => w.timerCancelInLoop id
  | _ => w

namespace TimedConn

def fresh (connId sockfd : Nat) (callbacks : Callbacks) : TimedConn where
  conn := .fresh connId sockfd callbacks
  wheel := .new
  phase := .idle

def id (s : TimedConn) : Nat := s.conn.conn.connId

/-- A change of the wheel that pushes nothing into a slot being cleared. -/
def guarded (phase : TickPhase) (w w' : TimerWheel) : Option TimerWheel :=
  if phase = .idle ∨ w'.wheel w.tick = w.wheel w.tick then some w' else none

def obeyAll (phase : TickPhase) (id : Nat) : TimerWheel → List Obs → Option TimerWheel :=
  run fun w o => guarded phase w (w.obey id o)

/-- The connection's own code and the code of users that call it run outside `RunTimerTask` or in a
callback of it; events are handled outside. -/
def mayAct : TickPhase → Act → Bool
  | .idle, _ => true
  | .clearing, _ => false
  | .dying _, .setREvents _ => false
  | .dying _, .handleEvent => false
  | .dying _, _ => true

def connStep (s : TimedConn) (act : Act) : Option TimedConn :=
  (s.conn.step ⟨act, s.wheel.hasTimer s.id⟩).bind fun conn =>
    (obeyAll s.phase s.id s.wheel (conn.log.drop s.conn.log.length)).map fun wheel =>
      { s with conn := conn, wheel := wheel }

/-- Let the first pointer of the slot go; the last one to a task destroys it. -/
def dropStep (s : TimedConn) (pt : Nat) (rest : List Nat) : Option TimedConn :=
  let w := s.wheel.popFront rest
  if w.Expired pt then
    match w.tasks[pt]? with
    | none => none
    | some task =>
      if task.canceled then some { s with wheel := w.removeTimer task.id }
      else if task.id = s.id then
        connStep { s with wheel := w, phase := .dying task.id } (.call .release)
      else some { s with wheel := w, phase := .dying task.id }
  else some { s with wheel := w }

def step (s : TimedConn) : TimedAct → Option TimedConn
  | .conn act => if mayAct s.phase act then s.connStep act else none
  | .add id timeout =>
    if id ≠ s.id ∧ s.phase ≠ .clearing then
      (guarded s.phase s.wheel (s.wheel.timerAddInLoop id timeout)).map fun w =>
        { s with wheel := w }
    else none
  | .refresh id =>
    if id ≠ s.id ∧ s.phase ≠ .clearing then
      (guarded s.phase s.wheel (s.wheel.timerRefreshInLoop id)).map fun w => { s with wheel := w }
    else none
  | .cancel id =>
    if id ≠ s.id ∧ s.phase ≠ .clearing then
      some { s with wheel := s.wheel.timerCancelInLoop id }
    else none
  | .tick =>
    if s.phase = .idle ∧ s.conn.stack = [] then some { s with phase := .clearing } else none
  | .drop =>
    match s.phase, s.wheel.wheel s.wheel.tick with
    | .clearing, pt :: rest => s.dropStep pt rest
    | _, _ => none
  | .release =>
    match s.phase with
    | .dying id =>
      if s.conn.stack = [] then some { s with wheel := s.wheel.removeTimer id, phase := .clearing }
      else none
    | _ => none
  | .tock =>
    if s.phase = .clearing ∧ s.wheel.wheel s.wheel.tick = [] then
      some { s with wheel := s.wheel.advance, phase := .idle }
    else none

end TimedConn

/-! ### The timer operations of a segment -/

def Obs.isTimer : Obs → Bool
  | timerAdd _ | timerRefresh | timerCancel => true
  | _ => false

def Segment.timers (c : Connection) (hasTimer : Bool) : Segment → List Obs
  | handleEvent => if c.enableInactiveRelease then [.timerRefresh] else []
  | enableInactiveReleaseInLoop sec => [if hasTimer then .timerRefresh else .timerAdd sec]
  | cancelInactiveReleaseInLoop | releaseInLoop => if hasTimer then [.timerCancel] else []
  | _ => []

theorem Connection.invoke_timers (c : Connection) (k : Callback) (isSet : Bool)
    (behind : List Frame) :
    (c.invoke k isSet behind).obs.filter Obs.isTimer = [] := by
  rw [invoke_obs]
  cases isSet <;> rfl

/-- **A segment does these timer operations and no others.** -/
theorem Segment.exec_timers {c : Connection} {hasTimer : Bool} {seg : Segment} {e : Exec}
    (h : seg.exec c hasTimer = some e) : e.obs.filter Obs.isTimer = seg.timers c hasTimer := by
  have hinvoke := @Connection.invoke_timers
  cases seg with
  | setREvents _ | sendAgain | ret =>
    obtain rfl := Option.some.inj h
    rfl
  | recvAgain =>
    obtain rfl := Segment.recvAgain_exec h
    rfl
  | recvData data =>
    obtain ⟨buf, _, _, rfl⟩ := Segment.recvData_exec h
    exact hinvoke _ _ _ _
  | consume n =>
    obtain ⟨hn, rfl⟩ := Segment.consume_exec h
    rfl
  | handleEvent =>
    obtain rfl := Option.some.inj h
    rw [Connection.handleEvent, Exec.after_obs, List.filter_append, hinvoke,
      List.append_nil, timers]
    split <;> rfl
  | readTest =>
    obtain rfl := Option.some.inj h
    unfold Connection.readTest
    split <;> rfl
  | writeTest =>
    obtain rfl := Option.some.inj h
    unfold Connection.writeTest
    split
    · rfl
    · split
      · exact hinvoke _ _ _ _
      · split
        · exact hinvoke _ _ _ _
        · rfl
  | sent n =>
    simp only [Segment.exec] at h
    split at h
    · cases Connection.sent_effect ‹_› h with
      | inert is kind => exact absurd kind Bool.false_ne_true
      | _ => rfl
    · exact absurd h (by simp)
  | sendFailed | releaseTail =>
    obtain rfl := Option.some.inj h
    exact hinvoke _ _ _ _
  | establishedInLoop =>
    obtain rfl := Option.some.inj h
    unfold Connection.establishedInLoop
    split
    · rfl
    · simp only [Exec.after_obs]
      rw [List.filter_append, hinvoke]
      rfl
  | sendInLoop buf =>
    cases Connection.sendInLoop_effect h with
    | inert is kind => exact absurd kind Bool.false_ne_true
    | _ => rfl
  | shutdownInLoop =>
    obtain rfl := Option.some.inj h
    simp only [Connection.shutdownInLoop, Exec.after_obs]
    rw [List.filter_append, Connection.invokeMessage, hinvoke]
    rfl
  | shutdownTail =>
    obtain rfl := Option.some.inj h
    unfold Connection.shutdownTail
    split
    · split <;> rfl
    · rfl
  | releaseInLoop =>
    obtain rfl := Option.some.inj h
    rw [Connection.releaseInLoop_obs, timers]
    cases c.socketOpen <;> cases hasTimer <;> cases c.callbacks.closed <;> rfl
  | enableInactiveReleaseInLoop sec =>
    obtain rfl := Option.some.inj h
    cases hasTimer <;> rfl
  | cancelInactiveReleaseInLoop =>
    obtain rfl := Option.some.inj h
    cases hasTimer <;> rfl

namespace TimedConn

theorem guarded_eq_some {phase : TickPhase} {w w' w'' : TimerWheel}
    (h : guarded phase w w' = some w'') :
    w'' = w' := by
  unfold guarded at h
  split at h
  · exact (Option.some.inj h).symm
  · exact absurd h (by simp)

theorem guarded_isSome_iff {phase : TickPhase} {w w' : TimerWheel} :
    (guarded phase w w').isSome ↔ phase = .idle ∨ w'.wheel w.tick = w.wheel w.tick := by
  rw [guarded, Option.isSome_ite]

theorem obeyAll_eq_some {phase : TickPhase} {id : Nat} {w w' : TimerWheel} {obs : List Obs}
    (h : obeyAll phase id w obs = some w') :
    w' = (obs.filter Obs.isTimer).foldl (fun w o => w.obey id o) w := by
  induction obs generalizing w with
  | nil => exact (Option.some.inj h).symm
  | cons o obs ih =>
    obtain ⟨w1, h1, h2⟩ := run_cons.mp h
    obtain rfl := guarded_eq_some h1
    rw [ih h2]
    cases o <;> rfl

/-- **A step of the connection**: it runs a segment, and the wheel obeys. -/
theorem connStep_eq_some {s t : TimedConn} {act : Act} (h : s.connStep act = some t) :
    ∃ seg rest e, Comes s.conn.stack act seg rest ∧
      seg.exec s.conn.conn (s.wheel.hasTimer s.id) = some e ∧
      t.conn = ⟨e.conn, e.frames ++ rest, s.conn.log ++ e.obs⟩ ∧ t.phase = s.phase ∧
      s.conn.step ⟨act, s.wheel.hasTimer s.id⟩ = some t.conn ∧
      t.wheel = (seg.timers s.conn.conn (s.wheel.hasTimer s.id)).foldl
        (fun w o => w.obey s.id o) s.wheel := by
  obtain ⟨conn, hc, h⟩ := Option.bind_eq_some_iff.mp h
  obtain ⟨wheel, hw, rfl⟩ := Option.map_eq_some_iff.mp h
  obtain ⟨seg, rest, e, hseg, he, rfl⟩ := ConnState.step_eq_some.mp hc
  rw [List.drop_left] at hw
  refine ⟨seg, rest, e, segment_comes hseg, he, rfl, rfl, hc, ?_⟩
  rw [← Segment.exec_timers he]
  exact obeyAll_eq_some hw

theorem connStep_id {s t : TimedConn} {act : Act} (h : s.connStep act = some t) : t.id = s.id := by
  obtain ⟨seg, rest, e, _, he, hc, _⟩ := connStep_eq_some h
  rw [id, hc, id]
  exact (Segment.exec_setUp he).1

end TimedConn

/-! ### The wheel obeys -/

namespace TimerWheel

variable {w : TimerWheel} {id : Nat}

theorem Valid.obey (h : w.Valid) (id : Nat) (o : Obs) : (w.obey id o).Valid := by
  cases o with
  | timerAdd sec => exact h.add
  | timerRefresh => exact h.refresh
  | timerCancel => exact h.cancel
  | _ => exact h

theorem Valid.obeys (h : w.Valid) (id : Nat) (obs : List Obs) :
    (obs.foldl (fun w o => w.obey id o) w).Valid := by
  induction obs generalizing w with
  | nil => exact h
  | cons o obs ih => exact ih (h.obey id o)

theorem Shows.obey {c : Option Countdown} (hv : w.Valid) (h : w.Shows id c) {o : Obs}
    (hadd : ∀ sec, o = .timerAdd sec → c = none ∧ sec < 60) : ∃ c', (w.obey id o).Shows id c' := by
  cases o with
  | timerAdd sec =>
    obtain ⟨rfl, hsec⟩ := hadd sec rfl
    exact ⟨_, Shows.add hv h hsec⟩
  | timerRefresh => exact ⟨_, h.refresh hv⟩
  | timerCancel => exact ⟨_, h.cancel⟩
  | _ => exact ⟨_, h⟩

theorem Shows.removeTimer_other {c : Option Countdown} (h : w.Shows id c) {id' : Nat}
    (hne : id' ≠ id) :
    (w.removeTimer id').Shows id c := by
  rw [removeTimer_timers]
  exact h.of_same (sameFor_erase hne w)

theorem NoRef.removeTimer (h : w.NoRef id) : (w.removeTimer id).Shows id none := by
  rw [removeTimer_timers]
  exact ⟨Function.update_self .., h⟩

end TimerWheel

namespace TimedConn

inductive Stepped (s : TimedConn) : TimedAct → TimedConn → Prop
  | conn {act : Act} {t : TimedConn} (may : mayAct s.phase act = true)
      (goes : s.connStep act = some t) :
      Stepped s (.conn act) t
  | others {a : TimedAct} {w : TimerWheel} (valid : s.wheel.Valid → w.Valid)
      (same : s.wheel.Valid → TimerWheel.SameFor s.id s.wheel w) (ne : a ≠ .tock)
      (theirs : ∀ act, a ≠ .conn act) :
      Stepped s a { s with wheel := w }
  | tick (phase : s.phase = .idle) (stack : s.conn.stack = []) :
      Stepped s .tick { s with phase := .clearing }
  | kept {pt : Nat} {rest : List Nat} (phase : s.phase = .clearing)
      (slot : s.wheel.wheel s.wheel.tick = pt :: rest)
        (live : ¬ (s.wheel.popFront rest).Expired pt) :
      Stepped s .drop { s with wheel := s.wheel.popFront rest }
  | canceled {pt : Nat} {rest : List Nat} {task : TimerTask} (phase : s.phase = .clearing)
      (slot : s.wheel.wheel s.wheel.tick = pt :: rest) (dead : (s.wheel.popFront rest).Expired pt)
      (known : (s.wheel.popFront rest).tasks[pt]? = some task) (mark : task.canceled = true) :
      Stepped s .drop { s with wheel := (s.wheel.popFront rest).removeTimer task.id }
  | foreign {pt : Nat} {rest : List Nat} {task : TimerTask} (phase : s.phase = .clearing)
      (slot : s.wheel.wheel s.wheel.tick = pt :: rest) (dead : (s.wheel.popFront rest).Expired pt)
      (known : (s.wheel.popFront rest).tasks[pt]? = some task) (ne : task.id ≠ s.id) :
      Stepped s .drop { s with wheel := s.wheel.popFront rest, phase := .dying task.id }
  | own {pt : Nat} {rest : List Nat} {task : TimerTask} {t : TimedConn}
      (phase : s.phase = .clearing)
      (slot : s.wheel.wheel s.wheel.tick = pt :: rest) (dead : (s.wheel.popFront rest).Expired pt)
      (known : (s.wheel.popFront rest).tasks[pt]? = some task) (mark : task.canceled = false)
      (id : task.id = s.id)
      (goes : connStep { s with wheel := s.wheel.popFront rest, phase := .dying task.id }
        (.call .release) = some t) : Stepped s .drop t
  | release {id : Nat} (phase : s.phase = .dying id) (stack : s.conn.stack = []) :
      Stepped s .release { s with wheel := s.wheel.removeTimer id, phase := .clearing }
  | tock (phase : s.phase = .clearing) (slot : s.wheel.wheel s.wheel.tick = []) :
      Stepped s .tock { s with wheel := s.wheel.advance, phase := .idle }

theorem stepped {s t : TimedConn} {a : TimedAct} (h : s.step a = some t) : s.Stepped a t := by
  cases a with
  | conn act =>
    simp only [step] at h
    split at h
    · exact .conn ‹_› h
    · exact absurd h (by simp)
  | add id timeout =>
    simp only [step] at h
    split at h
    · obtain ⟨w, hw, rfl⟩ := Option.map_eq_some_iff.mp h
      obtain rfl := guarded_eq_some hw
      exact .others TimerWheel.Valid.add (fun _ => TimerWheel.sameFor_add (And.left ‹_›)) (by simp)
        (by simp)
    · exact absurd h (by simp)
  | refresh id =>
    simp only [step] at h
    split at h
    · obtain ⟨w, hw, rfl⟩ := Option.map_eq_some_iff.mp h
      obtain rfl := guarded_eq_some hw
      exact .others TimerWheel.Valid.refresh (TimerWheel.sameFor_refresh (And.left ‹_›)) (by simp)
        (by simp)
    · exact absurd h (by simp)
  | cancel id =>
    simp only [step, Option.ite_none_right_eq_some, Option.some.injEq] at h
    obtain ⟨hg, rfl⟩ := h
    exact .others TimerWheel.Valid.cancel (TimerWheel.sameFor_cancel hg.1) (by simp) (by simp)
  | tick =>
    simp only [step, Option.ite_none_right_eq_some, Option.some.injEq] at h
    obtain ⟨⟨hphase, hstack⟩, rfl⟩ := h
    exact .tick hphase hstack
  | drop =>
    simp only [step] at h
    split at h
    · simp only [dropStep] at h
      split at h
      · split at h
        · exact absurd h (by simp)
        · split at h
          · obtain rfl := Option.some.inj h
            exact .canceled ‹_› ‹_› ‹_› ‹_› ‹_›
          · split at h
            · exact .own ‹_› ‹_› ‹_› ‹_› (Bool.eq_false_iff.mpr ‹_›) ‹_› h
            · obtain rfl := Option.some.inj h
              exact .foreign ‹_› ‹_› ‹_› ‹_› ‹_›
      · obtain rfl := Option.some.inj h
        exact .kept ‹_› ‹_› ‹_›
    · exact absurd h (by simp)
  | release =>
    simp only [step] at h
    split at h
    · simp only [Option.ite_none_right_eq_some, Option.some.injEq] at h
      obtain ⟨hstack, rfl⟩ := h
      exact .release ‹_› hstack
    · exact absurd h (by simp)
  | tock =>
    simp only [step, Option.ite_none_right_eq_some, Option.some.injEq] at h
    obtain ⟨⟨hphase, hslot⟩, rfl⟩ := h
    exact .tock hphase hslot

theorem step_id {s t : TimedConn} {a : TimedAct} (h : s.step a = some t) : t.id = s.id := by
  cases stepped h with
  | conn _ goes => exact connStep_id goes
  | own _ _ _ _ _ _ goes =>
    have hid := connStep_id goes
    exact hid
  | _ => rfl

end TimedConn

/-- At most one timer operation, and `TimerAdd` only without a timer. -/
theorem Segment.timers_cases (seg : Segment) (c : Connection) (hasTimer : Bool) :
    seg.timers c hasTimer = [] ∨ ∃ o, seg.timers c hasTimer = [o] ∧
      ∀ sec, o = .timerAdd sec → hasTimer = false ∧ seg = .enableInactiveReleaseInLoop sec := by
  cases seg with
  | handleEvent =>
    rw [timers]
    split
    · exact Or.inr ⟨_, rfl, fun _ h => absurd h (by simp)⟩
    · exact Or.inl rfl
  | cancelInactiveReleaseInLoop | releaseInLoop =>
    rw [timers]
    split
    · exact Or.inr ⟨_, rfl, fun _ h => absurd h (by simp)⟩
    · exact Or.inl rfl
  | enableInactiveReleaseInLoop sec =>
    refine Or.inr ⟨_, rfl, ?_⟩
    intro sec' h
    cases hasTimer
    · exact ⟨rfl, by rw [Obs.timerAdd.inj h]⟩
    · exact absurd h (by simp)
  | _ => exact Or.inl rfl

namespace TimedConn

/-- The timeouts given to `EnableInactiveRelease` are below the sixty slots. -/
def Short (a : TimedAct) : Prop :=
  ∀ sec, a = .conn (.call (.enableInactiveRelease sec)) → sec < 60

/-- While the connection is open, the wheel shows one countdown under its id or none, and the task
under its id is not being destroyed with its callback. -/
structure Timed (s : TimedConn) : Prop where
  coherent : s.conn.Coherent
  valid : s.wheel.Valid
  shows : s.conn.conn.socketOpen = true → ∃ c, s.wheel.Shows s.id c
  dying : s.phase = .dying s.id → s.conn.conn.socketOpen = false

theorem timed_fresh (connId sockfd : Nat) (callbacks : Callbacks) :
    Timed (fresh connId sockfd callbacks) :=
  ⟨ConnState.coherent_fresh connId sockfd callbacks, TimerWheel.valid_new,
    fun _ => ⟨none, TimerWheel.shows_new connId⟩, fun h => nomatch h⟩

theorem Timed.connStep {s t : TimedConn} {act : Act} (h : Timed s)
    (hshort : Short (.conn act)) (hs : s.connStep act = some t) : Timed t := by
  have hid := connStep_id hs
  obtain ⟨seg, rest, e, hcomes, he, hc, hp, hstep, hw⟩ := connStep_eq_some hs
  refine ⟨h.coherent.step hstep, hw ▸ h.valid.obeys _ _, ?_, ?_⟩
  · intro hopen
    have hopen' : s.conn.conn.socketOpen = true := by
      by_contra hcl
      exact absurd ((h.coherent.closed_step hstep (by simpa using hcl)).symm.trans hopen) (by simp)
    obtain ⟨c, hsh⟩ := h.shows hopen'
    rw [hid, hw]
    rcases seg.timers_cases s.conn.conn (s.wheel.hasTimer s.id) with ht | ⟨o, ht, hadd⟩
    · rw [ht]
      exact ⟨c, hsh⟩
    · rw [ht]
      refine hsh.obey h.valid ?_
      intro sec ho
      obtain ⟨hno, rfl⟩ := hadd sec ho
      rw [hsh.hasTimer] at hno
      have hact : act = .call (.enableInactiveRelease sec) := hcomes.cause
      exact ⟨by simpa using hno, hshort sec (congrArg TimedAct.conn hact)⟩
  · intro hd
    rw [hp, hid] at hd
    exact h.coherent.closed_step hstep (h.dying hd)

theorem Timed.closed_step {s t : TimedConn} {a : TimedAct} (h : Timed s)
    (hc : s.conn.conn.socketOpen = false) (hs : s.step a = some t) :
    t.conn.conn.socketOpen = false := by
  cases stepped hs with
  | conn _ goes | own _ _ _ _ _ _ goes =>
    obtain ⟨_, _, _, _, _, _, _, hstep, _⟩ := connStep_eq_some goes
    exact h.coherent.closed_step hstep hc
  | _ => exact hc

theorem named_id {w : TimerWheel} {id pt : Nat} {task : TimerTask} (ht : w.tasks[pt]? = some task)
    (h : w.Named id pt) : task.id = id := by
  obtain ⟨task', ht', hid⟩ := h
  obtain rfl := Option.some.inj (ht.symm.trans ht')
  exact hid

/-- The countdown is there behind a pointer let go that does not destroy the task under the id. -/
theorem Timed.popFront {s : TimedConn} (h : Timed s) {pt : Nat} {rest : List Nat}
    (hslot : s.wheel.wheel s.wheel.tick = pt :: rest)
    (hlive : (s.wheel.popFront rest).Expired pt → ¬ (s.wheel.popFront rest).Named s.id pt)
    (hopen : s.conn.conn.socketOpen = true) : ∃ c, (s.wheel.popFront rest).Shows s.id c := by
  obtain ⟨c, hsh⟩ := h.shows hopen
  rcases hsh.popFront hslot with ⟨hsh', _⟩ | ⟨_, _, _, hx, ht, _⟩
  · exact ⟨c, hsh'⟩
  · exact absurd ⟨_, ht, rfl⟩ (hlive hx)

/-- The timer's callback closes the connection. -/
theorem closed_of_release {s t : TimedConn} (hs : s.connStep (.call .release) = some t)
    (h : s.conn.Coherent) : t.conn.conn.socketOpen = false := by
  obtain ⟨seg, rest', e, hcomes, he, hc, _, hstep, _⟩ := connStep_eq_some hs
  rw [(h.step hstep).released, hc]
  cases hcomes with
  | call user enters =>
    obtain rfl := Option.some.inj enters
    exact List.mem_append_right _ ((Segment.exec_enters he).mpr rfl)

theorem Timed.step {s t : TimedConn} {a : TimedAct} (h : Timed s) (hshort : Short a)
    (hs : s.step a = some t) : Timed t := by
  cases stepped hs with
  | conn may goes => exact h.connStep hshort goes
  | others valid same ne =>
    exact ⟨h.coherent, valid h.valid,
      fun hopen => (h.shows hopen).imp fun _ hsh => hsh.of_same (same h.valid), h.dying⟩
  | tick phase stack => exact ⟨h.coherent, h.valid, h.shows, fun hd => nomatch hd⟩
  | kept phase slot live =>
    refine ⟨h.coherent, h.valid.popFront slot, h.popFront slot fun hx => absurd hx live, ?_⟩
    exact fun hd => absurd (phase.symm.trans hd) (by simp)
  | @canceled pt rest task phase slot dead known mark =>
    refine ⟨h.coherent, (h.valid.popFront slot).removeTimer _, ?_,
      fun hd => absurd (phase.symm.trans hd) (by simp)⟩
    intro hopen
    obtain ⟨c, hsh⟩ := h.shows hopen
    by_cases hid : task.id = s.id
    · rcases hsh.popFront slot with ⟨_, hother⟩ | ⟨_, _, _, _, _, hno⟩
      · exact absurd ⟨task, known, hid⟩ (hother dead)
      · exact ⟨none, by rw [hid]; exact hno.removeTimer⟩
    · obtain ⟨c, hsh'⟩ := h.popFront slot (fun _ hnamed => hid (named_id known hnamed)) hopen
      exact ⟨c, hsh'.removeTimer_other hid⟩
  | foreign phase slot dead known ne =>
    refine ⟨h.coherent, h.valid.popFront slot, ?_, fun hd => absurd (TickPhase.dying.inj hd) ne⟩
    exact h.popFront slot fun _ hnamed => ne (named_id known hnamed)
  | own phase slot dead known mark id goes =>
    have hclosed := closed_of_release goes h.coherent
    obtain ⟨_, _, _, _, _, _, _, hstep, hw⟩ := connStep_eq_some goes
    exact ⟨h.coherent.step hstep, hw ▸ (h.valid.popFront slot).obeys _ _,
      fun hopen => absurd (hclosed.symm.trans hopen) (by simp), fun _ => hclosed⟩
  | @release id phase stack =>
    refine ⟨h.coherent, h.valid.removeTimer id, ?_, fun hd => nomatch hd⟩
    intro hopen
    obtain ⟨c, hsh⟩ := h.shows hopen
    have hne : id ≠ s.id := by
      rintro rfl
      exact absurd ((h.dying phase).symm.trans hopen) (by simp)
    exact ⟨c, hsh.removeTimer_other hne⟩
  | tock phase slot =>
    refine ⟨h.coherent, ⟨h.valid.refs, h.valid.entries⟩, ?_, fun hd => nomatch hd⟩
    intro hopen
    obtain ⟨c, hsh⟩ := h.shows hopen
    exact ⟨_, hsh.advance slot⟩

end TimedConn

/-! ### Counting on -/

namespace TimerWheel

/-- The wheel after so many more calls of `RunTimerTask`. -/
def after (w : TimerWheel) : Nat → TimerWheel
  | 0 => w
  | n + 1 => (w.after n).runTimerTask.1

/-- The callback under an id runs in the call of `RunTimerTask` behind the next `sec`, and in no
other. -/
def FiresIn (w : TimerWheel) (id sec : Nat) : Prop :=
  ∀ n, id ∈ (w.after n).runTimerTask.2 ↔ n = sec

variable {w : TimerWheel} {id : Nat}

theorem Shows.after {c : Countdown} (hv : w.Valid) (h : w.Shows id (some c)) (n : Nat) :
    (w.after n).Valid ∧
      (w.after n).Shows id (if n < c.left then some { c with left := c.left - n } else none) := by
  have hpos : 0 < c.left := by
    obtain ⟨pt, hr⟩ := h
    obtain ⟨p, _, ho⟩ := hr.last
    omega
  induction n with
  | zero =>
    rw [if_pos hpos]
    exact ⟨hv, h⟩
  | succ n ih =>
    obtain ⟨hv', hs⟩ := ih
    obtain ⟨hv'', hs', _⟩ := hs.runTimerTask hv'
    refine ⟨hv'', ?_⟩
    by_cases hn : n < c.left
    · rw [if_pos hn, Option.bind_some, Countdown.next] at hs'
      by_cases hlast : n + 1 < c.left
      · rw [if_neg (by show c.left - n ≠ 1; omega)] at hs'
        rw [if_pos hlast]
        exact hs'
      · rw [if_pos (by show c.left - n = 1; omega)] at hs'
        rw [if_neg hlast]
        exact hs'
    · rw [if_neg hn] at hs'
      rw [if_neg (by omega)]
      exact hs'

/-- **In which call a countdown fires.** -/
theorem Shows.fires_iff {c : Countdown} (hv : w.Valid) (h : w.Shows id (some c)) (n : Nat) :
    id ∈ (w.after n).runTimerTask.2 ↔ c.left = n + 1 ∧ c.canceled = false := by
  obtain ⟨hv', hs⟩ := h.after hv n
  obtain ⟨_, _, hcount⟩ := hs.runTimerTask hv'
  rw [← List.count_pos_iff, hcount]
  by_cases hn : n < c.left
  · rw [if_pos hn, Option.any_some, Countdown.fires]
    have hone : c.left - n = 1 ↔ c.left = n + 1 := by omega
    cases hc : c.canceled
    · by_cases h1 : c.left = n + 1
      · simp [h1]
      · simp [h1, mt hone.mp h1]
    · simp
  · rw [if_neg hn]
    simp only [Option.any_none, Bool.false_eq_true, if_false]
    omega

/-- A countdown fires with the timeout it has, if it is not cancelled. -/
theorem Shows.firesIn_iff {c : Countdown} (hv : w.Valid) (h : w.Shows id (some c)) (sec : Nat) :
    w.FiresIn id sec ↔ c.left = sec + 1 ∧ c.canceled = false := by
  constructor
  · intro hf
    exact (h.fires_iff hv sec).mp ((hf sec).mpr rfl)
  · rintro ⟨hleft, hc⟩ n
    rw [h.fires_iff hv n, and_iff_left hc]
    omega

end TimerWheel

namespace TimedConn

theorem timed_run {connId sockfd : Nat} {callbacks : Callbacks} {acts : List TimedAct}
    {s : TimedConn}
    (hacts : ∀ a ∈ acts, Short a) (h : run step (fresh connId sockfd callbacks) acts = some s) :
    Timed s ∧ s.id = connId := by
  exact run_preserves_of (I := fun s => Timed s ∧ s.id = connId)
    (fun _ _ _ hs ha hstep => ⟨hs.1.step ha hstep, (step_id hstep).trans hs.2⟩)
    ⟨timed_fresh connId sockfd callbacks, rfl⟩ hacts h

/-- What `EnableInactiveReleaseInLoop` makes of the countdown. -/
def enabled (sec : Nat) : Option Countdown → Countdown
  | none => .start sec
  | some c => c.restart

theorem enable_shows {s t : TimedConn} {sec : Nat} (h : Timed s) (hsec : sec < 60)
    {c : Option Countdown} (hsh : s.wheel.Shows s.id c)
    (ht : s.step (.conn (.call (.enableInactiveRelease sec))) = some t) :
    t.wheel.Shows s.id (some (enabled sec c)) ∧ t.conn.conn.socketOpen = s.conn.conn.socketOpen ∧
      t.conn.stack = s.conn.stack ∧ t.phase = s.phase := by
  simp only [step] at ht
  split at ht
  · obtain ⟨seg, rest, e, hcomes, he, hc, hp, _, hw⟩ := connStep_eq_some ht
    cases hcomes with
    | call user enters =>
      obtain rfl := Option.some.inj enters
      obtain rfl := Option.some.inj he
      refine ⟨?_, by rw [hc]; rfl, by rw [hc]; rfl, hp⟩
      rw [hw, Segment.timers, hsh.hasTimer]
      cases c with
      | none => exact TimerWheel.Shows.add h.valid hsh hsec
      | some c => exact TimerWheel.Shows.refresh h.valid hsh
  · exact absurd ht (by simp)

/-- Nothing happens to the connection; the loop ticks, others use the wheel, and what was begun goes
on. -/
def Quiet : TimedAct → Prop
  | .conn .ret | .conn .resume => True
  | .conn _ => False
  | _ => True

/-- Between two calls of `RunTimerTask` the connection is released if more than `sec` of them have
ended, and otherwise not. -/
def ReleasedIn (s : TimedConn) (sec : Nat) : Prop :=
  ∀ acts t, (∀ a ∈ acts, Quiet a) → run step s acts = some t → t.phase = .idle →
    (t.conn.conn.socketOpen = false ↔ sec < acts.count .tock)

/-- The invariant of a quiet run behind an armed timer, with the number of calls ended so far: the
countdown runs, or the connection has been released by the call behind `sec` others. -/
def Counting (sec : Nat) (s : TimedConn) (ended : Nat) : Prop :=
  (s.conn.conn.socketOpen = true ∧ s.conn.stack = [] ∧ ended ≤ sec ∧
      s.wheel.Shows s.id (some ⟨sec, sec + 1 - ended, false⟩)) ∨
    (s.conn.conn.socketOpen = false ∧ (ended = sec ∧ s.phase ≠ .idle ∨ sec < ended))

/-- A countdown that is not at one leaves a pointer outside the slot under the hand. -/
theorem left_ne_one {w : TimerWheel} {id : Nat} {c : Countdown} (h : w.Shows id (some c))
    (hs : w.wheel w.tick = []) : c.left ≠ 1 := by
  intro h1
  obtain ⟨pt, hr⟩ := h
  obtain ⟨p, hp, ho⟩ := hr.last
  rw [TimerWheel.offset_eq_zero.mp (by omega : w.offset p = 0), hs] at hp
  exact absurd hp (by simp)

theorem connStep_nil {s t : TimedConn} {act : Act} (hq : Quiet (.conn act))
    (hs : s.conn.stack = []) :
    s.connStep act ≠ some t := by
  intro h
  obtain ⟨seg, rest, e, hcomes, _⟩ := connStep_eq_some h
  rw [hs] at hcomes
  cases hcomes with
  | ret top | resume top | recv top | send top => exact absurd top (by simp)
  | setREvents | handleEvent | call | consume => exact hq

theorem Counting.step {sec ended : Nat} {s t : TimedConn} {a : TimedAct} (h : Timed s)
    (hc : Counting sec s ended) (hq : Quiet a) (hs : s.step a = some t) :
    Counting sec t (ended + if a = .tock then 1 else 0) := by
  rcases hc with ⟨hopen, hstack, hle, hsh⟩ | ⟨hclosed, hcount⟩
  · -- the countdown runs
    cases stepped hs with
    | conn may goes => exact absurd goes (connStep_nil hq hstack)
    | others valid same ne =>
      rw [if_neg ne]
      exact Or.inl ⟨hopen, hstack, hle, hsh.of_same (same h.valid)⟩
    | tick phase stack => exact Or.inl ⟨hopen, hstack, hle, hsh⟩
    | kept phase slot live =>
      rcases hsh.popFront slot with ⟨hsh', _⟩ | ⟨_, _, _, hx, _⟩
      · exact Or.inl ⟨hopen, hstack, hle, hsh'⟩
      · exact absurd hx live
    | canceled phase slot dead known mark =>
      rcases hsh.popFront slot with ⟨hsh', hother⟩ | ⟨c, hc, _, _, ht, _⟩
      · exact Or.inl
          ⟨hopen, hstack, hle, hsh'.removeTimer_other fun hid => hother dead ⟨_, known, hid⟩⟩
      · obtain rfl := Option.some.inj hc
        obtain rfl := Option.some.inj (known.symm.trans ht)
        exact absurd mark (by simp)
    | foreign phase slot dead known ne =>
      rcases hsh.popFront slot with ⟨hsh', _⟩ | ⟨_, _, _, _, ht, _⟩
      · exact Or.inl ⟨hopen, hstack, hle, hsh'⟩
      · obtain rfl := Option.some.inj (known.symm.trans ht)
        exact absurd rfl ne
    | own phase slot dead known mark id goes =>
      rcases hsh.popFront slot with ⟨_, hother⟩ | ⟨c, hc, hleft, _⟩
      · exact absurd ⟨_, known, id⟩ (hother dead)
      · obtain rfl := Option.some.inj hc
        have hone : sec + 1 - ended = 1 := hleft
        obtain ⟨_, _, _, _, _, _, hp, _⟩ := connStep_eq_some goes
        refine Or.inr ⟨closed_of_release goes h.coherent, Or.inl ⟨?_, ?_⟩⟩
        · show ended + 0 = sec
          omega
        · rw [hp]
          simp
    | @release id phase stack =>
      have hne : id ≠ s.id := by
        rintro rfl
        exact absurd ((h.dying phase).symm.trans hopen) (by simp)
      exact Or.inl ⟨hopen, hstack, hle, hsh.removeTimer_other hne⟩
    | tock phase slot =>
      have hne : sec + 1 - ended ≠ 1 := left_ne_one hsh slot
      have hadv := hsh.advance slot
      rw [Option.bind_some, Countdown.next, if_neg hne] at hadv
      rw [if_pos rfl]
      refine Or.inl ⟨hopen, hstack, by omega, ?_⟩
      rwa [Nat.sub_sub] at hadv
  · -- released before: `RunTimerTask` becomes idle only by ending
    refine Or.inr ⟨h.closed_step hclosed hs, ?_⟩
    cases stepped hs with
    | conn may goes =>
      obtain ⟨_, _, _, _, _, _, hp, _⟩ := connStep_eq_some goes
      rw [hp]
      exact hcount
    | others valid same ne =>
      rw [if_neg ne]
      exact hcount
    | own phase slot dead known mark id goes =>
      obtain ⟨_, _, _, _, _, _, hp, _⟩ := connStep_eq_some goes
      exact hcount.imp_left fun hk => ⟨hk.1, by rw [hp]; simp⟩
    | kept phase | canceled phase =>
      exact hcount.imp_left fun hk => ⟨hk.1, by rw [phase]; simp⟩
    | tick | foreign | release => exact hcount.imp_left fun hk => ⟨hk.1, by simp⟩
    | tock phase slot =>
      rw [if_pos rfl]
      exact Or.inr (by omega)

/-- **An armed timer releases the connection in its call.** -/
theorem Counting.releasedIn {sec : Nat} {s : TimedConn} (h : Timed s) (hc : Counting sec s 0) :
    ReleasedIn s sec := by
  have hgo : ∀ {acts : List TimedAct} {s t : TimedConn} {ended : Nat}, (∀ a ∈ acts, Quiet a) →
      Timed s →
      Counting sec s ended → run TimedConn.step s acts = some t →
      Counting sec t (ended + acts.count .tock) := by
    intro acts
    induction acts with
    | nil =>
      intro s t ended _ _ hc h
      obtain rfl := Option.some.inj h
      exact hc
    | cons a acts ih =>
      intro s t ended hq hs hc h
      obtain ⟨u, hu, h⟩ := run_cons.mp h
      have hqa := hq a List.mem_cons_self
      have hshort : Short a := by
        rintro sec rfl
        exact absurd hqa (fun hf => hf)
      have hrest := ih (fun b hb => hq b (List.mem_cons_of_mem a hb)) (hs.step hshort hu)
        (hc.step hs hqa hu) h
      rw [List.count_cons, Nat.add_comm (acts.count .tock), ← Nat.add_assoc]
      simpa [beq_iff_eq] using hrest
  intro acts t hq hr hidle
  have hend := hgo hq h hc hr
  rw [Nat.zero_add] at hend
  rcases hend with ⟨hopen, _, hle, _⟩ | ⟨hclosed, ⟨_, hph⟩ | hlt⟩
  · rw [hopen]
    exact iff_of_false (by simp) (by omega)
  · exact absurd hidle hph
  · exact iff_of_true hclosed hlt

theorem enabled_eq_start_iff {sec : Nat} {c : Option Countdown} :
    enabled sec c = .start sec ↔ (enabled sec c).left = sec + 1 ∧
    (enabled sec c).canceled = false := by
  refine ⟨fun h => by rw [h]; exact ⟨rfl, rfl⟩, ?_⟩
  rintro ⟨hleft, hmark⟩
  cases c with
  | none => rfl
  | some c =>
    have hto : c.timeout = sec := Nat.succ.inj hleft
    have hca : c.canceled = false := hmark
    rw [enabled, Countdown.restart, hto, hca, Countdown.start]

/-- The countdown starts anew, with the timeout that was asked for, unless there is one already that
was cancelled or has another timeout. -/
theorem armed_iff {w : TimerWheel} {connId sec : Nat} {c : Option Countdown}
    (h : w.Shows connId c) :
    enabled sec c = .start sec ↔ w.timers connId = none ∨ ∃ pt task, w.timers connId = some pt ∧
      w.tasks[pt]? = some task ∧ task.canceled = false ∧ task.timeout = sec := by
  cases c with
  | none => exact iff_of_true rfl (Or.inl h.1)
  | some c =>
    obtain ⟨pt, hr⟩ := h
    rw [enabled_eq_start_iff]
    constructor
    · rintro ⟨hleft, hmark⟩
      exact Or.inr ⟨pt, _, hr.entry, hr.task, hmark, Nat.succ.inj hleft⟩
    · rintro (hn | ⟨pt', task, hn, htask, hmark, hto⟩)
      · exact absurd (hn.symm.trans hr.entry) (by simp)
      · obtain rfl := Option.some.inj (hn.symm.trans hr.entry)
        obtain rfl := Option.some.inj (htask.symm.trans hr.task)
        exact ⟨congrArg (· + 1) hto, hmark⟩

/-- **Where `EnableInactiveReleaseInLoop(sec)` has a meaning**: outside `RunTimerTask` always, and
in the callback of somebody else's timer as long as it does not start a timeout of zero, since the
slot that would go into is the one being cleared. -/
theorem enable_isSome_iff {s : TimedConn} {sec : Nat} {c : Option Countdown} (hsec : sec < 60)
    (hsh : s.wheel.Shows s.id c) (hphase : s.phase ≠ .clearing)
    (huser : userRuns s.conn.stack = true) :
    (s.step (.conn (.call (.enableInactiveRelease sec)))).isSome ↔
      s.phase = .idle ∨ (enabled sec c).timeout ≠ 0 := by
  have hmay : mayAct s.phase (.call (.enableInactiveRelease sec)) = true := by
    cases hp : s.phase <;> first | rfl | exact absurd hp hphase
  let o : Obs := if s.wheel.hasTimer s.id then .timerRefresh else .timerAdd sec
  have hconn : s.conn.step ⟨.call (.enableInactiveRelease sec), s.wheel.hasTimer s.id⟩ =
      some ⟨{ s.conn.conn with enableInactiveRelease := true }, s.conn.stack,
        s.conn.log ++ [o]⟩ := by
    simp [o, ConnState.step, segment, huser, ConnOp.segment, Segment.exec,
      Connection.enableInactiveReleaseInLoop]
  have hpush : (s.wheel.obey s.id o).wheel s.wheel.tick = s.wheel.wheel s.wheel.tick ↔
      (enabled sec c).timeout ≠ 0 := by
    cases c with
    | none =>
      rw [show o = .timerAdd sec by simp [o, hsh.hasTimer]]
      exact TimerWheel.pushBack_tick_iff hsec s.wheel.tasks.length
    | some c =>
      rw [show o = .timerRefresh by simp [o, hsh.hasTimer]]
      obtain ⟨pt, hr⟩ := hsh
      rw [TimerWheel.obey, hr.refresh_eq]
      exact TimerWheel.pushBack_tick_iff hr.short pt
  have hobey : (obeyAll s.phase s.id s.wheel [o]).isSome ↔
      s.phase = .idle ∨ (s.wheel.obey s.id o).wheel s.wheel.tick = s.wheel.wheel s.wheel.tick := by
    rw [obeyAll, ← guarded_isSome_iff]
    cases hg : guarded s.phase s.wheel (s.wheel.obey s.id o) <;> simp [run, hg]
  rw [step, if_pos hmay, connStep, hconn, Option.bind_some, List.drop_left,
    Option.isSome_map, hobey,
    hpush]

/-- **When `EnableInactiveReleaseInLoop(sec)` arms the timer.**  In every state of every run in
which the connection is open and user code runs, `EnableInactiveReleaseInLoop(sec)` has a meaning
and the timer runs the connection's `Release` in exactly the `(sec+1)`-th `RunTimerTask` that
follows, if and only if there was no timer under the id of the connection, or one with the same
timeout that is not cancelled, and `sec` is not zero in the callback of somebody else's timer.  And
then, in every run in which nothing more happens to the connection, that is when it is released.  A
`RunTimerTask` that is under way counts as the first. -/
theorem enable_arms_iff {connId sockfd sec : Nat} {callbacks : Callbacks} {acts : List TimedAct}
    {s : TimedConn} (hacts : ∀ a ∈ acts, Short a) (hsec : sec < 60)
    (h : run step (fresh connId sockfd callbacks) acts = some s)
    (hopen : s.conn.conn.socketOpen = true) (hphase : s.phase ≠ .clearing)
    (huser : userRuns s.conn.stack = true) :
    (∃ t, s.step (.conn (.call (.enableInactiveRelease sec))) = some t ∧
      t.wheel.FiresIn connId sec ∧ (s.conn.stack = [] → ReleasedIn t sec)) ↔
    (s.phase = .idle ∨ sec ≠ 0) ∧
      (s.wheel.timers connId = none ∨ ∃ pt task, s.wheel.timers connId = some pt ∧
        s.wheel.tasks[pt]? = some task ∧ task.canceled = false ∧ task.timeout = sec) := by
  obtain ⟨hs, rfl⟩ := timed_run hacts h
  obtain ⟨c, hsh⟩ := hs.shows hopen
  have hdefined := enable_isSome_iff hsec hsh hphase huser
  have htimed {t : TimedConn} (ht : s.step (.conn (.call (.enableInactiveRelease sec))) = some t) :
      Timed t := hs.step (by rintro sec' ha; cases ha; exact hsec) ht
  rw [← armed_iff hsh]
  constructor
  · rintro ⟨t, ht, hfires, _⟩
    obtain ⟨hsh', -⟩ := enable_shows hs hsec hsh ht
    have harmed := enabled_eq_start_iff.mpr ((hsh'.firesIn_iff (htimed ht).valid sec).mp hfires)
    have hgo := hdefined.mp (by rw [ht]; rfl)
    rw [harmed] at hgo
    exact ⟨hgo, harmed⟩
  · rintro ⟨hgo, harmed⟩
    obtain ⟨t, ht⟩ := Option.isSome_iff_exists.mp (hdefined.mpr (by rwa [harmed]))
    obtain ⟨hsh', hopen', hstack', -⟩ := enable_shows hs hsec hsh ht
    have hfires := (hsh'.firesIn_iff (htimed ht).valid sec).mpr (enabled_eq_start_iff.mp harmed)
    refine ⟨t, ht, hfires, fun hstack => Counting.releasedIn (htimed ht) (Or.inl ?_)⟩
    refine ⟨hopen'.trans hopen, hstack'.trans hstack, Nat.zero_le _, ?_⟩
    have htid : t.id = s.id := step_id ht
    rw [harmed] at hsh'
    rwa [htid, Nat.sub_zero]

/-- `EnableInactiveRelease` again, after two calls of `RunTimerTask` and an event. -/
theorem enable_arms_again :
    ∃ acts s, run step (fresh 1 7 ⟨false, true, false, false⟩) acts = some s ∧
      .conn (.call (.enableInactiveRelease 10)) ∈ acts ∧ acts.count .tock = 2 ∧
      .conn .handleEvent ∈ acts ∧
      ∃ t, s.step (.conn (.call (.enableInactiveRelease 10))) = some t ∧
        t.wheel.FiresIn 1 10 ∧ ReleasedIn t 10 := by
  let acts : List TimedAct :=
    [.conn (.call .established), .conn (.call (.enableInactiveRelease 10)), .tick, .tock,
      .conn (.setREvents EPOLLIN), .conn .handleEvent, .conn .resume, .conn (.recv .again),
      .conn .resume, .tick, .tock]
  have hrun : (run step (fresh 1 7 ⟨false, true, false, false⟩) acts).any fun s =>
      decide (s.conn.conn.socketOpen = true ∧ s.phase = .idle ∧ s.conn.stack = [] ∧
        s.wheel.timers 1 = some 0 ∧ s.wheel.tasks[0]? = some ⟨1, 10, false⟩) := by decide +kernel
  obtain ⟨s, hs, hrun⟩ := (Option.any_eq_true _ _).mp hrun
  obtain ⟨hopen, hidle, hstack, hentry, htask⟩ := of_decide_eq_true hrun
  have hshort : ∀ a ∈ acts, Short a := by
    rintro a ha sec rfl
    simp only [acts, List.mem_cons, TimedAct.conn.injEq, Act.call.injEq, reduceCtorEq, false_or,
      ConnOp.enableInactiveRelease.injEq, List.not_mem_nil, or_false] at ha
    omega
  obtain ⟨t, ht, hfires, hreleased⟩ :=
    (enable_arms_iff hshort (by decide) hs hopen (by simp [hidle]) (by simp [hstack, userRuns])).mpr
      ⟨Or.inl hidle, Or.inr ⟨0, _, hentry, htask, rfl, rfl⟩⟩
  exact ⟨acts, s, hs, by decide, by decide, by decide, t, ht, hfires, hreleased hstack⟩

/-- A timer that was cancelled is not armed again: the task that is still in the wheel gets a new
place and keeps the mark. -/
theorem enable_leaves_cancelled :
    ¬ ∀ (connId sockfd sec : Nat) (callbacks : Callbacks) (acts : List TimedAct) (s t : TimedConn),
      (∀ a ∈ acts, Short a) → sec < 60 → run step (fresh connId sockfd callbacks) acts = some s →
      s.conn.conn.socketOpen = true → s.phase = .idle → s.conn.stack = [] →
      s.step (.conn (.call (.enableInactiveRelease sec))) = some t →
      t.wheel.FiresIn connId sec ∧ ReleasedIn t sec := by
  intro hclaim
  have hrun : (run step (fresh 1 7 ⟨true, true, false, true⟩)
      [.conn (.call (.enableInactiveRelease 10)), .conn (.call .cancelInactiveRelease)]).any
      (fun s =>
        decide (s.conn.conn.socketOpen = true ∧ s.phase = .idle ∧ s.conn.stack = []) &&
        (s.step (.conn (.call (.enableInactiveRelease 10)))).any fun t =>
          decide (1 ∉ (t.wheel.after 10).runTimerTask.2)) := by decide +kernel
  obtain ⟨s, hs, hrun⟩ := (Option.any_eq_true _ _).mp hrun
  rw [Bool.and_eq_true, decide_eq_true_iff] at hrun
  obtain ⟨⟨hopen, hidle, hstack⟩, hrun⟩ := hrun
  obtain ⟨t, ht, hno⟩ := (Option.any_eq_true _ _).mp hrun
  have hshort : ∀ a ∈ [TimedAct.conn (.call (.enableInactiveRelease 10)),
      .conn (.call .cancelInactiveRelease)], Short a := by
    simp only [List.mem_cons, List.not_mem_nil, or_false]
    rintro a (rfl | rfl) sec h
    · simp only [TimedAct.conn.injEq, Act.call.injEq, ConnOp.enableInactiveRelease.injEq] at h
      omega
    · exact absurd h (by simp)
  obtain ⟨hfires, _⟩ := hclaim 1 7 10 _ _ s t hshort (by decide) hs hopen hidle hstack ht
  exact of_decide_eq_true hno ((hfires 10).mpr rfl)

end TimedConn

end Flux
