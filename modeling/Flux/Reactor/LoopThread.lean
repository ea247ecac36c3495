import Flux.Lib.Run

/-!
# `LoopThread`

Two threads.  The owner constructs the `LoopThread`, may ask it for its loop, and destroys it: under
the mutex it looks whether there is a loop and calls `Stop` if there is one, and then it waits in
`join`.  The other thread builds the `EventLoop`, publishes it under the mutex and goes round in
`Start` until a test finds `_isrunning` false.  A step is an atomic piece of one of the two; `Stop`
is two of them, with the mutex held over both.

`_isrunning` is written from both sides, by `Stop` and by the first line of `Start`.  A destructor
that comes too early finds no loop to stop, or its `Stop` is overwritten; from then on the owner
waits for ever (`Hang.not_returns`).  `loop_stops_iff` says exactly which runs these are.
-/

namespace Flux

open Lib

inductive OwnerPoint
  /-- In front of the destructor. -/
  | owning
  /-- In `Stop`, with the mutex, in front of `_isrunning = false` and in front of
  `WakeUpEventFd`. -/
  | stopping
  | waking
  | joining
  /-- Behind `join`. -/
  | done
deriving DecidableEq, Repr

inductive ThreadPoint
  | building
  | publishing
  /-- In front of `_isrunning = true`. -/
  | starting
  /-- In the loop of `Start`: in front of its test, of `Poll`, of the handlers of what was reported,
  and of `RunAllTask`. -/
  | testing
  | polling
  | handling (reported : Bool)
  | runningTasks
  /-- In front of `_loop = nullptr`. -/
  | clearing
  | finished
deriving DecidableEq, Repr

namespace ThreadPoint

/-- The first line of `Start` is past. -/
def entered : ThreadPoint → Bool
  | building | publishing | starting => false
  | _ => true

def inLoop : ThreadPoint → Bool
  | testing | polling | handling _ | runningTasks => true
  | _ => false

/-- Between the two blocks under the mutex. -/
def published : ThreadPoint → Bool
  | building | publishing | finished => false
  | _ => true

end ThreadPoint

structure LoopThread where
  owner : OwnerPoint
  thread : ThreadPoint
  /-- `_loop` is not null. -/
  loop : Bool
  isRunning : Bool
  /-- The counter of the eventfd. -/
  counter : Nat
  /-- The owner has called `Stop`. -/
  stopped : Bool
deriving DecidableEq, Repr

inductive LoopThreadAct
  /-- `GetLoop` comes back. -/
  | getLoop
  /-- The destructor looks at `_loop`. -/
  | check
  /-- `_isrunning = false`. -/
  | stop
  | wakeUp
  | joined
  | build
  | publish
  /-- `_isrunning = true`. -/
  | start
  | test
  /-- `Poll` comes back; `reported` when the eventfd is among the active channels. -/
  | pollReturns (reported : Bool)
  /-- `ReadEventfd`; a `read` that was interrupted leaves the counter as it is. -/
  | readEventfd (interrupted : Bool)
  /-- The handlers are done. -/
  | handled
  | runAllTask
  | clear
deriving DecidableEq, Repr

namespace LoopThread

/-- The constructor, with the thread on its way. -/
def new : LoopThread where
  owner := .owning
  thread := .building
  loop := false
  isRunning := false
  counter := 0
  stopped := false

def Locked (s : LoopThread) : Prop := s.owner = .stopping ∨ s.owner = .waking

instance (s : LoopThread) : Decidable s.Locked := inferInstanceAs (Decidable (_ ∨ _))

def step (s : LoopThread) : LoopThreadAct → Option LoopThread
  | .getLoop => if s.owner = .owning ∧ s.loop = true then some s else none
  | .check =>
    if s.owner = .owning then some { s with owner := if s.loop then .stopping else .joining }
      else none
  | .stop =>
    if s.owner = .stopping then
      some { s with owner := .waking, isRunning := false, stopped := true }
    else none
  | .wakeUp =>
    if s.owner = .waking then some { s with owner := .joining, counter := s.counter + 1 } else none
  | .joined =>
    if s.owner = .joining ∧ s.thread = .finished then some { s with owner := .done } else none
  | .build => if s.thread = .building then some { s with thread := .publishing } else none
  | .publish =>
    if s.thread = .publishing ∧ ¬ s.Locked then some { s with thread := .starting, loop := true }
    else none
  | .start =>
    if s.thread = .starting then some { s with thread := .testing, isRunning := true } else none
  | .test =>
    if s.thread = .testing then
      some { s with thread := if s.isRunning then .polling else .clearing }
    else none
  | .pollReturns reported =>
    if s.thread = .polling ∧ (reported = true → 0 < s.counter) then
      some { s with thread := .handling reported }
    else none
  | .readEventfd interrupted =>
    if s.thread = .handling true then
      some { s with
        thread := .handling false
        counter := if interrupted then s.counter else 0 }
    else none
  | .handled =>
    if s.thread = .handling false then some { s with thread := .runningTasks } else none
  | .runAllTask =>
    if s.thread = .runningTasks then some { s with thread := .testing } else none
  | .clear =>
    if s.thread = .clearing ∧ ¬ s.Locked then some { s with thread := .finished, loop := false }
    else none

/-! ### Too early -/

/-- **The owner waits for a thread that nobody stops**: it runs in its loop with `_isrunning` true,
or it is still to enter `Start` and `Stop` was not called. -/
def Hang (s : LoopThread) : Prop :=
  s.owner = .joining ∧ (s.thread.inLoop = true ∧ s.isRunning = true ∨
    s.thread.entered = false ∧ s.stopped = false)

/-- The step does not come too early: the destructor finds the loop published, and `Stop` comes
behind the first line of `Start`. -/
def InTime (s : LoopThread) : LoopThreadAct → Prop
  | .check => s.loop = true
  | .stop => s.thread ≠ .starting
  | _ => True

instance (s : LoopThread) (a : LoopThreadAct) : Decidable (s.InTime a) := by
  cases a <;> first | exact inferInstanceAs (Decidable (_ = _)) | exact inferInstanceAs
    (Decidable (¬ _)) |
    exact .isTrue trivial

/-- The owner is done with stopping, and the thread has its first line of `Start` before it or goes
round with `_isrunning` true. -/
def Doomed (s : LoopThread) : Prop :=
  (s.owner = .waking ∨ s.owner = .joining) ∧
    (s.thread.entered = false ∨ s.thread.inLoop = true ∧ s.isRunning = true)

/-- **What a step can do.**  `moves` is the thread inside its loop, or in front of its
publication. -/
inductive Steps (s : LoopThread) : LoopThreadAct → LoopThread → Prop
  | getLoop : Steps s .getLoop s
  | check (owner : s.owner = .owning) :
      Steps s .check { s with owner := if s.loop then .stopping else .joining }
  | stop (owner : s.owner = .stopping) :
      Steps s .stop { s with owner := .waking, isRunning := false, stopped := true }
  | wakeUp (owner : s.owner = .waking) :
      Steps s .wakeUp { s with owner := .joining, counter := s.counter + 1 }
  | joined (owner : s.owner = .joining) (thread : s.thread = .finished) :
      Steps s .joined { s with owner := .done }
  | publish (thread : s.thread = .publishing) :
      Steps s .publish { s with thread := .starting, loop := true }
  | start (thread : s.thread = .starting) :
      Steps s .start { s with thread := .testing, isRunning := true }
  | leave (thread : s.thread = .testing) (off : s.isRunning = false) :
      Steps s .test { s with thread := .clearing }
  | clear (thread : s.thread = .clearing) (unlocked : ¬ s.Locked) :
      Steps s .clear { s with thread := .finished, loop := false }
  | moves {a p n} (free : s.InTime a) (published : p.published = s.thread.published)
      (entered : p.entered = s.thread.entered) (inLoop : p.inLoop = s.thread.inLoop)
      (going : s.thread ≠ .finished) (polls : p = .polling → s.isRunning = true) :
      Steps s a { s with thread := p, counter := n }

variable {s t : LoopThread} {a : LoopThreadAct}

theorem Steps.along {p q : ThreadPoint} {n : Nat} (hp : s.thread = p) (free : s.InTime a)
    (published : q.published = p.published) (entered : q.entered = p.entered)
    (inLoop : q.inLoop = p.inLoop)
    (going : p ≠ .finished) (polls : q = .polling → s.isRunning = true) :
    Steps s a { s with thread := q, counter := n } := by
  subst hp
  exact .moves free published entered inLoop going polls

theorem step_steps (h : s.step a = some t) : Steps s a t := by
  cases a <;> simp only [LoopThread.step, Option.ite_none_right_eq_some, Option.some.injEq] at h <;>
    obtain ⟨hg, rfl⟩ := h
  case getLoop => exact .getLoop
  case check => exact .check hg
  case stop => exact .stop hg
  case wakeUp => exact .wakeUp hg
  case joined => exact .joined hg.1 hg.2
  case build => exact .along hg trivial rfl rfl rfl (by simp) (by simp)
  case publish => exact .publish hg.1
  case start => exact .start hg
  case test =>
    by_cases hr : s.isRunning = true
    · rw [if_pos hr]
      exact .along hg trivial rfl rfl rfl (by simp) fun _ => hr
    · rw [if_neg hr]
      exact .leave hg (Bool.eq_false_iff.mpr hr)
  case pollReturns => exact .along hg.1 trivial rfl rfl rfl (by simp) (by simp)
  case readEventfd => exact .along hg trivial rfl rfl rfl (by simp) (by simp)
  case handled => exact .along hg trivial rfl rfl rfl (by simp) (by simp)
  case runAllTask => exact .along hg trivial rfl rfl rfl (by simp) (by simp)
  case clear => exact .clear hg.1 hg.2

/-! ### What every run keeps -/

structure Sound (s : LoopThread) : Prop where
  loop : s.loop = s.thread.published
  /-- Only the destructor calls `Stop`. -/
  unstopped : s.owner = .owning ∨ s.owner = .stopping → s.stopped = false
  /-- The mutex keeps the loop where it is. -/
  stopping : s.owner = .stopping → s.loop = true
  waking : s.owner = .waking → s.stopped = true
  done : s.owner = .done → s.thread = .finished
  /-- Nobody else stops the thread. -/
  running : s.stopped = false → s.thread.entered = true → s.thread.inLoop = true ∧
  s.isRunning = true
  /-- A thread that is stopped in `Poll` will be woken. -/
  woken : s.stopped = true → s.isRunning = false → s.thread = .polling →
    s.owner = .waking ∨ 0 < s.counter

theorem sound_new : new.Sound := by
  constructor <;> simp [new, ThreadPoint.published, ThreadPoint.entered]

theorem Sound.step (h : s.Sound) (hs : s.step a = some t) : t.Sound := by
  cases step_steps hs with
  | getLoop => exact h
  | check owner =>
    have hst := h.unstopped (Or.inl owner)
    refine ⟨h.loop, fun _ => hst, ?_, ?_, ?_, h.running, fun hst' => absurd (hst.symm.trans hst')
      (by simp)⟩ <;>
      cases hl : s.loop <;> simp
  | stop owner =>
    exact ⟨h.loop, by simp, by simp, fun _ => rfl, by simp, by simp, fun _ _ _ => Or.inl rfl⟩
  | wakeUp owner =>
    exact ⟨h.loop, by simp, by simp, by simp, by simp, h.running,
      fun _ _ _ => Or.inr (Nat.succ_pos _)⟩
  | joined owner thread =>
    exact ⟨h.loop, by simp, by simp, by simp, fun _ => thread, h.running,
      fun _ _ hp => absurd (thread.symm.trans hp) (by simp)⟩
  | publish thread =>
    refine ⟨rfl, h.unstopped, fun _ => rfl, h.waking, fun hd => ?_, by simp [ThreadPoint.entered],
      by simp⟩
    exact absurd (thread.symm.trans (h.done hd)) (by simp)
  | start thread =>
    refine ⟨?_, h.unstopped, h.stopping, h.waking, fun hd => ?_, fun _ _ => ⟨rfl, rfl⟩, by simp⟩
    · rw [h.loop, thread]
      rfl
    · exact absurd (thread.symm.trans (h.done hd)) (by simp)
  | leave thread off =>
    refine ⟨?_, h.unstopped, h.stopping, h.waking, fun hd => ?_, fun hst _ => ?_, by simp⟩
    · rw [h.loop, thread]
      rfl
    · exact absurd (thread.symm.trans (h.done hd)) (by simp)
    · -- somebody has stopped it
      have hrun := (h.running hst (by rw [thread]; rfl)).2
      exact absurd (off.symm.trans hrun) (by simp)
  | clear thread unlocked =>
    refine ⟨rfl, h.unstopped, fun ho => absurd (Or.inl ho) unlocked, h.waking, fun _ => rfl,
      ?_, by simp⟩
    intro hst _
    have hin := (h.running hst (by rw [thread]; rfl)).1
    rw [thread] at hin
    exact absurd hin (by simp [ThreadPoint.inLoop])
  | moves _ published entered inLoop going polls =>
    refine ⟨h.loop.trans published.symm, h.unstopped, h.stopping, h.waking, fun hd => ?_,
      fun hst he => ?_,
      fun _ off hp => ?_⟩
    · exact absurd (h.done hd) going
    · rw [inLoop]
      exact h.running hst (entered ▸ he)
    · exact absurd (off.symm.trans (polls hp)) (by simp)

/-! ### A step too early -/

/-- In front of the destructor a loop that is not published is still to come. -/
theorem Sound.early (h : s.Sound) (hl : s.loop = false) (hst : s.stopped = false) :
    s.thread.entered = false := by
  by_contra he
  have hin := (h.running hst (by simpa using he)).1
  have hpub := h.loop.symm.trans hl
  cases hp : s.thread <;> simp [hp, ThreadPoint.inLoop, ThreadPoint.published] at hin hpub

theorem doomed_of_owner (h : s.owner = .owning ∨ s.owner = .stopping) : ¬ s.Doomed := by
  rintro ⟨ho, _⟩
  rcases h with h | h <;> simp [h] at ho

/-- **A run is lost in a step that comes too early**, and stays lost. -/
theorem Sound.doomed_iff (h : s.Sound) (hs : s.step a = some t) :
    ¬ t.Doomed ↔ ¬ s.Doomed ∧ s.InTime a := by
  cases step_steps hs with
  | getLoop => exact (and_iff_left trivial).symm
  | check owner =>
    rw [and_iff_right (doomed_of_owner (Or.inl owner)), InTime]
    cases hl : s.loop with
    | true => simp [Doomed]
    | false =>
      have hearly := h.early hl (h.unstopped (Or.inl owner))
      simp [Doomed, hearly]
  | stop owner =>
    rw [and_iff_right (doomed_of_owner (Or.inr owner)), InTime]
    have hpub := h.loop.symm.trans (h.stopping owner)
    cases hp : s.thread <;> simp [hp, Doomed, ThreadPoint.entered, ThreadPoint.published] at hpub ⊢
  | wakeUp owner =>
    rw [and_iff_left (show s.InTime .wakeUp from trivial)]
    simp [Doomed, owner]
  | joined owner thread =>
    rw [and_iff_left (show s.InTime .joined from trivial)]
    simp [Doomed, thread, ThreadPoint.entered, ThreadPoint.inLoop]
  | publish thread =>
    rw [and_iff_left (show s.InTime .publish from trivial)]
    simp [Doomed, thread, ThreadPoint.entered]
  | start thread =>
    rw [and_iff_left (show s.InTime .start from trivial)]
    simp [Doomed, thread, ThreadPoint.entered, ThreadPoint.inLoop]
  | leave thread off =>
    rw [and_iff_left (show s.InTime .test from trivial)]
    simp [Doomed, thread, off, ThreadPoint.entered, ThreadPoint.inLoop]
  | clear thread =>
    rw [and_iff_left (show s.InTime .clear from trivial)]
    simp [Doomed, thread, ThreadPoint.entered, ThreadPoint.inLoop]
  | moves free _ entered inLoop =>
    rw [and_iff_left free]
    simp only [Doomed, entered, inLoop]

/-- The owner is through with stopping, and the thread has come into `Start`. -/
def Settled (s : LoopThread) : Prop :=
  (s.owner = .joining ∨ s.owner = .done) ∧ s.thread.entered = true

theorem Hang.doomed (h : s.Hang) : s.Doomed := by
  obtain ⟨ho, hin | hent⟩ := h
  · exact ⟨Or.inr ho, Or.inr hin⟩
  · exact ⟨Or.inr ho, Or.inl hent.1⟩

theorem Settled.hang_iff (h : s.Settled) : s.Hang ↔ s.Doomed := by
  refine ⟨Hang.doomed, ?_⟩
  rintro ⟨ho, hent | hin⟩
  · exact absurd (hent.symm.trans h.2) (by simp)
  · refine ⟨h.1.resolve_right fun hd => ?_, Or.inl hin⟩
    simp [hd] at ho

/-! ### Whole runs -/

section Runs

variable {acts : List LoopThreadAct} {u : LoopThread}

theorem doomed_iff_each (hr : run step new acts = some u) :
    ¬ u.Doomed ↔ Each step InTime new acts :=
  run_iff_each_step (I := Sound) (fun _ _ _ h hs => h.step hs) (fun _ _ _ h hs => h.doomed_iff hs)
    sound_new (doomed_of_owner (Or.inl rfl)) hr

/-- **Whoever hangs, hangs for ever.** -/
theorem Hang.run (h : s.Hang) (hr : Lib.run step s acts = some u) : u.Hang := by
  refine run_preserves (I := Hang) (fun s a t h hs => ?_) h hr
  obtain ⟨ho, hcase⟩ := h
  cases step_steps hs with
  | getLoop => exact ⟨ho, hcase⟩
  | check owner => exact absurd (ho.symm.trans owner) (by simp)
  | stop owner => exact absurd (ho.symm.trans owner) (by simp)
  | wakeUp owner => exact absurd (ho.symm.trans owner) (by simp)
  | joined _ thread => simp [thread, ThreadPoint.entered, ThreadPoint.inLoop] at hcase
  | publish thread =>
    refine ⟨ho, Or.inr ⟨rfl, ?_⟩⟩
    simpa [thread, ThreadPoint.entered, ThreadPoint.inLoop] using hcase
  | start => exact ⟨ho, Or.inl ⟨rfl, rfl⟩⟩
  | leave thread off => simp [thread, off, ThreadPoint.entered] at hcase
  | clear thread => simp [thread, ThreadPoint.entered, ThreadPoint.inLoop] at hcase
  | moves _ _ entered inLoop =>
    refine ⟨ho, ?_⟩
    show (_ = true ∧ _) ∨ (_ = false ∧ _)
    rwa [entered, inLoop]

def Returns (s : LoopThread) : Prop := ∃ more v, Lib.run step s more = some v ∧ v.owner = .done

theorem Returns.of_step (hs : s.step a = some t) (h : t.Returns) : s.Returns := by
  obtain ⟨more, v, hr, hv⟩ := h
  exact ⟨a :: more, v, run_cons.mpr ⟨t, hs, hr⟩, hv⟩

theorem Hang.not_returns (h : s.Hang) : ¬ s.Returns := by
  rintro ⟨more, v, hr, hv⟩
  exact absurd ((h.run hr).1.symm.trans hv) (by simp)

/-- A thread in its loop that is off goes on to the end by itself, woken in `Poll` if it is
there. -/
theorem returns_of_joining (h : s.Sound) (ho : s.owner = .joining) (hd : ¬ s.Doomed) :
    s.Returns := by
  have hent : s.thread.entered = true := by
    by_contra he
    exact hd ⟨Or.inr ho, Or.inl (by simpa using he)⟩
  have hoff : s.thread.inLoop = true → s.isRunning = false := by
    intro hin
    by_contra hon
    exact hd ⟨Or.inr ho, Or.inr ⟨hin, by simpa using hon⟩⟩
  have hwoken : s.isRunning = false → s.thread = .polling → 0 < s.counter := by
    intro off hp
    have hst : s.stopped = true := by
      by_contra hst
      have hrun := (h.running (by simpa using hst) hent).2
      exact absurd (off.symm.trans hrun) (by simp)
    exact (h.woken hst off hp).resolve_left (by simp [ho])
  clear h hd
  obtain ⟨owner, thread, loop, isRunning, counter, stopped⟩ := s
  obtain rfl : owner = .joining := ho
  -- from the end of `ThreadEntry` back to `Poll`
  have hfinished : ∀ loop isRunning counter,
      Returns ⟨.joining, .finished, loop, isRunning, counter, stopped⟩ :=
    fun _ _ _ => ⟨[.joined], _, rfl, rfl⟩
  have hclearing : ∀ isRunning counter,
      Returns ⟨.joining, .clearing, loop, isRunning, counter, stopped⟩ :=
    fun _ _ => .of_step (a := .clear) rfl (hfinished _ _ _)
  have htesting : ∀ counter, Returns ⟨.joining, .testing, loop, false, counter, stopped⟩ :=
    fun _ => .of_step (a := .test) rfl (hclearing _ _)
  have hrunning : ∀ counter, Returns ⟨.joining, .runningTasks, loop, false, counter, stopped⟩ :=
    fun _ => .of_step (a := .runAllTask) rfl (htesting _)
  have hhandling : ∀ reported counter,
      Returns ⟨.joining, .handling reported, loop, false, counter, stopped⟩ := by
    intro reported counter
    cases reported with
    | false => exact .of_step (a := .handled) rfl (hrunning _)
    | true =>
      exact .of_step (a := .readEventfd false) rfl (.of_step (a := .handled) rfl (hrunning _))
  cases thread with
  | building | publishing | starting => exact absurd hent Bool.false_ne_true
  | testing =>
    obtain rfl := hoff rfl
    exact htesting _
  | polling =>
    obtain rfl := hoff rfl
    have hpos : 0 < counter := hwoken rfl rfl
    exact .of_step (a := .pollReturns true) (if_pos ⟨rfl, fun _ => hpos⟩) (hhandling _ _)
  | handling reported =>
    obtain rfl := hoff rfl
    exact hhandling _ _
  | runningTasks =>
    obtain rfl := hoff rfl
    exact hrunning _
  | clearing => exact hclearing _ _
  | finished => exact hfinished _ _ _

/-- **When the destructor stops its loop.**  In every interleaving of owner and thread: if the
destructor looks only behind the publication and calls `Stop` only behind the first line of `Start`,
the owner never waits for a thread that nobody stops, and where it waits, `join` can come back.  And
where it is through with stopping and the thread has come into `Start`, there is no other way not to
hang. -/
theorem loop_stops_iff (hr : Lib.run step new acts = some u) :
    (Each step InTime new acts → ¬ u.Hang ∧ (u.owner = .joining → u.Returns)) ∧
      (u.Settled → (¬ u.Hang ↔ Each step InTime new acts)) := by
  have hsound : u.Sound := run_preserves (I := Sound) (fun _ _ _ h hs => h.step hs) sound_new hr
  have heach := doomed_iff_each hr
  constructor
  · intro he
    have hd := heach.mpr he
    exact ⟨fun hhang => hd hhang.doomed, fun ho => returns_of_joining hsound ho hd⟩
  · intro hset
    rw [hset.hang_iff, heach]

/-- Destroyed while the thread waits in `Poll`. -/
theorem loop_stops_iff_late : ¬ Hang ⟨.joining, .polling, true, false, 1, true⟩ ∧
    Returns ⟨.joining, .polling, true, false, 1, true⟩ := by
  have hr : Lib.run step new [.build, .publish, .getLoop, .start, .test, .check, .stop, .wakeUp] =
      some ⟨.joining, .polling, true, false, 1, true⟩ := rfl
  obtain ⟨hnot, hreturns⟩ := (loop_stops_iff hr).1 (by decide)
  exact ⟨hnot, hreturns rfl⟩

/-- `Start` overwrites what `Stop` has written, and the owner waits for ever. -/
theorem destroyed_too_early : ¬ ∀ acts u, Lib.run step new acts = some u → ¬ u.Hang := by
  intro h
  have hlost := h [.build, .publish, .getLoop, .check, .stop, .wakeUp, .start]
    ⟨.joining, .testing, true, true, 1, true⟩ rfl
  exact hlost ⟨rfl, Or.inl ⟨rfl, rfl⟩⟩

end Runs

end LoopThread

end Flux
