import Flux.Lib.Run

/-!
# The task queue of an `EventLoop`

`QueueInLoop` is two steps, the push under the mutex and the write of the eventfd, and any number of
threads may be between the two.  The loop's own thread goes round through `Poll`, the handlers of
what was reported, the swap of `RunAllTask` and the tasks swapped out; handlers and tasks call
`QueueInLoop` too.  A step of the machine below is one of these atomic pieces, taken by one thread.

`Awake` is the invariant: as long as a task is queued, the counter of the eventfd is up, a caller
still has its write to do, or the loop has not come to the swap yet.  `readEventfd` takes the
counter back to zero, but only ahead of that swap.
-/

namespace Flux

open Lib

/-- The threads that call `QueueInLoop`: the loop's own, and any other. -/
inductive Caller
  | loop
  | other (thread : Nat)
deriving DecidableEq, Repr

inductive LoopPoint
  | poll
  /-- The handlers of a poll; `reported` while that of the eventfd is still to come. -/
  | handling (reported : Bool)
  /-- In `RunAllTask`, behind the swap and outside any task. -/
  | swapped
  /-- In the first task left of the batch. -/
  | running
deriving DecidableEq, Repr

structure TaskLoop (τ : Type*) where
  point : LoopPoint
  /-- The counter of the eventfd. -/
  counter : Nat
  tasks : List τ
  /-- The local of `RunAllTask`, without the tasks that have returned. -/
  functor : List τ
  /-- The callers between their push and their write. -/
  waking : List Caller
  /-- The tasks pushed so far and the tasks that have returned, each in the order in which this
  happened. -/
  pushed : List τ
  executed : List τ
deriving DecidableEq, Repr

/-- An atomic step of a thread. -/
inductive TaskAct (τ : Type*)
  /-- The push of `QueueInLoop`, under the mutex. -/
  | push (caller : Caller) (task : τ)
  /-- `WakeUpEventFd`. -/
  | wakeUp (caller : Caller)
  /-- `Poll` returns; `reported` when the eventfd is among the active channels. -/
  | pollReturns (reported : Bool)
  /-- `ReadEventfd`; a `read` that was interrupted leaves the counter as it is. -/
  | readEventfd (interrupted : Bool)
  /-- The swap of `RunAllTask`, under the mutex. -/
  | swap
  | taskBegins
  | taskReturns
  /-- The batch is done and `Start` goes round. -/
  | again
deriving DecidableEq, Repr

/-- The largest value an eventfd counter takes: a `write` beyond it does not succeed. -/
def eventfdMax : Nat := 18446744073709551614

namespace TaskLoop

variable {τ : Type*}

def start : TaskLoop τ where
  point := .poll
  counter := 0
  tasks := []
  functor := []
  waking := []
  pushed := []
  executed := []

/-- A thread that can call `QueueInLoop` here: it is in no call of it, and the loop's own thread is
in a handler or a task. -/
def mayPush (s : TaskLoop τ) (caller : Caller) : Prop :=
  caller ∉ s.waking ∧
  (caller = .loop → s.point = .running ∨ ∃ reported, s.point = .handling reported)

instance (p : LoopPoint) : Decidable (∃ reported, p = .handling reported) :=
  match p with
  | .handling reported => isTrue ⟨reported, rfl⟩
  | .poll | .swapped | .running => isFalse (by simp)

instance (s : TaskLoop τ) (caller : Caller) : Decidable (s.mayPush caller) :=
  inferInstanceAs (Decidable (_ ∧ (_ → _ ∨ _)))

/-- The steps of the loop's thread outside `QueueInLoop`. -/
def loopStep (s : TaskLoop τ) : TaskAct τ → Option (TaskLoop τ)
  | .pollReturns reported =>
    if s.point = .poll ∧ (reported = true → 0 < s.counter) then
      some { s with point := .handling reported }
    else none
  | .readEventfd interrupted =>
    if s.point = .handling true then
      some { s with
        point := .handling false
        counter := if interrupted then s.counter else 0 }
    else none
  | .swap =>
    if s.point = .handling false then
      some { s with point := .swapped, functor := s.tasks, tasks := s.functor }
    else none
  | .taskBegins =>
    if s.point = .swapped ∧ s.functor ≠ [] then some { s with point := .running } else none
  | .taskReturns =>
    match s.point, s.functor with
    | .running, task :: rest =>
      some { s with point := .swapped, functor := rest, executed := s.executed ++ [task] }
    | _, _ => none
  | .again =>
    if s.point = .swapped ∧ s.functor = [] then some { s with point := .poll } else none
  | .push _ _ | .wakeUp _ => none

def step (s : TaskLoop τ) : TaskAct τ → Option (TaskLoop τ)
  | .push caller task =>
    if s.mayPush caller then
      some { s with
        tasks := s.tasks ++ [task]
        pushed := s.pushed ++ [task]
        waking := caller :: s.waking }
    else none
  | .wakeUp caller =>
    if caller ∈ s.waking ∧ s.counter + 1 ≤ eventfdMax then
      some { s with counter := s.counter + 1, waking := s.waking.erase caller }
    else none
  | act => if .loop ∈ s.waking then none else s.loopStep act

/-! ### What a step can do -/

/-- **The steps**, each with the guard it passed. -/
inductive Steps (s : TaskLoop τ) : TaskAct τ → TaskLoop τ → Prop
  | push {caller task} (may : s.mayPush caller) :
      Steps s (.push caller task)
        { s with tasks := s.tasks ++ [task], pushed := s.pushed ++ [task], waking :=
          caller :: s.waking }
  | wakeUp {caller} (waits : caller ∈ s.waking) (room : s.counter + 1 ≤ eventfdMax) :
      Steps s (.wakeUp caller)
        { s with counter := s.counter + 1, waking := s.waking.erase caller }
  | pollReturns {reported} (point : s.point = .poll) (up : reported = true → 0 < s.counter) :
      Steps s (.pollReturns reported) { s with point := .handling reported }
  | readEventfd {interrupted} (point : s.point = .handling true) :
      Steps s (.readEventfd interrupted)
        { s with point := .handling false, counter := if interrupted then s.counter else 0 }
  | swap (point : s.point = .handling false) :
      Steps s .swap { s with point := .swapped, functor := s.tasks, tasks := s.functor }
  | taskBegins (point : s.point = .swapped) (more : s.functor ≠ []) :
      Steps s .taskBegins { s with point := .running }
  | taskReturns {task rest} (point : s.point = .running) (batch : s.functor = task :: rest) :
      Steps s .taskReturns
        { s with point := .swapped, functor := rest, executed := s.executed ++ [task] }
  | again (point : s.point = .swapped) (done : s.functor = []) :
      Steps s .again { s with point := .poll }

theorem loopStep_steps {s t : TaskLoop τ} {act : TaskAct τ} (h : s.loopStep act = some t) :
    Steps s act t := by
  cases act with
  | push caller task => exact absurd h (by simp [loopStep])
  | wakeUp caller => exact absurd h (by simp [loopStep])
  | pollReturns reported =>
    simp only [loopStep, Option.ite_none_right_eq_some, Option.some.injEq] at h
    obtain ⟨⟨hp, hup⟩, rfl⟩ := h
    exact .pollReturns hp hup
  | readEventfd interrupted =>
    simp only [loopStep, Option.ite_none_right_eq_some, Option.some.injEq] at h
    obtain ⟨hp, rfl⟩ := h
    exact .readEventfd hp
  | swap =>
    simp only [loopStep, Option.ite_none_right_eq_some, Option.some.injEq] at h
    obtain ⟨hp, rfl⟩ := h
    exact .swap hp
  | taskBegins =>
    simp only [loopStep, Option.ite_none_right_eq_some, Option.some.injEq] at h
    obtain ⟨⟨hp, hmore⟩, rfl⟩ := h
    exact .taskBegins hp hmore
  | taskReturns =>
    simp only [loopStep] at h
    split at h
    · rename_i task rest hp hb
      obtain rfl := Option.some.inj h
      exact .taskReturns hp hb
    · exact absurd h (by simp)
  | again =>
    simp only [loopStep, Option.ite_none_right_eq_some, Option.some.injEq] at h
    obtain ⟨⟨hp, hdone⟩, rfl⟩ := h
    exact .again hp hdone

theorem step_steps {s t : TaskLoop τ} {act : TaskAct τ} (h : s.step act = some t) :
    Steps s act t := by
  have hloop : ∀ a, (if .loop ∈ s.waking then none else s.loopStep a) = some t → Steps s a t := by
    intro a ha
    rw [Option.ite_none_left_eq_some] at ha
    exact loopStep_steps ha.2
  cases act with
  | push caller task =>
    simp only [step, Option.ite_none_right_eq_some, Option.some.injEq] at h
    obtain ⟨hmay, rfl⟩ := h
    exact .push hmay
  | wakeUp caller =>
    simp only [step, Option.ite_none_right_eq_some, Option.some.injEq] at h
    obtain ⟨⟨hw, hroom⟩, rfl⟩ := h
    exact .wakeUp hw hroom
  | _ => exact hloop _ h

/-! ### The invariant -/

/-- Nothing is lost: the tasks pushed are those that have returned, those left of the batch and
those queued, in this order; there is a batch only behind a swap; and while a task is queued,
somebody is going to see it. -/
structure Awake (s : TaskLoop τ) : Prop where
  conserved : s.pushed = s.executed ++ s.functor ++ s.tasks
  batch : s.point ≠ .swapped → s.point ≠ .running → s.functor = []
  awake : s.tasks ≠ [] → 0 < s.counter ∨ s.waking ≠ [] ∨ ∃ reported, s.point = .handling reported

theorem awake_start : Awake (start : TaskLoop τ) :=
  ⟨rfl, fun _ _ => rfl, fun h => absurd rfl h⟩

/-- Outside the handlers a queued task has a wake-up that is there or still to be written. -/
theorem Awake.seen {s : TaskLoop τ} (h : Awake s) (hp : ∀ reported, s.point ≠ .handling reported)
    (hne : s.tasks ≠ []) : 0 < s.counter ∨ s.waking ≠ [] := by
  rcases h.awake hne with hup | hw | ⟨reported, hr⟩
  · exact Or.inl hup
  · exact Or.inr hw
  · exact absurd hr (hp reported)

theorem Awake.step {s t : TaskLoop τ} {act : TaskAct τ} (h : Awake s) (hs : s.step act = some t) :
    Awake t := by
  have hcons := h.conserved
  cases step_steps hs with
  | push may =>
    refine ⟨?_, h.batch, fun _ => Or.inr (Or.inl (List.cons_ne_nil _ _))⟩
    show s.pushed ++ _ = s.executed ++ s.functor ++ (s.tasks ++ _)
    rw [hcons, List.append_assoc _ s.tasks]
  | wakeUp waits => exact ⟨hcons, h.batch, fun _ => Or.inl (Nat.succ_pos _)⟩
  | pollReturns point up =>
    have hnil := h.batch (by simp [point]) (by simp [point])
    exact ⟨hcons, fun _ _ => hnil, fun _ => Or.inr (Or.inr ⟨_, rfl⟩)⟩
  | readEventfd point =>
    have hnil := h.batch (by simp [point]) (by simp [point])
    exact ⟨hcons, fun _ _ => hnil, fun _ => Or.inr (Or.inr ⟨_, rfl⟩)⟩
  | swap point =>
    -- the local was empty, so the batch is the whole queue and the queue is empty
    have hnil := h.batch (by simp [point]) (by simp [point])
    refine ⟨?_, fun hp => absurd rfl hp, fun hne => absurd hnil hne⟩
    show s.pushed = s.executed ++ s.tasks ++ s.functor
    rw [hcons, hnil, List.append_nil, List.append_nil]
  | taskBegins point more =>
    exact ⟨hcons, fun _ hp => absurd rfl hp,
      fun hne => (h.seen (by simp [point]) hne).imp_right Or.inl⟩
  | taskReturns point batch =>
    refine ⟨?_, fun hp => absurd rfl hp, fun hne => (h.seen (by simp [point]) hne).imp_right Or.inl⟩
    show s.pushed = s.executed ++ [_] ++ _ ++ s.tasks
    rw [hcons, batch, List.append_cons]
  | again point done =>
    exact ⟨hcons, fun _ _ => done, fun hne => (h.seen (by simp [point]) hne).imp_right Or.inl⟩

/-- **No task and no wake-up is lost.**  In every interleaving of any number of callers with the
loop, every task pushed is in one place: it has returned, it is left of the batch, or it is queued,
and the three together are the tasks pushed, in the order of the pushes.  So tasks are executed in
that order.  And the loop never waits in `Poll` on a counter at zero while a task is queued and no
caller is about to write. -/
theorem no_task_lost {acts : List (TaskAct τ)} {s : TaskLoop τ}
    (h : run step start acts = some s) :
    s.pushed = s.executed ++ s.functor ++ s.tasks ∧ s.executed <+: s.pushed ∧
      ¬ (s.point = .poll ∧ s.counter = 0 ∧ s.waking = [] ∧ s.tasks ≠ []) := by
  have hi : Awake s := run_preserves (fun _ _ _ hs ht => hs.step ht) awake_start h
  refine ⟨hi.conserved, ?_, ?_⟩
  · rw [hi.conserved, List.append_assoc]
    exact List.prefix_append _ _
  · rintro ⟨hp, hc, hw, hne⟩
    rcases hi.seen (by simp [hp]) hne with hup | hw'
    · omega
    · exact hw' hw

/-- A push by another thread while a task runs, and one by that task: at the next `Poll` both are
queued, and the write of the second has kept the counter up. -/
theorem no_task_lost_behind : ∃ s : TaskLoop Nat,
    run step start [.push (.other 0) 1, .wakeUp (.other 0), .pollReturns true, .readEventfd false,
      .swap, .taskBegins, .push (.other 1) 2, .push .loop 3, .wakeUp .loop, .taskReturns,
      .again] = some s ∧ s.executed = [1] ∧ s.tasks = [2, 3] ∧
    s.pushed = s.executed ++ s.functor ++ s.tasks ∧ s.executed <+: s.pushed ∧
      ¬ (s.point = .poll ∧ s.counter = 0 ∧ s.waking = [] ∧ s.tasks ≠ []) := by
  have h : run step start [.push (.other 0) 1, .wakeUp (.other 0), .pollReturns true,
      .readEventfd false, .swap, .taskBegins, .push (.other 1) 2, .push .loop 3, .wakeUp .loop,
      .taskReturns, .again] =
      some (⟨.poll, 1, [2, 3], [], [.other 1], [1, 2, 3], [1]⟩ : TaskLoop Nat) := by
    decide
  exact ⟨_, h, rfl, rfl, no_task_lost h⟩

end TaskLoop

end Flux
