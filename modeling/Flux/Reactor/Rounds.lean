import Flux.Reactor.TaskQueue

/-!
# How long a task waits

`RunAllTask` swaps the queue out and runs what it has got; what is pushed meanwhile, by the tasks
themselves too, stays for the next round.  So no task can keep the loop from its handlers, and no
task waits for long: one that is pushed in front of the swap is executed in this round of `Start`,
one that is pushed behind it in the next.

* `TaskLoop.Due`: the tasks of some point of the run have so many rounds left, at most.
* `TaskLoop.Drains`: without another push, the loop and the callers come to the end of all tasks.
* `TaskLoop.two_rounds`: **every task is executed within two rounds**, and the rounds can be made.
-/

namespace Flux

open Lib

variable {τ : Type*}

def TaskAct.isAgain : TaskAct τ → Bool
  | again => true
  | _ => false

def TaskAct.isPush : TaskAct τ → Bool
  | push _ _ => true
  | _ => false

def rounds (acts : List (TaskAct τ)) : Nat := acts.countP TaskAct.isAgain

namespace TaskLoop

variable {s t : TaskLoop τ} {a : TaskAct τ} {first : List τ} {n : Nat}

/-! ### At most two rounds -/

/-- In front of the swap of a round. -/
def Ahead (s : TaskLoop τ) : Prop := s.point = .poll ∨ ∃ reported, s.point = .handling reported

/-- **These tasks have so many rounds left**, at most: none when they have returned, one when they
are in the batch or there is no batch yet. -/
def Due (first : List τ) (s : TaskLoop τ) : Nat → Prop
  | 0 => first <+: s.executed
  | 1 => first <+: s.executed ++ s.functor ∨ first <+: s.pushed ∧ s.Ahead
  | _ + 2 => first <+: s.pushed

theorem Due.step (h : Due first s n) (hs : s.Awake) (hstep : s.step a = some t) :
    Due first t (if a.isAgain then n - 1 else n) := by
  have hpushed : s.pushed <+: t.pushed := by
    cases step_steps hstep with
    | push => exact List.prefix_append _ _
    | _ => exact List.prefix_refl _
  match n with
  | 0 =>
    have hexec : s.executed <+: t.executed := by
      cases step_steps hstep with
      | taskReturns => exact List.prefix_append _ _
      | _ => exact List.prefix_refl _
    rw [Nat.zero_sub, ite_self]
    exact h.trans hexec
  | 1 =>
    rcases h with hbatch | ⟨hqueued, hahead⟩
    · cases step_steps hstep with
      | swap point =>
        -- there was no batch, so they have returned
        have hnil := hs.batch (by simp [point]) (by simp [point])
        rw [hnil, List.append_nil] at hbatch
        exact Or.inl (hbatch.trans (List.prefix_append _ _))
      | @taskReturns task rest _ batch =>
        rw [batch, List.append_cons] at hbatch
        exact Or.inl hbatch
      | again point done =>
        rw [done, List.append_nil] at hbatch
        exact hbatch
      | _ => exact Or.inl hbatch
    · cases step_steps hstep with
      | pollReturns => exact Or.inr ⟨hqueued, Or.inr ⟨_, rfl⟩⟩
      | readEventfd => exact Or.inr ⟨hqueued, Or.inr ⟨_, rfl⟩⟩
      | swap point =>
        -- the batch is everything that has not returned
        have hnil := hs.batch (by simp [point]) (by simp [point])
        have hcons := hs.conserved
        rw [hnil, List.append_nil] at hcons
        exact Or.inl (hcons ▸ hqueued)
      | push | wakeUp => exact Or.inr ⟨hqueued.trans hpushed, hahead⟩
      | taskBegins point | taskReturns point | again point =>
        simp [Ahead, point] at hahead
  | n + 2 =>
    have hqueued : first <+: t.pushed := h.trans hpushed
    cases hagain : a.isAgain with
    | false => exact hqueued
    | true =>
      cases n with
      | zero =>
        cases step_steps hstep with
        | again => exact Or.inr ⟨hqueued, Or.inl rfl⟩
        | _ => exact absurd hagain (by simp [TaskAct.isAgain])
      | succ n => exact hqueued

theorem Due.run {acts : List (TaskAct τ)} (h : Due first s n) (hs : s.Awake)
    (hr : Lib.run TaskLoop.step s acts = some t) : Due first t (n - rounds acts) := by
  induction acts generalizing s n with
  | nil =>
    obtain rfl : s = t := Option.some.inj hr
    exact h
  | cons a acts ih =>
    obtain ⟨u, hu, hr⟩ := run_cons.mp hr
    have hnext := ih (h.step hs hu) (hs.step hu) hr
    rw [rounds, List.countP_cons]
    cases hagain : a.isAgain with
    | true =>
      rw [hagain, if_pos rfl, Nat.sub_sub, Nat.add_comm] at hnext
      exact hnext
    | false =>
      rw [hagain] at hnext
      exact hnext

/-! ### The rounds can be made -/

/-- The writes that are there and those to come are no more than the pushes, and a task that runs is
one of the batch. -/
structure Counted (s : TaskLoop τ) : Prop where
  writes : s.counter + s.waking.length ≤ s.pushed.length
  begun : s.point = .running → s.functor ≠ []

theorem counted_start : Counted (start : TaskLoop τ) :=
  ⟨Nat.le_refl 0, fun h => absurd h (by simp [start])⟩

theorem Counted.step (h : s.Counted) (hstep : s.step a = some t) : t.Counted := by
  have hwrites := h.writes
  cases step_steps hstep with
  | push =>
    refine ⟨?_, h.begun⟩
    show s.counter + (_ :: s.waking).length ≤ (s.pushed ++ [_]).length
    rw [List.length_cons, List.length_append, List.length_singleton]
    omega
  | wakeUp waits =>
    refine ⟨?_, h.begun⟩
    have hlen := List.length_erase_of_mem waits
    have hpos := List.length_pos_of_mem waits
    show s.counter + 1 + (s.waking.erase _).length ≤ s.pushed.length
    omega
  | @readEventfd interrupted =>
    refine ⟨?_, by simp⟩
    show (if interrupted then s.counter else 0) + s.waking.length ≤ s.pushed.length
    split <;> omega
  | taskBegins _ more => exact ⟨hwrites, fun _ => more⟩
  | _ => exact ⟨hwrites, by simp⟩

/-- **The tasks pushed so far can all be executed** without another push. -/
def Drains (s : TaskLoop τ) : Prop :=
  ∃ more t, (∀ a ∈ more, TaskAct.isPush a = false) ∧ Lib.run TaskLoop.step s more = some t ∧
    t.executed = s.pushed

theorem Drains.of_step (hs : s.step a = some t) (ha : a.isPush = false) (h : t.Drains) :
    s.Drains := by
  obtain ⟨more, u, hno, hr, hu⟩ := h
  have hpushed : t.pushed = s.pushed := by
    cases step_steps hs with
    | push => exact absurd ha (by simp [TaskAct.isPush])
    | _ => rfl
  refine ⟨a :: more, u, ?_, run_cons.mpr ⟨t, hs, hr⟩, hu.trans hpushed⟩
  intro b hb
  rcases List.mem_cons.mp hb with rfl | hb
  · exact ha
  · exact hno b hb

theorem drains_batch {counter : Nat} {tasks functor pushed executed : List τ}
    (h : Drains ⟨.swapped, counter, tasks, [], [], pushed, executed ++ functor⟩) :
    Drains ⟨.swapped, counter, tasks, functor, [], pushed, executed⟩ := by
  induction functor generalizing executed with
  | nil => rwa [List.append_nil] at h
  | cons task rest ih =>
    rw [List.append_cons] at h
    have hreturned := ih h
    have hrunning : Drains ⟨.running, counter, tasks, task :: rest, [], pushed, executed⟩ :=
      .of_step (a := .taskReturns) rfl rfl hreturned
    exact .of_step (a := .taskBegins) rfl rfl hrunning

theorem drains_handling {counter : Nat} {tasks executed : List τ} (reported : Bool) :
    Drains ⟨.handling reported, counter, tasks, [], [], executed ++ tasks, executed⟩ := by
  have hswapped :
      ∀ counter, Drains ⟨.handling false, counter, tasks, [], [], executed ++ tasks, executed⟩ :=
    fun _ => .of_step (a := .swap) rfl rfl (drains_batch ⟨[], _, by simp, rfl, rfl⟩)
  cases reported with
  | false => exact hswapped counter
  | true => exact .of_step (a := .readEventfd false) rfl rfl (hswapped 0)

theorem drains_poll {counter : Nat} {tasks executed : List τ} (hup : tasks ≠ [] → 0 < counter) :
    Drains ⟨.poll, counter, tasks, [], [], executed ++ tasks, executed⟩ := by
  by_cases htasks : tasks = []
  · subst htasks
    exact ⟨[], _, by simp, rfl, (List.append_nil _).symm⟩
  · exact .of_step (a := .pollReturns true) (if_pos ⟨rfl, fun _ => hup htasks⟩) rfl
      (drains_handling true)

theorem drains_swapped {counter : Nat} {tasks functor executed : List τ}
    (hup : tasks ≠ [] → 0 < counter) :
    Drains ⟨.swapped, counter, tasks, functor, [], executed ++ functor ++ tasks, executed⟩ :=
  drains_batch (.of_step (a := .again) rfl rfl (drains_poll hup))

/-- **A loop that every caller has woken comes to the end of its tasks.** -/
theorem Awake.drains_woken (h : s.Awake) (hs : s.Counted) (hw : s.waking = []) : s.Drains := by
  obtain ⟨point, counter, tasks, functor, waking, pushed, executed⟩ := s
  obtain rfl : waking = [] := hw
  obtain rfl : pushed = executed ++ functor ++ tasks := h.conserved
  have hup : (∀ reported, point ≠ .handling reported) → tasks ≠ [] → 0 < counter :=
    fun hp hne => (h.seen hp hne).resolve_right fun hno => hno rfl
  cases point with
  | poll =>
    obtain rfl : functor = [] := h.batch (by simp) (by simp)
    rw [List.append_nil]
    exact drains_poll (hup (by simp))
  | handling reported =>
    obtain rfl : functor = [] := h.batch (by simp) (by simp)
    rw [List.append_nil]
    exact drains_handling reported
  | swapped => exact drains_swapped (hup (by simp))
  | running =>
    cases functor with
    | nil => exact absurd rfl (hs.begun rfl)
    | cons task rest =>
      rw [List.append_cons]
      exact .of_step (a := .taskReturns) rfl rfl (drains_swapped (hup (by simp)))

theorem Awake.drains (h : s.Awake) (hs : s.Counted) (hmax : s.pushed.length ≤ eventfdMax) :
    s.Drains := by
  generalize hw : s.waking = waking
  induction waking generalizing s with
  | nil => exact h.drains_woken hs hw
  | cons caller waking ih =>
    have hroom : s.counter + 1 ≤ eventfdMax := by
      have hwrites := hs.writes
      rw [hw, List.length_cons] at hwrites
      omega
    have hstep : s.step (.wakeUp caller) =
        some { s with counter := s.counter + 1, waking := s.waking.erase caller } :=
      if_pos ⟨hw ▸ List.mem_cons_self, hroom⟩
    exact .of_step hstep rfl (ih (h.step hstep) (hs.step hstep) hmax (by simp [hw]))

/-! ### Whole runs -/

/-- **No task waits for more than two rounds.**  Take any state of any interleaving of any number of
callers with the loop, and the tasks pushed up to there.  In every run that goes on from it they
have all been executed when `Start` has gone round once, if it was in front of its swap, and twice
at most, whatever is pushed meanwhile by tasks, handlers and other threads.  And while the counter
of the eventfd has room for all pushes, the run can go on to that point without another push. -/
theorem two_rounds {acts : List (TaskAct τ)} (h : run step start acts = some s) :
    (∀ more t, run TaskLoop.step s more = some t → 1 ≤ rounds more → (s.Ahead ∨ 2 ≤ rounds more) →
      s.pushed <+: t.executed) ∧
    (s.pushed.length ≤ eventfdMax → s.Drains) := by
  have hawake : s.Awake := run_preserves (fun _ _ _ hi hs => hi.step hs) awake_start h
  have hcounted : s.Counted := run_preserves (fun _ _ _ hi hs => hi.step hs) counted_start h
  refine ⟨?_, hawake.drains hcounted⟩
  intro more t hmore hone hcase
  rcases hcase with hahead | htwo
  · have hdue : Due s.pushed s 1 := Or.inr ⟨List.prefix_refl _, hahead⟩
    have hrun := hdue.run hawake hmore
    rwa [Nat.sub_eq_zero_of_le hone] at hrun
  · have hdue : Due s.pushed s 2 := List.prefix_refl _
    have hrun := hdue.run hawake hmore
    rwa [Nat.sub_eq_zero_of_le htwo] at hrun

/-- One task running and two pushed behind the swap: not done with the first round, done with the
second. -/
theorem two_rounds_behind : ∃ (s t u : TaskLoop Nat) (first second : List (TaskAct Nat)),
    run step start [.push (.other 0) 1, .wakeUp (.other 0), .pollReturns true,
      .readEventfd false, .swap,
      .taskBegins, .push (.other 1) 2, .push .loop 3, .wakeUp .loop] = some s ∧
    run step s first = some t ∧ rounds first = 1 ∧ t.executed = [1] ∧
    run step s (first ++ second) = some u ∧ s.pushed <+: u.executed := by
  have h : run step start [.push (.other 0) 1, .wakeUp (.other 0), .pollReturns true,
      .readEventfd false, .swap,
      .taskBegins, .push (.other 1) 2, .push .loop 3, .wakeUp .loop] =
      some (⟨.running, 1, [2, 3], [1], [.other 1], [1, 2, 3], []⟩ : TaskLoop Nat) := by
    decide
  have hmore : run step (⟨.running, 1, [2, 3], [1], [.other 1], [1, 2, 3], []⟩ : TaskLoop Nat)
      ([.taskReturns, .again] ++
        [.pollReturns true, .readEventfd true, .swap, .taskBegins, .taskReturns,
        .taskBegins, .taskReturns, .again]) =
      some ⟨.poll, 1, [], [], [.other 1], [1, 2, 3], [1, 2, 3]⟩ := by
    decide
  exact ⟨_, ⟨.poll, 1, [2, 3], [], [.other 1], [1, 2, 3], [1]⟩, _, [.taskReturns, .again], _, h,
    by decide, rfl,
    rfl, hmore, (two_rounds h).1 _ _ hmore (by decide) (Or.inr (by decide))⟩

end TaskLoop

end Flux
