import Flux.Reactor.TimerHistory
import Mathlib.Data.List.Nodup

/-!
# Timers of a lap and more

`TimerAdd` takes any `uint32_t` and keeps `(_tick + timeout) % _capacity` of it, so the wheel has no
memory of the laps a long timer should wait.  Here the timeouts are any: what a history keeps
whatever they are (`valid_history`, `tasks_history`, `laps_history`), a bound on how long a task can
live behind its last start (`Due`), and with it exactly which callbacks run early
(`never_early_iff`).
-/

namespace Flux

open WheelRun

namespace TimerWheel

variable {w : TimerWheel} {id pt : Nat} {slot : List Nat}

/-! ### `RunTimerTask` with any timeouts -/

theorem destroy_tasks (w : TimerWheel) (pt : Nat) : (w.destroy pt).1.tasks = w.tasks := by
  unfold destroy
  split
  · rw [removeTimer_timers]
  · rfl

/-- What clearing the slot under the hand leaves of a wheel, and which callbacks it runs. -/
structure Cleared (w : TimerWheel) (slot : List Nat) (e : TimerWheel × List Nat) : Prop where
  tasks : e.1.tasks = w.tasks
  tick : e.1.tick = w.tick
  slots : ∀ p, ∀ r ∈ e.1.wheel p, r ∈ w.wheel p ∧ p ≠ w.tick
  /-- A callback that runs has a pointer in the slot. -/
  ran : ∀ id ∈ e.2, ∃ r ∈ slot, w.Named id r
  valid : w.Valid → e.1.Valid

theorem cleared_popFront {rest : List Nat} {e : TimerWheel × List Nat}
    (hs : w.wheel w.tick = pt :: rest)
    (h : Cleared (w.popFront rest) rest e) : Cleared w (pt :: rest) e where
  tasks := h.tasks
  tick := h.tick
  slots p r hr := ⟨mem_popFront hs (h.slots p r hr).1, (h.slots p r hr).2⟩
  ran id hid := by
    obtain ⟨r, hr, hn⟩ := h.ran id hid
    exact ⟨r, List.mem_cons_of_mem pt hr, hn⟩
  valid hv := h.valid (hv.popFront hs)

theorem named_of_destroy (h : id ∈ (w.destroy pt).2) : w.Named id pt := by
  unfold TimerWheel.destroy at h
  split at h
  · rename_i task ht
    refine ⟨task, ht, ?_⟩
    cases hc : task.canceled <;> simp [hc] at h
    exact h.symm
  · exact absurd h (by simp)

theorem cleared (hs : w.wheel w.tick = slot) : Cleared w slot (w.clear slot) := by
  induction slot generalizing w with
  | nil =>
    refine ⟨rfl, rfl, fun p r hr => ⟨hr, ?_⟩, by simp [TimerWheel.clear], fun hv => hv⟩
    rintro rfl
    rw [TimerWheel.clear, hs] at hr
    exact absurd hr (by simp)
  | cons pt rest ih =>
    have hs' : (w.popFront rest).wheel w.tick = rest := Function.update_self ..
    by_cases hx : (w.popFront rest).Expired pt
    · obtain ⟨hw, htick⟩ := destroy_wheel (w.popFront rest) pt
      have htasks := destroy_tasks (w.popFront rest) pt
      have h := ih (w := ((w.popFront rest).destroy pt).1) (by rw [hw, htick]; exact hs')
      rw [clear_of_expired hx]
      refine ⟨h.tasks.trans htasks, h.tick.trans htick, ?_, ?_,
        fun hv => h.valid (hv.popFront hs).destroy⟩
      · intro p r hr
        obtain ⟨hm, hp⟩ := h.slots p r hr
        rw [hw] at hm
        rw [htick] at hp
        exact ⟨mem_popFront hs hm, hp⟩
      · intro id hid
        rcases List.mem_append.mp hid with hid | hid
        · have hn : (w.popFront rest).Named id pt := named_of_destroy hid
          exact ⟨pt, List.mem_cons_self, hn⟩
        · obtain ⟨r, hr, hn⟩ := h.ran id hid
          rw [Named, htasks] at hn
          exact ⟨r, List.mem_cons_of_mem pt hr, hn⟩
    · rw [clear_of_held hx]
      exact cleared_popFront hs (ih hs')

theorem named_of_ran (h : id ∈ w.runTimerTask.2) : ∃ r ∈ w.wheel w.tick, w.Named id r :=
  (cleared rfl).ran id h

theorem runTimerTask_keeps (w : TimerWheel) :
    w.runTimerTask.1.tasks = w.tasks ∧ w.runTimerTask.1.tick = w.tick + 1 :=
  ⟨(cleared rfl).tasks, congrArg (· + 1) (cleared rfl).tick⟩

/-- A pointer that is still there has come one slot nearer. -/
theorem mem_runTimerTask {p : Fin 60} {r : Nat} (h : r ∈ w.runTimerTask.1.wheel p) :
    r ∈ w.wheel p ∧ w.runTimerTask.1.offset p + 1 = w.offset p := by
  obtain ⟨hm, hp⟩ := (cleared rfl).slots p r h
  exact ⟨hm, offset_next (runTimerTask_keeps w).2 hp⟩

theorem Valid.runTimerTask (hv : Valid w) : Valid w.runTimerTask.1 :=
  ⟨((cleared rfl).valid hv).refs, ((cleared rfl).valid hv).entries⟩

/-! ### Laps -/

/-- The slots a timeout can reach: with one lap exactly the hand is met at once. -/
def lap (timeout : Nat) : Nat := if timeout = 60 then 1 else 60

theorem offset_slot_lt_lap (w : TimerWheel) (timeout : Nat) :
    w.offset (w.slot timeout) < lap timeout := by
  have ht := w.tick.isLt
  unfold lap
  split
  · rename_i h60
    subst h60
    simp only [offset, slot]
    omega
  · exact Nat.mod_lt _ (by omega)

/-- Every pointer is where its timeout can put it, or nearer to the hand. -/
def Laps (w : TimerWheel) : Prop :=
  ∀ p, ∀ r ∈ w.wheel p, ∀ task, w.tasks[r]? = some task → w.offset p < lap task.timeout

theorem laps_new : Laps new := by simp [Laps, new]

theorem Laps.pushBack (h : Laps w) {task : TimerTask} (ht : w.tasks[pt]? = some task) :
    Laps (w.pushBack (w.slot task.timeout) pt) := by
  intro p r hr task' ht'
  rcases mem_pushBack.mp hr with hr | ⟨rfl, rfl⟩
  · exact h p r hr task' ht'
  · obtain rfl := Option.some.inj (ht.symm.trans ht')
    exact offset_slot_lt_lap w task.timeout

theorem Laps.add (h : Laps w) (hv : Valid w) (id timeout : Nat) :
    Laps (w.timerAddInLoop id timeout) := by
  refine Laps.pushBack (w := { w with tasks := w.tasks ++ [TimerTask.mk id timeout false] }) ?_
    List.getElem?_concat_length
  intro p r hr task ht
  have hlt := hv.refs p r hr
  exact h p r hr task ((List.getElem?_append_left hlt).symm.trans ht)

theorem Laps.refresh (h : Laps w) (hv : Valid w) (id : Nat) : Laps (w.timerRefreshInLoop id) := by
  rcases timerRefreshInLoop_cases hv id with ⟨_, he⟩ | ⟨pt, _, _, he⟩ |
    ⟨pt, task, _, _, ht, _, he⟩ <;>
    rw [he]
  · exact h
  · exact h
  · exact h.pushBack ht

theorem Laps.cancel (h : Laps w) (id : Nat) : Laps (w.timerCancelInLoop id) := by
  rcases timerCancelInLoop_cases w id with ⟨_, he⟩ | ⟨pt, _, he⟩ <;> rw [he]
  · exact h
  · intro p r hr task ht
    -- the mark leaves the timeout
    rw [List.getElem?_modify, Option.map_eq_map, Option.map_eq_some_iff] at ht
    obtain ⟨t, ht, rfl⟩ := ht
    have := h p r hr t ht
    split <;> exact this

theorem Laps.runTimerTask (h : Laps w) : Laps w.runTimerTask.1 := by
  intro p r hr task ht
  obtain ⟨hm, ho⟩ := mem_runTimerTask hr
  rw [(runTimerTask_keeps w).1] at ht
  have := h p r hm task ht
  omega

end TimerWheel

/-! ### What every history keeps -/

def WheelOp.task : WheelOp → Option (Nat × Nat)
  | add id timeout => some (id, timeout)
  | _ => none

theorem WheelOp.added_eq (op : WheelOp) : op.added = op.task.map Prod.fst := by cases op <;> rfl

theorem valid_history (ops : List WheelOp) : (history ops).wheel.Valid := by
  induction ops using List.reverseRecOn with
  | nil => exact TimerWheel.valid_new
  | append_singleton ops op ih =>
    rw [history_concat]
    cases op with
    | add id timeout => exact ih.add
    | refresh id => exact ih.refresh
    | cancel id => exact ih.cancel
    | tick => exact ih.runTimerTask

theorem laps_history (ops : List WheelOp) : (history ops).wheel.Laps := by
  induction ops using List.reverseRecOn with
  | nil => exact TimerWheel.laps_new
  | append_singleton ops op ih =>
    rw [history_concat]
    cases op with
    | add id timeout => exact ih.add (valid_history ops) id timeout
    | refresh id => exact ih.refresh (valid_history ops) id
    | cancel id => exact ih.cancel id
    | tick => exact ih.runTimerTask

/-- An operation adds its task, and leaves the others their ids and timeouts. -/
theorem apply_tasks {s : WheelRun} (hv : s.wheel.Valid) (op : WheelOp) :
    (s.apply op).wheel.tasks.map (fun t => (t.id, t.timeout)) =
      s.wheel.tasks.map (fun t => (t.id, t.timeout)) ++ op.task.toList := by
  cases op with
  | add id timeout => exact List.map_append
  | refresh id =>
    refine Eq.trans ?_ (List.append_nil _).symm
    rcases TimerWheel.timerRefreshInLoop_cases hv id with
      ⟨_, he⟩ | ⟨_, _, _, he⟩ | ⟨_, _, _, _, _, _, he⟩
    · rw [apply, he]
    · rw [apply, he]
    · rw [apply, he]
      rfl
  | cancel id =>
    refine Eq.trans ?_ (List.append_nil _).symm
    rcases TimerWheel.timerCancelInLoop_cases s.wheel id with ⟨_, he⟩ |
      ⟨pt, _, he⟩ <;> rw [apply, he]
    refine List.ext_getElem? fun i => ?_
    rw [List.getElem?_map, List.getElem?_map, List.getElem?_modify]
    cases s.wheel.tasks[i]? with
    | none => rfl
    | some t => by_cases hi : pt = i <;> simp [hi]
  | tick =>
    refine Eq.trans ?_ (List.append_nil _).symm
    rw [apply, (TimerWheel.runTimerTask_keeps _).1]

/-- **The tasks are those added**, in this order. -/
theorem tasks_history (ops : List WheelOp) :
    (history ops).wheel.tasks.map (fun t => (t.id, t.timeout)) = ops.filterMap WheelOp.task := by
  induction ops using List.reverseRecOn with
  | nil => rfl
  | append_singleton ops op ih =>
    rw [history_concat, apply_tasks (valid_history ops), List.filterMap_append, ih]
    cases op <;> rfl

theorem added_eq_map (ops : List WheelOp) :
    ops.filterMap WheelOp.added = (ops.filterMap WheelOp.task).map Prod.fst := by
  rw [List.map_filterMap]
  exact congrFun (congrArg List.filterMap (funext WheelOp.added_eq)) ops

theorem added_history (ops : List WheelOp) :
    ops.filterMap WheelOp.added = (history ops).wheel.tasks.map TimerTask.id := by
  rw [added_eq_map, ← tasks_history, List.map_map]
  rfl

section New

variable {ops : List WheelOp} {id : Nat}

theorem timeout_unique (hnew : (ops.filterMap WheelOp.added).Nodup) {timeout timeout' : Nat}
    (h : (id, timeout) ∈ ops.filterMap WheelOp.task)
    (h' : (id, timeout') ∈ ops.filterMap WheelOp.task) :
    timeout = timeout' := by
  rw [added_eq_map] at hnew
  exact congrArg Prod.snd (List.inj_on_of_nodup_map hnew h h' rfl)

theorem mem_task_of_named {r : Nat} {task : TimerTask}
    (ht : (history ops).wheel.tasks[r]? = some task) :
    (task.id, task.timeout) ∈ ops.filterMap WheelOp.task := by
  rw [← tasks_history]
  exact List.mem_map.mpr ⟨task, List.mem_of_getElem? ht, rfl⟩

end New

/-! ### The last start of a timer -/

theorem TimerWheel.entry_of_lock {w : TimerWheel} {id pt : Nat} (h : w.lock id = some pt) :
    w.timers id = some pt ∧ ¬ w.Expired pt := by
  cases he : w.timers id with
  | none =>
    rw [lock, he] at h
    exact absurd h (by simp)
  | some pt' =>
    rw [lock_of_entry he] at h
    split at h
    · exact absurd h (by simp)
    · rename_i hx
      obtain rfl := Option.some.inj h
      exact ⟨rfl, hx⟩

section Start

variable {before behind ops : List WheelOp} {op : WheelOp} {id timeout : Nat}

/-- What starts a timer is for an id that has been added with its timeout. -/
theorem Starts.mem_task (h : Starts before id timeout op) :
    (id, timeout) ∈ (before ++ [op]).filterMap WheelOp.task := by
  rw [List.filterMap_append, List.mem_append]
  cases h with
  | add => exact Or.inr (by simp [WheelOp.task])
  | @refresh pt task alive is delay =>
    obtain ⟨task', ht, hid⟩ := (valid_history before).entries id pt
      (TimerWheel.entry_of_lock alive).1
    obtain rfl := Option.some.inj (is.symm.trans ht)
    rw [← hid, ← delay]
    exact Or.inl (mem_task_of_named is)

theorem Starts.ticks (h : Starts before id timeout op) (behind : List WheelOp) :
    ticks (before ++ op :: behind) = ticks before + ticks behind := by
  have hop : op ≠ .tick := by rintro rfl; cases h
  rw [Flux.ticks, List.count_append, List.count_cons_of_ne hop]
  rfl

theorem LastStart.concat (h : LastStart before behind id) {a : WheelOp}
    (ha : a = .refresh id → (history (before ++ behind)).wheel.lock id = none) :
    LastStart before (behind ++ [a]) id := by
  intro mid rest hb
  rcases List.eq_nil_or_concat rest with rfl | ⟨rest, b, rfl⟩
  · obtain ⟨rfl, hx⟩ := List.append_inj' hb rfl
    exact ha (List.cons.inj hx).1
  · rw [List.concat_eq_append, ← List.cons_append, ← List.append_assoc] at hb
    exact h mid rest (List.append_inj' hb rfl).1

/-- The timer of `id` has this timeout, and so many calls of `RunTimerTask` have passed since it was
last started. -/
def LastStarted (ops : List WheelOp) (id timeout passed : Nat) : Prop :=
  ∃ before op behind, ops = before ++ op :: behind ∧ Starts before id timeout op ∧
    LastStart (before ++ [op]) behind id ∧ passed = ticks behind

/-- Every timer that was added has a last start. -/
theorem exists_lastStarted (h : id ∈ ops.filterMap WheelOp.added) :
    ∃ timeout passed, LastStarted ops id timeout passed := by
  induction ops using List.reverseRecOn with
  | nil => exact absurd h (by simp)
  | append_singleton ops a ih =>
    by_cases hst : ∃ timeout, Starts ops id timeout a
    · obtain ⟨timeout, hst⟩ := hst
      exact ⟨timeout, _, ops, a, [], rfl, hst, by simp [LastStart], rfl⟩
    · have hmem : id ∈ ops.filterMap WheelOp.added := by
        rw [List.filterMap_append, List.mem_append] at h
        refine h.resolve_right fun ha => hst ?_
        cases a with
        | add id' timeout =>
          obtain rfl : id = id' := by simpa [WheelOp.added] using ha
          exact ⟨timeout, .add⟩
        | _ => exact absurd ha (by simp [WheelOp.added])
      obtain ⟨timeout, _, before, op, behind, rfl, hs, hl, _⟩ := ih hmem
      refine ⟨timeout, _, before, op, behind ++ [a], by simp, hs, hl.concat ?_, rfl⟩
      rintro rfl
      rw [List.append_assoc, List.singleton_append]
      -- alive it would be a start
      cases hlock : (history (before ++ op :: behind)).wheel.lock id with
      | none => rfl
      | some pt =>
        obtain ⟨task, ht, _⟩ := (valid_history _).entries id pt (TimerWheel.entry_of_lock hlock).1
        exact absurd ⟨task.timeout, .refresh hlock ht rfl⟩ hst

end Start

/-! ### How long a task can live -/

/-- Every pointer to a task of this id is cleared by the call of `RunTimerTask` with this number. -/
def Due (s : WheelRun) (id n : Nat) : Prop :=
  ∀ p, ∀ r ∈ s.wheel.wheel p, s.wheel.Named id r → s.ticks + s.wheel.offset p < n

section Due

variable {s : WheelRun} {id n : Nat}

theorem Due.of_same (h : Due s id n) {w : TimerWheel} (hs : TimerWheel.SameFor id s.wheel w) :
    Due { s with wheel := w } id n := by
  intro p r hr hn
  have hn' := hs.named.mp hn
  show s.ticks + w.offset p < n
  rw [hs.offset]
  exact h p r ((hs.slots p r hn').mp hr) hn'

theorem Due.cancel (h : Due s id n) (id' : Nat) : Due (s.apply (.cancel id')) id n := by
  rcases TimerWheel.timerCancelInLoop_cases s.wheel id' with ⟨_, he⟩ |
    ⟨pt, _, he⟩ <;> rw [apply, he]
  · exact h
  · exact fun p r hr hn => h p r hr (TimerWheel.named_modify.mp hn)

theorem Due.tick (h : Due s id n) : Due (s.apply .tick) id n := by
  rintro p r hr ⟨task, ht, hid⟩
  obtain ⟨hm, ho⟩ := TimerWheel.mem_runTimerTask hr
  have ht' : s.wheel.tasks[r]? = some task := (TimerWheel.runTimerTask_keeps s.wheel).1 ▸ ht
  have hlt := h p r hm ⟨task, ht', hid⟩
  show s.ticks + 1 + s.wheel.runTimerTask.1.offset p < n
  omega

theorem Due.refresh (h : Due s id n) (hv : s.wheel.Valid) (hlock : s.wheel.lock id = none) :
    Due (s.apply (.refresh id)) id n := by
  rcases TimerWheel.timerRefreshInLoop_cases hv id with
    ⟨_, he⟩ | ⟨pt, _, _, he⟩ | ⟨pt, task, hn, hx, _⟩
  · rw [apply, he]
    exact h
  · rw [apply, he]
    exact h
  · rw [TimerWheel.lock_of_entry hn, if_neg hx] at hlock
    exact absurd hlock (by simp)

theorem Due.ran (h : Due s id n) (hran : id ∈ s.wheel.runTimerTask.2) : s.ticks < n := by
  obtain ⟨r, hr, hn⟩ := TimerWheel.named_of_ran hran
  have hlt := h s.wheel.tick r hr hn
  rwa [TimerWheel.offset_eq_zero.mpr rfl, Nat.add_zero] at hlt

end Due

section Behind

variable {before behind : List WheelOp} {op : WheelOp} {id timeout : Nat}

theorem mem_task_append (h : Starts before id timeout op) (behind : List WheelOp) :
    (id, timeout) ∈ (before ++ op :: behind).filterMap WheelOp.task := by
  rw [List.append_cons, List.filterMap_append]
  exact List.mem_append_left _ h.mem_task

theorem due_start (hnew : ((before ++ [op]).filterMap WheelOp.added).Nodup)
    (h : Starts before id timeout op) :
    Due (history (before ++ [op])) id (ticks before + TimerWheel.lap timeout) := by
  rintro p r hr ⟨task, ht, rfl⟩
  have hlap := laps_history (before ++ [op]) p r hr task ht
  rw [timeout_unique hnew (mem_task_of_named ht) h.mem_task] at hlap
  rw [ticks_history, h.ticks []]
  exact Nat.add_lt_add_left hlap _

/-- **A task lives no longer than its lap** behind its last start. -/
theorem due_behind (hnew : ((before ++ op :: behind).filterMap WheelOp.added).Nodup)
    (hs : Starts before id timeout op) (hl : LastStart (before ++ [op]) behind id) :
    Due (history (before ++ op :: behind)) id (ticks before + TimerWheel.lap timeout) := by
  induction behind using List.reverseRecOn with
  | nil => exact due_start hnew hs
  | append_singleton behind a ih =>
    have happ : before ++ op :: (behind ++ [a]) = (before ++ op :: behind) ++ [a] := by simp
    rw [happ] at hnew ⊢
    have hd := ih (nodup_init hnew) fun mid rest hb => hl mid (rest ++ [a]) (by simp [hb])
    have hv := valid_history (before ++ op :: behind)
    rw [history_concat]
    cases a with
    | add id' t =>
      have hne : id' ≠ id := by
        rintro rfl
        refine nodup_new_id hnew ?_
        rw [added_eq_map]
        exact List.mem_map_of_mem (mem_task_append hs behind)
      exact hd.of_same (TimerWheel.sameFor_add hne)
    | refresh id' =>
      by_cases hid : id' = id
      · subst hid
        have hnone := hl behind [] rfl
        rw [← List.append_cons] at hnone
        exact hd.refresh hv hnone
      · exact hd.of_same (TimerWheel.sameFor_refresh hid hv)
    | cancel id' => exact hd.cancel id'
    | tick => exact hd.tick

/-- A timer of less than a lap runs when it is due. -/
theorem passed_of_ran (hnew : ((before ++ op :: behind).filterMap WheelOp.added).Nodup)
    (hs : Starts before id timeout op) (hl : LastStart (before ++ [op]) behind id)
    (hlt : timeout < 60)
    (hran : id ∈ (history (before ++ op :: behind)).wheel.runTimerTask.2) :
    ticks behind = timeout := by
  have hlegal : LegalFor id (before ++ op :: behind) := by
    refine ⟨hnew, fun t ht => ?_⟩
    have hmem :=
      List.mem_filterMap.mpr ⟨_, ht, show WheelOp.task (.add id t) = some (id, t) from rfl⟩
    exact timeout_unique hnew hmem (mem_task_append hs behind) ▸ hlt
  obtain ⟨canceled, hlife⟩ := lifeOf_behind hlegal hs hl
  have htell := history_life hlegal
  obtain ⟨_, _, hcount⟩ := htell.shows.runTimerTask htell.valid
  have hpos := List.count_pos_iff.mpr hran
  rw [hcount, hlife, ticks_history, hs.ticks] at hpos
  by_cases hle : ticks behind ≤ timeout
  · rw [if_pos hle] at hpos
    have hleft : ticks before + (timeout + 1) - (ticks before + ticks behind) = 1 := by
      by_contra hne
      simp [Life.shown, Countdown.fires, hne] at hpos
    omega
  · rw [if_neg hle] at hpos
    exact absurd hpos (by simp [Life.shown])

end Behind

/-- **Which timers fire early.**  In every history of timers with new ids and any timeouts, a
callback that runs has a last start, and it has waited for its timeout exactly when that is below
one lap. -/
theorem never_early_iff {ops : List WheelOp} (hnew : (ops.filterMap WheelOp.added).Nodup) {id : Nat}
    (hran : id ∈ (history ops).wheel.runTimerTask.2) :
    (∃ timeout passed, LastStarted ops id timeout passed) ∧
    ∀ timeout passed, LastStarted ops id timeout passed → (timeout ≤ passed ↔ timeout < 60) := by
  constructor
  · obtain ⟨r, _, task, ht, rfl⟩ := TimerWheel.named_of_ran hran
    refine exists_lastStarted ?_
    rw [added_history]
    exact List.mem_map_of_mem (List.mem_of_getElem? ht)
  · rintro timeout _ ⟨before, op, behind, rfl, hs, hl, rfl⟩
    constructor
    · intro hle
      have hlt := (due_behind hnew hs hl).ran hran
      rw [ticks_history, hs.ticks, Nat.add_lt_add_iff_left, TimerWheel.lap] at hlt
      split at hlt <;> omega
    · exact fun hlt => Nat.le_of_eq (passed_of_ran hnew hs hl hlt hran).symm

/-- A timer of three seconds waits for them, beside one of a lap. -/
theorem never_early_iff_three :
    LastStarted [.add 7 3, .add 8 60, .tick, .tick, .tick] 7 3 3 ∧ (3 ≤ 3 ↔ 3 < 60) := by
  have hstart : LastStarted [.add 7 3, .add 8 60, .tick, .tick, .tick] 7 3 3 := by
    refine ⟨[], .add 7 3, [.add 8 60, .tick, .tick, .tick], rfl, .add, ?_, rfl⟩
    intro mid rest hb
    have hmem : WheelOp.refresh 7 ∈ mid ++ .refresh 7 :: rest := by simp
    rw [← hb] at hmem
    exact absurd hmem (by decide)
  exact ⟨hstart, (@never_early_iff [.add 7 3, .add 8 60, .tick, .tick, .tick] (by decide) 7
    (by decide +kernel)).2 3 3 hstart⟩

/-- A timer of sixty seconds fires in the first. -/
theorem lap_fires_early : ¬ ∀ (ops : List WheelOp) (id timeout passed : Nat),
    (ops.filterMap WheelOp.added).Nodup → id ∈ (history ops).wheel.runTimerTask.2 →
    LastStarted ops id timeout passed → timeout ≤ passed := by
  intro h
  have hstart : LastStarted [.add 7 60] 7 60 0 :=
    ⟨[], .add 7 60, [], rfl, .add, by simp [LastStart], rfl⟩
  exact absurd (h [.add 7 60] 7 60 0 (by decide) (by decide +kernel) hstart) (by decide)

end Flux
