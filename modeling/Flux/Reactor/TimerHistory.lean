import Flux.Reactor.TimerWheel
import Mathlib.Data.List.Induction

/-!
# Histories of a timer wheel

Any number of timers, added under new ids with timeouts below the sixty slots, refreshed, cancelled
and ticked in any order.  `Life` is the story of one id as its operations tell it, and
`history_life` says that the wheel keeps to it.  `fires_once` reads off what a user of the wheel
wants to know: when a timer is due, that it fires once if nobody cancelled it, and that `HasTimer`
knows whether it is still to come.
-/

namespace Flux

inductive WheelOp
  | add (id timeout : Nat)
  | refresh (id : Nat)
  | cancel (id : Nat)
  /-- `RunTimerTask`. -/
  | tick
deriving DecidableEq, Repr

/-- A wheel, the number of calls of `RunTimerTask` so far, and each callback that has run with the
number of its call. -/
structure WheelRun where
  wheel : TimerWheel
  ticks : Nat
  fired : List (Nat × Nat)

namespace WheelRun

def start : WheelRun := ⟨.new, 0, []⟩

def apply (s : WheelRun) : WheelOp → WheelRun
  | .add id timeout => { s with wheel := s.wheel.timerAddInLoop id timeout }
  | .refresh id => { s with wheel := s.wheel.timerRefreshInLoop id }
  | .cancel id => { s with wheel := s.wheel.timerCancelInLoop id }
  | .tick =>
    { wheel := s.wheel.runTimerTask.1
      ticks := s.ticks + 1
      fired := s.fired ++ s.wheel.runTimerTask.2.map fun id => (s.ticks + 1, id) }

def history (ops : List WheelOp) : WheelRun := ops.foldl apply start

/-- The calls of `RunTimerTask` in which the callback of an id has run. -/
def firedAt (s : WheelRun) (id : Nat) : List Nat :=
  s.fired.filterMap fun e => if e.2 = id then some e.1 else none

theorem history_concat (ops : List WheelOp) (op : WheelOp) :
    history (ops ++ [op]) = (history ops).apply op := by
  rw [history, List.foldl_append]
  rfl

end WheelRun

open WheelRun

def WheelOp.added : WheelOp → Option Nat
  | add id _ => some id
  | _ => none

/-- Every id is new when it is added, and every timeout is below the sixty slots. -/
def Legal (ops : List WheelOp) : Prop :=
  (ops.filterMap WheelOp.added).Nodup ∧ ∀ id timeout, .add id timeout ∈ ops → timeout < 60

/-- The same for the timer of one id, whatever the timeouts of the others. -/
def LegalFor (id : Nat) (ops : List WheelOp) : Prop :=
  (ops.filterMap WheelOp.added).Nodup ∧ ∀ timeout, .add id timeout ∈ ops → timeout < 60

theorem Legal.legalFor {ops : List WheelOp} (h : Legal ops) (id : Nat) : LegalFor id ops :=
  ⟨h.1, h.2 id⟩

/-! ### The story of one id -/

/-- Not added yet, due in the call of `RunTimerTask` with this number, or past, with the number of
the call that ran its callback. -/
inductive Life
  | absent
  | waiting (timeout due : Nat) (canceled : Bool)
  | past (ran : Option Nat)
deriving DecidableEq, Repr

namespace Life

def step (id ticks : Nat) (life : Life) : WheelOp → Life
  | .add id' timeout => if id' = id then waiting timeout (ticks + (timeout + 1)) false else life
  | .refresh id' =>
    match life with
    | waiting timeout _ canceled =>
      if id' = id then waiting timeout (ticks + (timeout + 1)) canceled else life
    | _ => life
  | .cancel id' =>
    match life with
    | waiting timeout due _ => if id' = id then waiting timeout due true else life
    | _ => life
  | .tick =>
    match life with
    | waiting _ due canceled =>
      if due = ticks + 1 then past (if canceled then none else some (ticks + 1)) else life
    | _ => life

def Waits : Life → Prop
  | waiting _ _ _ => True
  | _ => False

/-- The callback has been run in this call, or never. -/
def ran : Life → List Nat
  | past (some n) => [n]
  | _ => []

end Life

def lifeStep (id : Nat) (s : Nat × Life) (op : WheelOp) : Nat × Life :=
  (s.1 + if op = .tick then 1 else 0, s.2.step id s.1 op)

def ticks (ops : List WheelOp) : Nat := ops.count .tick

def lifeOf (id : Nat) (ops : List WheelOp) : Life := (ops.foldl (lifeStep id) (0, .absent)).2

theorem lifeOf_concat (id : Nat) (ops : List WheelOp) (op : WheelOp) :
    lifeOf id (ops ++ [op]) = (lifeOf id ops).step id (ticks ops) op := by
  have hticks : ∀ (ops : List WheelOp) (s : Nat × Life),
      (ops.foldl (lifeStep id) s).1 = s.1 + ticks ops := by
    intro ops
    induction ops with
    | nil => exact fun s => rfl
    | cons a ops ih =>
      intro s
      rw [List.foldl_cons, ih, ticks, ticks, List.count_cons, lifeStep]
      by_cases ha : a = .tick
      · simp [ha, Nat.add_comm, Nat.add_left_comm]
      · simp [ha]
  rw [lifeOf, List.foldl_append, List.foldl_cons, List.foldl_nil, lifeStep, hticks, Nat.zero_add]
  rfl

theorem ticks_concat (ops : List WheelOp) (op : WheelOp) :
    ticks (ops ++ [op]) = ticks ops + if op = .tick then 1 else 0 := by
  rw [ticks, List.count_append, List.count_singleton, ticks]
  by_cases h : op = .tick <;> simp [h]

/-! ### The wheel keeps to the story -/

def Life.shown (ticks : Nat) : Life → Option Countdown
  | waiting timeout due canceled => some ⟨timeout, due - ticks, canceled⟩
  | _ => none

structure Tells (s : WheelRun) (id : Nat) (life : Life) : Prop where
  valid : s.wheel.Valid
  shows : s.wheel.Shows id (life.shown s.ticks)
  later : ∀ timeout due canceled, life = .waiting timeout due canceled → s.ticks < due
  fired : s.firedAt id = life.ran

theorem tells_start (id : Nat) : Tells start id .absent :=
  ⟨TimerWheel.valid_new, TimerWheel.shows_new id, fun _ _ _ h => (nomatch h), rfl⟩

theorem firedAt_tick (s : WheelRun) (id : Nat) : (s.apply .tick).firedAt id =
    s.firedAt id ++ List.replicate (s.wheel.runTimerTask.2.count id) (s.ticks + 1) := by
  rw [firedAt, apply, List.filterMap_append, ← firedAt]
  congr 1
  induction s.wheel.runTimerTask.2 with
  | nil => rfl
  | cons a l ih =>
    by_cases h : a = id
    · subst h
      rw [List.count_cons_self, List.replicate_succ, List.map_cons,
        List.filterMap_cons_some (by rw [if_pos rfl]), ih]
    · rw [List.count_cons_of_ne h, List.map_cons, List.filterMap_cons_none (by rw [if_neg h]), ih]

theorem Tells.other {s : WheelRun} {id : Nat} {life : Life} (h : Tells s id life) {w : TimerWheel}
    (hv : w.Valid) (hs : TimerWheel.SameFor id s.wheel w) : Tells { s with wheel := w } id life :=
  ⟨hv, h.shows.of_same hs, h.later, h.fired⟩

theorem Tells.tick {s : WheelRun} {id : Nat} {life : Life} (h : Tells s id life) :
    Tells (s.apply .tick) id (life.step id s.ticks .tick) := by
  obtain ⟨hv, hs, hcount⟩ := h.shows.runTimerTask h.valid
  have hfired := firedAt_tick s id
  rw [h.fired, hcount] at hfired
  cases life with
  | absent =>
    refine ⟨hv, hs, ?_, by simpa [Life.shown, Life.step] using hfired⟩
    intro _ _ _ he
    exact absurd he (by simp [Life.step])
  | past ran =>
    refine ⟨hv, hs, ?_, by simpa [Life.shown, Life.step] using hfired⟩
    intro _ _ _ he
    exact absurd he (by simp [Life.step])
  | waiting timeout due canceled =>
    have hlt := h.later timeout due canceled rfl
    simp only [Life.shown, Option.bind_some, Countdown.next, Option.any_some,
      Countdown.fires] at hs hfired
    rw [Life.step]
    by_cases hdue : due = s.ticks + 1
    · -- the last count
      have hone : due - s.ticks = 1 := by omega
      rw [if_pos hdue]
      rw [if_pos hone] at hs
      refine ⟨hv, hs, fun _ _ _ he => absurd he (by simp), ?_⟩
      rw [hfired]
      cases canceled <;> simp [Life.ran, hone]
    · have hne : due - s.ticks ≠ 1 := by omega
      rw [if_neg hdue]
      rw [if_neg hne, Nat.sub_sub] at hs
      refine ⟨hv, hs, ?_, ?_⟩
      · intro _ _ _ he
        obtain ⟨_, rfl, _⟩ := Life.waiting.inj he
        show s.ticks + 1 < due
        omega
      · rw [hfired]
        simp [Life.ran, hne]

theorem Tells.step {s : WheelRun} {id : Nat} {life : Life} (h : Tells s id life) {op : WheelOp}
    (hadd : ∀ timeout, op = .add id timeout → life = .absent ∧ timeout < 60) :
    Tells (s.apply op) id (life.step id s.ticks op) := by
  cases op with
  | tick => exact h.tick
  | add id' timeout =>
    by_cases hid : id' = id
    · subst hid
      obtain ⟨rfl, ht⟩ := hadd timeout rfl
      rw [Life.step, if_pos rfl]
      refine ⟨h.valid.add, ?_, ?_, h.fired⟩
      · have hs := TimerWheel.Shows.add h.valid h.shows ht
        show TimerWheel.Shows _ _ (some ⟨timeout, s.ticks + (timeout + 1) - s.ticks, false⟩)
        rw [Nat.add_sub_cancel_left]
        exact hs
      · intro _ _ _ he
        obtain ⟨_, rfl, _⟩ := Life.waiting.inj he
        show s.ticks < _
        omega
    · rw [Life.step, if_neg hid]
      exact h.other h.valid.add (TimerWheel.sameFor_add hid)
  | refresh id' =>
    by_cases hid : id' = id
    · subst hid
      have hs := h.shows.refresh h.valid
      cases life with
      | absent => exact ⟨h.valid.refresh, hs, h.later, h.fired⟩
      | past ran => exact ⟨h.valid.refresh, hs, h.later, h.fired⟩
      | waiting timeout due canceled =>
        simp only [Life.step, if_true]
        refine ⟨h.valid.refresh, ?_, ?_, h.fired⟩
        · show TimerWheel.Shows _ _ (some ⟨timeout, s.ticks + (timeout + 1) - s.ticks, canceled⟩)
          rw [Nat.add_sub_cancel_left]
          exact hs
        · intro _ _ _ he
          obtain ⟨_, rfl, _⟩ := Life.waiting.inj he
          show s.ticks < _
          omega
    · have hsame : life.step id s.ticks (.refresh id') = life := by
        cases life <;> simp [Life.step, hid]
      rw [hsame]
      exact h.other h.valid.refresh (TimerWheel.sameFor_refresh hid h.valid)
  | cancel id' =>
    by_cases hid : id' = id
    · subst hid
      have hs := h.shows.cancel
      cases life with
      | absent => exact ⟨h.valid.cancel, hs, h.later, h.fired⟩
      | past ran => exact ⟨h.valid.cancel, hs, h.later, h.fired⟩
      | waiting timeout due canceled =>
        simp only [Life.step, if_true]
        refine ⟨h.valid.cancel, hs, ?_, h.fired⟩
        intro _ _ _ he
        obtain ⟨rfl, rfl, _⟩ := Life.waiting.inj he
        exact h.later _ _ _ rfl
    · have hsame : life.step id s.ticks (.cancel id') = life := by
        cases life <;> simp [Life.step, hid]
      rw [hsame]
      exact h.other h.valid.cancel (TimerWheel.sameFor_cancel hid h.valid)

/-! ### Whole histories -/

theorem nodup_init {ops : List WheelOp} {op : WheelOp}
    (h : ((ops ++ [op]).filterMap WheelOp.added).Nodup) : (ops.filterMap WheelOp.added).Nodup := by
  rw [List.filterMap_append] at h
  exact (List.nodup_append.mp h).1

theorem nodup_new_id {ops : List WheelOp} {id timeout : Nat}
    (h : ((ops ++ [WheelOp.add id timeout]).filterMap WheelOp.added).Nodup) :
    id ∉ ops.filterMap WheelOp.added := by
  rw [List.filterMap_append] at h
  exact fun hm => (List.nodup_append.mp h).2.2 id hm id (by simp [WheelOp.added]) rfl

theorem LegalFor.init {id : Nat} {ops : List WheelOp} {op : WheelOp}
    (h : LegalFor id (ops ++ [op])) :
    LegalFor id ops :=
  ⟨nodup_init h.1, fun timeout hm => h.2 timeout (List.mem_append_left _ hm)⟩

theorem ticks_history (ops : List WheelOp) : (history ops).ticks = ticks ops := by
  induction ops using List.reverseRecOn with
  | nil => rfl
  | append_singleton ops op ih =>
    rw [history_concat, ticks_concat, ← ih]
    cases op <;> rfl

theorem lifeOf_absent {id : Nat} {ops : List WheelOp} (h : id ∉ ops.filterMap WheelOp.added) :
    lifeOf id ops = .absent := by
  induction ops using List.reverseRecOn with
  | nil => rfl
  | append_singleton ops op ih =>
    rw [List.filterMap_append, List.mem_append, not_or] at h
    rw [lifeOf_concat, ih h.1]
    cases op with
    | add id' timeout =>
      have hne : id' ≠ id := fun he => h.2 (by simp [WheelOp.added, he])
      rw [Life.step, if_neg hne]
    | _ => rfl

/-- **The wheel keeps to the story of an id.** -/
theorem history_life {ops : List WheelOp} {id : Nat} (h : LegalFor id ops) :
    Tells (history ops) id (lifeOf id ops) := by
  induction ops using List.reverseRecOn with
  | nil => exact tells_start id
  | append_singleton ops op ih =>
    rw [history_concat, lifeOf_concat, ← ticks_history]
    refine (ih h.init).step ?_
    rintro timeout rfl
    exact ⟨lifeOf_absent (nodup_new_id h.1), h.2 timeout (by simp)⟩

/-! ### When a timer fires -/

/-- `TimerCancel` came while the timer was there. -/
def Canceled (ops : List WheelOp) (id : Nat) : Prop :=
  ∃ before behind, ops = before ++ .cancel id :: behind ∧
    (history before).wheel.hasTimer id = true

/-- `TimerAdd`, or a `TimerRefresh` that finds the task alive, with the timeout of the task. -/
inductive Starts (before : List WheelOp) (id timeout : Nat) : WheelOp → Prop
  | add : Starts before id timeout (.add id timeout)
  | refresh {pt task} (alive : (history before).wheel.lock id = some pt)
      (is : (history before).wheel.tasks[pt]? = some task) (delay : task.timeout = timeout) :
      Starts before id timeout (.refresh id)

/-- No `TimerRefresh` in `behind` finds the task alive. -/
def LastStart (before behind : List WheelOp) (id : Nat) : Prop :=
  ∀ mid rest, behind = mid ++ .refresh id :: rest → (history (before ++ mid)).wheel.lock id = none

/-- **What a wheel does for a timer.** -/
structure FiresOnce (ops : List WheelOp) (id : Nat) : Prop where
  /-- Nothing before it is added. -/
  fresh : id ∉ ops.filterMap WheelOp.added →
    (history ops).wheel.hasTimer id = false ∧ (history ops).firedAt id = []
  /-- It is there up to the call of `RunTimerTask` in which it is due. -/
  there : ∀ before op behind timeout, ops = before ++ op :: behind → Starts before id timeout op →
    LastStart (before ++ [op]) behind id →
    ((history ops).wheel.hasTimer id = true ↔ ticks behind ≤ timeout)
  /-- Its callback runs in that call and in no other. -/
  fired : ∀ before op behind timeout, ops = before ++ op :: behind → Starts before id timeout op →
    LastStart (before ++ [op]) behind id → ¬ Canceled ops id →
    (history ops).firedAt id =
      if ticks behind ≤ timeout then [] else [ticks before + (timeout + 1)]
  /-- Unless it is cancelled before. -/
  silent : Canceled ops id → (history ops).firedAt id = []

namespace Tells

variable {s : WheelRun} {id : Nat} {life : Life}

theorem hasTimer_iff (h : Tells s id life) : s.wheel.hasTimer id = true ↔ life.Waits := by
  rw [h.shows.hasTimer]
  cases life <;> simp [Life.shown, Life.Waits]

theorem lock_of_not_waits (h : Tells s id life) (hw : ¬ life.Waits) : s.wheel.lock id = none := by
  have hn : s.wheel.timers id = none := by
    have := mt h.hasTimer_iff.mp hw
    simpa [TimerWheel.hasTimer] using this
  rw [TimerWheel.lock, hn]
  rfl

theorem waiting_of_lock (h : Tells s id life) {pt : Nat} (hl : s.wheel.lock id = some pt)
    {task : TimerTask}
    (ht : s.wheel.tasks[pt]? = some task) :
    ∃ due canceled, life = .waiting task.timeout due canceled := by
  cases life with
  | absent => exact absurd (hl.symm.trans (h.lock_of_not_waits fun hw => hw)) (by simp)
  | past ran => exact absurd (hl.symm.trans (h.lock_of_not_waits fun hw => hw)) (by simp)
  | waiting timeout due canceled =>
    obtain ⟨pt', hr⟩ := h.shows
    obtain rfl := Option.some.inj (hl.symm.trans hr.lock)
    obtain rfl := Option.some.inj (ht.symm.trans hr.task)
    exact ⟨due, canceled, rfl⟩

end Tells

/-- The mark of a cancel, also on a timer that is past. -/
def Life.marked : Life → Bool
  | waiting _ _ canceled => canceled
  | past none => true
  | _ => false

theorem exists_split_concat {α : Type} {l : List α} {a x : α} {P : List α → Prop} :
    (∃ before behind, l ++ [a] = before ++ x :: behind ∧ P before) ↔
      (∃ before behind, l = before ++ x :: behind ∧ P before) ∨ (a = x ∧ P l) := by
  constructor
  · rintro ⟨before, behind, h, hp⟩
    rcases List.eq_nil_or_concat behind with rfl | ⟨behind, b, rfl⟩
    · obtain ⟨rfl, hx⟩ := List.append_inj' h rfl
      exact Or.inr ⟨(List.cons.inj hx).1, hp⟩
    · rw [List.concat_eq_append, ← List.cons_append, ← List.append_assoc] at h
      exact Or.inl ⟨before, behind, (List.append_inj' h rfl).1, hp⟩
  · rintro (⟨before, behind, rfl, hp⟩ | ⟨rfl, hp⟩)
    · exact ⟨before, behind ++ [a], by simp, hp⟩
    · exact ⟨l, [], rfl, hp⟩

theorem canceled_iff_marked {ops : List WheelOp} {id : Nat} (h : LegalFor id ops) :
    Canceled ops id ↔ (lifeOf id ops).marked = true := by
  induction ops using List.reverseRecOn with
  | nil => simp [Canceled, lifeOf, Life.marked]
  | append_singleton ops op ih =>
    have hlife := history_life h.init
    rw [Canceled, exists_split_concat, ← Canceled, ih h.init, hlife.hasTimer_iff, lifeOf_concat]
    generalize hl : lifeOf id ops = life
    cases op with
    | add id' timeout =>
      by_cases hid : id' = id
      · subst hid
        obtain rfl : life = .absent := hl.symm.trans (lifeOf_absent (nodup_new_id h.1))
        simp [Life.step, Life.marked]
      · simp [Life.step, hid]
    | refresh id' =>
      cases life with
      | waiting timeout due canceled =>
        by_cases hid : id' = id <;> simp [Life.step, Life.marked, hid]
      | absent => simp [Life.step]
      | past ran => simp [Life.step]
    | cancel id' =>
      cases life with
      | waiting timeout due canceled =>
        by_cases hid : id' = id <;> simp [Life.step, Life.marked, Life.Waits, hid]
      | absent => simp [Life.step, Life.Waits]
      | past ran => simp [Life.step, Life.Waits]
    | tick =>
      cases life with
      | waiting timeout due canceled =>
        by_cases hd : due = ticks ops + 1 <;> cases canceled <;> simp [Life.step, Life.marked, hd]
      | absent => simp [Life.step]
      | past ran => simp [Life.step]

/-- What is behind the last start of a timer only counts it down and maybe cancels it. -/
theorem lifeOf_behind {before behind : List WheelOp} {op : WheelOp} {id timeout : Nat}
    (h : LegalFor id (before ++ op :: behind)) (hs : Starts before id timeout op)
    (hl : LastStart (before ++ [op]) behind id) :
    ∃ canceled, lifeOf id (before ++ op :: behind) =
      if ticks behind ≤ timeout then .waiting timeout (ticks before + (timeout + 1)) canceled
      else .past (if canceled then none else some (ticks before + (timeout + 1))) := by
  induction behind using List.reverseRecOn with
  | nil =>
    have h0 : LegalFor id before := h.init
    rw [lifeOf_concat]
    cases hs with
    | add => exact ⟨false, by simp [Life.step, ticks]⟩
    | refresh alive is delay =>
      obtain ⟨due, canceled, hw⟩ := (history_life h0).waiting_of_lock alive is
      exact ⟨canceled, by rw [hw, delay]; simp [Life.step, ticks]⟩
  | append_singleton behind a ih =>
    rw [List.append_cons, ← List.append_assoc] at h
    have h0 := h.init
    have hop : List.count .tick [op] = 0 := by cases hs <;> rfl
    have hticks : ticks ((before ++ [op]) ++ behind) = ticks before + ticks behind := by
      simp only [ticks, List.count_append, hop, Nat.add_zero]
    rw [← List.append_cons] at h0
    obtain ⟨canceled, hlife⟩ := ih h0 fun mid rest hb => hl mid (rest ++ [a]) (by simp [hb])
    rw [List.append_cons, ← List.append_assoc, lifeOf_concat, ← List.append_cons, hlife,
      List.append_cons, hticks, ticks_concat]
    cases a with
    | add id' t =>
      have hne : id' ≠ id := by
        rintro rfl
        have hnew := nodup_new_id h.1
        rw [← List.append_cons] at hnew
        have habs := lifeOf_absent hnew
        rw [hlife] at habs
        split at habs <;> exact absurd habs (by simp)
      exact ⟨canceled, by simp [Life.step, hne]⟩
    | refresh id' =>
      by_cases hid : id' = id
      · subst hid
        -- it would have found the task alive
        have hnone := hl behind [] rfl
        rw [← List.append_cons] at hnone
        by_cases hle : ticks behind ≤ timeout
        · rw [if_pos hle] at hlife
          obtain ⟨pt, hr⟩ := hlife ▸ (history_life h0).shows
          exact absurd (hnone.symm.trans hr.lock) (by simp)
        · exact ⟨canceled, by simp [Life.step, hle]⟩
      · refine ⟨canceled, ?_⟩
        by_cases hle : ticks behind ≤ timeout <;> simp [Life.step, hid, hle]
    | cancel id' =>
      by_cases hle : ticks behind ≤ timeout
      · by_cases hid : id' = id
        · exact ⟨true, by simp [Life.step, hid, hle]⟩
        · exact ⟨canceled, by simp [Life.step, hid, hle]⟩
      · exact ⟨canceled, by simp [Life.step, hle]⟩
    | tick =>
      refine ⟨canceled, ?_⟩
      by_cases hle : ticks behind ≤ timeout
      · by_cases hlast : ticks behind = timeout
        · -- the count that ends it
          have hover : ¬ ticks behind + 1 ≤ timeout := by omega
          simp [Life.step, hlast, Nat.add_assoc]
        · have hstill : ticks behind + 1 ≤ timeout := by omega
          have hnot : timeout ≠ ticks behind := Ne.symm hlast
          simp [Life.step, hle, hstill, hnot, Nat.add_assoc]
      · have hover : ¬ ticks behind + 1 ≤ timeout := by omega
        simp [Life.step, hle, hover]

/-- **The timer wheel fires each task once, when it is due.**  In every history of any number of
timers with new ids and timeouts below the sixty slots, a timer is there from its `TimerAdd` up to
the `(T+1)`-th `RunTimerTask` behind its last start, and its callback runs in that call and in no
other, unless it was cancelled before. -/
theorem fires_once {ops : List WheelOp} (h : Legal ops) (id : Nat) : FiresOnce ops id := by
  have hlegal := h.legalFor id
  have hlife := history_life hlegal
  refine ⟨?_, ?_, ?_, ?_⟩
  · intro hnew
    rw [lifeOf_absent hnew] at hlife
    exact ⟨by simpa [Life.Waits] using hlife.hasTimer_iff, hlife.fired⟩
  · rintro before op behind timeout rfl hs hl
    obtain ⟨canceled, hb⟩ := lifeOf_behind hlegal hs hl
    rw [hlife.hasTimer_iff, hb]
    split <;> simp_all [Life.Waits]
  · rintro before op behind timeout rfl hs hl hc
    obtain ⟨canceled, hb⟩ := lifeOf_behind hlegal hs hl
    rw [canceled_iff_marked hlegal, hb] at hc
    rw [hlife.fired, hb]
    split
    · rfl
    · rename_i hlt
      rw [if_neg hlt] at hc
      cases canceled
      · rfl
      · exact absurd rfl hc
  · intro hc
    rw [canceled_iff_marked hlegal] at hc
    rw [hlife.fired]
    cases hl : lifeOf id ops with
    | absent => rfl
    | waiting timeout due canceled => rfl
    | past ran =>
      cases ran with
      | none => rfl
      | some n =>
        rw [hl] at hc
        exact absurd hc Bool.false_ne_true

/-- Two timers, one refreshed after the first count and one cancelled too late. -/
theorem fires_once_two :
    FiresOnce [.add 7 1, .add 8 0, .tick, .refresh 7, .tick, .cancel 8, .tick] 7 := by
  refine fires_once ⟨by decide, ?_⟩ 7
  intro id timeout h
  simp only [List.mem_cons, WheelOp.add.injEq, reduceCtorEq, List.not_mem_nil, or_false] at h
  omega

example : (history [.add 7 1, .add 8 0, .tick, .refresh 7, .tick, .cancel 8, .tick]).fired =
    [(1, 8), (3, 7)] := by decide +kernel

end Flux
