import Mathlib.Algebra.Group.Nat.Defs
import Mathlib.Data.Nat.Basic
import Mathlib.Logic.Function.Basic

/-!
# `TimerWheel`

A wheel of sixty slots of shared pointers to timer tasks, a hand, and a table of weak pointers by
id.  A task lives as long as some slot refers to it: `TimerAdd` puts it into a slot ahead of the
hand, `TimerRefresh` puts another pointer to it there, and `RunTimerTask` clears the slot under the
hand and moves on.  The destructor of a task runs its callback, unless the task is cancelled, and
takes its id out of the table.

What the component is for is a `Countdown` for each id: so many calls of `RunTimerTask` are left.
`Shows` relates the two, for one id at a time: the last pointer to the task is `left - 1` slots
ahead of the hand and no pointer is further.  Each operation keeps it (`Shows.add`, `Shows.refresh`,
`Shows.cancel`, and their frames for the other ids), and `Shows.runTimerTask` is the point: the slot
under the hand holds the last pointer to a task exactly when its countdown is at one.
-/

namespace Flux

/-- A `TimerTask`; its callback is known by the id. -/
structure TimerTask where
  id : Nat
  timeout : Nat
  canceled : Bool
deriving DecidableEq, Repr

/-- The shared and weak pointers are positions in `tasks`, the tasks made so far. -/
structure TimerWheel where
  tick : Fin 60
  wheel : Fin 60 → List Nat
  timers : Nat → Option Nat
  tasks : List TimerTask

namespace TimerWheel

def new : TimerWheel where
  tick := 0
  wheel _ := []
  timers _ := none
  tasks := []

/-- `HasTimer`, and `IsExistTimer`, which is the same. -/
def hasTimer (w : TimerWheel) (id : Nat) : Bool := (w.timers id).isSome

/-- No shared pointer refers to the task any more. -/
def Expired (w : TimerWheel) (pt : Nat) : Prop := ∀ p, pt ∉ w.wheel p

instance (w : TimerWheel) (pt : Nat) : Decidable (w.Expired pt) :=
  inferInstanceAs (Decidable (∀ p, pt ∉ w.wheel p))

def lock (w : TimerWheel) (id : Nat) : Option Nat :=
  (w.timers id).filter fun pt => !decide (w.Expired pt)

def removeTimer (w : TimerWheel) (id : Nat) : TimerWheel :=
  if w.hasTimer id then { w with timers := Function.update w.timers id none } else w

/-- `(_tick + timeout) % _capacity`; the sum is one of `uint32_t`. -/
def slot (w : TimerWheel) (timeout : Nat) : Fin 60 :=
  ⟨(w.tick.val + timeout) % 2 ^ 32 % 60, Nat.mod_lt _ (by decide)⟩

def pushBack (w : TimerWheel) (pos : Fin 60) (pt : Nat) : TimerWheel :=
  { w with wheel := Function.update w.wheel pos (w.wheel pos ++ [pt]) }

def timerAddInLoop (w : TimerWheel) (id timeout : Nat) : TimerWheel :=
  let pt := w.tasks.length
  let w := { w with tasks := w.tasks ++ [TimerTask.mk id timeout false] }
  let w := w.pushBack (w.slot timeout) pt
  { w with timers := Function.update w.timers id (some pt) }

def timerRefreshInLoop (w : TimerWheel) (id : Nat) : TimerWheel :=
  if w.hasTimer id then
    match w.lock id with
    | none => { w with timers := Function.update w.timers id none }
    | some pt =>
      match w.tasks[pt]? with
      | some task => w.pushBack (w.slot task.timeout) pt
      | none => w
  else w

def timerCancelInLoop (w : TimerWheel) (id : Nat) : TimerWheel :=
  if w.hasTimer id then
    match w.lock id with
    | some pt => { w with tasks := w.tasks.modify pt fun task => { task with canceled := true } }
    | none => w
  else w

/-- The first pointer of the slot under the hand goes, and `rest` is left of the slot. -/
def popFront (w : TimerWheel) (rest : List Nat) : TimerWheel :=
  { w with wheel := Function.update w.wheel w.tick rest }

/-- The destructor of a task: whether it runs the callback, and the table without the id. -/
def destroy (w : TimerWheel) (pt : Nat) : TimerWheel × List Nat :=
  match w.tasks[pt]? with
  | some task => (w.removeTimer task.id, if task.canceled then [] else [task.id])
  | none => (w, [])

/-- `_wheel[_tick].clear()`, pointer by pointer, with the ids whose callbacks run. -/
def clear (w : TimerWheel) : List Nat → TimerWheel × List Nat
  | [] => (w, [])
  | pt :: rest =>
    let w := w.popFront rest
    if w.Expired pt then
      let (w, ran) := w.destroy pt
      let (w, later) := w.clear rest
      (w, ran ++ later)
    else w.clear rest

def advance (w : TimerWheel) : TimerWheel := { w with tick := w.tick + 1 }

def runTimerTask (w : TimerWheel) : TimerWheel × List Nat :=
  let (w, ran) := w.clear (w.wheel w.tick)
  (w.advance, ran)

/-! ### Slots ahead of the hand -/

def offset (w : TimerWheel) (p : Fin 60) : Nat := (p.val + 60 - w.tick.val) % 60

theorem offset_slot {w : TimerWheel} {timeout : Nat} (h : timeout < 60) :
    w.offset (w.slot timeout) = timeout := by
  have ht := w.tick.isLt
  simp only [offset, slot]
  rw [Nat.mod_eq_of_lt (a := w.tick.val + timeout) (by omega)]
  omega

theorem offset_eq_zero {w : TimerWheel} {p : Fin 60} : w.offset p = 0 ↔ p = w.tick := by
  have hp := p.isLt
  have ht := w.tick.isLt
  simp only [offset]
  constructor
  · intro h
    exact Fin.ext (by omega)
  · rintro rfl
    omega

/-- Only a timeout of zero puts a pointer into the slot under the hand. -/
theorem pushBack_tick_iff {w : TimerWheel} {timeout : Nat} (h : timeout < 60) (pt : Nat) :
    (w.pushBack (w.slot timeout) pt).wheel w.tick = w.wheel w.tick ↔ timeout ≠ 0 := by
  have hslot : w.slot timeout = w.tick ↔ timeout = 0 := by rw [← offset_eq_zero, offset_slot h]
  rw [pushBack]
  by_cases h0 : timeout = 0
  · rw [hslot.mpr h0]
    simp [h0]
  · simp [Function.update_of_ne fun he => h0 (hslot.mp he.symm), h0]

theorem offset_next {w w' : TimerWheel} (h : w'.tick = w.tick + 1) {p : Fin 60} (hp : p ≠ w.tick) :
    w'.offset p + 1 = w.offset p := by
  have hne : p.val ≠ w.tick.val := fun he => hp (Fin.ext he)
  have hlt := p.isLt
  have ht := w.tick.isLt
  have hv : w'.tick.val = (w.tick.val + 1) % 60 := by rw [h]; rfl
  simp only [offset, hv]
  omega

end TimerWheel

/-! ### Countdowns -/

/-- What a timer is for: `left` more calls of `RunTimerTask`, the last of which ends it. -/
structure Countdown where
  timeout : Nat
  left : Nat
  canceled : Bool
deriving DecidableEq, Repr

namespace Countdown

def start (timeout : Nat) : Countdown := ⟨timeout, timeout + 1, false⟩

def restart (c : Countdown) : Countdown := { c with left := c.timeout + 1 }

def cancel (c : Countdown) : Countdown := { c with canceled := true }

/-- What `RunTimerTask` leaves of it. -/
def next (c : Countdown) : Option Countdown :=
  if c.left = 1 then none else some { c with left := c.left - 1 }

def fires (c : Countdown) : Bool := decide (c.left = 1) && !c.canceled

end Countdown

namespace TimerWheel

def Named (w : TimerWheel) (id pt : Nat) : Prop := ∃ task, w.tasks[pt]? = some task ∧ task.id = id

/-- Every pointer is one to a task, and the table has its tasks under their ids. -/
structure Valid (w : TimerWheel) : Prop where
  refs : ∀ p, ∀ pt ∈ w.wheel p, pt < w.tasks.length
  entries : ∀ id pt, w.timers id = some pt → w.Named id pt

theorem valid_new : Valid new := ⟨by simp [new], by simp [new]⟩

/-- The task under an id, with its last pointer where the countdown says. -/
structure Runs (w : TimerWheel) (id : Nat) (c : Countdown) (pt : Nat) : Prop where
  entry : w.timers id = some pt
  task : w.tasks[pt]? = some ⟨id, c.timeout, c.canceled⟩
  short : c.timeout < 60
  le : c.left ≤ c.timeout + 1
  last : ∃ p, pt ∈ w.wheel p ∧ w.offset p + 1 = c.left
  within : ∀ p, pt ∈ w.wheel p → w.offset p < c.left
  only : ∀ p, ∀ r ∈ w.wheel p, w.Named id r → r = pt

def NoRef (w : TimerWheel) (id : Nat) : Prop := ∀ p, ∀ r ∈ w.wheel p, ¬ w.Named id r

/-- **The wheel shows a countdown** under an id, or none. -/
def Shows (w : TimerWheel) (id : Nat) : Option Countdown → Prop
  | none => w.timers id = none ∧ w.NoRef id
  | some c => ∃ pt, w.Runs id c pt

theorem shows_new (id : Nat) : new.Shows id none := ⟨rfl, by simp [NoRef, new]⟩

theorem Shows.hasTimer {w : TimerWheel} {id : Nat} {c : Option Countdown} (h : w.Shows id c) :
    w.hasTimer id = c.isSome := by
  cases c with
  | none => rw [TimerWheel.hasTimer, h.1]; rfl
  | some c =>
    obtain ⟨pt, hr⟩ := h
    rw [TimerWheel.hasTimer, hr.entry]
    rfl

theorem Runs.not_expired {w : TimerWheel} {id pt : Nat} {c : Countdown} (h : w.Runs id c pt) :
    ¬ w.Expired pt := by
  obtain ⟨p, hp, _⟩ := h.last
  exact fun he => he p hp

theorem lock_of_entry {w : TimerWheel} {id pt : Nat} (h : w.timers id = some pt) :
    w.lock id = if w.Expired pt then none else some pt := by
  rw [lock, h]
  by_cases hx : w.Expired pt <;> simp [hx, Option.filter]

theorem Runs.lock {w : TimerWheel} {id pt : Nat} {c : Countdown} (h : w.Runs id c pt) :
    w.lock id = some pt := by rw [lock_of_entry h.entry, if_neg h.not_expired]

/-! ### What the operations leave alone -/

structure SameFor (id : Nat) (w w' : TimerWheel) : Prop where
  tick : w'.tick = w.tick
  entry : w'.timers id = w.timers id
  task : ∀ (pt : Nat) (task : TimerTask), task.id = id →
    (w'.tasks[pt]? = some task ↔ w.tasks[pt]? = some task)
  slots : ∀ p pt, w.Named id pt → (pt ∈ w'.wheel p ↔ pt ∈ w.wheel p)

theorem SameFor.refl (id : Nat) (w : TimerWheel) : SameFor id w w :=
  ⟨rfl, rfl, fun _ _ _ => Iff.rfl, fun _ _ _ => Iff.rfl⟩

theorem SameFor.named {id pt : Nat} {w w' : TimerWheel} (h : SameFor id w w') :
    w'.Named id pt ↔ w.Named id pt := by
  constructor
  · rintro ⟨task, ht, hid⟩
    exact ⟨task, (h.task pt task hid).mp ht, hid⟩
  · rintro ⟨task, ht, hid⟩
    exact ⟨task, (h.task pt task hid).mpr ht, hid⟩

theorem SameFor.offset {id : Nat} {w w' : TimerWheel} (h : SameFor id w w') (p : Fin 60) :
    w'.offset p = w.offset p := by rw [TimerWheel.offset, h.tick, TimerWheel.offset]

theorem Shows.of_same {id : Nat} {w w' : TimerWheel} {c : Option Countdown} (hs : w.Shows id c)
    (h : SameFor id w w') : w'.Shows id c := by
  cases c with
  | none =>
    refine ⟨h.entry.trans hs.1, ?_⟩
    intro p r hr hn
    have hn' := h.named.mp hn
    exact hs.2 p r ((h.slots p r hn').mp hr) hn'
  | some c =>
    obtain ⟨pt, hr⟩ := hs
    have hn : w.Named id pt := ⟨_, hr.task, rfl⟩
    refine ⟨pt, h.entry.trans hr.entry, (h.task _ _ rfl).mpr hr.task, hr.short, hr.le, ?_, ?_, ?_⟩
    · obtain ⟨p, hp, ho⟩ := hr.last
      exact ⟨p, (h.slots p pt hn).mpr hp, by rw [h.offset, ho]⟩
    · intro p hp
      rw [h.offset]
      exact hr.within p ((h.slots p pt hn).mp hp)
    · intro p r hm hn'
      have hnr := h.named.mp hn'
      exact hr.only p r ((h.slots p r hnr).mp hm) hnr

theorem mem_pushBack {w : TimerWheel} {pos p : Fin 60} {pt r : Nat} :
    r ∈ (w.pushBack pos pt).wheel p ↔ r ∈ w.wheel p ∨ (p = pos ∧ r = pt) := by
  by_cases hp : p = pos
  · subst hp
    simp [pushBack]
  · simp [pushBack, hp]

/-! ### `TimerAdd` -/

theorem Named.lt {w : TimerWheel} {id pt : Nat} (h : w.Named id pt) : pt < w.tasks.length := by
  obtain ⟨task, ht, _⟩ := h
  exact (List.getElem?_eq_some_iff.mp ht).1

section Add

variable {w : TimerWheel} {id id' timeout : Nat}

theorem mem_timerAddInLoop {p : Fin 60} {r : Nat} :
    r ∈ (w.timerAddInLoop id timeout).wheel p ↔
      r ∈ w.wheel p ∨ (p = w.slot timeout ∧ r = w.tasks.length) :=
  mem_pushBack (w := { w with tasks := w.tasks ++ [TimerTask.mk id timeout false] })

theorem timerAddInLoop_named {r : Nat} : (w.timerAddInLoop id timeout).Named id' r ↔
    w.Named id' r ∨ (r = w.tasks.length ∧ id = id') := by
  show (∃ task, (w.tasks ++ [TimerTask.mk id timeout false])[r]? = some task ∧ task.id = id') ↔ _
  rcases Nat.lt_trichotomy r w.tasks.length with hlt | rfl | hgt
  · rw [List.getElem?_append_left hlt]
    exact ⟨Or.inl, fun h => h.elim (fun hn => hn) fun he => absurd he.1 (by omega)⟩
  · rw [List.getElem?_concat_length]
    constructor
    · rintro ⟨task, ht, hid⟩
      obtain rfl := Option.some.inj ht
      exact Or.inr ⟨rfl, hid⟩
    · rintro (hn | ⟨_, hid⟩)
      · exact absurd hn.lt (Nat.lt_irrefl _)
      · exact ⟨_, rfl, hid⟩
  · rw [List.getElem?_eq_none (by rw [List.length_append, List.length_singleton]; omega)]
    constructor
    · rintro ⟨task, ht, _⟩
      exact absurd ht (by simp)
    · rintro (hn | ⟨he, _⟩)
      · exact absurd hn.lt (by omega)
      · omega

theorem Valid.add (h : Valid w) : Valid (w.timerAddInLoop id timeout) := by
  have hlen : (w.timerAddInLoop id timeout).tasks.length = w.tasks.length + 1 := List.length_append
  refine ⟨?_, ?_⟩
  · intro p r hr
    rw [hlen]
    rcases mem_timerAddInLoop.mp hr with hr | ⟨_, rfl⟩
    · exact Nat.lt_succ_of_lt (h.refs p r hr)
    · exact Nat.lt_succ_self _
  · intro id' pt he
    rw [timerAddInLoop_named]
    by_cases hid : id' = id
    · subst hid
      rw [show (w.timerAddInLoop id' timeout).timers id' = some w.tasks.length from
        Function.update_self ..] at he
      exact Or.inr ⟨(Option.some.inj he).symm, rfl⟩
    · exact Or.inl (h.entries id' pt ((Function.update_of_ne hid _ _).symm.trans he))

theorem sameFor_add (hne : id' ≠ id) : SameFor id w (w.timerAddInLoop id' timeout) where
  tick := rfl
  entry := Function.update_of_ne hne.symm _ _
  task := by
    intro pt task hid
    show (w.tasks ++ [TimerTask.mk id' timeout false])[pt]? = some task ↔ _
    rcases Nat.lt_trichotomy pt w.tasks.length with hlt | rfl | hgt
    · rw [List.getElem?_append_left hlt]
    · rw [List.getElem?_concat_length, List.getElem?_eq_none le_rfl]
      exact iff_of_false (fun he => hne (by rw [← hid, ← Option.some.inj he])) (by simp)
    · rw [List.getElem?_eq_none (by rw [List.length_append, List.length_singleton]; omega),
        List.getElem?_eq_none (Nat.le_of_lt hgt)]
  slots := by
    intro p pt hn
    rw [mem_timerAddInLoop]
    exact or_iff_left fun he => absurd hn.lt (by omega)

/-- **`TimerAdd` starts a countdown.** -/
theorem Shows.add (hv : Valid w) (h : w.Shows id none) (ht : timeout < 60) :
    (w.timerAddInLoop id timeout).Shows id (some (.start timeout)) := by
  have hnew : ∀ p, w.tasks.length ∉ w.wheel p := fun p hp => Nat.lt_irrefl _ (hv.refs p _ hp)
  refine ⟨w.tasks.length, Function.update_self .., List.getElem?_concat_length, ht, le_rfl,
    ?_, ?_, ?_⟩
  · refine ⟨w.slot timeout, mem_timerAddInLoop.mpr (Or.inr ⟨rfl, rfl⟩), ?_⟩
    exact congrArg (· + 1) (offset_slot ht)
  · intro p hp
    rcases mem_timerAddInLoop.mp hp with hp | ⟨rfl, _⟩
    · exact absurd hp (hnew p)
    · exact lt_of_eq_of_lt (offset_slot ht) (Nat.lt_succ_self timeout)
  · intro p r hr hn
    rcases mem_timerAddInLoop.mp hr with hr | ⟨_, rfl⟩
    · rcases timerAddInLoop_named.mp hn with hn | ⟨he, _⟩
      · exact absurd hn (h.2 p r hr)
      · exact he
    · rfl

end Add

/-! ### `TimerRefresh` -/

section Refresh

variable {w : TimerWheel} {id id' : Nat}

/-- What `TimerRefresh` does: nothing, take an expired entry out, or push another pointer. -/
theorem timerRefreshInLoop_cases (hv : Valid w) (id : Nat) :
    (w.timers id = none ∧ w.timerRefreshInLoop id = w) ∨
    (∃ pt, w.timers id = some pt ∧ w.Expired pt ∧ w.timerRefreshInLoop id =
      { w with timers := Function.update w.timers id none }) ∨
    (∃ pt task, w.timers id = some pt ∧ ¬ w.Expired pt ∧ w.tasks[pt]? = some task ∧ task.id = id ∧
      w.timerRefreshInLoop id = w.pushBack (w.slot task.timeout) pt) := by
  cases he : w.timers id with
  | none => exact Or.inl ⟨rfl, by simp [timerRefreshInLoop, TimerWheel.hasTimer, he]⟩
  | some pt =>
    right
    by_cases hx : w.Expired pt
    · exact Or.inl
        ⟨pt, rfl, hx, by simp [timerRefreshInLoop, TimerWheel.hasTimer, lock_of_entry, he, hx]⟩
    · obtain ⟨task, ht, hid⟩ := hv.entries id pt he
      exact Or.inr ⟨pt, task, rfl, hx, ht, hid,
        by simp [timerRefreshInLoop, TimerWheel.hasTimer, lock_of_entry, he, hx, ht]⟩

theorem Valid.erase (h : Valid w) (id : Nat) :
    Valid { w with timers := Function.update w.timers id none } := by
  refine ⟨h.refs, ?_⟩
  intro id' pt he
  change Function.update w.timers id none id' = some pt at he
  by_cases hid : id' = id
  · subst hid
    rw [Function.update_self] at he
    exact absurd he (by simp)
  · rw [Function.update_of_ne hid] at he
    exact h.entries id' pt he

theorem sameFor_erase (hne : id' ≠ id) (w : TimerWheel) :
    SameFor id w { w with timers := Function.update w.timers id' none } :=
  { SameFor.refl id w with entry := Function.update_of_ne hne.symm _ _ }

theorem Valid.pushBack (h : Valid w) {pos : Fin 60} {pt : Nat} (hpt : pt < w.tasks.length) :
    Valid (w.pushBack pos pt) := by
  refine ⟨?_, h.entries⟩
  intro p r hr
  rcases mem_pushBack.mp hr with hr | ⟨_, rfl⟩
  · exact h.refs p r hr
  · exact hpt

theorem Valid.refresh (h : Valid w) : Valid (w.timerRefreshInLoop id) := by
  rcases timerRefreshInLoop_cases h id with ⟨_, he⟩ | ⟨pt, _, _, he⟩ |
    ⟨pt, task, _, _, ht, _, he⟩ <;>
    rw [he]
  · exact h
  · exact h.erase id
  · exact h.pushBack (List.getElem?_eq_some_iff.mp ht).1

theorem sameFor_refresh (hne : id' ≠ id) (hv : Valid w) :
    SameFor id w (w.timerRefreshInLoop id') := by
  rcases timerRefreshInLoop_cases hv id' with
    ⟨_, he⟩ | ⟨pt, _, _, he⟩ | ⟨pt, task, _, _, ht, hid, he⟩ <;> rw [he]
  · exact .refl id w
  · exact sameFor_erase hne w
  · refine { SameFor.refl id w with slots := fun p r hn => ?_ }
    rw [mem_pushBack]
    refine or_iff_left ?_
    rintro ⟨_, rfl⟩
    obtain ⟨task', ht', hid'⟩ := hn
    obtain rfl := Option.some.inj (ht.symm.trans ht')
    exact hne (hid.symm.trans hid')

theorem Runs.refresh_eq {c : Countdown} {pt : Nat} (h : w.Runs id c pt) :
    w.timerRefreshInLoop id = w.pushBack (w.slot c.timeout) pt := by
  simp [timerRefreshInLoop, TimerWheel.hasTimer, h.entry, h.lock, h.task]

/-- **`TimerRefresh` starts the countdown again**, with the timeout it had. -/
theorem Shows.refresh {c : Option Countdown} (hv : Valid w) (h : w.Shows id c) :
    (w.timerRefreshInLoop id).Shows id (c.map .restart) := by
  rcases timerRefreshInLoop_cases hv id with
    ⟨hn, he⟩ | ⟨pt, hn, hx, _⟩ | ⟨pt, task, hn, _, ht, _, he⟩
  · rw [he]
    cases c with
    | none => exact h
    | some c =>
      obtain ⟨pt, hr⟩ := h
      exact absurd (hn.symm.trans hr.entry) (by simp)
  · cases c with
    | none => exact absurd (hn.symm.trans h.1) (by simp)
    | some c =>
      obtain ⟨pt', hr⟩ := h
      obtain rfl := Option.some.inj (hn.symm.trans hr.entry)
      exact absurd hx hr.not_expired
  · rw [he]
    cases c with
    | none => exact absurd (hn.symm.trans h.1) (by simp)
    | some c =>
      obtain ⟨pt', hr⟩ := h
      obtain rfl := Option.some.inj (hn.symm.trans hr.entry)
      obtain rfl := Option.some.inj (ht.symm.trans hr.task)
      refine ⟨pt, hr.entry, hr.task, hr.short, le_rfl, ?_, ?_, ?_⟩
      · exact ⟨w.slot c.timeout, mem_pushBack.mpr (Or.inr ⟨rfl, rfl⟩),
          congrArg (· + 1) (offset_slot hr.short)⟩
      · intro p hp
        have hle := hr.le
        rcases mem_pushBack.mp hp with hp | ⟨rfl, _⟩
        · exact lt_of_lt_of_le (hr.within p hp) hle
        · exact lt_of_eq_of_lt (offset_slot hr.short) (Nat.lt_succ_self _)
      · intro p r hm hnr
        rcases mem_pushBack.mp hm with hm | ⟨_, rfl⟩
        · exact hr.only p r hm hnr
        · rfl

end Refresh

/-! ### `TimerCancel` -/

section Cancel

variable {w : TimerWheel} {id id' : Nat}

/-- What `TimerCancel` does: nothing, or mark the task. -/
theorem timerCancelInLoop_cases (w : TimerWheel) (id : Nat) :
    ((∀ pt, w.timers id = some pt → w.Expired pt) ∧ w.timerCancelInLoop id = w) ∨
    (∃ pt, w.timers id = some pt ∧ w.timerCancelInLoop id =
      { w with tasks := w.tasks.modify pt fun task => { task with canceled := true } }) := by
  cases he : w.timers id with
  | none => exact Or.inl ⟨by simp, by simp [timerCancelInLoop, TimerWheel.hasTimer, he]⟩
  | some pt =>
    by_cases hx : w.Expired pt
    · exact Or.inl ⟨by simpa using hx,
        by simp [timerCancelInLoop, TimerWheel.hasTimer, lock_of_entry, he, hx]⟩
    · exact Or.inr
        ⟨pt, rfl, by simp [timerCancelInLoop, TimerWheel.hasTimer, lock_of_entry, he, hx]⟩

theorem named_modify {pt r : Nat} : TimerWheel.Named { w with
      tasks := w.tasks.modify pt fun task => { task with canceled := true } } id r ↔
      w.Named id r := by
  show (∃ task, (w.tasks.modify pt _)[r]? = some task ∧ task.id = id) ↔ _
  by_cases hr : pt = r
  · subst hr
    rw [List.getElem?_modify_eq]
    constructor
    · rintro ⟨task, ht, hid⟩
      rw [Option.map_eq_map, Option.map_eq_some_iff] at ht
      obtain ⟨t, ht, rfl⟩ := ht
      exact ⟨t, ht, hid⟩
    · rintro ⟨task, ht, hid⟩
      exact ⟨{ task with canceled := true }, by rw [ht]; simp, hid⟩
  · rw [List.getElem?_modify_ne _ _ hr]
    exact Iff.rfl

theorem Valid.cancel (h : Valid w) : Valid (w.timerCancelInLoop id) := by
  rcases timerCancelInLoop_cases w id with ⟨_, he⟩ | ⟨pt, _, he⟩ <;> rw [he]
  · exact h
  · refine ⟨?_, fun id' r hr => named_modify.mpr (h.entries id' r hr)⟩
    intro p r hr
    rw [List.length_modify]
    exact h.refs p r hr

theorem sameFor_cancel (hne : id' ≠ id) (hv : Valid w) :
    SameFor id w (w.timerCancelInLoop id') := by
  rcases timerCancelInLoop_cases w id' with ⟨_, he⟩ | ⟨pt, hn, he⟩ <;> rw [he]
  · exact .refl id w
  · obtain ⟨task', ht', hid'⟩ := hv.entries id' pt hn
    refine { SameFor.refl id w with task := fun r task hid => ?_ }
    by_cases hr : pt = r
    · subst hr
      rw [List.getElem?_modify_eq, ht', Option.map_eq_map, Option.map_some]
      refine iff_of_false (fun h => ?_) (fun h => ?_)
      · exact hne (by rw [← hid, ← Option.some.inj h, ← hid'])
      · exact hne (by rw [← hid, ← Option.some.inj h, ← hid'])
    · rw [List.getElem?_modify_ne _ _ hr]

/-- **`TimerCancel` cancels a countdown**, which runs on. -/
theorem Shows.cancel {c : Option Countdown} (h : w.Shows id c) :
    (w.timerCancelInLoop id).Shows id (c.map .cancel) := by
  rcases timerCancelInLoop_cases w id with ⟨hx, he⟩ | ⟨pt, hn, he⟩
  · rw [he]
    cases c with
    | none => exact h
    | some c =>
      obtain ⟨pt, hr⟩ := h
      exact absurd (hx pt hr.entry) hr.not_expired
  · rw [he]
    cases c with
    | none => exact absurd (hn.symm.trans h.1) (by simp)
    | some c =>
      obtain ⟨pt', hr⟩ := h
      obtain rfl := Option.some.inj (hn.symm.trans hr.entry)
      refine ⟨pt, hr.entry, ?_, hr.short, hr.le, hr.last, hr.within, ?_⟩
      · show (w.tasks.modify pt _)[pt]? = _
        rw [List.getElem?_modify_eq, hr.task]
        rfl
      · exact fun p r hm hnr => hr.only p r hm (named_modify.mp hnr)

end Cancel

/-! ### `RunTimerTask` -/

section Run

variable {w : TimerWheel} {id pt : Nat} {rest : List Nat}

theorem mem_popFront (hs : w.wheel w.tick = pt :: rest) {p : Fin 60} {r : Nat} :
    r ∈ (w.popFront rest).wheel p → r ∈ w.wheel p := by
  by_cases hp : p = w.tick
  · subst hp
    intro h
    rw [hs]
    exact List.mem_cons_of_mem pt (by simpa [popFront] using h)
  · simp [popFront, hp]

theorem mem_of_popFront (hs : w.wheel w.tick = pt :: rest) {p : Fin 60} {r : Nat}
    (h : r ∈ w.wheel p) (hne : r ≠ pt ∨ p ≠ w.tick) : r ∈ (w.popFront rest).wheel p := by
  by_cases hp : p = w.tick
  · subst hp
    have hr : r ≠ pt := hne.resolve_right (by simp)
    rw [hs] at h
    simpa [popFront, hr] using h
  · simpa [popFront, hp] using h

theorem Valid.popFront (h : Valid w) (hs : w.wheel w.tick = pt :: rest) : Valid (w.popFront rest) :=
  ⟨fun p r hr => h.refs p r (mem_popFront hs hr), h.entries⟩

/-- **One pointer goes.**  Either the countdown is shown as before, and if a task dies it is one of
another id; or the task of this id dies, and then its countdown was at one. -/
theorem Shows.popFront {c : Option Countdown} (h : w.Shows id c)
    (hs : w.wheel w.tick = pt :: rest) :
    ((w.popFront rest).Shows id c ∧ ((w.popFront rest).Expired pt → ¬ w.Named id pt)) ∨
    ∃ c', c = some c' ∧ c'.left = 1 ∧ (w.popFront rest).Expired pt ∧
      w.tasks[pt]? = some ⟨id, c'.timeout, c'.canceled⟩ ∧ (w.popFront rest).NoRef id := by
  have hmem : pt ∈ w.wheel w.tick := by rw [hs]; exact List.mem_cons_self
  cases c with
  | none =>
    exact Or.inl ⟨⟨h.1, fun p r hr => h.2 p r (mem_popFront hs hr)⟩, fun _ => h.2 _ _ hmem⟩
  | some c =>
    obtain ⟨pt', hr⟩ := h
    by_cases hx : (w.popFront rest).Expired pt'
    · -- its last pointer was the one that went
      obtain ⟨p, hp, ho⟩ := hr.last
      obtain ⟨rfl, rfl⟩ : pt' = pt ∧ p = w.tick := by
        by_contra hne
        exact hx p (mem_of_popFront hs hp (not_and_or.mp hne))
      refine Or.inr ⟨c, rfl, ?_, hx, hr.task, ?_⟩
      · rw [offset_eq_zero.mpr rfl] at ho
        exact ho.symm
      · intro q r hq hn
        exact hx q (hr.only q r (mem_popFront hs hq) hn ▸ hq)
    · refine Or.inl ⟨⟨pt', hr.entry, hr.task, hr.short, hr.le, ?_, ?_, ?_⟩, ?_⟩
      · obtain ⟨p, hp, ho⟩ := hr.last
        by_cases ht : p = w.tick
        · -- the countdown is at one, so the pointer left is in the same slot
          obtain ⟨q, hq⟩ : ∃ q, pt' ∈ (w.popFront rest).wheel q := by
            simpa [TimerWheel.Expired] using hx
          refine ⟨q, hq, ?_⟩
          have hlt := hr.within q (mem_popFront hs hq)
          have h0 : w.offset p = 0 := offset_eq_zero.mpr ht
          show w.offset q + 1 = c.left
          omega
        · exact ⟨p, mem_of_popFront hs hp (Or.inr ht), ho⟩
      · exact fun p hp => hr.within p (mem_popFront hs hp)
      · exact fun p r hm hn => hr.only p r (mem_popFront hs hm) hn
      · intro hxp hn
        exact hx (hr.only _ _ hmem hn ▸ hxp)

theorem removeTimer_timers (w : TimerWheel) (id : Nat) :
    w.removeTimer id = { w with timers := Function.update w.timers id none } := by
  unfold removeTimer
  split
  · rfl
  · rename_i h
    have hn : w.timers id = none := by simpa [TimerWheel.hasTimer] using h
    rw [← hn, Function.update_eq_self]

theorem Valid.removeTimer (h : Valid w) (id : Nat) : Valid (w.removeTimer id) := by
  rw [removeTimer_timers]
  exact h.erase id

theorem Valid.destroy (h : Valid w) : Valid (w.destroy pt).1 := by
  unfold TimerWheel.destroy
  split
  · exact h.removeTimer _
  · exact h

theorem destroy_wheel (w : TimerWheel) (pt : Nat) :
    (w.destroy pt).1.wheel = w.wheel ∧ (w.destroy pt).1.tick = w.tick := by
  unfold destroy
  split
  · rw [removeTimer_timers]
    exact ⟨rfl, rfl⟩
  · exact ⟨rfl, rfl⟩

theorem Shows.destroy {c : Option Countdown} (h : w.Shows id c) (hn : ¬ w.Named id pt) :
    (w.destroy pt).1.Shows id c ∧ id ∉ (w.destroy pt).2 := by
  unfold TimerWheel.destroy
  split
  · rename_i task ht
    have hne : task.id ≠ id := fun hid => hn ⟨task, ht, hid⟩
    rw [removeTimer_timers]
    refine ⟨h.of_same (sameFor_erase hne w), ?_⟩
    cases task.canceled <;> simp [hne.symm]
  · exact ⟨h, by simp⟩

theorem clear_of_expired (hx : (w.popFront rest).Expired pt) : w.clear (pt :: rest) =
    ((((w.popFront rest).destroy pt).1.clear rest).1,
      ((w.popFront rest).destroy pt).2 ++ (((w.popFront rest).destroy pt).1.clear rest).2) := by
  rw [TimerWheel.clear, if_pos hx]

theorem clear_of_held (hx : ¬ (w.popFront rest).Expired pt) :
    w.clear (pt :: rest) = (w.popFront rest).clear rest := by
  rw [TimerWheel.clear, if_neg hx]

/-- **Clearing the slot under the hand** ends the countdown that is at one and no other, with one
run of its callback unless it is cancelled. -/
theorem Shows.clear {c : Option Countdown} (hv : Valid w) (h : w.Shows id c) {slot : List Nat}
    (hs : w.wheel w.tick = slot) :
    Valid (w.clear slot).1 ∧ (w.clear slot).1.tick = w.tick ∧ (w.clear slot).1.wheel w.tick = [] ∧
      (w.clear slot).1.Shows id (c.filter fun c => decide (c.left ≠ 1)) ∧
      (w.clear slot).2.count id = if c.any Countdown.fires then 1 else 0 := by
  induction slot generalizing w c with
  | nil =>
    -- with an empty slot no countdown can be at one
    have hone : ∀ c', c = some c' → c'.left ≠ 1 := by
      rintro c' rfl h1
      obtain ⟨pt, hr⟩ := h
      obtain ⟨p, hp, ho⟩ := hr.last
      have hp0 : p = w.tick := offset_eq_zero.mp (by omega)
      rw [hp0, hs] at hp
      exact absurd hp (by simp)
    refine ⟨hv, rfl, hs, ?_, ?_⟩
    · cases c with
      | none => exact h
      | some c => rwa [Option.filter_some_pos (by simpa using hone c rfl)]
    · cases c with
      | none => rfl
      | some c => simp [TimerWheel.clear, Countdown.fires, hone c rfl]
  | cons pt rest ih =>
    have hv' := hv.popFront hs
    have hs' : (w.popFront rest).wheel w.tick = rest := Function.update_self ..
    rcases h.popFront hs with ⟨hsh, hother⟩ | ⟨c', rfl, h1, hx, ht, hno⟩
    · by_cases hx : (w.popFront rest).Expired pt
      · -- a task of another id dies
        obtain ⟨hd, hnot⟩ := hsh.destroy (hother hx)
        obtain ⟨hw, htick⟩ := destroy_wheel (w.popFront rest) pt
        obtain ⟨g1, g2, g3, g4, g5⟩ := ih hv'.destroy hd (by rw [hw, htick]; exact hs')
        rw [clear_of_expired hx]
        refine ⟨g1, g2.trans htick, ?_, g4, ?_⟩
        · rw [htick] at g3
          exact g3
        · rw [List.count_append, List.count_eq_zero.mpr hnot, Nat.zero_add]
          exact g5
      · obtain ⟨g1, g2, g3, g4, g5⟩ := ih hv' hsh hs'
        rw [clear_of_held hx]
        exact ⟨g1, g2, g3, g4, g5⟩
    · -- the task of this id dies
      have hdead : ((w.popFront rest).destroy pt).1.Shows id none := by
        have ht' : (w.popFront rest).tasks[pt]? = some ⟨id, c'.timeout, c'.canceled⟩ := ht
        simp only [TimerWheel.destroy, ht', removeTimer_timers]
        exact ⟨Function.update_self .., hno⟩
      obtain ⟨hw, htick⟩ := destroy_wheel (w.popFront rest) pt
      obtain ⟨g1, g2, g3, g4, g5⟩ := ih hv'.destroy hdead (by rw [hw, htick]; exact hs')
      rw [clear_of_expired hx]
      refine ⟨g1, g2.trans htick, ?_, ?_, ?_⟩
      · rw [htick] at g3
        exact g3
      · rw [Option.filter_some_neg (by simp [h1])]
        exact g4
      · have ht' : (w.popFront rest).tasks[pt]? = some ⟨id, c'.timeout, c'.canceled⟩ := ht
        rw [List.count_append, g5]
        simp only [TimerWheel.destroy, ht']
        cases hc : c'.canceled <;> simp [Countdown.fires, h1, hc]

theorem Shows.advance {c : Option Countdown} (h : w.Shows id c) (hs : w.wheel w.tick = []) :
    w.advance.Shows id (c.bind Countdown.next) := by
  cases c with
  | none => exact h
  | some c =>
    obtain ⟨pt, hr⟩ := h
    have hahead : ∀ p, pt ∈ w.wheel p → w.advance.offset p + 1 = w.offset p := by
      intro p hp
      refine offset_next rfl ?_
      rintro rfl
      rw [hs] at hp
      exact absurd hp (by simp)
    obtain ⟨p, hp, ho⟩ := hr.last
    have hpa := hahead p hp
    have hne : c.left ≠ 1 := by omega
    rw [Option.bind_some, Countdown.next, if_neg hne]
    refine ⟨pt, hr.entry, hr.task, hr.short, ?_, ⟨p, hp, ?_⟩, ?_, hr.only⟩
    · have hle := hr.le
      show c.left - 1 ≤ c.timeout + 1
      omega
    · show w.advance.offset p + 1 = c.left - 1
      omega
    · intro q hq
      have hqa := hahead q hq
      have hlt := hr.within q hq
      show w.advance.offset q < c.left - 1
      omega

theorem filter_bind_next (c : Option Countdown) :
    (c.filter fun c => decide (c.left ≠ 1)).bind Countdown.next = c.bind Countdown.next := by
  cases c with
  | none => rfl
  | some c =>
    by_cases h : c.left = 1
    · rw [Option.filter_some_neg (by simpa using h), Option.bind_some, Countdown.next, if_pos h]
      rfl
    · rw [Option.filter_some_pos (by simpa using h)]

/-- **`RunTimerTask` is one count of every countdown.** -/
theorem Shows.runTimerTask {c : Option Countdown} (hv : Valid w) (h : w.Shows id c) :
    Valid w.runTimerTask.1 ∧ w.runTimerTask.1.Shows id (c.bind Countdown.next) ∧
      w.runTimerTask.2.count id = if c.any Countdown.fires then 1 else 0 := by
  obtain ⟨g1, g2, g3, g4, g5⟩ := h.clear hv (Eq.refl (w.wheel w.tick))
  simp only [TimerWheel.runTimerTask]
  refine ⟨⟨g1.refs, g1.entries⟩, ?_, g5⟩
  have hadv := g4.advance (by rw [g2]; exact g3)
  rw [filter_bind_next] at hadv
  exact hadv

end Run

end TimerWheel

end Flux
