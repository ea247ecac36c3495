import Flux.Reactor.LoopThread
import Flux.Reactor.LoopThreadPool

/-!
# Starting the threads of a pool

`Create` makes one `LoopThread` after the other and waits in `GetLoop` until the loop of the new one
is there.  The wait is that of a condition variable: the predicate is tested under the mutex, a test
that fails puts the thread to sleep, and `notify_all` or nothing at all wakes it for another test.
The threads made so far go on meanwhile.

* `PoolStart.Made`: what every run keeps.  A thread that nobody destroys never takes its loop back.
* `PoolStart.pool_created`: **every loop of the pool is there when it is handed out**, `GetLoop`
  never sleeps on a loop that is published, and `Create` can always come to its end.
-/

namespace Flux

open Lib

inductive CreatePoint
  /-- In front of a `new LoopThread()`, or through. -/
  | between
  /-- In `GetLoop` of the newest thread: in front of the test of the predicate, asleep, and in front
  of `return _loop`. -/
  | testing
  | asleep
  | found
deriving DecidableEq, Repr

structure PoolStart where
  /-- `_thread_count`. -/
  count : Nat
  point : CreatePoint
  threads : List LoopThread
  /-- `_loops`; `none` is a null pointer, and a loop is known by its thread. -/
  loops : List (Option Nat)
deriving DecidableEq, Repr

inductive PoolAct
  /-- `new LoopThread()`. -/
  | newThread
  /-- The predicate, under the mutex. -/
  | test
  /-- A wake-up without a notification. -/
  | wakes
  /-- `return _loop`, and the assignment. -/
  | returns
  /-- A step of a thread that has been made. -/
  | thread (i : Nat) (act : LoopThreadAct)
deriving DecidableEq, Repr

/-- The acts of the thread; the others are those of its owner. -/
def LoopThreadAct.ofThread : LoopThreadAct → Bool
  | getLoop | check | stop | wakeUp | joined => false
  | build | publish | start | test | pollReturns _ | readEventfd _ | handled | runAllTask | clear =>
    true

namespace PoolStart

/-- `Create` with its two `resize` behind it. -/
def new (count : Nat) : PoolStart where
  count := count
  point := .between
  threads := []
  loops := []

def step (s : PoolStart) : PoolAct → Option PoolStart
  | .newThread =>
    if s.point = .between ∧ s.threads.length < s.count then
      some { s with point := .testing, threads := s.threads ++ [.new] }
    else none
  | .test =>
    if s.point = .testing then
      s.threads.getLast?.map fun th => { s with point := if th.loop then .found else .asleep }
    else none
  | .wakes => if s.point = .asleep then some { s with point := .testing } else none
  | .returns =>
    if s.point = .found then
      s.threads.getLast?.map fun th =>
        { s with
          point := .between
          loops := s.loops ++ [if th.loop then some (s.threads.length - 1) else none] }
    else none
  | .thread i act =>
    if act.ofThread then
      s.threads[i]?.bind fun th => (th.step act).map fun th' =>
        { s with
          -- `notify_all` reaches whoever waits for this thread
          point := if act = .publish ∧ i + 1 = s.threads.length ∧ s.point = .asleep then
            .testing else s.point
          threads := s.threads.set i th' }
    else none

/-! ### A thread that nobody stops -/

end PoolStart

/-- A thread whose owner has not come to the destructor. -/
structure LoopThread.Owned (th : LoopThread) : Prop where
  sound : th.Sound
  owner : th.owner = .owning

namespace LoopThread

variable {s t : LoopThread} {a : LoopThreadAct}

theorem owned_new : new.Owned := ⟨sound_new, rfl⟩

/-- **Its loop comes with the publication, and stays.** -/
theorem Owned.step (h : s.Owned) (ha : a.ofThread = true) (hs : s.step a = some t) :
    t.Owned ∧ (s.loop = true → t.loop = true) ∧ (t.loop = true → s.loop = true ∨ a = .publish) := by
  have hsound := h.sound.step hs
  cases step_steps hs with
  | getLoop | check | stop | wakeUp | joined => exact absurd ha (by simp [LoopThreadAct.ofThread])
  | publish => exact ⟨⟨hsound, h.owner⟩, fun _ => rfl, fun _ => Or.inr rfl⟩
  | start | leave | moves => exact ⟨⟨hsound, h.owner⟩, fun hl => hl, Or.inl⟩
  | clear thread =>
    -- it would have left its loop, which nobody has told it
    have hin := (h.sound.running (h.sound.unstopped (Or.inl h.owner)) (by rw [thread]; rfl)).1
    rw [thread] at hin
    exact absurd hin (by simp [ThreadPoint.inLoop])

/-- Without its loop it is still in front of the publication. -/
theorem Owned.unpublished (h : s.Owned) (hl : s.loop = false) :
    s.thread = .building ∨ s.thread = .publishing := by
  have hearly := h.sound.early hl (h.sound.unstopped (Or.inl h.owner))
  have hpub := h.sound.loop.symm.trans hl
  cases hp : s.thread <;> simp [hp, ThreadPoint.entered, ThreadPoint.published] at hearly hpub ⊢

end LoopThread

namespace PoolStart

variable {s t : PoolStart} {a : PoolAct} {count : Nat}

/-! ### What every run keeps -/

/-- **The state of `Create`.**  The loops are those of the threads in their order, all of them
published; `GetLoop` goes on with a loop that is there, and sleeps only on one that is not. -/
structure Made (s : PoolStart) : Prop where
  owned : ∀ th ∈ s.threads, th.Owned
  fits : s.threads.length ≤ s.count
  loops : s.loops = (List.range s.loops.length).map some
  published : ∀ i < s.loops.length, ∃ th, s.threads[i]? = some th ∧ th.loop = true
  between : s.point = .between → s.threads.length = s.loops.length
  within : s.point ≠ .between → s.threads.length = s.loops.length + 1
  found : s.point = .found → ∃ th, s.threads[s.loops.length]? = some th ∧ th.loop = true
  asleep : s.point = .asleep → ∃ th, s.threads[s.loops.length]? = some th ∧ th.loop = false

theorem made_new (count : Nat) : (new count).Made where
  owned := by simp [new]
  fits := Nat.zero_le count
  loops := rfl
  published := by simp [new]
  between _ := rfl
  within h := absurd rfl h
  found h := absurd h (by simp [new])
  asleep h := absurd h (by simp [new])

/-- In `GetLoop` the newest thread is the one whose loop is to come. -/
theorem Made.newest (h : s.Made) (hp : s.point ≠ .between) :
    s.threads.getLast? = s.threads[s.loops.length]? := by
  rw [List.getLast?_eq_getElem?, h.within hp, Nat.add_sub_cancel]

theorem Made.createStep (h : s.Made) (ha : ∀ i act, a ≠ .thread i act) (hs : s.step a = some t) :
    t.Made := by
  cases a with
  | thread i act => exact absurd rfl (ha i act)
  | newThread =>
    simp only [PoolStart.step, Option.ite_none_right_eq_some, Option.some.injEq] at hs
    obtain ⟨⟨hpoint, hlt⟩, rfl⟩ := hs
    refine ⟨?_, ?_, h.loops, ?_, by simp, fun _ => ?_, by simp, by simp⟩
    · intro th hth
      rcases List.mem_append.mp hth with hold | hnew
      · exact h.owned th hold
      · rw [List.mem_singleton.mp hnew]
        exact LoopThread.owned_new
    · rw [List.length_append]
      exact hlt
    · intro i hi
      obtain ⟨th, hth, hl⟩ := h.published i hi
      exact ⟨th, (List.getElem?_append_left (List.getElem?_eq_some_iff.mp hth).1).trans hth, hl⟩
    · rw [List.length_append, h.between hpoint]
      rfl
  | test =>
    simp only [PoolStart.step, Option.ite_none_right_eq_some] at hs
    obtain ⟨hpoint, hs⟩ := hs
    obtain ⟨th, hth, rfl⟩ := Option.map_eq_some_iff.mp hs
    have hne : s.point ≠ .between := by simp [hpoint]
    rw [h.newest hne] at hth
    cases hl : th.loop with
    | true =>
      exact ⟨h.owned, h.fits, h.loops, h.published, by simp, fun _ => h.within hne,
        fun _ => ⟨th, hth, hl⟩,
        by simp⟩
    | false =>
      exact ⟨h.owned, h.fits, h.loops, h.published, by simp, fun _ => h.within hne, by simp,
        fun _ => ⟨th, hth, hl⟩⟩
  | wakes =>
    simp only [PoolStart.step, Option.ite_none_right_eq_some, Option.some.injEq] at hs
    obtain ⟨hpoint, rfl⟩ := hs
    exact ⟨h.owned, h.fits, h.loops, h.published, by simp, fun _ => h.within (by simp [hpoint]),
      by simp,
      by simp⟩
  | returns =>
    simp only [PoolStart.step, Option.ite_none_right_eq_some] at hs
    obtain ⟨hpoint, hs⟩ := hs
    obtain ⟨th, hth, rfl⟩ := Option.map_eq_some_iff.mp hs
    have hne : s.point ≠ .between := by simp [hpoint]
    have hlen := h.within hne
    rw [h.newest hne] at hth
    obtain ⟨x, hx, hl⟩ := h.found hpoint
    obtain rfl := Option.some.inj (hth.symm.trans hx)
    rw [if_pos hl, hlen, Nat.add_sub_cancel]
    refine ⟨h.owned, h.fits, ?_, ?_, ?_, fun hp => absurd rfl hp, by simp, by simp⟩
    · simp only [List.length_append, List.length_singleton]
      rw [List.range_succ, List.map_append, ← h.loops]
      rfl
    · intro i hi
      simp only [List.length_append, List.length_singleton] at hi
      rcases Nat.lt_or_eq_of_le (Nat.le_of_lt_succ hi) with hlt | rfl
      · exact h.published i hlt
      · exact ⟨th, hth, hl⟩
    · intro _
      simp only [List.length_append, List.length_singleton]
      exact hlen

theorem Made.threadStep {i : Nat} {act : LoopThreadAct} (h : s.Made)
    (hs : s.step (.thread i act) = some t) :
    t.Made := by
  simp only [PoolStart.step, Option.ite_none_right_eq_some] at hs
  obtain ⟨hact, hs⟩ := hs
  obtain ⟨th, hth, hs⟩ := Option.bind_eq_some_iff.mp hs
  obtain ⟨th', hth', rfl⟩ := Option.map_eq_some_iff.mp hs
  obtain ⟨howned, hstays, hcomes⟩ := (h.owned th (List.mem_of_getElem? hth)).step hact hth'
  have hlt : i < s.threads.length := (List.getElem?_eq_some_iff.mp hth).1
  -- what is published stays so
  have hkeeps : ∀ j : Nat, (∃ x : LoopThread, s.threads[j]? = some x ∧ x.loop = true) →
      ∃ x : LoopThread, (s.threads.set i th')[j]? = some x ∧ x.loop = true := by
    rintro j ⟨x, hx, hl⟩
    by_cases hj : i = j
    · subst hj
      obtain rfl := Option.some.inj (hth.symm.trans hx)
      exact ⟨th', List.getElem?_set_self hlt, hstays hl⟩
    · exact ⟨x, (List.getElem?_set_ne hj).trans hx, hl⟩
  refine ⟨?_, ?_, h.loops, fun j hj => hkeeps j (h.published j hj), ?_, ?_, ?_, ?_⟩
  · intro x hx
    rcases List.mem_or_eq_of_mem_set hx with hold | rfl
    · exact h.owned x hold
    · exact howned
  · rw [List.length_set]
    exact h.fits
  · intro hp
    rw [List.length_set]
    simp only at hp
    split at hp
    · exact absurd hp (by simp)
    · exact h.between hp
  · intro hp
    rw [List.length_set]
    simp only at hp
    split at hp
    · rename_i hwake
      exact h.within (by simp [hwake.2.2])
    · exact h.within hp
  · intro hp
    simp only at hp
    split at hp
    · exact absurd hp (by simp)
    · exact hkeeps _ (h.found hp)
  · intro hp
    simp only at hp
    split at hp
    · exact absurd hp (by simp)
    · rename_i hno
      obtain ⟨x, hx, hl⟩ := h.asleep hp
      by_cases hj : i = s.loops.length
      · subst hj
        obtain rfl := Option.some.inj (hth.symm.trans hx)
        refine ⟨th', List.getElem?_set_self hlt, ?_⟩
        -- had it been published, the notification would have come
        by_contra hpub
        rcases hcomes (by simpa using hpub) with hold | rfl
        · exact absurd (hold.symm.trans hl) (by simp)
        · exact hno ⟨rfl, (h.within (by simp [hp])).symm, hp⟩
      · exact ⟨x, (List.getElem?_set_ne hj).trans hx, hl⟩

theorem Made.step (h : s.Made) (hs : s.step a = some t) : t.Made := by
  cases a with
  | thread i act => exact h.threadStep hs
  | _ => exact h.createStep (by simp) hs

/-! ### To the end -/

/-- The next loop can come. -/
def Advances (s : PoolStart) : Prop :=
  ∃ more t, Lib.run PoolStart.step s more = some t ∧ t.Made ∧ t.count = s.count ∧
  t.point = .between ∧
    t.loops.length = s.loops.length + 1

theorem Advances.of_step (hs : s.step a = some t) (hcount : t.count = s.count)
    (hloops : t.loops = s.loops)
    (h : t.Advances) : s.Advances := by
  obtain ⟨more, u, hr, hmade, hc, hp, hl⟩ := h
  exact ⟨a :: more, u, run_cons.mpr ⟨t, hs, hr⟩, hmade, hc.trans hcount, hp, hloops ▸ hl⟩

theorem Made.advances_found (h : s.Made) (hp : s.point = .found) : s.Advances := by
  obtain ⟨th, hth, hl⟩ := h.found hp
  rw [← h.newest (by simp [hp])] at hth
  have hs : s.step .returns =
      some { s with point := .between, loops := s.loops ++ [some (s.threads.length - 1)] } := by
    simp [PoolStart.step, hp, hth, hl]
  exact ⟨[.returns], _, run_cons.mpr ⟨_, hs, rfl⟩, h.step hs, rfl, rfl, by simp⟩

theorem Made.advances_published {th : LoopThread} (h : s.Made) (hp : s.point = .testing)
    (hth : s.threads[s.loops.length]? = some th) (hl : th.loop = true) : s.Advances := by
  rw [← h.newest (by simp [hp])] at hth
  have hs : s.step .test = some { s with point := .found } := by
    simp [PoolStart.step, hp, hth, hl]
  exact .of_step hs rfl rfl ((h.step hs).advances_found rfl)

theorem step_thread {i : Nat} {act : LoopThreadAct} {th th' : LoopThread}
    (hact : act.ofThread = true)
    (hth : s.threads[i]? = some th) (hs : th.step act = some th') :
    s.step (.thread i act) = some { s with
      point := if act = .publish ∧ i + 1 = s.threads.length ∧ s.point = .asleep then
        .testing else s.point
      threads := s.threads.set i th' } := by
  simp only [PoolStart.step]
  rw [if_pos hact, hth, Option.bind_some, hs, Option.map_some]

theorem Made.advances_publishing {th : LoopThread} (h : s.Made) (hp : s.point = .asleep)
    (hth : s.threads[s.loops.length]? = some th) (hpub : th.thread = .publishing) : s.Advances := by
  have howner := (h.owned th (List.mem_of_getElem? hth)).owner
  have hlen := h.within (by simp [hp])
  have hpublish : th.step .publish = some { th with thread := .starting, loop := true } :=
    if_pos ⟨hpub, by simp [LoopThread.Locked, howner]⟩
  have hs := step_thread rfl hth hpublish
  rw [if_pos ⟨rfl, hlen.symm, hp⟩] at hs
  have hself := List.getElem?_set_self (a := { th with thread := .starting, loop := true })
    (List.getElem?_eq_some_iff.mp hth).1
  exact .of_step hs rfl rfl ((h.step hs).advances_published rfl hself rfl)

theorem Made.advances_asleep (h : s.Made) (hp : s.point = .asleep) : s.Advances := by
  obtain ⟨th, hth, hl⟩ := h.asleep hp
  have howned := h.owned th (List.mem_of_getElem? hth)
  rcases howned.unpublished hl with hbuilding | hpub
  · have hbuild : th.step .build = some { th with thread := .publishing } := if_pos hbuilding
    have hs := step_thread rfl hth hbuild
    rw [if_neg (by simp)] at hs
    have hself := List.getElem?_set_self (a := { th with thread := .publishing })
      (List.getElem?_eq_some_iff.mp hth).1
    exact .of_step hs rfl rfl ((h.step hs).advances_publishing hp hself rfl)
  · exact h.advances_publishing hp hth hpub

theorem Made.advances (h : s.Made) (hp : s.point ≠ .between) : s.Advances := by
  cases hpoint : s.point with
  | between => exact absurd hpoint hp
  | found => exact h.advances_found hpoint
  | asleep => exact h.advances_asleep hpoint
  | testing =>
    obtain ⟨th, hth⟩ : ∃ th, s.threads[s.loops.length]? = some th := by
      refine ⟨_, List.getElem?_eq_getElem ?_⟩
      have hlen := h.within hp
      omega
    cases hl : th.loop with
    | true => exact h.advances_published hpoint hth hl
    | false =>
      rw [← h.newest hp] at hth
      have hs : s.step .test = some { s with point := .asleep } := by
        simp [PoolStart.step, hpoint, hth, hl]
      exact .of_step hs rfl rfl ((h.step hs).advances_asleep rfl)

/-- **`Create` can come to its end**, with a loop for each thread. -/
theorem Made.completes (h : s.Made) :
    ∃ more t, Lib.run PoolStart.step s more = some t ∧ t.point = .between ∧
    t.loops.length = s.count := by
  generalize hn : s.count - s.loops.length = n
  induction n generalizing s with
  | zero =>
    have hfits := h.fits
    have hpoint : s.point = .between := by
      by_contra hne
      have hlen := h.within hne
      omega
    have hlen := h.between hpoint
    exact ⟨[], s, rfl, hpoint, by omega⟩
  | succ n ih =>
    have hadv : s.Advances := by
      by_cases hpoint : s.point = .between
      · have hlen := h.between hpoint
        have hs : s.step .newThread =
            some { s with point := .testing, threads := s.threads ++ [.new] } :=
          if_pos ⟨hpoint, by omega⟩
        exact .of_step hs rfl rfl ((h.step hs).advances (by simp))
      · exact h.advances hpoint
    obtain ⟨more, t, hr, hmade, hcount, -, hloops⟩ := hadv
    obtain ⟨rest, u, hrest, hpoint, hu⟩ := ih hmade (by omega)
    exact ⟨more ++ rest, u, run_append.mpr ⟨t, hr, hrest⟩, hpoint, hu.trans hcount⟩

/-! ### Whole runs -/

theorem step_count (hs : s.step a = some t) : t.count = s.count := by
  cases a <;> simp only [PoolStart.step, Option.ite_none_right_eq_some, Option.some.injEq,
    Option.map_eq_some_iff, Option.bind_eq_some_iff] at hs
  case newThread | wakes =>
    obtain ⟨-, rfl⟩ := hs
    rfl
  case test | returns =>
    obtain ⟨-, _, -, rfl⟩ := hs
    rfl
  case thread =>
    obtain ⟨-, _, -, _, -, rfl⟩ := hs
    rfl

/-- **Every loop of a pool is there when it is handed out.**  In every interleaving of `Create` with
the threads it has started, wake-ups for nothing included: the loops so far are those of the threads
in their order, each published, and none is ever taken back; `GetLoop` sleeps only while the loop it
waits for is not published; `Create` can come to its end from here; and where it has, `_loops` is
the list that `NextLoop` goes round. -/
theorem pool_created (count : Nat) (acts : List PoolAct) (s : PoolStart)
    (hr : Lib.run step (new count) acts = some s) :
    s.loops = (List.range s.loops.length).map some ∧
    (∀ i < s.loops.length, ∃ th, s.threads[i]? = some th ∧ th.loop = true) ∧
    (s.point = .asleep → ∃ th, s.threads.getLast? = some th ∧ th.loop = false) ∧
    (∃ more t, Lib.run step s more = some t ∧ t.point = .between ∧ t.loops.length = count) ∧
    (s.loops.length = count → 0 < count →
      s.loops = (LoopThreadPool.setUp none [(count : Int)] some).loops) := by
  have hmade : s.Made := run_preserves (I := Made) (fun _ _ _ h hs => h.step hs) (made_new count) hr
  have hcount : s.count = count :=
    run_preserves (I := fun s => s.count = count) (fun _ _ _ h hs => (step_count hs).trans h) rfl hr
  refine ⟨hmade.loops, hmade.published, ?_, ?_, ?_⟩
  · intro hp
    rw [hmade.newest (by simp [hp])]
    exact hmade.asleep hp
  · rw [← hcount]
    exact hmade.completes
  · intro hlen hpos
    rw [LoopThreadPool.setUp_eq rfl hpos, hmade.loops, hlen]

/-- Two threads; the second publishes its loop while `GetLoop` is asleep. -/
theorem pool_created_two : ∃ acts s, Lib.run step (new 2) acts = some s ∧ s.loops.length = 2 ∧
    s.loops = (LoopThreadPool.setUp none [((2 : Nat) : Int)] some).loops ∧
    ∀ i < s.loops.length, ∃ th, s.threads[i]? = some th ∧ th.loop = true := by
  let acts : List PoolAct :=
    [.newThread, .thread 0 .build, .thread 0 .publish, .test, .thread 0 .start, .returns,
      .newThread, .test,
      .thread 1 .build, .wakes, .test, .thread 0 .test, .thread 1 .publish, .test, .returns]
  have hr : (Lib.run step (new 2) acts).map (fun s => s.loops.length) = some 2 := by decide
  obtain ⟨s, hs, hlen⟩ := Option.map_eq_some_iff.mp hr
  obtain ⟨-, hpublished, -, -, hloops⟩ := pool_created 2 acts s hs
  exact ⟨acts, s, hs, hlen, hloops hlen (by decide), hpublished⟩

end PoolStart

end Flux
