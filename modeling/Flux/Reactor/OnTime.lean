import Flux.Reactor.TimerEarly
import Flux.Lib.Run

/-!
# `OnTime`

The wheel counts calls of `RunTimerTask`; what its users mean by a timeout is seconds.  Between the
two stands `_timerfd`, which the kernel counts up once a second, and `OnTime`, which takes the count
at one `read` and makes as many calls.  A loop that is busy takes it late, so the wheel lags behind
the clock by the seconds not yet read and the rounds `OnTime` has still to do.

* `TimerClock.InStep`: the wheel has been told of every second but these.
* `TimerClock.on_time`: the second in which a timer goes, with the lag there was when it was started
  and the lag there is now.
-/

namespace Flux

open Lib WheelRun

/-- A wheel with its `_timerfd`. -/
structure TimerClock where
  run : WheelRun
  /-- The seconds since `CreateTimerfd`. -/
  seconds : Nat
  /-- What the kernel has counted since the last `read`. -/
  expirations : Nat
  /-- The rounds left of the loop in `OnTime`. -/
  rounds : Nat

inductive ClockAct
  /-- A second has passed. -/
  | expires
  /-- The loop calls `OnTime`. -/
  | onTime
  /-- An operation of the wheel; `tick` is the next round of `OnTime`. -/
  | wheel (op : WheelOp)
deriving DecidableEq, Repr

namespace TimerClock

def start : TimerClock := ⟨.start, 0, 0, 0⟩

/-- `ReadTimerfd`; the `uint64_t` is returned as an `int`. -/
def readTimerfd (s : TimerClock) : Int := (BitVec.ofNat 32 s.expirations).toInt

/-- A `read` of `_timerfd` blocks as long as there is nothing to read.  What callbacks and tasks do
to the wheel may come between any two rounds. -/
def step (s : TimerClock) : ClockAct → Option TimerClock
  | .expires => some { s with seconds := s.seconds + 1, expirations := s.expirations + 1 }
  | .onTime =>
    if s.rounds = 0 ∧ 0 < s.expirations then
      some { s with expirations := 0, rounds := s.readTimerfd.toNat }
    else none
  | .wheel .tick =>
    if 0 < s.rounds then some { s with run := s.run.apply .tick, rounds := s.rounds - 1 } else none
  | .wheel op => some { s with run := s.run.apply op }

end TimerClock

def ClockAct.op : ClockAct → Option WheelOp
  | wheel op => some op
  | _ => none

def wheelOps (acts : List ClockAct) : List WheelOp := acts.filterMap ClockAct.op

namespace TimerClock

variable {s t : TimerClock}

/-- How many seconds the wheel is behind. -/
def lag (s : TimerClock) : Nat := s.expirations + s.rounds

/-- **No second is lost.** -/
def InStep (s : TimerClock) : Prop := s.seconds = s.run.ticks + s.lag

/-- `OnTime` comes before the count outgrows an `int`. -/
def Short (s : TimerClock) (a : ClockAct) : Prop := a = .onTime → s.expirations < 2 ^ 31

instance (s : TimerClock) (a : ClockAct) : Decidable (s.Short a) :=
  inferInstanceAs (Decidable (_ → _))

theorem readTimerfd_eq (h : s.expirations < 2 ^ 31) : s.readTimerfd.toNat = s.expirations := by
  have hlt : s.expirations % 2 ^ 32 = s.expirations := Nat.mod_eq_of_lt (by omega)
  rw [readTimerfd, BitVec.toInt_eq_toNat_cond, BitVec.toNat_ofNat, hlt, if_pos (by omega)]
  exact Int.toNat_natCast _

theorem apply_ticks (r : WheelRun) {op : WheelOp} (h : op ≠ .tick) :
    (r.apply op).ticks = r.ticks := by
  cases op with
  | tick => exact absurd rfl h
  | _ => rfl

/-- An act is one of the clock, of `OnTime`, or of the wheel, and `OnTime` has a round for each
tick. -/
theorem step_cases {a : ClockAct} (h : s.step a = some t) :
    a = .expires ∧ t = { s with seconds := s.seconds + 1, expirations := s.expirations + 1 } ∨
    a = .onTime ∧ s.rounds = 0 ∧ t = { s with expirations := 0, rounds := s.readTimerfd.toNat } ∨
    ∃ op, a = .wheel op ∧ ((op = .tick ∧ 0 < s.rounds ∧
        t = { s with run := s.run.apply .tick, rounds := s.rounds - 1 }) ∨
      op ≠ .tick ∧ t = { s with run := s.run.apply op }) := by
  cases a with
  | expires => exact Or.inl ⟨rfl, (Option.some.inj h).symm⟩
  | onTime =>
    simp only [step] at h
    split at h
    · rename_i hc
      exact Or.inr (Or.inl ⟨rfl, hc.1, (Option.some.inj h).symm⟩)
    · exact absurd h (by simp)
  | wheel op =>
    refine Or.inr (Or.inr ⟨op, rfl, ?_⟩)
    cases op with
    | tick =>
      simp only [step] at h
      split at h
      · rename_i hc
        exact Or.inl ⟨rfl, hc, (Option.some.inj h).symm⟩
      · exact absurd h (by simp)
    | add | refresh | cancel => exact Or.inr ⟨by simp, (Option.some.inj h).symm⟩

theorem InStep.step {a : ClockAct} (h : s.InStep) (hshort : s.Short a) (hstep : s.step a = some t) :
    t.InStep := by
  unfold InStep lag at *
  rcases step_cases hstep with ⟨rfl, rfl⟩ | ⟨rfl, hrounds, rfl⟩ |
    ⟨op, rfl, ⟨rfl, hpos, rfl⟩ | ⟨hne, rfl⟩⟩
  · show s.seconds + 1 = s.run.ticks + (s.expirations + 1 + s.rounds)
    omega
  · show s.seconds = s.run.ticks + (0 + s.readTimerfd.toNat)
    rw [readTimerfd_eq (hshort rfl)]
    omega
  · show s.seconds = s.run.ticks + 1 + (s.expirations + (s.rounds - 1))
    omega
  · show s.seconds = (s.run.apply op).ticks + (s.expirations + s.rounds)
    rw [apply_ticks _ hne]
    exact h

theorem inStep_start : start.InStep := rfl

theorem run_wheel {acts : List ClockAct} (hr : Lib.run step start acts = some s) :
    s.run = history (wheelOps acts) := by
  induction acts using List.reverseRecOn generalizing s with
  | nil =>
    obtain rfl := Option.some.inj hr
    rfl
  | append_singleton acts a ih =>
    obtain ⟨u, hu, hlast⟩ := run_append.mp hr
    obtain ⟨t, ht, hlast⟩ := run_cons.mp hlast
    obtain rfl := Option.some.inj hlast
    have hops : wheelOps (acts ++ [a]) = wheelOps acts ++ a.op.toList := by
      rw [wheelOps, List.filterMap_append]
      cases a <;> rfl
    have hkeeps : a.op = none → wheelOps (acts ++ [a]) = wheelOps acts := by
      intro ha
      rw [hops, ha, Option.toList_none, List.append_nil]
    rcases step_cases ht with ⟨rfl, rfl⟩ | ⟨rfl, -, rfl⟩ | ⟨op, rfl, ⟨rfl, -, rfl⟩ | ⟨-, rfl⟩⟩
    · rw [hkeeps rfl]
      exact ih (s := u) hu
    · rw [hkeeps rfl]
      exact ih (s := u) hu
    · rw [hops, ClockAct.op, Option.toList_some, history_concat, ← ih hu]
    · rw [hops, ClockAct.op, Option.toList_some, history_concat, ← ih hu]

/-- **When a timer goes, on the clock.**  In every run of the clock, the wheel and `OnTime` in which
the count fits an `int` whenever it is read, take a timer with a timeout `T` below the sixty slots
that is started in state `s₀` and not again up to state `s`.  It is there as long as no more than
`T` seconds have passed, less those the wheel was behind when it was started and more those it is
behind now; then its callback has run, once, unless it was cancelled. -/
theorem on_time {before behind : List ClockAct} {op : WheelOp} {id timeout : Nat}
    {s₀ s : TimerClock}
    (hr₀ : Lib.run step start before = some s₀)
    (hr : Lib.run step s₀ (.wheel op :: behind) = some s)
    (hshort : Each step Short start (before ++ .wheel op :: behind))
    (hlegal : LegalFor id (wheelOps (before ++ .wheel op :: behind)))
    (hstarts : Starts (wheelOps before) id timeout op)
    (hlast : LastStart (wheelOps before ++ [op]) (wheelOps behind) id) :
    (s.run.wheel.hasTimer id = true ↔ s.seconds + s₀.lag ≤ s₀.seconds + timeout + s.lag) ∧
      (¬ Canceled (wheelOps (before ++ .wheel op :: behind)) id →
        (s.run.firedAt id).length =
          if s.seconds + s₀.lag ≤ s₀.seconds + timeout + s.lag then 0 else 1) := by
  have hops : wheelOps (before ++ .wheel op :: behind) = wheelOps before ++
      op :: wheelOps behind := by
    rw [wheelOps, List.filterMap_append]
    rfl
  have hall : Lib.run step start (before ++ .wheel op :: behind) = some s :=
    run_append.mpr ⟨s₀, hr₀, hr⟩
  have hstep : s.InStep :=
    run_invariant (fun _ _ _ hi ha ht => InStep.step hi ha ht) inStep_start hshort hall
  have hstep₀ : s₀.InStep :=
    run_invariant (fun _ _ _ hi ha ht => InStep.step hi ha ht) inStep_start hshort.left hr₀
  -- what has passed on the wheel
  have hticks : s.run.ticks = s₀.run.ticks + ticks (wheelOps behind) := by
    rw [run_wheel hall, run_wheel hr₀, ticks_history, ticks_history, hops, hstarts.ticks]
  have hwhen : ticks (wheelOps behind) ≤ timeout ↔
      s.seconds + s₀.lag ≤ s₀.seconds + timeout + s.lag := by
    unfold InStep at hstep hstep₀
    omega
  have hlife := history_life hlegal
  rw [← run_wheel hall] at hlife
  rw [hops] at hlegal
  obtain ⟨canceled, hb⟩ := lifeOf_behind hlegal hstarts hlast
  rw [hops, hb] at hlife
  constructor
  · rw [hlife.hasTimer_iff, ← hwhen]
    split <;> simp_all [Life.Waits]
  · intro hc
    rw [hops, canceled_iff_marked hlegal, hb] at hc
    rw [hlife.fired]
    by_cases hle : ticks (wheelOps behind) ≤ timeout
    · rw [if_pos hle, if_pos (hwhen.mp hle)]
      rfl
    · rw [if_neg hle] at hc ⊢
      rw [if_neg (mt hwhen.mpr hle)]
      cases canceled
      · rfl
      · exact absurd rfl hc

/-- A timer of two seconds that is started when the loop has slept through three goes with the
`OnTime` that follows, in the same second. -/
theorem on_time_asleep : ∃ s, Lib.run step start ([.expires, .expires, .expires, .wheel (.add 7 2),
      .onTime, .wheel .tick, .wheel .tick, .wheel .tick]) = some s ∧
    s.seconds = 3 ∧ s.run.wheel.hasTimer 7 = false ∧ (s.run.firedAt 7).length = 1 := by
  let before : List ClockAct := [.expires, .expires, .expires]
  let behind : List ClockAct := [.onTime, .wheel .tick, .wheel .tick, .wheel .tick]
  have hr₀ : Lib.run step start before = some ⟨.start, 3, 3, 0⟩ := rfl
  have hrun : (Lib.run step ⟨.start, 3, 3, 0⟩ (.wheel (.add 7 2) :: behind)).map
      (fun s => (s.seconds, s.lag)) = some (3, 0) := by decide +kernel
  obtain ⟨s, hr, hp⟩ := Option.map_eq_some_iff.mp hrun
  simp only [Prod.mk.injEq] at hp
  have hops : wheelOps (before ++ .wheel (.add 7 2) :: behind) = [.add 7 2, .tick, .tick, .tick] :=
    rfl
  have hlegal : LegalFor 7 (wheelOps (before ++ .wheel (.add 7 2) :: behind)) := by
    rw [hops]
    refine ⟨by decide, fun timeout h => ?_⟩
    simp only [List.mem_cons, WheelOp.add.injEq, reduceCtorEq, List.not_mem_nil, or_false] at h
    omega
  have hlast : LastStart (wheelOps before ++ [.add 7 2]) (wheelOps behind) 7 := by
    intro mid rest h
    have hmem : WheelOp.refresh 7 ∈ wheelOps behind := by rw [h]; simp
    exact absurd hmem (by decide)
  have hkept : ¬ Canceled (wheelOps (before ++ .wheel (.add 7 2) :: behind)) 7 := by
    rintro ⟨l, r, h, -⟩
    have hmem : WheelOp.cancel 7 ∈ wheelOps (before ++ .wheel (.add 7 2) :: behind) := by
      rw [h]; simp
    exact absurd hmem (by decide)
  have hgoes := on_time hr₀ hr (by decide +kernel) hlegal .add hlast
  have hlag : (⟨.start, 3, 3, 0⟩ : TimerClock).lag = 3 := rfl
  rw [hp.1, hp.2, hlag] at hgoes
  refine ⟨s, run_append.mpr ⟨_, hr₀, hr⟩, hp.1, ?_, hgoes.2 hkept⟩
  exact Bool.eq_false_iff.mpr fun h => absurd (hgoes.1.mp h) (by decide)

end TimerClock

end Flux
