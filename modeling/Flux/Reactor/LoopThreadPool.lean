import Flux.Reactor.TcpServer
import Mathlib.Data.Int.CardIntervalMod

/-!
# `LoopThreadPool`

The loops connections are given to, one after the other.  `Create` starts as many threads as
`SetThreadCount` asked for, and `NextLoop` moves an index round them; it reads the count as it is
then, so a count that is changed behind `Create` takes the index to places where there is no loop.

* `LoopThreadPool.Ready`: the count is that of the loops, and the index is one of them.  `NextLoop`
  keeps it, and the `k`-th call from there answers the loop `k` places on.
* `LoopThreadPool.window_even`: in any stretch of calls every loop comes up equally often, up to
  one.
* `TcpServer.connections_even`: so the connections of a server are spread over its loops in every
  state of every run, whatever else happens.
-/

namespace Flux

open Lib

structure LoopThreadPool (L : Type*) where
  threadCount : Int
  nextIdx : Int
  baseloop : L
  /-- `_loops`; the loop of a thread is there when `GetLoop` has returned. -/
  loops : List L

namespace LoopThreadPool

variable {L : Type*}

def new (baseloop : L) : LoopThreadPool L where
  threadCount := 0
  nextIdx := 0
  baseloop := baseloop
  loops := []

def setThreadCount (p : LoopThreadPool L) (count : Int) : LoopThreadPool L :=
  { p with threadCount := count }

/-- `Create`; `start i` is the loop of the `i`-th thread it starts. -/
def create (p : LoopThreadPool L) (start : Nat → L) : LoopThreadPool L :=
  if 0 < p.threadCount then { p with loops := (List.range p.threadCount.toNat).map start } else p

/-- `NextLoop`.  `none` is an index outside `_loops`. -/
def nextLoop (p : LoopThreadPool L) : Option (L × LoopThreadPool L) :=
  if p.threadCount = 0 then some (p.baseloop, p)
  else
    let idx := (p.nextIdx + 1).tmod p.threadCount
    if idx < 0 then none else (p.loops[idx.toNat]?).map fun l => (l, { p with nextIdx := idx })

/-- So many calls of `NextLoop`, with what they answer. -/
def picks (p : LoopThreadPool L) : Nat → Option (List L × LoopThreadPool L)
  | 0 => some ([], p)
  | n + 1 => p.nextLoop.bind fun r => (r.2.picks n).map fun q => (r.1 :: q.1, q.2)

theorem picks_concat {p q r : LoopThreadPool L} {ls : List L} {l : L} {n : Nat}
    (h : p.picks n = some (ls, q)) (hl : q.nextLoop = some (l, r)) :
    p.picks (n + 1) = some (ls ++ [l], r) := by
  induction n generalizing p ls with
  | zero =>
    obtain ⟨rfl, rfl⟩ := Prod.mk.inj (Option.some.inj h)
    simp [picks, hl]
  | succ n ih =>
    obtain ⟨x, hx, h⟩ := Option.bind_eq_some_iff.mp h
    obtain ⟨y, hy, heq⟩ := Option.map_eq_some_iff.mp h
    obtain ⟨rfl, rfl⟩ := Prod.mk.inj heq
    rw [picks, hx, Option.bind_some, ih hy, Option.map_some]
    rfl

/-- Without threads it is the base loop every time. -/
theorem picks_zero_threads (p : LoopThreadPool L) (n : Nat) (h : p.threadCount = 0) :
    p.picks n = some (List.replicate n p.baseloop, p) := by
  induction n with
  | zero => rfl
  | succ n ih =>
    rw [picks, nextLoop, if_pos h, Option.bind_some, ih, Option.map_some]
    rfl

/-! ### A pool that is ready -/

/-- There is a loop for each count, and the index is one of them. -/
structure Ready (p : LoopThreadPool L) : Prop where
  count : p.threadCount = p.loops.length
  some_loop : 0 < p.loops.length
  low : 0 ≤ p.nextIdx
  high : p.nextIdx < p.loops.length

/-- What a server does before it starts: the count is set, any number of times, and the threads are
started. -/
def setUp (baseloop : L) (counts : List Int) (start : Nat → L) : LoopThreadPool L :=
  (counts.foldl setThreadCount (new baseloop)).create start

variable {p : LoopThreadPool L}

theorem setUp_eq {baseloop : L} {counts : List Int} {start : Nat → L} {count : Nat}
    (hcount : counts.getLast? = some (count : Int)) (hpos : 0 < count) :
    setUp baseloop counts start = ⟨count, 0, baseloop, (List.range count).map start⟩ := by
  have hfold : ∀ (counts : List Int) (p : LoopThreadPool L),
      counts.foldl setThreadCount p =
        { p with threadCount := counts.getLast?.getD p.threadCount } := by
    intro counts
    induction counts with
    | nil => exact fun _ => rfl
    | cons c counts ih =>
      intro p
      rw [List.foldl_cons, ih, List.getLast?_cons]
      rfl
  rw [setUp, hfold, hcount, create]
  simp [new, hpos]

theorem ready_setUp {baseloop : L} {counts : List Int} {start : Nat → L} {count : Nat}
    (hcount : counts.getLast? = some (count : Int)) (hpos : 0 < count) :
    (setUp baseloop counts start).Ready := by
  rw [setUp_eq hcount hpos]
  constructor <;> simp [hpos]

/-- The loop so many places behind the index. -/
def ahead (p : LoopThreadPool L) (k : Nat) : Nat := (p.nextIdx.toNat + k) % p.loops.length

/-- **A call of `NextLoop`** moves the index one place on, and answers the loop there. -/
theorem Ready.nextLoop (h : p.Ready) : ∃ l, p.loops[p.ahead 1]? = some l ∧
    p.nextLoop = some (l, { p with nextIdx := p.ahead 1 }) ∧
    Ready { p with nextIdx := p.ahead 1 } := by
  have hlt : p.ahead 1 < p.loops.length := Nat.mod_lt _ h.some_loop
  have hidx : (p.nextIdx + 1).tmod p.threadCount = p.ahead 1 := by
    have hlow := h.low
    rw [h.count, Int.tmod_eq_emod_of_nonneg (by omega), ahead, Int.natCast_mod, Int.natCast_add,
      Int.toNat_of_nonneg hlow, Int.natCast_one]
  have hne : p.threadCount ≠ 0 := by
    have := h.some_loop
    rw [h.count]
    omega
  refine ⟨p.loops[p.ahead 1], List.getElem?_eq_getElem hlt, ?_, h.count, h.some_loop,
    Int.natCast_nonneg _, ?_⟩
  · rw [LoopThreadPool.nextLoop, if_neg hne]
    simp only [hidx]
    rw [if_neg (by omega), Int.toNat_natCast, List.getElem?_eq_getElem hlt, Option.map_some]
  · exact Int.ofNat_lt.mpr hlt

/-- **The calls behind each other** answer the loops in turn. -/
theorem Ready.picks (h : p.Ready) (n : Nat) :
    ∃ ls, p.picks n = some (ls, { p with nextIdx := p.ahead n }) ∧
    Ready { p with nextIdx := p.ahead n } ∧
    ls.map some = (List.range n).map fun k => p.loops[p.ahead (k + 1)]? := by
  induction n generalizing p with
  | zero =>
    have hsame : (p.ahead 0 : Int) = p.nextIdx := by
      have hlow := h.low
      have hhigh := h.high
      rw [ahead, Nat.add_zero, Nat.mod_eq_of_lt (by omega)]
      omega
    refine ⟨[], by rw [hsame]; rfl, by rwa [hsame], rfl⟩
  | succ n ih =>
    obtain ⟨l, hl, hnext, hready⟩ := h.nextLoop
    obtain ⟨ls, hls, hready', hmap⟩ := ih hready
    have hahead : ∀ k, ahead { p with nextIdx := p.ahead 1 } k = p.ahead (k + 1) := by
      intro k
      simp only [ahead, Int.toNat_natCast]
      rw [Nat.mod_add_mod, Nat.add_assoc, Nat.add_comm 1]
    rw [hahead] at hls hready'
    refine ⟨l :: ls, by rw [LoopThreadPool.picks, hnext, Option.bind_some, hls, Option.map_some],
      hready', ?_⟩
    rw [List.map_cons, hmap, List.range_succ_eq_map, List.map_cons, List.map_map, hl]
    simp only [hahead]
    rfl

/-! ### Turns -/

/-- **In `n` turns round `c` places** each place has its turn `n / c` times, or once more. -/
theorem turns_even {c : Nat} (hc : 0 < c) (a n : Nat) {i : Nat} (hi : i < c) :
    n / c ≤ ((List.range n).map fun k => (a + (k + 1)) % c).count i ∧
      ((List.range n).map fun k => (a + (k + 1)) % c).count i ≤ n / c + 1 := by
  -- the turns of `i` are those congruent to one number
  have hturn : ∀ k, (a + (k + 1)) % c = i ↔ k ≡ i + (c - (a + 1) % c) [MOD c] := by
    intro k
    have hle : (a + 1) % c ≤ c := (Nat.mod_lt _ hc).le
    have hzero : a + 1 + (c - (a + 1) % c) ≡ 0 [MOD c] := by
      rw [Nat.modEq_zero_iff_dvd, ← Nat.add_sub_assoc hle, Nat.add_comm (a + 1),
        Nat.add_sub_assoc (Nat.mod_le _ _)]
      exact Nat.dvd_add (Nat.dvd_refl c) (Nat.dvd_sub_mod (a + 1))
    have hmod : (a + (k + 1)) % c = i ↔ a + (k + 1) ≡ i [MOD c] := by
      rw [Nat.ModEq, Nat.mod_eq_of_lt hi]
    rw [hmod]
    constructor
    · intro h
      have hadd := (h.add_right (c - (a + 1) % c)).symm
      have heq : a + (k + 1) + (c - (a + 1) % c) = k + (a + 1 + (c - (a + 1) % c)) := by omega
      rw [heq] at hadd
      exact (hadd.trans (hzero.add_left k)).symm
    · intro h
      have hadd := h.add_right (a + 1)
      have heq : i + (c - (a + 1) % c) + (a + 1) = i + (a + 1 + (c - (a + 1) % c)) := by omega
      rw [heq] at hadd
      have hk : k + (a + 1) = a + (k + 1) := by omega
      rw [hk] at hadd
      exact hadd.trans (hzero.add_left i)
  have hcount : ((List.range n).map fun k => (a + (k + 1)) % c).count i =
      Nat.count (· ≡ i + (c - (a + 1) % c) [MOD c]) n := by
    rw [List.count, List.countP_map, Nat.count]
    refine List.countP_congr fun k _ => ?_
    rw [Function.comp_apply, beq_iff_eq, decide_eq_true_eq]
    exact hturn k
  rw [hcount, Nat.count_modEq_card _ hc]
  split <;> omega

/-- A stretch of calls behind a set-up answers the loops that were created, in turn. -/
theorem setUp_picks (baseloop : L) (counts : List Int) (start : Nat → L) {count : Nat}
    (hcount : counts.getLast? = some (count : Int)) (hpos : 0 < count) (before n : Nat) :
    ∃ earlier p idx q, (setUp baseloop counts start).picks before = some (earlier, p) ∧
      p.picks n =
        some (((List.range n).map fun k => (idx + (k + 1)) % count).map start, q) := by
  have hset : (setUp baseloop counts start).Ready := ready_setUp hcount hpos
  obtain ⟨earlier, hearlier, hready, -⟩ := hset.picks before
  obtain ⟨window, hwindow, -, hmap⟩ := hready.picks n
  generalize hidx : (setUp baseloop counts start).ahead before = idx at hmap
  rw [setUp_eq hcount hpos] at hmap
  have heq : window = ((List.range n).map fun k => (idx + (k + 1)) % count).map start := by
    refine List.map_injective_iff.mpr (Option.some_injective L) ?_
    rw [hmap, List.map_map, List.map_map]
    refine List.map_congr_left fun k _ => ?_
    simp [ahead, Nat.mod_lt _ hpos]
  exact ⟨earlier, _, idx, _, hearlier, heq ▸ hwindow⟩

/-- **Every stretch of calls is even.**  Behind a set-up with `count` threads, wherever the stretch
begins and however long it is, it answers only loops that were created, and each of them equally
often, up to one. -/
theorem window_even [DecidableEq L] (baseloop : L) (counts : List Int) (start : Nat → L)
    (hstart : Function.Injective start) (count : Nat)
    (hcount : counts.getLast? = some (count : Int)) (hpos : 0 < count) (before n : Nat) :
    ∃ earlier p window q, (setUp baseloop counts start).picks before = some (earlier, p) ∧
      p.picks n = some (window, q) ∧ window.length = n ∧
      (∀ l ∈ window, ∃ i < count, l = start i) ∧
      ∀ i < count, n / count ≤ window.count (start i) ∧
        window.count (start i) ≤ n / count + 1 := by
  obtain ⟨earlier, p, idx, q, hearlier, hwindow⟩ :=
    setUp_picks baseloop counts start hcount hpos before n
  refine ⟨earlier, p, _, q, hearlier, hwindow, by simp, ?_, fun i hi => ?_⟩
  · intro l hl
    obtain ⟨i, hi, rfl⟩ := List.mem_map.mp hl
    obtain ⟨k, -, rfl⟩ := List.mem_map.mp hi
    exact ⟨_, Nat.mod_lt _ hpos, rfl⟩
  · rw [List.count_map_of_injective _ _ hstart]
    exact turns_even hpos idx n hi

/-- Five calls round two loops, behind three others. -/
theorem window_even_five : ∃ earlier p window q,
    (setUp 9 [4, 2] fun i => 10 * i).picks 3 = some (earlier, p) ∧
      p.picks 5 = some (window, q) ∧ window.length = 5 ∧
      (∀ l ∈ window, ∃ i < 2, l = 10 * i) ∧
      ∀ i < 2, 5 / 2 ≤ window.count (10 * i) ∧ window.count (10 * i) ≤ 5 / 2 + 1 :=
  window_even 9 [4, 2] (fun i => 10 * i) (fun i j h => by simpa using h) 2 rfl (by decide) 3 5

end LoopThreadPool

/-! ### The connections of a server -/

namespace TcpServer

open LoopThreadPool

/-- The pool of the server, as `Start` leaves it to `NewConnection`. -/
def pool (s : TcpServer) : LoopThreadPool LoopId where
  threadCount := s.settings.threadCount
  nextIdx := s.nextIdx
  baseloop := .base
  loops := (List.range s.settings.threadCount).map .worker

variable {s t : TcpServer} {hasTimer : Bool}

theorem nextLoop_pool (s : TcpServer) :
    s.pool.nextLoop = some (s.nextLoop.1, { s.pool with nextIdx := s.nextLoop.2 }) := by
  unfold TcpServer.nextLoop LoopThreadPool.nextLoop pool
  by_cases hc : s.settings.threadCount = 0
  · simp [hc]
  · have hlt := Nat.mod_lt (s.nextIdx + 1) (Nat.pos_of_ne_zero hc)
    have hidx : ((s.nextIdx : Int) + 1).tmod s.settings.threadCount =
        ((s.nextIdx + 1) % s.settings.threadCount : Nat) := by
      rw [← Int.natCast_one, ← Int.natCast_add, Int.ofNat_tmod]
    simp only [hidx]
    rw [if_neg (by omega), if_neg (by omega), Int.toNat_natCast]
    simp [hc, hlt]

/-- The loops of the connections ever made, in their order. -/
def loopsMade (s : TcpServer) : List LoopId := s.made.map Member.loop

def Spread (s : TcpServer) : Prop :=
  (setUp .base [(s.settings.threadCount : Int)] .worker).picks s.made.length =
    some (s.loopsMade, s.pool)

theorem spread_new (settings : Settings) : (new settings).Spread := by
  have hpool : setUp LoopId.base [(settings.threadCount : Int)] .worker = (new settings).pool := by
    rcases Nat.eq_zero_or_pos settings.threadCount with hc | hc
    · simp [setUp, setThreadCount, create, LoopThreadPool.new, pool, TcpServer.new, hc]
    · rw [setUp_eq (List.getLast?_singleton) hc]
      rfl
  show (setUp LoopId.base [(settings.threadCount : Int)] .worker).picks 0 = _
  rw [hpool]
  rfl

/-- What `Spread` is about stays. -/
structure SameLoops (s t : TcpServer) : Prop where
  settings : t.settings = s.settings
  nextIdx : t.nextIdx = s.nextIdx
  loops : t.loopsMade = s.loopsMade

theorem SameLoops.trans {u : TcpServer} (h : SameLoops s t) (h' : SameLoops t u) : SameLoops s u :=
  ⟨h'.settings.trans h.settings, h'.nextIdx.trans h.nextIdx, h'.loops.trans h.loops⟩

theorem Spread.same (h : s.Spread) (hsame : SameLoops s t) : t.Spread := by
  have hlen : t.made.length = s.made.length := by
    simpa [loopsMade] using congrArg List.length hsame.loops
  have hpool : t.pool = s.pool := by rw [pool, pool, hsame.settings, hsame.nextIdx]
  rw [Spread, hlen, hsame.settings, hsame.loops, hpool]
  exact h

theorem sameLoops_stepped {k : Nat} {m : Member} (hm : s.made[k]? = some m) (c : ConnState) :
    SameLoops s (s.stepped k m c) := by
  refine ⟨rfl, rfl, ?_⟩
  obtain ⟨hk, rfl⟩ := List.getElem?_eq_some_iff.mp hm
  have hk' : k < s.loopsMade.length := by simpa [loopsMade] using hk
  have hloop : s.made[k].loop = s.loopsMade[k] := by simp [loopsMade]
  rw [loopsMade, stepped, List.map_set]
  show s.loopsMade.set k s.made[k].loop = s.loopsMade
  rw [hloop, List.set_getElem_self]

theorem sameLoops_exec {task : Task} (hs : s.Wired) (htask : ∀ k, task ≠ .removeConnection k)
    (h : s.exec hasTimer task = some t) : SameLoops s t := by
  rcases exec_cases hs htask h with ⟨-, rfl⟩ | ⟨k, op, m, c, -, hm, -, rfl⟩
  · exact ⟨rfl, rfl, rfl⟩
  · exact sameLoops_stepped hm c

theorem sameLoops_runInLoop {thread : Option LoopId} {loop : LoopId} {task : Task} (hs : s.Wired)
    (htask : ∀ k, task ≠ .removeConnection k)
    (h : s.runInLoop thread loop task hasTimer = some t) : SameLoops s t := by
  unfold TcpServer.runInLoop at h
  split at h
  · exact sameLoops_exec hs htask h
  · obtain rfl := Option.some.inj h
    exact ⟨rfl, rfl, rfl⟩

theorem sameLoops_inserted (s : TcpServer) (k : Nat) : SameLoops s (s.inserted k) := by
  unfold inserted insert
  split <;> exact ⟨rfl, rfl, rfl⟩

/-- **One step**: only a new connection calls `NextLoop`. -/
theorem step_loops {a : ServerAct} (hs : s.Wired) (hstep : s.step a = some t) :
    SameLoops s t ∨ ∃ fd, a = .accept fd ∧ t = s.newConnection fd := by
  cases step_does hs hstep with
  | accept => exact Or.inr ⟨_, rfl, rfl⟩
  | @goesOn k stage stage' loop op hasTimer _ acc _ ran =>
    have hsame : SameLoops s { s with accepting := some (k, stage') } := ⟨rfl, rfl, rfl⟩
    exact Or.inl (hsame.trans (sameLoops_runInLoop (hs.accepting acc) (by simp) ran))
  | inserts => exact Or.inl (sameLoops_inserted s _)
  | call ran | addTimerTask ran => exact Or.inl (sameLoops_runInLoop hs (by simp) ran)
  | @runTask loop task rest _ _ queued ran =>
    obtain ⟨hpop, htask⟩ := hs.dequeue queued
    have hsame : SameLoops s (s.dequeue loop rest) := ⟨rfl, rfl, rfl⟩
    exact Or.inl (hsame.trans (sameLoops_exec hpop htask ran))
  | conn made stepped => exact Or.inl (sameLoops_stepped made _)

/-- And the connection gets the loop that is answered. -/
theorem Spread.step {a : ServerAct} (hs : s.Wired) (h : s.Spread) (hstep : s.step a = some t) :
    t.Spread ∧ t.settings = s.settings := by
  rcases step_loops hs hstep with hsame | ⟨fd, -, rfl⟩
  · exact ⟨h.same hsame, hsame.settings⟩
  · have hloops : (s.newConnection fd).loopsMade = s.loopsMade ++ [s.nextLoop.1] := List.map_append
    refine ⟨?_, rfl⟩
    rw [Spread, hloops, newConnection, List.length_append]
    exact picks_concat h (nextLoop_pool s)

/-- **The connections of a server are spread evenly over its loops.**  In every state of every run,
with `n` threads each of their loops has had the same share of the connections made so far, up to
one; with none the base loop has them all. -/
theorem connections_even (settings : Settings) (acts : List ServerAct) (s : TcpServer)
    (hr : run step (new settings) acts = some s) :
    (settings.threadCount = 0 → ∀ m ∈ s.made, m.loop = .base) ∧
    ∀ i < settings.threadCount,
      s.made.length / settings.threadCount ≤ s.loopsMade.count (.worker i) ∧
      s.loopsMade.count (.worker i) ≤ s.made.length / settings.threadCount + 1 := by
  have hinv : s.Wired ∧ s.Spread ∧ s.settings = settings :=
    run_preserves (I := fun s => s.Wired ∧ s.Spread ∧ s.settings = settings)
      (fun _ _ _ hi h =>
        ⟨hi.1.step h, (hi.2.1.step hi.1 h).1, (hi.2.1.step hi.1 h).2.trans hi.2.2⟩)
      ⟨wired_new settings, spread_new settings, rfl⟩ hr
  obtain ⟨-, hspread, hset⟩ := hinv
  rw [Spread, hset] at hspread
  constructor
  · intro hc m hm
    rw [hc, picks_zero_threads _ _ rfl] at hspread
    have hloops := (Prod.mk.inj (Option.some.inj hspread)).1
    have hmem : m.loop ∈ s.loopsMade := List.mem_map_of_mem hm
    rw [← hloops] at hmem
    exact List.eq_of_mem_replicate hmem
  · intro i hi
    have hpos := Nat.zero_lt_of_lt hi
    obtain ⟨earlier, p, idx, q, hearlier, hwindow⟩ := setUp_picks LoopId.base
      [(settings.threadCount : Int)] LoopId.worker List.getLast?_singleton hpos 0 s.made.length
    obtain ⟨-, rfl⟩ := Prod.mk.inj (Option.some.inj hearlier)
    have hloops := (Prod.mk.inj (Option.some.inj (hspread.symm.trans hwindow))).1
    rw [hloops, List.count_map_of_injective _ _ fun _ _ h => LoopId.worker.inj h]
    exact turns_even hpos idx s.made.length hi

/-- Three connections on two loops, one of them closed in between. -/
theorem connections_even_two :
    ∃ acts s, run step (new ⟨2, none, true, true, false⟩) acts = some s ∧ s.made.length = 3 ∧
      s.loopsMade.count (.worker 0) = 1 ∧ 3 / 2 ≤ s.loopsMade.count (.worker 1) ∧
      s.loopsMade.count (.worker 1) ≤ 3 / 2 + 1 := by
  let acts : List ServerAct :=
    [.accept 5, .advance false, .advance false, .accept 6, .advance false, .advance false,
      .runTask (.worker 1) false, .call none 0 .release false, .runTask (.worker 1) false,
      .accept 5,
      .advance false, .advance false]
  have hrun : (run step (new ⟨2, none, true, true, false⟩) acts).map
      (fun s => (s.made.length, s.loopsMade.count (.worker 0))) = some (3, 1) := by
    decide +kernel
  obtain ⟨s, hs, hp⟩ := Option.map_eq_some_iff.mp hrun
  obtain ⟨hlen, hzero⟩ := Prod.mk.inj hp
  have heven := (connections_even ⟨2, none, true, true, false⟩ acts s hs).2 1 (by decide)
  rw [hlen] at heven
  exact ⟨acts, s, hs, hlen, hzero, heven⟩

end TcpServer

end Flux
