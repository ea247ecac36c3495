import Flux.Reactor.LoopThreadPool
import Mathlib.Data.List.Count

/-!
# The descriptors of a server

The server beside the descriptor table of its process.  `accept` opens a number that is free, which
may be one that was closed before; a connection closes its number when it is released.  Where the
number is not open any more, `close` fails, or it closes what somebody else has opened under it
since.

* `Process.step_exact`: a step opens and closes what it should.
* `Process.descriptors_exact`: in every state of every run no `close` has failed, and what is open
  is what the connections hold that are not released, each of them its own.
-/

namespace Flux

open Lib

/-- What a connection closed between two states of it. -/
def ConnState.closed (c c' : ConnState) : List Nat :=
  List.replicate ((c'.log.drop c.log.length).count .closeFd) c.conn.sockfd

def ServerAct.opened : ServerAct → Option Nat
  | accept fd => some fd
  | _ => none

/-- What a step of the server closed, connection by connection. -/
def TcpServer.closed (s t : TcpServer) : List Nat :=
  (s.made.zip t.made).flatMap fun p => p.1.state.closed p.2.state

/-- The server, the connection behind each number that is open, and the calls of `close` that
failed. -/
structure Process where
  server : TcpServer
  files : Nat → Option Nat
  failed : Nat

namespace Process

def new (settings : Settings) : Process := ⟨.new settings, fun _ => none, 0⟩

def close (p : Process) (fd : Nat) : Process :=
  if (p.files fd).isSome then { p with files := Function.update p.files fd none }
  else { p with failed := p.failed + 1 }

def opening (p : Process) : Option Nat → Nat → Option Nat
  | none => p.files
  | some fd => Function.update p.files fd (some p.server.made.length)

/-- The kernel gives out free numbers only. -/
def step (p : Process) (a : ServerAct) : Option Process :=
  if ∀ fd ∈ a.opened, p.files fd = none then
    (p.server.step a).map fun t =>
      (p.server.closed t).foldl close { p with server := t, files := p.opening a.opened }
  else none

end Process

/-! ### One connection -/

/-- **The socket is closed by the call that closes it**, and by no other. -/
theorem ConnState.step_closes {c c' : ConnState} {i : Input} (h : c.step i = some c') :
    c'.conn.sockfd = c.conn.sockfd ∧
      (c.closed c' = [] ∧ c'.conn.socketOpen = c.conn.socketOpen ∨
        c.closed c' = [c.conn.sockfd] ∧ c.conn.socketOpen = true ∧ c'.conn.socketOpen = false) := by
  obtain ⟨seg, rest, e, -, he, rfl⟩ := step_eq_some.mp h
  have hclosed : c.closed ⟨e.conn, e.frames ++ rest, c.log ++ e.obs⟩ =
      List.replicate (e.obs.count .closeFd) c.conn.sockfd := by
    rw [closed, List.drop_left]
  have hplain : ∀ {obs : List Obs}, (∀ o ∈ obs, o.plain = true) → obs.count .closeFd = 0 :=
    fun h => List.count_eq_zero.mpr (not_mem_of_plain h rfl)
  rw [hclosed]
  cases Segment.exec_effect he with
  | inert is =>
    rw [hplain is.plain]
    exact ⟨is.same.sockfd, Or.inl ⟨rfl, is.same.socketOpen⟩⟩
  | established statu plain | shutdown plain =>
    have hzero := hplain plain
    exact ⟨rfl, Or.inl ⟨by simp [hzero], rfl⟩⟩
  | @release _ closeFd tail closes plain =>
    have hzero := hplain plain
    rw [Connection.releaseInLoop_conn]
    refine ⟨rfl, ?_⟩
    cases ho : c.conn.socketOpen with
    | false => exact Or.inl ⟨by simp [closes, ho, hzero], rfl⟩
    | true => exact Or.inr ⟨by simp [closes, ho, hzero], rfl, rfl⟩
  | _ => exact ⟨rfl, Or.inl ⟨by simp, rfl⟩⟩

theorem ConnState.closed_self (c : ConnState) : c.closed c = [] := by
  rw [closed, List.drop_length]
  rfl

namespace TcpServer

variable {s t : TcpServer} {k : Nat}

/-! ### The server -/

def held (s : TcpServer) (k : Nat) : Option Nat :=
  (s.made[k]?).bind fun m => if m.state.conn.socketOpen then some m.state.conn.sockfd else none

/-- **What a step does to the connections**: it makes one, or at most one of them takes a step, by
itself or because it is called. -/
theorem step_made {a : ServerAct} (hs : s.Wired) (h : s.step a = some t) :
    (∃ fd, a = .accept fd ∧ t = s.newConnection fd) ∨ a.opened = none ∧ (t.made = s.made ∨
      ∃ k i m c, (a = .conn k i ∨ ∃ op, i.act = .call op) ∧ s.made[k]? = some m ∧
        m.state.step i = some c ∧ t.made = s.made.set k ⟨m.loop, c⟩) := by
  have hexec : ∀ {s' : TcpServer} {hasTimer task}, s'.Wired → (∀ k, task ≠ .removeConnection k) →
      s'.exec hasTimer task = some t → s'.made = s.made → t.made = s.made ∨
        ∃ k i m c, (a = .conn k i ∨ ∃ op, i.act = .call op) ∧ s.made[k]? = some m ∧
          m.state.step i = some c ∧ t.made = s.made.set k ⟨m.loop, c⟩ := by
    intro s' hasTimer task hs' htask ht hmade
    rcases exec_cases hs' htask ht with ⟨-, rfl⟩ | ⟨k, op, m, c, -, hm, hc, rfl⟩
    · exact Or.inl hmade
    · exact Or.inr ⟨k, _, m, c, Or.inr ⟨op, rfl⟩, hmade ▸ hm, hc, by rw [stepped, hmade]⟩
  have hrun : ∀ {s' : TcpServer} {thread loop hasTimer task}, s'.Wired →
      (∀ k, task ≠ .removeConnection k) → s'.runInLoop thread loop task hasTimer = some t →
      s'.made = s.made → t.made = s.made ∨
        ∃ k i m c, (a = .conn k i ∨ ∃ op, i.act = .call op) ∧ s.made[k]? = some m ∧
          m.state.step i = some c ∧ t.made = s.made.set k ⟨m.loop, c⟩ := by
    intro s' thread loop hasTimer task hs' htask ht hmade
    unfold TcpServer.runInLoop at ht
    split at ht
    · exact hexec hs' htask ht hmade
    · obtain rfl := Option.some.inj ht
      exact Or.inl hmade
  cases step_does hs h with
  | accept => exact Or.inl ⟨_, rfl, rfl⟩
  | goesOn acc _ ran => exact Or.inr ⟨rfl, hrun (hs.accepting acc) (by simp) ran rfl⟩
  | inserts => exact Or.inr ⟨rfl, Or.inl (insert_frame _ _ _).1⟩
  | call ran | addTimerTask ran => exact Or.inr ⟨rfl, hrun hs (by simp) ran rfl⟩
  | runTask queued ran =>
    obtain ⟨hpop, htask⟩ := hs.dequeue queued
    exact Or.inr ⟨rfl, hexec hpop htask ran rfl⟩
  | conn hm hc => exact Or.inr ⟨rfl, Or.inr ⟨_, _, _, _, Or.inl rfl, hm, hc, rfl⟩⟩

/-- **What every connection keeps** holds of all of them.  Where its own acts have to meet a
condition, those of the server have to. -/
theorem each_made_of {P : ConnState → Prop} (ok : ConnState → Input → Prop)
    (hfresh : ∀ id fd callbacks, P (.fresh id fd callbacks))
    (hkeep : ∀ {c i c'}, P c → ok c i → ConnState.step c i = some c' → P c')
    (hcall : ∀ c op hasTimer, ok c ⟨.call op, hasTimer⟩) {a : ServerAct}
    (hok : ∀ {k i m}, a = .conn k i → s.made[k]? = some m → ok m.state i) (hs : s.Wired)
    (hall : ∀ {k : Nat} {m : Member}, s.made[k]? = some m → P m.state) (h : s.step a = some t) :
    ∀ {k : Nat} {m : Member}, t.made[k]? = some m → P m.state := by
  intro k m hm
  rcases step_made hs h with ⟨fd, rfl, rfl⟩ | ⟨-, hmade | ⟨j, i, x, c, hact, hx, hc, hmade⟩⟩
  · have hm' : (s.made ++ [_])[k]? = some m := hm
    rcases Nat.lt_trichotomy k s.made.length with hk | rfl | hk
    · rw [List.getElem?_append_left hk] at hm'
      exact hall hm'
    · rw [List.getElem?_concat_length] at hm'
      obtain rfl := Option.some.inj hm'
      exact hfresh _ _ _
    · rw [List.getElem?_eq_none (by simp; omega)] at hm'
      exact absurd hm' (by simp)
  · exact hall (hmade ▸ hm)
  · rw [hmade] at hm
    rcases (stepped_made hx).mp hm with ⟨-, rfl⟩ | ⟨-, hm⟩
    · refine hkeep (hall hx) ?_ hc
      rcases hact with ha | ⟨op, hop⟩
      · exact hok ha hx
      · obtain ⟨act, hasTimer⟩ := i
        obtain rfl : act = .call op := hop
        exact hcall _ _ _
    · exact hall hm

theorem each_made {P : ConnState → Prop} (hfresh : ∀ id fd callbacks, P (.fresh id fd callbacks))
    (hkeep : ∀ {c i c'}, P c → ConnState.step c i = some c' → P c') {a : ServerAct} (hs : s.Wired)
    (hall : ∀ {k : Nat} {m : Member}, s.made[k]? = some m → P m.state) (h : s.step a = some t) :
    ∀ {k : Nat} {m : Member}, t.made[k]? = some m → P m.state :=
  each_made_of (fun _ _ => True) hfresh (fun hp _ hc => hkeep hp hc) (fun _ _ _ => trivial)
    (fun _ _ => trivial) hs hall h

theorem closed_diagonal (l : List Member) :
    ((l.zip l).flatMap fun p => p.1.state.closed p.2.state) = [] := by
  induction l with
  | nil => rfl
  | cons m l ih =>
    rw [List.zip_cons_cons, List.flatMap_cons, ih, m.state.closed_self, List.nil_append]

/-- Connections that are new or take no step close nothing. -/
theorem closed_append {more : List Member} (h : t.made = s.made ++ more) : s.closed t = [] := by
  have hzip : s.made.zip (s.made ++ more) = s.made.zip s.made := by
    rw [List.zip_eq_zip_take_min, List.length_append, Nat.min_eq_left (Nat.le_add_right _ _),
      List.take_left, List.take_length]
  rw [closed, h, hzip, closed_diagonal]

theorem closed_set {m x : Member} (hm : s.made[k]? = some m) (h : t.made = s.made.set k x) :
    s.closed t = m.state.closed x.state := by
  obtain ⟨hk, rfl⟩ := List.getElem?_eq_some_iff.mp hm
  obtain ⟨l, l', hmade, -, hset⟩ : ∃ l l', s.made = l ++ s.made[k] :: l' ∧ l.length = k ∧
      s.made.set k x = l ++ x :: l' := List.exists_of_set hk
  generalize s.made[k] = m at hmade
  rw [closed, h, hset, hmade, List.zip_append rfl, List.zip_cons_cons, List.flatMap_append,
    List.flatMap_cons, closed_diagonal, closed_diagonal, List.nil_append, List.append_nil]

theorem held_set {m x : Member} {j : Nat} (hm : s.made[k]? = some m) (h : t.made = s.made.set k x) :
    t.held j = if j = k then (if x.state.conn.socketOpen then some x.state.conn.sockfd else none)
      else s.held j := by
  have hk : k < s.made.length := (List.getElem?_eq_some_iff.mp hm).1
  rw [held, h]
  by_cases hj : j = k
  · subst hj
    simp [hk]
  · simp [hj, List.getElem?_set_ne (Ne.symm hj), held]

theorem held_newConnection (s : TcpServer) (fd j : Nat) :
    (s.newConnection fd).held j = if j = s.made.length then some fd else s.held j := by
  show ((s.made ++ [_])[j]?).bind _ = _
  rcases Nat.lt_trichotomy j s.made.length with hj | rfl | hj
  · rw [List.getElem?_append_left hj, if_neg (by omega), held]
  · rw [List.getElem?_concat_length, if_pos rfl]
    rfl
  · rw [List.getElem?_eq_none (by simp; omega), if_neg (by omega), held,
      List.getElem?_eq_none (by omega)]

theorem held_length (s : TcpServer) : s.held s.made.length = none := by
  rw [held, List.getElem?_eq_none (Nat.le_refl _), Option.bind_none]

end TcpServer

/-! ### The process -/

namespace Process

variable {p q : Process}

/-- **The descriptors are exact**: no `close` failed, and open is what the connections hold. -/
structure Exact (p : Process) : Prop where
  wired : p.server.Wired
  coherent : ∀ {k : Nat} {m : Member}, p.server.made[k]? = some m → m.state.Coherent
  failed : p.failed = 0
  files : ∀ fd k, p.files fd = some k ↔ p.server.held k = some fd

theorem exact_new (settings : Settings) : (new settings).Exact where
  wired := TcpServer.wired_new settings
  coherent h := absurd h (by simp [new, TcpServer.new])
  failed := rfl
  files fd k := by simp [new, TcpServer.held, TcpServer.new]

def Matches (files : Nat → Option Nat) (s : TcpServer) : Prop :=
  ∀ fd k, files fd = some k ↔ s.held k = some fd

theorem Exact.opening {fd : Nat} (h : p.Exact) (hfree : p.files fd = none) :
    Matches (p.opening (some fd)) (p.server.newConnection fd) := by
  intro fd' k
  show Function.update p.files fd (some p.server.made.length) fd' = some k ↔ _
  rw [TcpServer.held_newConnection]
  by_cases hk : k = p.server.made.length
  · subst hk
    by_cases hfd : fd' = fd
    · simp [hfd]
    · rw [Function.update_of_ne hfd, if_pos rfl, h.files, TcpServer.held_length]
      simp [Ne.symm hfd]
  · rw [if_neg hk]
    by_cases hfd : fd' = fd
    · subst hfd
      rw [Function.update_self, ← h.files, hfree]
      simp [Ne.symm hk]
    · rw [Function.update_of_ne hfd, h.files]

theorem Exact.close {t : TcpServer} {fd k : Nat} (h : p.Exact) (hk : p.server.held k = some fd)
    (hheld : ∀ j, t.held j = if j = k then none else p.server.held j) :
    Process.close { p with server := t } fd = ⟨t, Function.update p.files fd none, p.failed⟩ ∧
      Matches (Function.update p.files fd none) t := by
  have hopen : p.files fd = some k := (h.files fd k).mpr hk
  refine ⟨by rw [Process.close, if_pos (by simp [hopen])], ?_⟩
  intro fd' j
  show Function.update p.files fd none fd' = some j ↔ _
  rw [hheld]
  by_cases hj : j = k
  · subst hj
    by_cases hfd : fd' = fd
    · simp [hfd]
    · rw [Function.update_of_ne hfd, h.files, hk]
      simp [Ne.symm hfd]
  · rw [if_neg hj]
    by_cases hfd : fd' = fd
    · subst hfd
      rw [Function.update_self, ← h.files, hopen]
      simp [Ne.symm hj]
    · rw [Function.update_of_ne hfd, h.files]

/-- **One step** opens and closes what it should. -/
theorem step_exact {a : ServerAct} (h : p.Exact) (hstep : p.step a = some q) : q.Exact := by
  unfold Process.step at hstep
  split at hstep
  · rename_i hfree
    obtain ⟨t, ht, rfl⟩ := Option.map_eq_some_iff.mp hstep
    have hw := h.wired.step ht
    have hcoh : ∀ {k : Nat} {m : Member}, t.made[k]? = some m → m.state.Coherent :=
      TcpServer.each_made ConnState.coherent_fresh ConnState.Coherent.step h.wired h.coherent ht
    rcases TcpServer.step_made h.wired ht with ⟨fd, rfl, rfl⟩ |
      ⟨hopened, hmade | ⟨k, i, m, c, -, hm, hc, hmade⟩⟩
    · have hnil : p.server.closed (p.server.newConnection fd) = [] :=
        TcpServer.closed_append (show _ = p.server.made ++ _ from rfl)
      rw [hnil]
      exact ⟨hw, hcoh, h.failed, h.opening (hfree fd rfl)⟩
    · rw [TcpServer.closed_append (hmade.trans (List.append_nil _).symm), hopened]
      refine ⟨hw, hcoh, h.failed, fun fd k => ?_⟩
      show p.files fd = some k ↔ t.held k = some fd
      rw [h.files, TcpServer.held, TcpServer.held, hmade]
    · have hheld : ∀ j, t.held j = if j = k then
          (if c.conn.socketOpen then some c.conn.sockfd else none) else p.server.held j :=
        fun j => TcpServer.held_set hm hmade
      have hself : p.server.held k =
          if m.state.conn.socketOpen then some m.state.conn.sockfd else none := by
        rw [TcpServer.held, hm, Option.bind_some]
      rw [TcpServer.closed_set hm hmade, hopened]
      obtain ⟨hfd, ⟨hnil, hopen⟩ | ⟨hone, hopen, hshut⟩⟩ := ConnState.step_closes hc
      · rw [hnil]
        refine ⟨hw, hcoh, h.failed, fun fd j => ?_⟩
        show p.files fd = some j ↔ t.held j = some fd
        rw [h.files, hheld, hopen, hfd, ← hself]
        split
        · rw [‹j = k›]
        · rfl
      · rw [hone]
        rw [hopen] at hself
        obtain ⟨hclose, hfiles⟩ := h.close (t := t) hself fun j => by rw [hheld, hshut]; rfl
        show Exact (Process.close { p with server := t } m.state.conn.sockfd)
        rw [hclose]
        exact ⟨hw, hcoh, h.failed, hfiles⟩
  · exact absurd hstep (by simp)

/-- **No descriptor is lost, and none is closed twice.**  In every state of every run, in which the
kernel gives a new connection any number that is free, every `close` so far was of an open number,
and a number is open exactly for the one connection that was made with it and is not released. -/
theorem descriptors_exact (settings : Settings) (acts : List ServerAct) (p : Process)
    (hr : run step (new settings) acts = some p) :
    p.failed = 0 ∧ ∀ fd k, p.files fd = some k ↔ ∃ m, p.server.made[k]? = some m ∧
      m.state.conn.sockfd = fd ∧ .releaseInLoop ∉ m.state.log := by
  have h : p.Exact :=
    run_preserves (fun _ _ _ hi hstep => step_exact hi hstep) (exact_new settings) hr
  refine ⟨h.failed, fun fd k => ?_⟩
  rw [h.files, TcpServer.held, Option.bind_eq_some_iff]
  refine exists_congr fun m => and_congr_right fun hm => ?_
  rw [← (h.coherent hm).released, Bool.not_eq_false]
  cases m.state.conn.socketOpen <;> simp

/-- Two connections, of which the first is released and the second gets its number. -/
theorem descriptors_exact_reused :
    ∃ acts p, run step (new ⟨0, none, false, true, false⟩) acts = some p ∧
    p.server.made.length = 2 ∧
      p.failed = 0 ∧ p.files 5 = some 1 := by
  let acts : List ServerAct :=
    [.accept 5, .advance false, .advance false, .call (some .base) 0 .release false, .accept 5,
      .advance false, .advance false, .conn 0 ⟨.ret, false⟩, .conn 0 ⟨.resume, false⟩,
      .call (some .base) 0 .release false]
  have hrun : (run step (new ⟨0, none, false, true, false⟩) acts).map (fun p =>
      (p.server.made.length, (p.server.made[1]?).map fun m =>
        (m.state.conn.sockfd, decide (.releaseInLoop ∉ m.state.log)))) =
        some (2, some (5, true)) := by
    decide +kernel
  obtain ⟨p, hp, hv⟩ := Option.map_eq_some_iff.mp hrun
  obtain ⟨hlen, hmade⟩ := Prod.mk.inj hv
  obtain ⟨m, hm, hm'⟩ := Option.map_eq_some_iff.mp hmade
  obtain ⟨hfd, hlog⟩ := Prod.mk.inj hm'
  obtain ⟨hfailed, hfiles⟩ := descriptors_exact ⟨0, none, false, true, false⟩ acts p hp
  exact ⟨acts, p, hp, hlen, hfailed, (hfiles 5 1).mpr ⟨m, hm, hfd, of_decide_eq_true hlog⟩⟩

end Process

end Flux
