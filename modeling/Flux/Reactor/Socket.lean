import Flux.Lib.Ownership
import Flux.Lib.Run

/-!
# `Socket`

A descriptor that closes itself.  `_sockfd` is −1 or the number of an open file; the kernel gives a
number out again as soon as it has been closed, so a `Socket` that closed twice would close the file
of somebody else.  Numbers also go about in plain `int`s: `Accept` returns one, and `Socket(int)`
takes one over.

What the kernel answers is part of an operation, and so is what it opens.  A `close` of a number
that is not open is no step at all.

* `sockets_keep_files`: a `Socket` is the file it was given.  Its calls go to that file and to no
  other, no number is closed twice, and no two holders have the same one.
* `no_file_lost_iff`: nothing open is ever without a holder exactly when no operation overwrites a
  number.  `Create` overwrites `_sockfd` without a look at it, and so do `CreateServer` and
  `CreateClient`.
-/

namespace Flux

open Lib

/-- Where a program keeps the number of a descriptor: in a `Socket`, or in an `int`. -/
inductive Holder (ν : Type*)
  | socket (x : ν)
  | loose (f : ν)
deriving DecidableEq

inductive Syscall
  | setsockopt
  | fcntl
  | bind
  | listen
  | connect
  | accept
  | close
deriving DecidableEq, Repr

/-- The functions that use `_sockfd` and leave it alone, with what the kernel answers. -/
inductive SocketUse
  | reuseAddress
  | nonBlock (got : Bool)
  | bind (ok : Bool)
  | listen (ok : Bool)
  | connect (ok : Bool)
deriving DecidableEq, Repr

namespace SocketUse

/-- The calls of one of them: `NonBlock` sets the flags only if it got them. -/
def calls : SocketUse → List Syscall
  | reuseAddress => [.setsockopt, .setsockopt]
  | nonBlock got => if got then [.fcntl, .fcntl] else [.fcntl]
  | bind _ => [.bind]
  | listen _ => [.listen]
  | connect _ => [.connect]

/-- What it returns; `ReuseAddress` and `NonBlock` return nothing. -/
def ret : SocketUse → Bool
  | reuseAddress | nonBlock _ => true
  | bind ok | listen ok | connect ok => ok

def chain : List SocketUse → Bool × List Syscall
  | [] => (true, [])
  | u :: us => if u.ret then ((chain us).1, u.calls ++ (chain us).2) else (false, u.calls)

def createServer (blockFlag got bound listening : Bool) : List SocketUse :=
  [.reuseAddress] ++ (if blockFlag then [.nonBlock got] else []) ++ [.bind bound, .listen listening]

def createClient (connected : Bool) : List SocketUse := [.connect connected]

end SocketUse

inductive SocketOp (φ ν : Type*)
  | make (x : ν)
  /-- `Socket(int fd)`, with the number that is in `f`. -/
  | makeFd (x f : ν)
  | create (x : ν) (r : Option (ℕ × φ))
  | use (x : ν) (u : SocketUse)
  | createServer (x : ν) (r : Option (ℕ × φ)) (blockFlag got bound listening : Bool)
  | createClient (x : ν) (r : Option (ℕ × φ)) (connected : Bool)
  /-- `f = x.Accept()`. -/
  | accept (x f : ν) (r : Option (ℕ × φ))
  | close (x : ν)
  | destroy (x : ν)
  /-- An `int` goes out of scope. -/
  | forget (f : ν)

/-- What an operation returns, and its calls with the file each of them goes to. -/
structure SocketAnswer (φ : Type*) where
  ok : Bool
  calls : List (Syscall × Option φ)
deriving DecidableEq

/-- The descriptor table of the process, and who holds what in it. -/
abbrev SocketState (φ ν : Type*) := Handles (Holder ν) ℕ φ

/-- The same without numbers: a holder has a file or none. -/
abbrev Files (φ ν : Type*) := Holder ν → Option (Option φ)

section Ops

variable {φ ν : Type*} [DecidableEq ν]

namespace SocketState

open Handles

variable (s : SocketState φ ν)

def create (x : ν) : Option (ℕ × φ) → SocketState φ ν
  | none => s.give (.socket x) s.cells none
  | some r => s.give (.socket x) (Function.update s.cells r.1 (some r.2)) (some r.1)

def createWith (x : ν) (r : Option (ℕ × φ)) (uses : List SocketUse) :
    SocketState φ ν × SocketAnswer φ :=
  if r.isSome then (s.create x r, ⟨(SocketUse.chain uses).1,
    (SocketUse.chain uses).2.map fun c => (c, r.map (·.2))⟩)
  else (s.create x r, ⟨false, []⟩)

def close (x : ν) : Option ℕ → Option (SocketState φ ν × SocketAnswer φ)
  | none => some (s, ⟨true, []⟩)
  | some fd => (s.cells fd).map fun file =>
    (s.give (.socket x) (Function.update s.cells fd none) none, ⟨true, [(.close, some file)]⟩)

def op : SocketOp φ ν → Option (SocketState φ ν × SocketAnswer φ)
  | .make x => some (s.give (.socket x) s.cells none, ⟨true, []⟩)
  | .makeFd x f => (s.objs (.loose f)).map fun fd =>
    ((s.remove (.loose f)).give (.socket x) s.cells fd, ⟨true, []⟩)
  | .create x r => (s.objs (.socket x)).map fun _ => (s.create x r, ⟨r.isSome, []⟩)
  | .use x u => (s.objs (.socket x)).map fun fd =>
    (s, ⟨u.ret, u.calls.map fun c => (c, fd.bind s.cells)⟩)
  | .createServer x r blockFlag got bound listening => (s.objs (.socket x)).map fun _ =>
    s.createWith x r (SocketUse.createServer blockFlag got bound listening)
  | .createClient x r connected => (s.objs (.socket x)).map fun _ =>
    s.createWith x r (SocketUse.createClient connected)
  | .accept x _ none =>
    (s.objs (.socket x)).map fun fd => (s, ⟨false, [(.accept, fd.bind s.cells)]⟩)
  | .accept x f (some r) => (s.objs (.socket x)).map fun fd =>
    (s.give (.loose f) (Function.update s.cells r.1 (some r.2)) (some r.1),
      ⟨true, [(.accept, fd.bind s.cells)]⟩)
  | .close x => (s.objs (.socket x)).bind (s.close x)
  | .destroy x => (s.objs (.socket x)).bind fun fd =>
    (s.close x fd).map fun r => (r.1.remove (.socket x), r.2)
  | .forget f => (s.objs (.loose f)).map fun _ => (s.remove (.loose f), ⟨true, []⟩)

/-- The kernel gives out a number that is free. -/
def Free (r : Option (ℕ × φ)) : Prop := ∀ p ∈ r, (s.cells p.1).isNone

/-- The program keeps to the lifetimes of its objects. -/
def Admitted : SocketOp φ ν → Prop
  | .make x => s.objs (.socket x) = none
  | .makeFd x f => s.objs (.socket x) = none ∧ (s.objs (.loose f)).isSome
  | .create x r | .createServer x r .. | .createClient x r _ =>
    (s.objs (.socket x)).isSome ∧ s.Free r
  | .accept x f r => (s.objs (.socket x)).isSome ∧ s.objs (.loose f) = none ∧ s.Free r
  | .use x _ | .close x | .destroy x => (s.objs (.socket x)).isSome
  | .forget f => (s.objs (.loose f)).isSome

/-- No operation overwrites a number that is in use, or drops it. -/
def Careful : SocketOp φ ν → Prop
  | .create x _ | .createServer x .. | .createClient x .. => s.held (.socket x) = none
  | .forget f => s.held (.loose f) = none
  | _ => True

end SocketState

namespace Files

variable (t : Files φ ν)

def create (x : ν) (r : Option (ℕ × φ)) : Files φ ν :=
  Function.update t (.socket x) (some (r.map (·.2)))

def createWith (x : ν) (r : Option (ℕ × φ)) (uses : List SocketUse) : Files φ ν × SocketAnswer φ :=
  (t.create x r, if r.isSome then ⟨(SocketUse.chain uses).1,
    (SocketUse.chain uses).2.map fun c => (c, r.map (·.2))⟩ else ⟨false, []⟩)

def closing (x : ν) : List (Syscall × Option φ) :=
  if (t (.socket x)).join.isSome then [(.close, (t (.socket x)).join)] else []

def op : SocketOp φ ν → Files φ ν × SocketAnswer φ
  | .make x => (Function.update t (.socket x) (some none), ⟨true, []⟩)
  | .makeFd x f =>
    (Function.update (Function.update t (.loose f) none) (.socket x) (t (.loose f)), ⟨true, []⟩)
  | .create x r => (t.create x r, ⟨r.isSome, []⟩)
  | .use x u => (t, ⟨u.ret, u.calls.map fun c => (c, (t (.socket x)).join)⟩)
  | .createServer x r blockFlag got bound listening =>
    t.createWith x r (SocketUse.createServer blockFlag got bound listening)
  | .createClient x r connected => t.createWith x r (SocketUse.createClient connected)
  | .accept x f r =>
    (if r.isSome then Function.update t (.loose f) (some (r.map (·.2))) else t,
      ⟨r.isSome, [(.accept, (t (.socket x)).join)]⟩)
  | .close x => (Function.update t (.socket x) (some none), ⟨true, t.closing x⟩)
  | .destroy x => (Function.update t (.socket x) none, ⟨true, t.closing x⟩)
  | .forget f => (Function.update t (.loose f) none, ⟨true, []⟩)

end Files

end Ops

namespace SocketState

open Handles

variable {φ ν : Type*} [DecidableEq ν] {s : SocketState φ ν} {t : Files φ ν} {x f : ν}
  {r : Option (ℕ × φ)}

/-! ### What an operation does to the files -/

theorem stands_create (h : Stands s t) (hfree : s.Free r) (x : ν) :
    Stands (s.create x r) (t.create x r) := by
  cases r with
  | none => exact h.vacate _
  | some p => exact h.acquire (Option.isNone_iff_eq_none.mp (hfree p rfl)) _ _

theorem kept_create_iff (h : Stands s t) (hfree : s.Free r) :
    Kept (s.create x r) ↔ Kept s ∧ s.held (.socket x) = none := by
  cases r with
  | none => exact kept_vacate_iff h
  | some p => exact kept_acquire_iff h (Option.isNone_iff_eq_none.mp (hfree p rfl))

theorem createWith_eq (s : SocketState φ ν) (t : Files φ ν) (x : ν) (r : Option (ℕ × φ))
    (uses : List SocketUse) :
    s.createWith x r uses = (s.create x r, (t.createWith x r uses).2) := by
  unfold createWith Files.createWith
  split <;> rfl

theorem makeFd_eq {c : Option ℕ} (hx : s.objs (.socket x) = none)
    (hf : s.objs (.loose f) = some c) :
    (s.remove (.loose f)).give (.socket x) s.cells c =
      ⟨s.cells, s.objs ∘ Equiv.swap (.loose f) (.socket x)⟩ := by
  refine congrArg (Handles.mk s.cells) (funext fun y => ?_)
  by_cases hyx : y = .socket x
  · simp [remove, hyx, hf]
  · by_cases hyf : y = .loose f
    · simp [remove, hyf, hx]
    · simp [remove, hyx, hyf, Equiv.swap_apply_of_ne_of_ne]

theorem stands_makeFd {c : Option ℕ} (h : Stands s t) (hx : s.objs (.socket x) = none)
    (hf : s.objs (.loose f) = some c) : Stands ((s.remove (.loose f)).give (.socket x) s.cells c)
      (Function.update (Function.update t (.loose f) none) (.socket x) (t (.loose f))) := by
  rw [makeFd_eq hx hf]
  have ht : Function.update (Function.update t (.loose f) none) (.socket x) (t (.loose f)) =
      t ∘ Equiv.swap (.loose f) (.socket x) := by
    funext y
    by_cases hyx : y = .socket x
    · simp [hyx]
    · by_cases hyf : y = .loose f
      · simp [hyf, h.values, hx]
      · simp [hyx, hyf, Equiv.swap_apply_of_ne_of_ne]
  rw [ht]
  exact h.exchange _

/-- **`Close` closes a file that is open**, that of its `Socket`, and leaves nothing behind. -/
theorem stands_close {c : Option ℕ} (h : Stands s t) (hx : s.objs (.socket x) = some c) :
    ∃ s', s.close x c = some (s', ⟨true, t.closing x⟩) ∧
      Stands s' (Function.update t (.socket x) (some none)) ∧ s'.held (.socket x) = none ∧
      (Kept s' ↔ Kept s) := by
  have hjoin := h.content hx
  cases c with
  | none =>
    have ht : Function.update t (.socket x) (some none) = t := by
      rw [Function.update_eq_self_iff, h.values, hx, Option.map_some,
        view_of_none (held_of_objs hx)]
    refine ⟨s, ?_, ht.symm ▸ h, held_of_objs hx, Iff.rfl⟩
    rw [close, Files.closing, hjoin]
    rfl
  | some fd =>
    obtain ⟨file, hfile, hval⟩ := h.deref hx
    refine ⟨_, ?_, h.drop hx, ?_, kept_drop_iff hx⟩
    · rw [close, hfile, Files.closing, hval]
      rfl
    · rw [held_give, Function.update_self]

/-! ### One operation -/

/-- **One operation** goes to the files it is expected to go to, and it loses a file exactly
when it is not careful. -/
theorem op_stands {o : SocketOp φ ν} (h : Stands s t) (hg : s.Admitted o) :
    ∃ s', s.op o = some (s', (t.op o).2) ∧ Stands s' (t.op o).1 ∧
      (Kept s' ↔ Kept s ∧ s.Careful o) := by
  cases o with
  | make x =>
    refine ⟨_, rfl, h.vacate _, ?_⟩
    rw [kept_vacate_iff h, held_of_absent hg]
    exact and_congr_right fun _ => iff_of_true rfl trivial
  | makeFd x f =>
    obtain ⟨c, hc, -⟩ := h.exists_objs hg.2
    refine ⟨_, by rw [op, hc, Option.map_some]; rfl, stands_makeFd h hg.1 hc, ?_⟩
    rw [makeFd_eq hg.1 hc, kept_exchange_iff]
    exact (and_iff_left trivial).symm
  | create x r =>
    obtain ⟨c, hc, -⟩ := h.exists_objs hg.1
    exact ⟨_, by rw [op, hc, Option.map_some]; rfl, stands_create h hg.2 x, kept_create_iff h hg.2⟩
  | use x u =>
    obtain ⟨c, hc, hjoin⟩ := h.exists_objs hg
    refine ⟨s, ?_, h, (and_iff_left trivial).symm⟩
    rw [op, hc, Option.map_some, Files.op, hjoin]
  | createServer x r blockFlag got bound listening =>
    obtain ⟨c, hc, -⟩ := h.exists_objs hg.1
    refine ⟨s.create x r, ?_, stands_create h hg.2 x, kept_create_iff h hg.2⟩
    rw [op, hc, Option.map_some, createWith_eq s t, Files.op]
  | createClient x r connected =>
    obtain ⟨c, hc, -⟩ := h.exists_objs hg.1
    refine ⟨s.create x r, ?_, stands_create h hg.2 x, kept_create_iff h hg.2⟩
    rw [op, hc, Option.map_some, createWith_eq s t, Files.op]
  | accept x f r =>
    obtain ⟨hx, hf, hfree⟩ := hg
    obtain ⟨c, hc, hjoin⟩ := h.exists_objs hx
    cases r with
    | none =>
      refine ⟨s, ?_, h, (and_iff_left trivial).symm⟩
      rw [op, hc, Option.map_some, Files.op, hjoin]
      rfl
    | some p =>
      have hp := Option.isNone_iff_eq_none.mp (hfree p rfl)
      refine ⟨_, by rw [op, hc, Option.map_some, Files.op, hjoin]; rfl, h.acquire hp _ _, ?_⟩
      rw [kept_acquire_iff h hp, held_of_absent hf]
      exact and_congr_right fun _ => iff_of_true rfl trivial
  | close x =>
    obtain ⟨c, hc, -⟩ := h.exists_objs hg
    obtain ⟨s', hs', hst, -, hkept⟩ := stands_close h hc
    refine ⟨s', by rw [op, hc, Option.bind_some, hs']; rfl, hst, ?_⟩
    rw [hkept]
    exact (and_iff_left trivial).symm
  | destroy x =>
    obtain ⟨c, hc, -⟩ := h.exists_objs hg
    obtain ⟨s', hs', hst, hheld, hkept⟩ := stands_close h hc
    refine ⟨s'.remove (.socket x), by rw [op, hc, Option.bind_some, hs']; rfl, ?_, ?_⟩
    · have hgone := hst.remove (.socket x)
      rwa [Function.update_idem] at hgone
    · rw [kept_remove_iff hst, hkept]
      exact and_congr_right fun _ => iff_of_true hheld trivial
  | forget f =>
    obtain ⟨c, hc, -⟩ := h.exists_objs hg
    exact ⟨_, by rw [op, hc, Option.map_some]; rfl, h.remove _, kept_remove_iff h⟩

theorem socket_simulates : Simulates (op (φ := φ) (ν := ν)) Files.op Stands Admitted := by
  constructor
  intro s t o h hg
  obtain ⟨s', hop, hst, -⟩ := op_stands h hg
  exact ⟨s', hop, hst⟩

/-! ### Whole programs -/

instance (s : SocketState φ ν) (r : Option (ℕ × φ)) : Decidable (s.Free r) :=
  inferInstanceAs (Decidable (∀ p ∈ r, _))

instance (s : SocketState φ ν) (o : SocketOp φ ν) : Decidable (s.Admitted o) := by
  cases o with
  | make | use | close | destroy | forget => exact inferInstanceAs (Decidable (_ = _))
  | makeFd | create | createServer | createClient | accept =>
    exact inferInstanceAs (Decidable (_ ∧ _))

/-- **A `Socket` is its file.**  Along any program that keeps to the lifetimes of its objects,
whatever free numbers the kernel gives out and whatever calls fail, every call goes to the file the
`Socket` was given and every `close` to one that is open, what is held is open, and nobody else
holds it. -/
theorem sockets_keep_files (ops : List (SocketOp φ ν)) (h : Admits op Admitted Handles.empty ops) :
    ∀ pre, pre <+: ops → ∃ s,
      runOps op Handles.empty pre = some (s, (specOps Files.op (fun _ => none) pre).2) ∧
      (∀ x, (specOps Files.op (fun _ => none) pre).1 x = (s.objs x).map fun fd => fd.bind s.cells) ∧
      (∀ x fd, s.objs x = some (some fd) → (s.cells fd).isSome) ∧
      ∀ x y fd, s.objs x = some (some fd) → s.objs y = some (some fd) → x = y := by
  intro pre hp
  obtain ⟨s, hrun, hst⟩ := socket_simulates.runOps stands_empty (h.of_prefix hp)
  refine ⟨s, hrun, hst.contents, ?_, ?_⟩
  · intro x fd hx
    exact hst.exclusive.live (held_eq_some.mpr hx)
  · intro x y fd hx hy
    exact hst.exclusive.alone (held_eq_some.mpr hx) (held_eq_some.mpr hy)

/-- A listening socket, and two connections that get the same number one after the other. -/
theorem sockets_keep_files_reused : ∃ s, runOps op (Handles.empty : SocketState ℕ ℕ)
    [.make 0, .createServer 0 (some (3, 100)) true true true true, .accept 0 1 (some (4, 101)),
      .makeFd 2 1,
      .close 2, .accept 0 1 (some (4, 102)), .makeFd 3 1, .close 2, .use 3 .reuseAddress,
      .destroy 3] =
    some (s, [⟨true, []⟩,
      ⟨true, [(.setsockopt, some 100), (.setsockopt, some 100), (.fcntl, some 100),
      (.fcntl, some 100), (.bind, some 100), (.listen, some 100)]⟩, ⟨true, [(.accept, some 100)]⟩,
      ⟨true, []⟩, ⟨true, [(.close, some 101)]⟩, ⟨true, [(.accept, some 100)]⟩, ⟨true, []⟩,
      ⟨true, []⟩,
      ⟨true, [(.setsockopt, some 102), (.setsockopt, some 102)]⟩,
      ⟨true, [(.close, some 102)]⟩]) := by
  obtain ⟨s, hrun, -⟩ := sockets_keep_files (φ := ℕ) (ν := ℕ)
    [.make 0, .createServer 0 (some (3, 100)) true true true true, .accept 0 1 (some (4, 101)),
      .makeFd 2 1,
      .close 2, .accept 0 1 (some (4, 102)), .makeFd 3 1, .close 2, .use 3 .reuseAddress,
      .destroy 3]
    (by decide) _ List.prefix_rfl
  exact ⟨s, hrun⟩

/-- An operation that is admitted, without its answer. -/
def step (s : SocketState φ ν) (o : SocketOp φ ν) : Option (SocketState φ ν) :=
  if s.Admitted o then (s.op o).map (·.1) else none

theorem step_admitted {s' : SocketState φ ν} {o : SocketOp φ ν} (hs : s.step o = some s') :
    s.Admitted o ∧ ∃ answer, s.op o = some (s', answer) := by
  unfold step at hs
  split at hs
  · obtain ⟨p, hp, rfl⟩ := Option.map_eq_some_iff.mp hs
    exact ⟨‹_›, p.2, hp⟩
  · exact absurd hs (by simp)

/-- **When no file is lost.**  At the end of a program every open file still has a holder exactly
when each `Create`, on its own or in `CreateServer` or `CreateClient`, was made by a `Socket` with
no descriptor, and no `int` with a descriptor went out of scope. -/
theorem no_file_lost_iff (ops : List (SocketOp φ ν)) (s : SocketState φ ν)
    (hr : run step Handles.empty ops = some s) :
    (∀ fd, (s.cells fd).isSome → ∃ x, s.objs x = some (some fd)) ↔
    Each step Careful Handles.empty ops := by
  have hkept : Kept s ↔ Each step Careful Handles.empty ops := by
    refine run_iff_each_step (I := fun s => ∃ t, Stands s t) ?_ ?_ ⟨_, stands_empty⟩ kept_empty hr
    · rintro s o s' ⟨t, h⟩ hs
      obtain ⟨hg, answer, hop⟩ := step_admitted hs
      obtain ⟨u, hu, hst, -⟩ := op_stands h hg
      obtain rfl : u = s' := (Prod.mk.inj (Option.some.inj (hu.symm.trans hop))).1
      exact ⟨_, hst⟩
    · rintro s o s' ⟨t, h⟩ hs
      obtain ⟨hg, answer, hop⟩ := step_admitted hs
      obtain ⟨u, hu, -, hiff⟩ := op_stands h hg
      obtain rfl : u = s' := (Prod.mk.inj (Option.some.inj (hu.symm.trans hop))).1
      exact hiff
  rw [← hkept]
  refine forall_congr' fun fd => imp_congr_right fun _ => exists_congr fun x => ?_
  exact held_eq_some.symm

/-- A server that finds its port taken and tries another one. -/
theorem no_file_lost_iff_retry : ∃ s, run step (Handles.empty : SocketState ℕ ℕ)
    [.make 0, .createServer 0 (some (3, 100)) false true false true,
      .createServer 0 (some (4, 101)) false true true true] = some s ∧
    ((∀ fd, (s.cells fd).isSome → ∃ x, s.objs x = some (some fd)) ↔
      Each step Careful (Handles.empty : SocketState ℕ ℕ)
        [.make 0, .createServer 0 (some (3, 100)) false true false true,
          .createServer 0 (some (4, 101)) false true true true]) := by
  have hrun : (run step (Handles.empty : SocketState ℕ ℕ)
      [.make 0, .createServer 0 (some (3, 100)) false true false true,
        .createServer 0 (some (4, 101)) false true true true]).isSome = true := by decide
  obtain ⟨s, hs⟩ := Option.isSome_iff_exists.mp hrun
  exact ⟨s, hs, no_file_lost_iff _ s hs⟩

end SocketState

end Flux
