import Flux.Reactor.Connection
import Mathlib.Logic.Function.Basic

/-!
# `Poller`

The epoll instance of a loop: the map `_channels` from a descriptor number to the channel registered
under it, and on the other side what the kernel knows, which numbers are open and which of them are
in the interest set with which mask.  `epoll_ctl` succeeds exactly where the kernel accepts the
call, and closing a descriptor takes its number out of the interest set.

The poller knows a channel by its number alone.  A channel is named here by the id of its
connection, so that a number given out twice can be told apart.
-/

namespace Flux

/-- Who holds an open descriptor: a connection of the loop, or anything else in the process. -/
inductive Owner
  | conn (id : Nat)
  | other
deriving DecidableEq, Repr

inductive EpollOp
  | add
  | mod
  | del
deriving DecidableEq, Repr

structure Poller where
  /-- `_channels`. -/
  channels : Nat → Option Nat
  /-- The descriptor table of the process. -/
  opened : Nat → Option Owner
  /-- The interest set of the epoll instance. -/
  interest : Nat → Option (BitVec 32)

namespace Poller

def new : Poller where
  channels _ := none
  opened _ := none
  interest _ := none

/-- `epoll_ctl`; `none` is a failed call, which changes nothing. -/
def epollCtl (p : Poller) (op : EpollOp) (fd : Nat) (events : BitVec 32) : Option Poller :=
  if p.opened fd = none then none
  else
    match op, p.interest fd with
    | .add, none => some { p with interest := Function.update p.interest fd (some events) }
    | .mod, some _ => some { p with interest := Function.update p.interest fd (some events) }
    | .del, some _ => some { p with interest := Function.update p.interest fd none }
    | _, _ => none

def insert (p : Poller) (fd id : Nat) : Poller :=
  { p with channels := Function.update p.channels fd (some id) }

def erase (p : Poller) (fd : Nat) : Poller :=
  { p with channels := Function.update p.channels fd none }

/-- `UpdateEvent` of the channel of connection `id`. -/
def updateEvent (p : Poller) (id fd : Nat) (events : BitVec 32) : Poller :=
  match p.channels fd with
  | none =>
    match (p.insert fd id).epollCtl .add fd events with
    | some p' => p'
    | none => (p.insert fd id).erase fd
  | some _ => (p.epollCtl .mod fd events).getD p

def removeEvent (p : Poller) (fd : Nat) : Poller :=
  match p.channels fd with
  | none => p
  | some _ => ((p.erase fd).epollCtl .del fd 0#32).getD (p.erase fd)

def closeFd (p : Poller) (fd : Nat) : Poller :=
  { p with
    opened := Function.update p.opened fd none
    interest := Function.update p.interest fd none }

/-- What a connection does to the poller and to its descriptor. -/
def observe (id fd : Nat) (p : Poller) : Obs → Poller
  | .updateEvent events => p.updateEvent id fd events
  | .removeEvent => p.removeEvent fd
  | .closeFd => p.closeFd fd
  | _ => p

/-! ### One number -/

def entry (p : Poller) (fd : Nat) : Option Nat × Option Owner × Option (BitVec 32) :=
  (p.channels fd, p.opened fd, p.interest fd)

variable {p : Poller} {id fd : Nat} {events : BitVec 32}

theorem epollCtl_channels {op : EpollOp} {p' : Poller} (h : p.epollCtl op fd events = some p') :
    p'.channels = p.channels := by
  simp only [epollCtl] at h
  split at h
  · exact absurd h (by simp)
  · split at h <;> simp only [Option.some.injEq, reduceCtorEq] at h <;> subst h <;> rfl

theorem updateEvent_add (hc : p.channels fd = none) (ho : p.opened fd ≠ none)
    (hi : p.interest fd = none) : p.updateEvent id fd events =
      { p.insert fd id with interest := Function.update p.interest fd (some events) } := by
  have hctl : (p.insert fd id).epollCtl .add fd events = some
      { p.insert fd id with interest := Function.update p.interest fd (some events) } := by
    have ho' : (p.insert fd id).opened fd ≠ none := ho
    have hi' : (p.insert fd id).interest fd = none := hi
    simp only [epollCtl, if_neg ho', hi']
    rfl
  rw [updateEvent, hc]
  simp only [hctl]

theorem updateEvent_mod {id' : Nat} {events' : BitVec 32} (hc : p.channels fd = some id')
    (ho : p.opened fd ≠ none) (hi : p.interest fd = some events') : p.updateEvent id fd events =
      { p with interest := Function.update p.interest fd (some events) } := by
  have hctl : p.epollCtl .mod fd events =
      some { p with interest := Function.update p.interest fd (some events) } := by
    simp only [epollCtl, hi, if_neg ho]
  rw [updateEvent, hc]
  simp only [hctl, Option.getD_some]

/-- On a closed number the kernel refuses and the insertion is rolled back. -/
theorem updateEvent_closed (hc : p.channels fd = none) (ho : p.opened fd = none) :
    p.updateEvent id fd events = p := by
  have hctl : (p.insert fd id).epollCtl .add fd events = none := if_pos ho
  rw [updateEvent, hc]
  simp only [hctl]
  rw [erase, insert, Function.update_idem, ← hc, Function.update_eq_self]

theorem removeEvent_none (hc : p.channels fd = none) : p.removeEvent fd = p := by
  rw [removeEvent, hc]

/-- Under an open number that nobody or the connection itself is registered with, an update
registers the connection with the mask. -/
theorem updateEvent_entry {owner : Owner} (h : p.entry fd = (none, some owner, none) ∨
    ∃ events', p.entry fd = (some id, some owner, some events')) :
    (p.updateEvent id fd events).entry fd = (some id, some owner, some events) := by
  simp only [entry, Prod.mk.injEq] at h ⊢
  rcases h with ⟨hc, ho, hi⟩ | ⟨events', hc, ho, hi⟩
  · rw [updateEvent_add hc (by simp [ho]) hi]
    exact ⟨Function.update_self _ _ _, ho, Function.update_self _ _ _⟩
  · rw [updateEvent_mod hc (by simp [ho]) hi]
    exact ⟨hc, ho, Function.update_self _ _ _⟩

/-- Whatever a removal finds, behind a close the number is gone on both sides. -/
theorem closeFd_removeEvent_entry (p : Poller) (fd : Nat) :
    ((p.removeEvent fd).closeFd fd).entry fd = (none, none, none) := by
  have hchannels : (p.removeEvent fd).channels fd = none := by
    cases hc : p.channels fd with
    | none => rw [removeEvent_none hc, hc]
    | some id =>
      have herase : (p.erase fd).channels fd = none := Function.update_self _ _ _
      rw [removeEvent, hc]
      cases hctl : (p.erase fd).epollCtl .del fd 0#32 with
      | none => exact herase
      | some p' => exact (epollCtl_channels hctl ▸ herase)
  exact Prod.ext hchannels (Prod.ext (Function.update_self _ _ _) (Function.update_self _ _ _))

variable {fd' : Nat}

theorem epollCtl_entry {op : EpollOp} {p' : Poller} (hne : fd' ≠ fd)
    (h : p.epollCtl op fd events = some p') : p'.entry fd' = p.entry fd' := by
  simp only [epollCtl] at h
  split at h
  · exact absurd h (by simp)
  · split at h <;> simp only [Option.some.injEq, reduceCtorEq] at h <;> subst h <;>
      simp [entry, Function.update_of_ne hne]

/-- A call for one number leaves the others alone. -/
theorem observe_entry (hne : fd' ≠ fd) (o : Obs) : (observe id fd p o).entry fd' = p.entry fd' := by
  cases o with
  | updateEvent events =>
    show (p.updateEvent id fd events).entry fd' = _
    unfold updateEvent
    split
    · have hinsert : (p.insert fd id).entry fd' = p.entry fd' := by
        simp [entry, insert, Function.update_of_ne hne]
      split
      · exact (epollCtl_entry hne ‹_›).trans hinsert
      · simp [entry, insert, erase, Function.update_of_ne hne]
    · cases hctl : p.epollCtl .mod fd events with
      | none => rfl
      | some p' => exact epollCtl_entry hne hctl
  | removeEvent =>
    show (p.removeEvent fd).entry fd' = _
    unfold removeEvent
    split
    · rfl
    · have herase : (p.erase fd).entry fd' = p.entry fd' := by
        simp [entry, erase, Function.update_of_ne hne]
      cases hctl : (p.erase fd).epollCtl .del fd 0#32 with
      | none => exact herase
      | some p' => exact (epollCtl_entry hne hctl).trans herase
  | closeFd =>
    show (p.closeFd fd).entry fd' = _
    simp [closeFd, entry, Function.update_of_ne hne]
  | _ => rfl

theorem foldl_observe_entry (hne : fd' ≠ fd) (obs : List Obs) (p : Poller) :
    (obs.foldl (observe id fd) p).entry fd' = p.entry fd' := by
  induction obs generalizing p with
  | nil => rfl
  | cons o obs ih => rw [List.foldl_cons, ih, observe_entry hne]

end Poller

/-! ### What a segment does to the poller -/

def Obs.polls : Obs → Bool
  | updateEvent _ | removeEvent | closeFd => true
  | _ => false

theorem observe_filter (id fd : Nat) (p : Poller) (obs : List Obs) :
    obs.foldl (Poller.observe id fd) p = (obs.filter Obs.polls).foldl (Poller.observe id fd) p := by
  induction obs generalizing p with
  | nil => rfl
  | cons o obs ih =>
    rw [List.foldl_cons, List.filter_cons, ih]
    split
    · rw [List.foldl_cons]
    · rename_i ho
      cases o <;> first | rfl | exact absurd rfl ho

theorem filter_polls_plain {obs : List Obs} (h : ∀ o ∈ obs, o.plain = true) :
    obs.filter Obs.polls = [] := by
  rw [List.filter_eq_nil_iff]
  intro o ho
  have hp := h o ho
  cases o <;> first | exact Bool.false_ne_true | exact absurd hp Bool.false_ne_true

/-- What a segment does to the poller: nothing, one update with the mask it leaves, or a removal,
with a close if the socket was open. -/
inductive Polls (c : Connection) (seg : Segment) (e : Exec) : Prop
  | none (obs : e.obs.filter Obs.polls = []) (events : e.conn.channel.events = c.channel.events)
      (socketOpen : e.conn.socketOpen = c.socketOpen)
  | update (obs : e.obs.filter Obs.polls = [.updateEvent e.conn.channel.events])
      (socketOpen : e.conn.socketOpen = c.socketOpen)
      (late : c.socketOpen = true ∨ c.statu = .connecting ∨ ∃ buf, seg = .sendInLoop buf ∧
        c.statu ≠ .disconnected ∧ c.channel.writeAble = false)
  | release (seg : seg = .releaseInLoop)
      (obs : e.obs.filter Obs.polls = .removeEvent :: if c.socketOpen then [.closeFd] else [])
      (events : e.conn.channel.events = c.channel.events) (socketOpen : e.conn.socketOpen = false)

theorem Segment.exec_polls {c : Connection} {hasTimer : Bool} {seg : Segment} {e : Exec}
    (hw : c.outBuffer.unread ≠ [] → c.channel.writeAble = true)
    (h : seg.exec c hasTimer = some e) : Polls c seg e ∧ e.conn.sockfd = c.sockfd := by
  cases Segment.exec_effect h with
  | inert is =>
    exact ⟨.none (filter_polls_plain is.plain) is.same.events is.same.socketOpen, is.same.sockfd⟩
  | established statu plain =>
    refine ⟨.update ?_ rfl (Or.inr (Or.inl statu)), rfl⟩
    rw [List.filter_append, filter_polls_plain plain]
    rfl
  | sendEnabled statu _ off =>
    exact ⟨.update rfl rfl (Or.inr (Or.inr ⟨_, rfl, statu, off⟩)), rfl⟩
  | shutdownEnables out off => exact absurd ((hw out).symm.trans off) (by decide)
  | sentAll opened => exact ⟨.update rfl rfl (Or.inl opened), rfl⟩
  | shutdown plain =>
    refine ⟨.none ?_ rfl rfl, rfl⟩
    rw [List.filter_cons_of_neg Bool.false_ne_true, filter_polls_plain plain]
  | release closes plain =>
    refine ⟨.release rfl ?_ (by rw [Connection.releaseInLoop_conn])
      (by rw [Connection.releaseInLoop_conn]), by rw [Connection.releaseInLoop_conn]⟩
    rw [List.filter_append, List.filter_append, filter_polls_plain plain, closes]
    cases c.socketOpen <;> rfl
  | establishedLate | sendDropped | sendAppended | shutdownDone | shutdownWaits | sentSome =>
    exact ⟨.none rfl rfl rfl, rfl⟩

end Flux
