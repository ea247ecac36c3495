import Flux.Lib.Run
import Flux.Reactor.Poller

/-!
# When `epoll_ctl` fails

A setter of a channel changes `_events` and then asks the poller, the poller asks the kernel, and
the kernel may refuse an ADD or a MOD for reasons of its own.  The poller takes a refused ADD out of
`_channels` again, nobody takes the change of `_events` back, and nobody looks at the answer.

Here is any number of channels, each under its own open descriptor, with any calls in any order and
any of them refused.  `registered` holds whatever fails; what a failure breaks is the agreement of a
channel with the mask in the kernel, and `always_agree_iff` says when.
-/

namespace Flux

/-! ### `UpdateEvent` with its answer -/

namespace Poller

/-- `UpdateEvent`, where `fails` says that the kernel refuses the call. -/
def tryUpdateEvent (p : Poller) (id fd : Nat) (events : BitVec 32) (fails : Bool) : Poller × Bool :=
  match p.channels fd with
  | none =>
    match if fails then none else (p.insert fd id).epollCtl .add fd events with
    | some p' => (p', true)
    | none => ((p.insert fd id).erase fd, false)
  | some _ =>
    match if fails then none else p.epollCtl .mod fd events with
    | some p' => (p', true)
    | none => (p, false)

variable {p : Poller} {id fd : Nat} {events : BitVec 32}

/-- Without a refusal it is the `updateEvent` of the other developments. -/
theorem tryUpdateEvent_false :
    (p.tryUpdateEvent id fd events false).1 = p.updateEvent id fd events := by
  cases hc : p.channels fd with
  | none =>
    simp only [tryUpdateEvent, updateEvent, hc, Bool.false_eq_true, if_false]
    cases (p.insert fd id).epollCtl .add fd events <;> rfl
  | some id' =>
    simp only [tryUpdateEvent, updateEvent, hc, Bool.false_eq_true, if_false]
    cases p.epollCtl .mod fd events <;> rfl

theorem tryUpdateEvent_refused : p.tryUpdateEvent id fd events true = (p, false) := by
  unfold tryUpdateEvent
  split
  · rename_i hc
    simp only [if_true, erase, insert, Function.update_idem, ← hc, Function.update_eq_self]
  · rfl

/-- The map and the interest set have the same descriptors. -/
def Registered (p : Poller) : Prop := ∀ fd, (p.channels fd).isSome = (p.interest fd).isSome

theorem Registered.tryUpdateEvent (h : p.Registered) (id : Nat) (events : BitVec 32)
    (ho : p.opened fd ≠ none) :
    ∃ id', p.tryUpdateEvent id fd events false =
      ({ p with
        channels := Function.update p.channels fd (some id')
        interest := Function.update p.interest fd (some events) }, true) := by
  have hfd := h fd
  cases hc : p.channels fd with
  | none =>
    rw [hc] at hfd
    have hi : (p.insert fd id).interest fd = none := by
      show p.interest fd = none
      simpa using hfd.symm
    have ho' : (p.insert fd id).opened fd ≠ none := ho
    refine ⟨id, ?_⟩
    simp only [Poller.tryUpdateEvent, hc, epollCtl, if_neg ho', hi, Bool.false_eq_true, if_false]
    rfl
  | some id' =>
    rw [hc] at hfd
    obtain ⟨mask, hi⟩ := Option.isSome_iff_exists.mp hfd.symm
    refine ⟨id', ?_⟩
    simp only [Poller.tryUpdateEvent, hc, epollCtl, if_neg ho, hi, Bool.false_eq_true, if_false]
    rw [← hc, Function.update_eq_self]

theorem Registered.set (h : p.Registered) {x : Option Nat} {y : Option (BitVec 32)}
    (hxy : x.isSome = y.isSome) : Registered
      { p with channels := Function.update p.channels fd x, interest :=
        Function.update p.interest fd y } := by
  intro fd'
  by_cases hfd : fd' = fd
  · subst hfd
    simpa using hxy
  · simpa [hfd] using h fd'

theorem Registered.removeEvent (h : p.Registered) (fd : Nat) (ho : p.opened fd ≠ none) :
    p.removeEvent fd =
    { p with
      channels := Function.update p.channels fd none
      interest := Function.update p.interest fd none } := by
  have hfd := h fd
  cases hc : p.channels fd with
  | none =>
    rw [hc] at hfd
    have hi : p.interest fd = none := by simpa using hfd.symm
    have hchannels := Function.update_eq_self fd p.channels
    have hinterest := Function.update_eq_self fd p.interest
    rw [hc] at hchannels
    rw [hi] at hinterest
    rw [removeEvent_none hc, hchannels, hinterest]
  | some id' =>
    rw [hc] at hfd
    obtain ⟨mask, hi⟩ := Option.isSome_iff_exists.mp hfd.symm
    have ho' : (p.erase fd).opened fd ≠ none := ho
    have hi' : (p.erase fd).interest fd = some mask := hi
    simp only [Poller.removeEvent, hc, epollCtl, if_neg ho', hi', Option.getD_some]
    rfl

end Poller

/-! ### Masks -/

inductive ChannelOp
  | enableRead
  | enableWrite
  | disableRead
  | disableWrite
  | disableAll
deriving DecidableEq, Repr

namespace ChannelOp

def apply : ChannelOp → Channel → Channel
  | enableRead => Channel.enableRead
  | enableWrite => Channel.enableWrite
  | disableRead => Channel.disableRead
  | disableWrite => Channel.disableWrite
  | disableAll => Channel.disableAll

def readBits : BitVec 32 := EPOLLIN ||| EPOLLRDHUP ||| EPOLLPRI

/-- The call asks for nothing new: it enables what is enabled or disables what is disabled. -/
def Idle : ChannelOp → BitVec 32 → Prop
  | enableRead, events => events &&& readBits = readBits
  | enableWrite, events => events &&& EPOLLOUT = EPOLLOUT
  | disableRead, events => events &&& readBits = 0#32
  | disableWrite, events => events &&& EPOLLOUT = 0#32
  | disableAll, events => events = 0#32

instance (op : ChannelOp) (events : BitVec 32) : Decidable (op.Idle events) := by
  cases op <;> exact inferInstanceAs (Decidable (_ = _))

def Mask (events : BitVec 32) : Prop :=
  events = 0#32 ∨ events = readBits ∨ events = EPOLLOUT ∨ events = readBits ||| EPOLLOUT

theorem apply_events (op : ChannelOp) (c : Channel) :
    (op.apply c).events = (op.apply ⟨c.events, 0#32⟩).events := by cases op <;> rfl

theorem Mask.apply {c : Channel} (h : Mask c.events) (op : ChannelOp) :
    Mask (op.apply c).events := by
  rw [apply_events]
  rcases h with h | h | h | h <;> rw [h] <;> cases op <;> unfold Mask <;> decide

theorem Mask.idle_iff {c : Channel} (h : Mask c.events) (op : ChannelOp) :
    (op.apply c).events = c.events ↔ op.Idle c.events := by
  rw [apply_events]
  rcases h with h | h | h | h <;> rw [h] <;> cases op <;> decide

/-- A setter changes nothing but the mask. -/
theorem apply_eq_iff {op : ChannelOp} {c : Channel} :
    op.apply c = c ↔ (op.apply c).events = c.events := by
  obtain ⟨events, revents⟩ := c
  constructor
  · exact fun h => congrArg Channel.events h
  · intro h
    cases op <;> exact congrArg (Channel.mk · revents) h

/-- Two such masks agree on reading and on writing only if they are the same. -/
theorem Mask.ext {a b : BitVec 32} (ha : Mask a) (hb : Mask b)
    (hread : hasBits a EPOLLIN = hasBits b EPOLLIN)
    (hwrite : hasBits a EPOLLOUT = hasBits b EPOLLOUT) :
    a = b := by
  rcases ha with rfl | rfl | rfl | rfl <;> rcases hb with rfl | rfl | rfl | rfl <;>
    first | rfl | exact absurd hread (by decide) | exact absurd hwrite (by decide)

end ChannelOp

/-! ### Channels and their poller -/

/-- The channels by their descriptors, and the poller of their loop. -/
structure Watched where
  channels : Nat → Channel
  poller : Poller

inductive WatchAct
  | update (fd : Nat) (op : ChannelOp) (fails : Bool)
  | remove (fd : Nat)
deriving DecidableEq, Repr

def WatchAct.fd : WatchAct → Nat
  | update fd _ _ => fd
  | remove fd => fd

namespace Watched

def fresh (opened : Nat → Option Owner) : Watched :=
  ⟨fun _ => .new, { Poller.new with opened := opened }⟩

/-- A setter: the mask, `Channel::Update`, and the answer of `UpdateEvent`, which is dropped
there. -/
def update (s : Watched) (fd : Nat) (op : ChannelOp) (fails : Bool) : Watched × Bool :=
  let c := op.apply (s.channels fd)
  let (poller, done) := s.poller.tryUpdateEvent fd fd c.events fails
  (⟨Function.update s.channels fd c, poller⟩, done)

def remove (s : Watched) (fd : Nat) : Watched := { s with poller := s.poller.removeEvent fd }

def apply (s : Watched) : WatchAct → Watched
  | .update fd op fails => (s.update fd op fails).1
  | .remove fd => s.remove fd

/-- Calls are for open descriptors. -/
def step (s : Watched) (a : WatchAct) : Option Watched :=
  if s.poller.opened a.fd = none then none else some (s.apply a)

/-- `ReadAble()` and `WriteAble()` are what the kernel has. -/
def Agrees (c : Channel) (interest : Option (BitVec 32)) : Prop :=
  ∀ mask, interest = some mask →
    c.readAble = hasBits mask EPOLLIN ∧ c.writeAble = hasBits mask EPOLLOUT

/-- `_channels` is the interest set, and the channels in it agree with their masks. -/
structure Agree (s : Watched) : Prop where
  registered : s.poller.Registered
  masks : ∀ fd, Agrees (s.channels fd) (s.poller.interest fd)

def FailureKeeps (s : Watched) : WatchAct → Prop
  | .update fd op fails => (s.update fd op fails).2 = false → (s.update fd op fails).1 = s
  | .remove _ => True

def RefusedIdle (s : Watched) : WatchAct → Prop
  | .update fd op fails => fails = true → op.Idle (s.channels fd).events
  | .remove _ => True

instance (s : Watched) (a : WatchAct) : Decidable (s.RefusedIdle a) := by
  cases a with
  | update fd op fails => exact inferInstanceAs (Decidable (_ = true → _))
  | remove => exact .isTrue trivial

/-- The same of the calls that are refused under a descriptor in `_channels`, the MODs. -/
def ModIdle (s : Watched) : WatchAct → Prop
  | .update fd op fails =>
    fails = true → s.poller.channels fd ≠ none → op.Idle (s.channels fd).events
  | .remove _ => True

instance (s : Watched) (a : WatchAct) : Decidable (s.ModIdle a) := by
  cases a with
  | update fd op fails => exact inferInstanceAs (Decidable (_ = true → _ ≠ none → _))
  | remove => exact .isTrue trivial

/-! ### What every run keeps -/

structure Kept (s : Watched) : Prop where
  registered : s.poller.Registered
  events : ∀ fd, ChannelOp.Mask (s.channels fd).events
  masks : ∀ fd mask, s.poller.interest fd = some mask → ChannelOp.Mask mask

variable {s t : Watched}

theorem kept_fresh (opened : Nat → Option Owner) : (fresh opened).Kept where
  registered _ := rfl
  events _ := Or.inl rfl
  masks _ _ h := absurd h (by simp [fresh, Poller.new])

theorem agree_fresh (opened : Nat → Option Owner) : (fresh opened).Agree where
  registered _ := rfl
  masks _ _ h := absurd h (by simp [fresh, Poller.new])

theorem step_eq_some {a : WatchAct} (h : s.step a = some t) :
    s.poller.opened a.fd ≠ none ∧ t = s.apply a := by
  unfold step at h
  split at h
  · exact absurd h (by simp)
  · exact ⟨‹_›, (Option.some.inj h).symm⟩

theorem update_refused (fd : Nat) (op : ChannelOp) : s.update fd op true =
    ({ s with channels := Function.update s.channels fd (op.apply (s.channels fd)) }, false) := by
  simp only [update, Poller.tryUpdateEvent_refused]

/-- A call that is not refused brings the kernel's mask to the channel's. -/
theorem Kept.update_done (h : s.Kept) (fd : Nat) (ho : s.poller.opened fd ≠ none) (op : ChannelOp) :
    ∃ id', s.update fd op false =
      (⟨Function.update s.channels fd (op.apply (s.channels fd)),
        { s.poller with
          channels := Function.update s.poller.channels fd (some id')
          interest := Function.update s.poller.interest fd
            (some (op.apply (s.channels fd)).events) }⟩, true) := by
  obtain ⟨id', hu⟩ := h.registered.tryUpdateEvent fd (op.apply (s.channels fd)).events ho
  exact ⟨id', by simp only [update, hu]⟩

theorem Kept.events_update (h : s.Kept) (fd : Nat) (op : ChannelOp) (fd' : Nat) :
    ChannelOp.Mask (Function.update s.channels fd (op.apply (s.channels fd)) fd').events :=
  (Function.forall_update_iff s.channels fun _ c => ChannelOp.Mask c.events).mpr
    ⟨(h.events fd).apply op, fun fd' _ => h.events fd'⟩ fd'

theorem Kept.masks_update (h : s.Kept) (fd : Nat) {interest : Option (BitVec 32)}
    (hi : ∀ mask, interest = some mask → ChannelOp.Mask mask) (fd' : Nat) :
    ∀ mask, Function.update s.poller.interest fd interest fd' = some mask → ChannelOp.Mask mask :=
  (Function.forall_update_iff s.poller.interest fun _ i => ∀ mask, i = some mask →
    ChannelOp.Mask mask).mpr
    ⟨hi, fun fd' _ => h.masks fd'⟩ fd'

theorem Kept.step (h : s.Kept) {a : WatchAct} (hs : s.step a = some t) : t.Kept := by
  obtain ⟨ho, rfl⟩ := step_eq_some hs
  cases a with
  | update fd op fails =>
    cases fails with
    | true =>
      rw [apply, update_refused]
      exact ⟨h.registered, h.events_update fd op, h.masks⟩
    | false =>
      obtain ⟨id', hu⟩ := h.update_done fd ho op
      rw [apply, hu]
      refine ⟨h.registered.set rfl, h.events_update fd op, h.masks_update fd ?_⟩
      intro mask hm
      obtain rfl := Option.some.inj hm
      exact (h.events fd).apply op
  | remove fd =>
    rw [apply, remove, h.registered.removeEvent fd ho]
    exact ⟨h.registered.set rfl, h.events, h.masks_update fd fun _ hm => absurd hm (by simp)⟩

/-! ### When a failure is felt -/

/-- A failed call has left everything as it was exactly when it asked for nothing new. -/
theorem Kept.failureKeeps_iff (h : s.Kept) {a : WatchAct} (hs : s.step a = some t) :
    s.FailureKeeps a ↔ s.RefusedIdle a := by
  obtain ⟨ho, _⟩ := step_eq_some hs
  cases a with
  | update fd op fails =>
    cases fails with
    | true =>
      rw [FailureKeeps, update_refused, RefusedIdle, ← (h.events fd).idle_iff,
        ← ChannelOp.apply_eq_iff]
      refine imp_congr (by simp) ?_
      constructor
      · intro he
        have hc := congrFun (congrArg Watched.channels he) fd
        exact (Function.update_self ..).symm.trans hc
      · intro he
        rw [he, Function.update_eq_self]
    | false =>
      obtain ⟨id', hu⟩ := h.update_done fd ho op
      rw [FailureKeeps, hu]
      exact iff_of_true (by simp) (by simp [RefusedIdle])
  | remove fd => exact Iff.rfl

theorem Kept.eq_of_agrees (h : s.Kept) {c : Channel} {fd : Nat} {mask : BitVec 32}
    (hc : ChannelOp.Mask c.events) (hm : s.poller.interest fd = some mask)
    (ha : Agrees c (s.poller.interest fd)) : c.events = mask := by
  obtain ⟨hread, hwrite⟩ := ha mask hm
  exact hc.ext (h.masks fd mask hm) hread hwrite

theorem agrees_self (c : Channel) : Agrees c (some c.events) := by
  intro mask hm
  obtain rfl := Option.some.inj hm
  exact ⟨rfl, rfl⟩

theorem Agree.refused_iff (hg : s.Agree) {fd : Nat} {c : Channel} :
    Agree { s with channels := Function.update s.channels fd c } ↔
    Agrees c (s.poller.interest fd) := by
  have hmasks := Function.forall_update_iff s.channels (a := fd) (b := c)
    fun x c => Agrees c (s.poller.interest x)
  constructor
  · exact fun h => (hmasks.mp h.masks).1
  · exact fun h => ⟨hg.registered, hmasks.mpr ⟨h, fun x _ => hg.masks x⟩⟩

theorem Agree.step_iff (hg : s.Agree) (h : s.Kept) {a : WatchAct} (hs : s.step a = some t) :
    t.Agree ↔ s.ModIdle a := by
  obtain ⟨ho, rfl⟩ := step_eq_some hs
  cases a with
  | update fd op fails =>
    cases fails with
    | true =>
      rw [apply, update_refused, hg.refused_iff]
      constructor
      · intro ha _ hreg
        -- old mask and new are the kernel's
        obtain ⟨mask, hm⟩ : ∃ mask, s.poller.interest fd = some mask := by
          rw [← Option.isSome_iff_exists, ← h.registered fd]
          exact Option.isSome_iff_ne_none.mpr hreg
        have hnew := h.eq_of_agrees ((h.events fd).apply op) hm ha
        have hold := h.eq_of_agrees (h.events fd) hm (hg.masks fd)
        exact ((h.events fd).idle_iff op).mp (hnew.trans hold.symm)
      · intro hok mask hm
        have hreg : s.poller.channels fd ≠ none := by
          rw [← Option.isSome_iff_ne_none, h.registered fd, hm]
          rfl
        rw [ChannelOp.apply_eq_iff.mpr (((h.events fd).idle_iff op).mpr (hok rfl hreg))]
        exact hg.masks fd mask hm
    | false =>
      obtain ⟨id', hu⟩ := h.update_done fd ho op
      rw [apply, hu]
      refine iff_of_true ⟨hg.registered.set rfl, fun fd' => ?_⟩ (by simp [ModIdle])
      by_cases hfd : fd' = fd
      · subst hfd
        simpa using agrees_self (op.apply (s.channels fd'))
      · simpa [hfd] using hg.masks fd'
  | remove fd =>
    rw [apply, remove, h.registered.removeEvent fd ho]
    refine iff_of_true ⟨hg.registered.set rfl, ?_⟩ trivial
    exact (Function.forall_update_iff s.poller.interest fun x i => Agrees (s.channels x) i).mpr
      ⟨fun _ hm => absurd hm (by simp), fun x _ => hg.masks x⟩

/-! ### Whole runs -/

section Runs

open Lib

variable {opened : Nat → Option Owner} {acts : List WatchAct} {u : Watched}

/-- **The copies agree all along exactly when no refused MOD asked for anything new.** -/
theorem always_agree_iff (hr : run step (fresh opened) acts = some u) :
    Always step Agree (fresh opened) acts ↔ Each step ModIdle (fresh opened) acts :=
  always_iff_each (I := Kept) (fun _ _ _ h hs => h.step hs) (fun _ _ _ h hg hs => hg.step_iff h hs)
    (kept_fresh opened) (agree_fresh opened) hr

/-- **A failed `epoll_ctl` changes nothing exactly when it asked for nothing new.**  In every run of
any channels, every failed call leaves masks, map and interest set as they were, and they agree all
along, if and only if every refused call enables what is enabled or disables what is disabled. -/
theorem failure_keeps_iff (hr : run step (fresh opened) acts = some u) :
    (Each step FailureKeeps (fresh opened) acts ∧ Always step Agree (fresh opened) acts) ↔
      Each step RefusedIdle (fresh opened) acts := by
  rw [always_agree_iff hr, each_congr (I := Kept) (fun _ _ _ h hs => h.step hs)
    (fun _ _ _ h hs => h.failureKeeps_iff hs) (kept_fresh opened) hr]
  refine and_iff_left_of_imp (Each.mono fun s a hok => ?_)
  cases a with
  | update fd op fails => exact fun hf _ => hok hf
  | remove fd => trivial

/-- Reading is asked for twice, and the second time in vain. -/
theorem failure_keeps_iff_twice :
    Each step FailureKeeps (fresh fun _ => some .other)
        [.update 5 .enableRead false, .update 5 .enableRead true] ∧
      Always step Agree (fresh fun _ => some .other)
        [.update 5 .enableRead false, .update 5 .enableRead true] :=
  (failure_keeps_iff (u := ((fresh fun _ => some .other).apply (.update 5 .enableRead false)).apply
    (.update 5 .enableRead true)) rfl).mpr (by decide)

/-- `EnableWrite` fails: the output waits for an event that was never asked for. -/
theorem failure_forgotten : ¬ ∀ (opened : Nat → Option Owner) (acts : List WatchAct) (u : Watched),
    run step (fresh opened) acts = some u →
    Each step FailureKeeps (fresh opened) acts ∧ Always step Agree (fresh opened) acts := by
  intro h
  have hrun :=
    (h (fun _ => some .other) [.update 5 .enableRead false, .update 5 .enableWrite true] _ rfl).2
  rw [always_agree_iff rfl] at hrun
  exact absurd hrun (by decide)

end Runs

end Watched

end Flux
