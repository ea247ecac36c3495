import Flux.Reactor.Enrollment
import Flux.Reactor.Poller

/-!
# The connections of one loop

Any number of connections over one poller.  A step is a step of one of them, with what it does to
the poller and to its descriptor, or the kernel gives a number away or takes one back.  A connection
may be called at any time, also behind its release, and `HandleEvent` may come at any time, so the
runs here include those of a loop that works off a list of active channels.

* `Slot`: what a descriptor number is to the loop.  It is vacant, or held by one accepted connection
  that is not registered yet, or held by one that is.
* `LoopState.Sound.step`: a step that spares the numbers it has no claim on any more keeps this
  view.
* `registered_of_undisturbing`: in a run of such steps every established connection is registered
  until it is released.
* `registered_second_release`: one late `Release` takes the number away from another connection.
-/

namespace Flux

open Lib

structure LoopState where
  conns : Nat → Option ConnState
  poller : Poller

inductive LoopAct
  /-- A connection is accepted under an unused number and set up. -/
  | accept (id fd : Nat) (callbacks : Callbacks)
  /-- `Poll` finds events on a number. -/
  | poll (fd : Nat) (events : BitVec 32)
  | conn (id : Nat) (i : Input)
  /-- The rest of the process opens and closes descriptors too. -/
  | openOther (fd : Nat)
  | closeOther (fd : Nat)

namespace LoopState

def new : LoopState where
  conns _ := none
  poller := .new

def setOpened (s : LoopState) (fd : Nat) (owner : Option Owner) : LoopState :=
  { s with poller := { s.poller with opened := Function.update s.poller.opened fd owner } }

def put (s : LoopState) (id : Nat) (c c' : ConnState) : LoopState where
  conns := Function.update s.conns id (some c')
  poller := (c'.log.drop c.log.length).foldl (Poller.observe id c.conn.sockfd) s.poller

def stepConn (s : LoopState) (id : Nat) (i : Input) : Option LoopState :=
  (s.conns id).bind fun c => (c.step i).map (s.put id c)

def step (s : LoopState) : LoopAct → Option LoopState
  | .accept id fd callbacks =>
    if s.conns id = none ∧ s.poller.opened fd = none then
      some { s.setOpened fd (some (.conn id)) with
        conns := Function.update s.conns id (some (.fresh id fd callbacks)) }
    else none
  | .poll fd events =>
    if s.poller.interest fd = none then none
    else
      match s.poller.channels fd with
      | none => some s
      | some id => s.stepConn id ⟨.setREvents events, false⟩
  | .conn id i => if i.act.reports then none else s.stepConn id i
  | .openOther fd => if s.poller.opened fd = none then some (s.setOpened fd (some .other)) else none
  | .closeOther fd =>
    if s.poller.opened fd = some .other then some { s with poller := s.poller.closeFd fd } else none

theorem stepConn_eq_some {s t : LoopState} {id : Nat} {i : Input} :
    s.stepConn id i = some t ↔
      ∃ c c', s.conns id = some c ∧ c.step i = some c' ∧ t = s.put id c c' := by
  rw [stepConn, Option.bind_eq_some_iff]
  constructor
  · rintro ⟨c, hc, h⟩
    obtain ⟨c', hc', rfl⟩ := Option.map_eq_some_iff.mp h
    exact ⟨c, c', hc, hc', rfl⟩
  · rintro ⟨c, c', hc, hc', rfl⟩
    exact ⟨c, hc, by rw [hc', Option.map_some]⟩

end LoopState

/-! ### What a number is to the loop -/

namespace LoopState

/-- Connection `id` is in state `c` and still holds the number. -/
structure Holds (s : LoopState) (fd id : Nat) (c : ConnState) : Prop where
  conn : s.conns id = some c
  opened : c.conn.socketOpen = true
  number : c.conn.sockfd = fd

/-- Vacant, held by a connection that is not registered yet, or held by one that is. -/
inductive Slot (s : LoopState) (fd : Nat) : Prop
  | vacant {owner} (entry : s.poller.entry fd = (none, owner, none))
      (foreign : ∀ id, owner ≠ some (.conn id)) (free : ∀ id c, ¬ s.Holds fd id c)
  | accepted {id c} (holds : s.Holds fd id c) (alone : ∀ id' c', s.Holds fd id' c' → id' = id)
      (entry : s.poller.entry fd = (none, some (.conn id), none)) (enrolled : ¬ c.Enrolled)
  | watched {id c} (holds : s.Holds fd id c) (alone : ∀ id' c', s.Holds fd id' c' → id' = id)
      (entry : s.poller.entry fd = (some id, some (.conn id), some c.conn.channel.events))
      (enrolled : c.Enrolled)

variable {s t : LoopState} {fd id : Nat} {c c' : ConnState}

theorem Slot.channels_of_closed (h : s.Slot fd) (ho : s.poller.opened fd = none) :
    s.poller.channels fd = none := by
  cases h with
  | vacant entry => exact congrArg Prod.fst entry
  | accepted _ _ entry | watched _ _ entry =>
    have hopened := congrArg (·.2.1) entry
    exact absurd (ho.symm.trans hopened) (by simp)

/-- A number looks the same as long as the poller and the connection that holds it do. -/
theorem Slot.frame (h : s.Slot fd) (entry : t.poller.entry fd = s.poller.entry fd)
    (holds : ∀ id c, t.Holds fd id c ↔ s.Holds fd id c) : t.Slot fd := by
  cases h with
  | vacant he foreign free =>
    exact .vacant (entry.trans he) foreign fun id c h => free id c ((holds id c).mp h)
  | accepted hh alone he enrolled =>
    exact .accepted ((holds _ _).mpr hh) (fun id' c' h => alone id' c' ((holds id' c').mp h))
      (entry.trans he) enrolled
  | watched hh alone he enrolled =>
    exact .watched ((holds _ _).mpr hh) (fun id' c' h => alone id' c' ((holds id' c').mp h))
      (entry.trans he) enrolled

/-- The number of an open connection is its own, and it is registered if it has asked for that. -/
theorem Slot.of_holds (hs : s.Slot fd) (h : s.Holds fd id c) :
    (∀ id' c', s.Holds fd id' c' → id' = id) ∧
      (¬ c.Enrolled ∧ s.poller.entry fd = (none, some (.conn id), none) ∨
        c.Enrolled ∧ s.poller.entry fd =
          (some id, some (.conn id), some c.conn.channel.events)) := by
  cases hs with
  | vacant _ _ free => exact absurd h (free id c)
  | accepted holds alone entry enrolled =>
    obtain rfl := alone id c h
    obtain rfl := Option.some.inj (holds.conn.symm.trans h.conn)
    exact ⟨alone, Or.inl ⟨enrolled, entry⟩⟩
  | watched holds alone entry enrolled =>
    obtain rfl := alone id c h
    obtain rfl := Option.some.inj (holds.conn.symm.trans h.conn)
    exact ⟨alone, Or.inr ⟨enrolled, entry⟩⟩

/-- **What holds in every state**: each number is in one of the three situations, and an open
connection is registered or untouched. -/
structure Sound (s : LoopState) : Prop where
  coherent : ∀ {id c}, s.conns id = some c → c.Coherent
  untouched : ∀ {id c}, s.conns id = some c → c.conn.socketOpen = true → c.Enrolled ∨ c.Untouched
  slot : ∀ fd, s.Slot fd

theorem sound_new : new.Sound where
  coherent h := absurd h (by simp [new])
  untouched h := absurd h (by simp [new])
  slot _ := .vacant rfl (by simp [new, Poller.new]) fun _ _ h => absurd h.conn (by simp [new])

/-! ### A step of one connection -/

theorem put_holds_ne {id' : Nat} {x : ConnState} (hne : id' ≠ id) :
    (s.put id c c').Holds fd id' x ↔ s.Holds fd id' x := by
  have hconns : (s.put id c c').conns id' = s.conns id' := Function.update_of_ne hne _ _
  constructor
  · intro h
    exact ⟨hconns ▸ h.conn, h.opened, h.number⟩
  · intro h
    exact ⟨hconns.trans h.conn, h.opened, h.number⟩

theorem put_holds_self {x : ConnState} : (s.put id c c').Holds fd id x ↔
    c' = x ∧ c'.conn.socketOpen = true ∧ c'.conn.sockfd = fd := by
  have hconns : (s.put id c c').conns id = some c' := Function.update_self _ _ _
  constructor
  · intro h
    obtain rfl := Option.some.inj (hconns.symm.trans h.conn)
    exact ⟨rfl, h.opened, h.number⟩
  · rintro ⟨rfl, hopen, hnumber⟩
    exact ⟨hconns, hopen, hnumber⟩

theorem put_poller (s : LoopState) (id : Nat) (c : ConnState) (e : Exec) (stack : List Frame) :
    (s.put id c ⟨e.conn, stack, c.log ++ e.obs⟩).poller =
      (e.obs.filter Obs.polls).foldl (Poller.observe id c.conn.sockfd) s.poller := by
  rw [put, List.drop_left, observe_filter]

/-- Away from the number of the connection nothing changes. -/
theorem Sound.slot_put_other (hs : s.Sound) (hc : s.conns id = some c)
    (hnumber : c'.conn.sockfd = c.conn.sockfd) (hne : fd ≠ c.conn.sockfd) :
    (s.put id c c').Slot fd := by
  refine (hs.slot fd).frame (Poller.foldl_observe_entry hne _ _) ?_
  intro id' x
  by_cases hid : id' = id
  · subst hid
    rw [put_holds_self]
    refine iff_of_false (fun h => hne (h.2.2.symm.trans hnumber)) fun h => ?_
    obtain rfl := Option.some.inj (hc.symm.trans h.conn)
    exact hne h.number.symm
  · exact put_holds_ne hid

theorem Sound.slot_put_closed (hs : s.Sound) (hc : s.conns id = some c)
    (hclosed : c.conn.socketOpen = false) (hclosed' : c'.conn.socketOpen = false)
    (hpoller : (s.put id c c').poller = s.poller) (fd : Nat) : (s.put id c c').Slot fd := by
  refine (hs.slot fd).frame (by rw [hpoller]) ?_
  intro id' x
  by_cases hid : id' = id
  · subst hid
    rw [put_holds_self]
    refine iff_of_false (fun h => absurd (hclosed'.symm.trans h.2.1) Bool.false_ne_true) fun h => ?_
    obtain rfl := Option.some.inj (hc.symm.trans h.conn)
    exact absurd (hclosed.symm.trans h.opened) Bool.false_ne_true
  · exact put_holds_ne hid

end LoopState

theorem ConnState.enrolled_iff {c : ConnState} {e : Exec} {stack : List Frame} :
    Enrolled ⟨e.conn, stack, c.log ++ e.obs⟩ ↔
      c.Enrolled ∨ ∃ events, .updateEvent events ∈ e.obs.filter Obs.polls := by
  simp only [Enrolled, List.mem_append, exists_or, List.mem_filter]
  exact or_congr_right (exists_congr fun _ => (and_iff_left rfl).symm)

/-- **A released connection leaves its number alone.**  It releases once more only while nobody is
registered under the number, and has no update to make, by a `SendInLoop` that gets past its guard,
while the number is open. -/
def ConnState.Spares (c : ConnState) (p : Poller) (i : Input) : Prop :=
  match c.runs i with
  | some .releaseInLoop => p.channels c.conn.sockfd = none
  | some (.sendInLoop _) => c.conn.statu ≠ .disconnected → c.conn.channel.writeAble = false →
      p.opened c.conn.sockfd = none
  | _ => True

instance (c : ConnState) (p : Poller) (i : Input) : Decidable (c.Spares p i) := by
  unfold ConnState.Spares
  split <;> infer_instance

namespace LoopState

variable {s t : LoopState} {fd id : Nat} {c c' : ConnState}

theorem Sound.slot_put_released {i : Input} {seg : Segment} {rest : List Frame} {e : Exec}
    (hs : s.Sound) (hc : s.conns id = some c) (hclosed : c.conn.socketOpen = false)
    (hseg : segment c.stack i.act = some (seg, rest))
    (he : seg.exec c.conn i.hasTimer = some e) (hspares : c.Spares s.poller i) (fd : Nat) :
    (s.put id c ⟨e.conn, e.frames ++ rest, c.log ++ e.obs⟩).Slot fd := by
  have hslot := hs.slot c.conn.sockfd
  rw [ConnState.Spares, ConnState.runs_eq hseg] at hspares
  obtain ⟨hpolls, -⟩ := Segment.exec_polls (hs.coherent hc).watched he
  cases hpolls with
  | none obs _ socketOpen =>
    refine hs.slot_put_closed hc hclosed (socketOpen.trans hclosed) ?_ fd
    rw [put_poller, obs, List.foldl_nil]
  | update obs socketOpen late =>
    refine hs.slot_put_closed hc hclosed (socketOpen.trans hclosed) ?_ fd
    rcases late with hopen | hst | ⟨buf, rfl, hst, hoff⟩
    · exact absurd (hclosed.symm.trans hopen) Bool.false_ne_true
    · exact absurd hst ((hs.coherent hc).gone hclosed)
    · have ho := hspares hst hoff
      rw [put_poller, obs]
      exact Poller.updateEvent_closed (hslot.channels_of_closed ho) ho
  | release seg obs _ socketOpen =>
    subst seg
    refine hs.slot_put_closed hc hclosed socketOpen ?_ fd
    rw [put_poller, obs, hclosed, if_neg Bool.false_ne_true]
    exact Poller.removeEvent_none hspares

theorem Sound.slot_put_open {seg : Segment} {stack : List Frame} {e : Exec} {hasTimer : Bool}
    (hs : s.Sound) (hc : s.conns id = some c) (hopen : c.conn.socketOpen = true)
    (he : seg.exec c.conn hasTimer = some e)
    (ht : s.put id c ⟨e.conn, stack, c.log ++ e.obs⟩ = t) : t.Slot c.conn.sockfd := by
  have hpoller := put_poller s id c e stack
  obtain ⟨halone, hentry⟩ := (hs.slot c.conn.sockfd).of_holds ⟨hc, hopen, rfl⟩
  have halone' : ∀ id' x, t.Holds c.conn.sockfd id' x → id' = id := by
    intro id' x h
    by_contra hid
    exact hid (halone id' x ((put_holds_ne hid).mp (ht ▸ h)))
  obtain ⟨hpolls, hnumber⟩ := Segment.exec_polls (hs.coherent hc).watched he
  have hholds : e.conn.socketOpen = c.conn.socketOpen →
      t.Holds c.conn.sockfd id ⟨e.conn, stack, c.log ++ e.obs⟩ :=
    fun h => ht ▸ put_holds_self.mpr ⟨rfl, h.trans hopen, hnumber⟩
  have henrolled := @ConnState.enrolled_iff c e stack
  rw [ht] at hpoller
  cases hpolls with
  | none obs events socketOpen =>
    rw [obs] at hpoller henrolled
    simp only [List.not_mem_nil, exists_false, or_false] at henrolled
    rcases hentry with ⟨hen, hentry⟩ | ⟨hen, hentry⟩
    · exact .accepted (hholds socketOpen) halone' (hpoller ▸ hentry) (mt henrolled.mp hen)
    · exact .watched (hholds socketOpen) halone' (by rw [hpoller, events]; exact hentry)
        (henrolled.mpr hen)
  | update obs socketOpen =>
    rw [obs] at hpoller henrolled
    refine .watched (hholds socketOpen) halone' ?_
      (henrolled.mpr (Or.inr ⟨_, List.mem_singleton_self _⟩))
    rw [hpoller]
    exact Poller.updateEvent_entry (hentry.imp (·.2) fun h => ⟨_, h.2⟩)
  | release _ obs _ socketOpen =>
    rw [obs, if_pos hopen] at hpoller
    have hgone : t.poller.entry c.conn.sockfd = (none, none, none) := by
      rw [hpoller]
      exact Poller.closeFd_removeEvent_entry _ _
    refine .vacant hgone (by simp) ?_
    intro id' x h
    obtain rfl := halone' id' x h
    rw [← ht] at h
    exact absurd (socketOpen.symm.trans (put_holds_self.mp h).2.1) Bool.false_ne_true

/-- A step of one connection keeps the view, when it leaves the connection registered, untouched or
closed. -/
theorem Sound.put {i : Input} (hs : s.Sound) (hc : s.conns id = some c) (h : c.step i = some c')
    (hspares : c.conn.socketOpen = false → c.Spares s.poller i)
    (huntouched : c'.conn.socketOpen = true → c'.Enrolled ∨ c'.Untouched) :
    (s.put id c c').Sound := by
  have hconns : ∀ id', id' ≠ id → (s.put id c c').conns id' = s.conns id' :=
    fun id' hne => Function.update_of_ne hne _ _
  have hself : (s.put id c c').conns id = some c' := Function.update_self _ _ _
  refine ⟨?_, ?_, ?_⟩
  · intro id' x hx
    by_cases hid : id' = id
    · subst hid
      obtain rfl := Option.some.inj (hself.symm.trans hx)
      exact (hs.coherent hc).step h
    · exact hs.coherent ((hconns id' hid).symm.trans hx)
  · intro id' x hx
    by_cases hid : id' = id
    · subst hid
      obtain rfl := Option.some.inj (hself.symm.trans hx)
      exact huntouched
    · exact hs.untouched ((hconns id' hid).symm.trans hx)
  · intro fd
    obtain ⟨seg, rest, e, hseg, he, rfl⟩ := ConnState.step_eq_some.mp h
    cases hopen : c.conn.socketOpen with
    | false => exact hs.slot_put_released hc hopen hseg he (hspares hopen) fd
    | true =>
      by_cases hfd : fd = c.conn.sockfd
      · exact hfd ▸ hs.slot_put_open hc hopen he rfl
      · exact hs.slot_put_other hc (Segment.exec_polls (hs.coherent hc).watched he).2 hfd

/-! ### Steps of the loop -/

/-- A released connection spares its number. -/
def Undisturbing (s : LoopState) : LoopAct → Prop
  | .conn id i => ∀ c ∈ s.conns id, c.conn.socketOpen = false → c.Spares s.poller i
  | _ => True

instance (s : LoopState) : ∀ a, Decidable (Undisturbing s a)
  | .conn id i => inferInstanceAs (Decidable (∀ c ∈ s.conns id, c.conn.socketOpen = false →
      c.Spares s.poller i))
  | .accept .. | .poll .. | .openOther _ | .closeOther _ => isTrue trivial

theorem Sound.setOpened (hs : s.Sound) {owner : Option Owner}
    (foreign : ∀ id, owner ≠ some (.conn id))
    (hfd : s.poller.opened fd = none ∨ s.poller.opened fd = some .other) :
    (s.setOpened fd owner).Sound := by
  refine ⟨hs.coherent, hs.untouched, ?_⟩
  intro fd'
  have hholds : ∀ id c, (s.setOpened fd owner).Holds fd' id c ↔ s.Holds fd' id c :=
    fun id c => ⟨fun h => ⟨h.conn, h.opened, h.number⟩, fun h => ⟨h.conn, h.opened, h.number⟩⟩
  by_cases hne : fd' = fd
  · subst hne
    cases hs.slot fd' with
    | vacant entry _ free =>
      simp only [Poller.entry, Prod.mk.injEq] at entry
      refine .vacant ?_ foreign fun id c h => free id c ((hholds id c).mp h)
      simp [Poller.entry, LoopState.setOpened, entry]
    | accepted _ _ entry | watched _ _ entry =>
      have hopened := congrArg (·.2.1) entry
      exact absurd hopened (by rcases hfd with h | h <;> simp [Poller.entry, h])
  · refine (hs.slot fd').frame ?_ hholds
    simp [Poller.entry, LoopState.setOpened, Function.update_of_ne hne]

theorem Sound.closeOther (hs : s.Sound) (hfd : s.poller.opened fd = some .other) :
    LoopState.Sound { s with poller := s.poller.closeFd fd } := by
  have hinterest : s.poller.interest fd = none := by
    cases hs.slot fd with
    | vacant entry => exact congrArg (·.2.2) entry
    | accepted _ _ entry | watched _ _ entry =>
      have hopened := congrArg (·.2.1) entry
      exact absurd (hfd.symm.trans hopened) (by simp)
  have hclose : s.poller.closeFd fd = (s.setOpened fd none).poller := by
    rw [Poller.closeFd, ← hinterest, Function.update_eq_self]
    rfl
  rw [hclose]
  exact hs.setOpened (by simp) (Or.inr hfd)

theorem Sound.accept {callbacks : Callbacks} (hs : s.Sound) (hid : s.conns id = none)
    (hfd : s.poller.opened fd = none) :
    LoopState.Sound { s.setOpened fd (some (.conn id)) with
      conns := Function.update s.conns id (some (.fresh id fd callbacks)) } := by
  have hne : ∀ {id' x}, Function.update s.conns id (some (.fresh id fd callbacks)) id' = some x →
      id' = id ∧ x = .fresh id fd callbacks ∨ id' ≠ id ∧ s.conns id' = some x := by
    intro id' x hx
    by_cases h : id' = id
    · subst h
      rw [Function.update_self] at hx
      exact Or.inl ⟨rfl, (Option.some.inj hx).symm⟩
    · rw [Function.update_of_ne h] at hx
      exact Or.inr ⟨h, hx⟩
  refine ⟨?_, ?_, ?_⟩
  · intro id' x hx
    rcases hne hx with ⟨rfl, rfl⟩ | ⟨-, hx⟩
    · exact ConnState.coherent_fresh _ _ _
    · exact hs.coherent hx
  · intro id' x hx hopen
    rcases hne hx with ⟨rfl, rfl⟩ | ⟨-, hx⟩
    · exact Or.inr (ConnState.untouched_fresh _ _ _)
    · exact hs.untouched hx hopen
  · intro fd'
    by_cases hnumber : fd' = fd
    · subst hnumber
      cases hs.slot fd' with
      | vacant entry _ free =>
        simp only [Poller.entry, Prod.mk.injEq] at entry
        refine .accepted ⟨Function.update_self _ _ _, rfl, rfl⟩ (fun id' x h => ?_) ?_ ?_
        · rcases hne h.conn with ⟨rfl, -⟩ | ⟨-, hx⟩
          · rfl
          · exact absurd ⟨hx, h.opened, h.number⟩ (free id' x)
        · simp [Poller.entry, LoopState.setOpened, entry]
        · simp [ConnState.Enrolled, ConnState.fresh]
      | accepted _ _ entry | watched _ _ entry =>
        have hopened := congrArg (·.2.1) entry
        exact absurd (hfd.symm.trans hopened) (by simp)
    · refine (hs.slot fd').frame ?_ fun id' x => ⟨?_, ?_⟩
      · simp [Poller.entry, LoopState.setOpened, Function.update_of_ne hnumber]
      · intro h
        rcases hne h.conn with ⟨-, rfl⟩ | ⟨-, hx⟩
        · exact absurd h.number.symm hnumber
        · exact ⟨hx, h.opened, h.number⟩
      · intro h
        refine ⟨?_, h.opened, h.number⟩
        have hother : id' ≠ id := fun heq => by simp [heq ▸ h.conn] at hid
        exact (Function.update_of_ne hother _ _).trans h.conn

/-- **A step that spares the released numbers keeps the view.** -/
theorem Sound.step {a : LoopAct} (hs : s.Sound) (hok : Undisturbing s a) (h : s.step a = some t) :
    t.Sound := by
  cases a with
  | accept id fd callbacks =>
    simp only [LoopState.step] at h
    split at h
    · obtain rfl := Option.some.inj h
      exact hs.accept ‹_ ∧ _›.1 ‹_ ∧ _›.2
    · exact absurd h (by simp)
  | poll fd events =>
    simp only [LoopState.step] at h
    split at h
    · exact absurd h (by simp)
    · split at h
      · obtain rfl := Option.some.inj h
        exact hs
      · rename_i id hchannels
        obtain ⟨c, c', hc, hstep, rfl⟩ := stepConn_eq_some.mp h
        cases hs.slot fd with
        | vacant entry | accepted _ _ entry =>
          exact absurd (hchannels.symm.trans (congrArg Prod.fst entry)) (by simp)
        | watched holds _ entry enrolled =>
          obtain rfl := Option.some.inj (hchannels.symm.trans (congrArg Prod.fst entry))
          obtain rfl := Option.some.inj (hc.symm.trans holds.conn)
          refine hs.put hc hstep (fun h => absurd (h.symm.trans holds.opened) (by simp)) fun _ => ?_
          exact Or.inl (enrolled.step hstep)
  | conn id i =>
    simp only [LoopState.step] at h
    split at h
    · exact absurd h (by simp)
    · rename_i hreports
      obtain ⟨c, c', hc, hstep, rfl⟩ := stepConn_eq_some.mp h
      refine hs.put hc hstep (hok c hc) ?_
      intro hopen
      rcases hs.untouched hc (ConnState.open_of_step hstep hopen) with hen | hun
      · exact Or.inl (hen.step hstep)
      · exact (hun.step (by simpa using hreports) hstep).resolve_left (by simp [hopen])
  | openOther fd =>
    simp only [LoopState.step] at h
    split at h
    · obtain rfl := Option.some.inj h
      exact hs.setOpened (by simp) (Or.inl ‹_›)
    · exact absurd h (by simp)
  | closeOther fd =>
    simp only [LoopState.step] at h
    split at h
    · obtain rfl := Option.some.inj h
      exact hs.closeOther ‹_›
    · exact absurd h (by simp)

/-- Every established and not yet released connection is registered: `_channels` has its channel
under its number, and the kernel watches that number for the events of the channel. -/
def Registered (s : LoopState) : Prop :=
  ∀ id c, s.conns id = some c → .establishedInLoop ∈ c.log → .releaseInLoop ∉ c.log →
    s.poller.channels c.conn.sockfd = some id ∧
      s.poller.interest c.conn.sockfd = some c.conn.channel.events

theorem Sound.registered (hs : s.Sound) : s.Registered := by
  intro id c hc hest hrel
  have hopen : c.conn.socketOpen = true := by
    rw [← (hs.coherent hc).released, Bool.not_eq_false] at hrel
    exact hrel
  obtain ⟨-, ⟨hen, -⟩ | ⟨-, hentry⟩⟩ := (hs.slot c.conn.sockfd).of_holds ⟨hc, hopen, rfl⟩
  · rcases hs.untouched hc hopen with hen' | hun
    · exact absurd hen' hen
    · exact absurd hest hun.early
  · exact ⟨congrArg Prod.fst hentry, congrArg (·.2.2) hentry⟩

end LoopState

/-- **Connections are isolated while the released ones keep still.**  In a run in which no released
connection releases again while its number is registered by another one, or goes on to an update of
the interest while its number is in use again, every connection whose `Established` has run and
whose `ReleaseInLoop` has not is registered. -/
theorem registered_of_undisturbing (acts : List LoopAct) (s : LoopState)
    (hr : run LoopState.step .new acts = some s)
    (hok : Each LoopState.step LoopState.Undisturbing .new acts) : s.Registered := by
  have hs : s.Sound := run_invariant (fun _ _ _ hi hok hs => LoopState.Sound.step hi hok hs)
    LoopState.sound_new hok hr
  exact hs.registered

/-- A number is closed and given away again, and its first owner is still called. -/
theorem registered_of_undisturbing_reuse :
    ∃ acts s, run LoopState.step .new acts = some s ∧
      (s.conns 2).map (fun c => (c.conn.sockfd, c.conn.statu)) = some (5, .connected) ∧
      s.Registered := by
  let acts : List LoopAct :=
    [.accept 1 5 ⟨false, false, false, false⟩, .conn 1 ⟨.call .established, false⟩,
      .conn 1 ⟨.call .release, false⟩, .conn 1 ⟨.resume, false⟩, .conn 1 ⟨.call .release, false⟩,
      .conn 1 ⟨.resume, false⟩, .accept 2 5 ⟨false, false, false, false⟩,
      .conn 2 ⟨.call .established, false⟩, .conn 1 ⟨.call (.send [1]), false⟩, .poll 5 EPOLLIN]
  have hrun : (run LoopState.step .new acts).map (fun s =>
      (s.conns 2).map fun c => (c.conn.sockfd, c.conn.statu)) = some (some (5, .connected)) := by
    decide +kernel
  obtain ⟨s, hs, hp⟩ := Option.map_eq_some_iff.mp hrun
  exact ⟨acts, s, hs, hp, registered_of_undisturbing acts s hs (by decide +kernel)⟩

/-- A second `Release` of a closed connection removes the channel of the connection that got its
number. -/
theorem registered_second_release :
    ¬ ∀ (acts : List LoopAct) (s : LoopState), run LoopState.step .new acts = some s →
      s.Registered := by
  intro h
  let acts : List LoopAct :=
    [.accept 1 5 ⟨false, false, false, false⟩, .conn 1 ⟨.call .established, false⟩,
      .conn 1 ⟨.call .release, false⟩, .conn 1 ⟨.resume, false⟩,
      .accept 2 5 ⟨false, false, false, false⟩, .conn 2 ⟨.call .established, false⟩,
      .conn 1 ⟨.call .release, false⟩]
  have hrun : (run LoopState.step .new acts).map (fun s => (s.poller.channels 5, (s.conns 2).map
      fun c => (c.conn.sockfd, decide (.establishedInLoop ∈ c.log),
        decide (.releaseInLoop ∈ c.log)))) =
      some (none, some (5, true, false)) := by
    decide +kernel
  obtain ⟨s, hs, hp⟩ := Option.map_eq_some_iff.mp hrun
  obtain ⟨hnone, hconn⟩ := Prod.mk.inj hp
  obtain ⟨c, hc, hc'⟩ := Option.map_eq_some_iff.mp hconn
  simp only [Prod.mk.injEq, decide_eq_true_eq, decide_eq_false_iff_not] at hc'
  obtain ⟨hfd, hest, hrel⟩ := hc'
  have hreg := (h acts s hs 2 c hc hest hrel).1
  rw [hfd, hnone] at hreg
  exact absurd hreg (by simp)

end Flux
