import Flux.Reactor.ConnectionRun

/-!
# `Shutdown` in the message callback

`ShutdownInLoop` hands unread input to the message callback, the callback may call `Shutdown`, and
in the thread of the loop that is a call of `ShutdownInLoop` again.  Here the callback does a finite
sequence of calls, a `script`, and `shutdownCall` runs the segments of `Connection` in it, nested no
deeper than it is told; what the callbacks behind `Release` do is left out.

`shutdownCall_gets` connects it with the runs of a connection.  The bytes left unread carry the
rest: no call adds to them, so a callback that takes some before it calls `Shutdown` is nested no
deeper than their number (`shutdownCall_ne_deep`), and one that takes none is nested for ever
(`shutdownCall_ne_returned`).  Their number also bounds what the nested callbacks can send
(`shutdownBound`), so that they stay inside the output buffer (`shutdownCall_within`).
-/

namespace Flux

open Lib

inductive CallbackOp
  | send (data : Bytes)
  | shutdown
  /-- Up to so many bytes of the input are taken. -/
  | consume (n : Nat)
deriving DecidableEq, Repr

inductive Outcome
  | returned (c : Connection)
  /-- A `Send` has written past the end of a buffer. -/
  | overrun
  /-- It is nested deeper than it was allowed to be. -/
  | deep

/-- Nothing was written past a buffer, and the write index of the output is at most this in the
end. -/
def Outcome.Within (idx : Nat) : Outcome → Prop
  | returned c => c.outBuffer.writerIdx ≤ idx
  | overrun => False
  | deep => True

def Outcome.andThen : Outcome → (Connection → Outcome) → Outcome
  | returned c, f => f c
  | overrun, _ => overrun
  | deep, _ => deep

namespace Connection

def sendCall (c : Connection) (data : Bytes) : Outcome :=
  match (Buffer.new.writeAndPush data).bind c.sendInLoop with
  | some e => .returned e.conn
  | none => .overrun

def consumeUpTo (c : Connection) (n : Nat) : Connection :=
  { c with inBuffer :=
    c.inBuffer.moveReadOffset (min n c.inBuffer.readAbleSize) (Nat.min_le_right _ _) }

/-- `ShutdownInLoop` behind the message callback, with the `Release` it may come to. -/
def shutdownEnd (hasTimer : Bool) (c : Connection) : Connection :=
  let e := c.shutdownTail
  if .releaseCall ∈ e.frames then (e.conn.releaseInLoop hasTimer).conn else e.conn

end Connection

def CallbackOp.run (nested : Connection → Outcome) (c : Connection) : CallbackOp → Outcome
  | send data => c.sendCall data
  | shutdown => nested c
  | consume n => .returned (c.consumeUpTo n)

/-- The message callback, where `nested` is what a `Shutdown` does. -/
def runScript (nested : Connection → Outcome) : List CallbackOp → Connection → Outcome
  | [], c => .returned c
  | op :: ops, c => (op.run nested c).andThen (runScript nested ops)

/-- `Shutdown` in the loop, with calls of `ShutdownInLoop` nested up to a depth.  No timer runs out
meanwhile, so `HasTimer` answers the same all along. -/
def shutdownCall (hasTimer : Bool) (script : List CallbackOp) : Nat → Connection → Outcome
  | 0, _ => .deep
  | depth + 1, c =>
    let e := c.shutdownInLoop
    (if .callback .message ∈ e.frames then
      runScript (shutdownCall hasTimer script depth) script e.conn
      else .returned e.conn).andThen fun c => .returned (c.shutdownEnd hasTimer)

/-- The callback takes something before it calls `Shutdown`, or does not call it at all. -/
def TakesFirst : List CallbackOp → Prop
  | [] => True
  | .send _ :: ops => TakesFirst ops
  | .consume n :: ops => 0 < n ∨ TakesFirst ops
  | .shutdown :: _ => False

/-- What a call of the callback can append, when a `Shutdown` in it can append `nested`. -/
def CallbackOp.bound (nested : Nat) : CallbackOp → Nat
  | send data => data.length
  | shutdown => nested
  | consume _ => 0

/-- What `Shutdown` can append with so many bytes unread: the callback runs if there are any, and
with fewer in each `Shutdown` it calls. -/
def shutdownBound (script : List CallbackOp) : Nat → Nat
  | 0 => 0
  | n + 1 => (script.map (CallbackOp.bound (shutdownBound script n))).sum

/-- All of it ends inside the cap of the output buffer. -/
def SendsFit (script : List CallbackOp) (c : Connection) : Prop :=
  c.outBuffer.writerIdx + shutdownBound script c.inBuffer.readAbleSize ≤ bufferMaxSize

instance (script : List CallbackOp) (c : Connection) : Decidable (SendsFit script c) :=
  inferInstanceAs (Decidable (_ ≤ _))

instance TakesFirst.decidable : ∀ ops, Decidable (TakesFirst ops)
  | [] => .isTrue trivial
  | .send _ :: ops => TakesFirst.decidable ops
  | .consume n :: ops =>
    have := TakesFirst.decidable ops
    inferInstanceAs (Decidable (0 < n ∨ TakesFirst ops))
  | .shutdown :: _ => .isFalse fun h => h

/-! ### What is left unread -/

namespace Connection

def left (c : Connection) : Nat := c.inBuffer.readAbleSize

theorem sendInLoop_inBuffer {c : Connection} {buf : Buffer} {e : Exec}
    (h : c.sendInLoop buf = some e) :
    e.conn.inBuffer = c.inBuffer := by
  unfold sendInLoop at h
  split at h
  · obtain rfl := Option.some.inj h
    rfl
  · obtain ⟨out, _, rfl⟩ := Option.map_eq_some_iff.mp h
    dsimp only
    split <;> rfl

theorem sendCall_left {c c' : Connection} {data : Bytes} (h : c.sendCall data = .returned c') :
    c'.left = c.left := by
  unfold sendCall at h
  split at h
  · rename_i e he
    obtain ⟨buf, _, hs⟩ := Option.bind_eq_some_iff.mp he
    obtain rfl := Outcome.returned.inj h
    rw [left, sendInLoop_inBuffer hs, left]
  · exact absurd h (by simp)

theorem sendCall_ne_deep (c : Connection) (data : Bytes) : c.sendCall data ≠ .deep := by
  unfold sendCall
  split <;> simp

/-- A `Send` overruns a buffer exactly where the data does not fit its own copy, or the output
buffer of a connection that still takes it. -/
theorem sendCall_overrun_iff (c : Connection) (data : Bytes) : c.sendCall data = .overrun ↔
    ¬ (Buffer.new.Fits data.length ∧ (c.statu = .disconnected ∨ c.outBuffer.Fits data.length)) := by
  have hnew := Buffer.new.writeAndPush_isSome_iff data
  have hout := c.outBuffer.writeAndPush_isSome_iff data
  unfold sendCall
  cases hb : Buffer.new.writeAndPush data with
  | none =>
    rw [hb] at hnew
    exact iff_of_true rfl fun h => absurd (hnew.mpr h.1) (by simp)
  | some buf =>
    rw [hb] at hnew
    have hunread : buf.unread = data := Buffer.writeAndPush_unread hb
    rw [and_iff_right (hnew.mp rfl), Option.bind_some, sendInLoop, hunread]
    by_cases hs : c.statu = .disconnected
    · simp [hs]
    · simp only [hs, false_or, ← hout]
      cases c.outBuffer.writeAndPush data <;> simp

theorem sendCall_writerIdx_le {c c' : Connection} {data : Bytes}
    (h : c.sendCall data = .returned c') :
    c'.outBuffer.writerIdx ≤ c.outBuffer.writerIdx + data.length := by
  unfold sendCall at h
  split at h
  · rename_i e he
    obtain ⟨buf, hbuf, hs⟩ := Option.bind_eq_some_iff.mp he
    obtain rfl := Outcome.returned.inj h
    have hunread : buf.unread = data := Buffer.writeAndPush_unread hbuf
    unfold sendInLoop at hs
    split at hs
    · obtain rfl := Option.some.inj hs
      exact Nat.le_add_right _ _
    · obtain ⟨out, hout, rfl⟩ := Option.map_eq_some_iff.mp hs
      have hle := hunread ▸ Buffer.writeAndPush_writerIdx_le hout
      dsimp only
      split <;> exact hle
  · exact absurd h (by simp)

theorem sendCall_within {c : Connection} {data : Bytes}
    (h : c.outBuffer.writerIdx + data.length ≤ bufferMaxSize) :
    (c.sendCall data).Within (c.outBuffer.writerIdx + data.length) := by
  have hover := mt (sendCall_overrun_iff c data).mp
    (not_not.mpr ⟨Or.inr (by simpa using Nat.le_of_add_left_le h), Or.inr (Or.inr h)⟩)
  cases hc : c.sendCall data with
  | returned c' => exact sendCall_writerIdx_le hc
  | overrun => exact hover hc
  | deep => trivial

theorem consumeUpTo_left (c : Connection) (n : Nat) :
    (c.consumeUpTo n).left = c.left - min n c.left :=
  Buffer.moveReadOffset_readAbleSize c.inBuffer _ (Nat.min_le_right _ _)

theorem shutdownEnd_outBuffer (hasTimer : Bool) (c : Connection) :
    (c.shutdownEnd hasTimer).outBuffer = c.outBuffer := by
  have htail : c.shutdownTail.conn.outBuffer = c.outBuffer := by
    unfold shutdownTail
    split
    · split <;> rfl
    · rfl
  unfold shutdownEnd
  dsimp only
  split
  · rw [releaseInLoop_conn, htail]
  · exact htail

theorem shutdownInLoop_outBuffer (c : Connection) :
    c.shutdownInLoop.conn.outBuffer = c.outBuffer := by
  simp [shutdownInLoop]

theorem shutdownEnd_left (hasTimer : Bool) (c : Connection) :
    (c.shutdownEnd hasTimer).left = c.left := by
  have htail : c.shutdownTail.conn.inBuffer = c.inBuffer := by
    unfold shutdownTail
    split
    · split <;> rfl
    · rfl
  unfold shutdownEnd
  dsimp only
  split
  · rw [left, releaseInLoop_conn, htail, left]
  · rw [left, htail, left]

theorem shutdownInLoop_left (c : Connection) : c.shutdownInLoop.conn.left = c.left := by
  simp [shutdownInLoop, left]

theorem shutdownInLoop_frames (c : Connection) : c.shutdownInLoop.frames =
    (if 0 < c.left then [.callback .message] else []) ++ [.shutdownTail] := by
  unfold shutdownInLoop invokeMessage invoke left
  dsimp only
  by_cases h : 0 < c.inBuffer.readAbleSize <;> simp [h]

theorem mem_shutdownInLoop_frames (c : Connection) :
    Frame.callback .message ∈ c.shutdownInLoop.frames ↔ 0 < c.left := by
  rw [shutdownInLoop_frames]
  split <;> simp [*]

end Connection

section Nested

variable {nested nested' : Connection → Outcome} {ops : List CallbackOp} {c c' : Connection}
  {n : Nat}

theorem Outcome.andThen_eq_returned {o : Outcome} {f : Connection → Outcome}
    (h : o.andThen f = .returned c') : ∃ c, o = .returned c ∧ f c = .returned c' := by
  cases o with
  | returned c => exact ⟨c, rfl, h⟩
  | overrun => exact absurd h (by simp [andThen])
  | deep => exact absurd h (by simp [andThen])

/-- No call of a callback leaves more than there was. -/
theorem CallbackOp.run_left (hn : ∀ c c', nested c = .returned c' → c'.left ≤ c.left)
    {op : CallbackOp}
    (h : op.run nested c = .returned c') : c'.left ≤ c.left := by
  cases op with
  | send data => exact Nat.le_of_eq (Connection.sendCall_left h)
  | shutdown => exact hn c c' h
  | consume n =>
    obtain rfl := Outcome.returned.inj h
    rw [Connection.consumeUpTo_left]
    exact Nat.sub_le _ _

theorem runScript_left (hn : ∀ c c', nested c = .returned c' → c'.left ≤ c.left)
    (h : runScript nested ops c = .returned c') : c'.left ≤ c.left := by
  induction ops generalizing c with
  | nil =>
    obtain rfl := Outcome.returned.inj h
    exact Nat.le_refl _
  | cons op ops ih =>
    obtain ⟨m, hm, hr⟩ := Outcome.andThen_eq_returned h
    exact (ih hr).trans (op.run_left hn hm)

theorem Outcome.Within.mono {o : Outcome} {idx idx' : Nat} (h : o.Within idx) (hle : idx ≤ idx') :
    o.Within idx' := by
  cases o with
  | returned c => exact Nat.le_trans h hle
  | overrun => exact h
  | deep => trivial

theorem Outcome.Within.andThen {o : Outcome} {f : Connection → Outcome} {idx idx' : Nat}
    (h : o.Within idx) (hf : ∀ c, o = .returned c → c.outBuffer.writerIdx ≤ idx →
      (f c).Within idx') :
    (o.andThen f).Within idx' := by
  cases o with
  | returned c => exact hf c rfl h
  | overrun => exact h.elim
  | deep => trivial

theorem Outcome.andThen_ne_deep {o : Outcome} {f : Connection → Outcome} (ho : o ≠ .deep)
    (hf : ∀ c, o = .returned c → f c ≠ .deep) : o.andThen f ≠ .deep := by
  cases o with
  | returned c => exact hf c rfl
  | overrun => simp [andThen]
  | deep => exact absurd rfl ho

/-- Where the rest of the callback calls `Shutdown`, no more than `n` bytes are left. -/
def Descends (n : Nat) (ops : List CallbackOp) (c : Connection) : Prop :=
  c.left ≤ n ∨ TakesFirst ops ∧ 0 < c.left ∧ c.left ≤ n + 1

theorem Descends.at_shutdown (h : Descends n (.shutdown :: ops) c) : c.left ≤ n :=
  h.resolve_right fun h => h.1

theorem Descends.next {op : CallbackOp} (h : Descends n (op :: ops) c)
    (hle : ∀ c c', nested c = .returned c' → c'.left ≤ c.left)
    (hr : op.run nested c = .returned c') :
    Descends n ops c' := by
  rcases h with hc | ⟨ht, hpos, hc⟩
  · exact Or.inl ((op.run_left hle hr).trans hc)
  · cases op with
    | send data =>
      have hsame := Connection.sendCall_left hr
      exact Or.inr ⟨ht, by omega, by omega⟩
    | shutdown => exact ht.elim
    | consume k =>
      obtain rfl := Outcome.returned.inj hr
      have hk := Connection.consumeUpTo_left c k
      by_cases h0 : 0 < k
      · exact Or.inl (by omega)
      · exact Or.inr ⟨Or.resolve_left ht h0, by omega, by omega⟩

theorem runScript_ne_deep (hle : ∀ c c', nested c = .returned c' → c'.left ≤ c.left)
    (hn : ∀ c, c.left ≤ n → nested c ≠ .deep) (hd : Descends n ops c) :
    runScript nested ops c ≠ .deep := by
  induction ops generalizing c with
  | nil => simp [runScript]
  | cons op ops ih =>
    refine Outcome.andThen_ne_deep ?_ fun m hm => ih (hd.next hle hm)
    cases op with
    | send data => exact Connection.sendCall_ne_deep c data
    | shutdown => exact hn c hd.at_shutdown
    | consume k => simp [CallbackOp.run]

theorem runScript_within {nestedBound : Nat}
    (hle : ∀ c c', nested c = .returned c' → c'.left ≤ c.left)
    (hn : ∀ c, c.left ≤ n → c.outBuffer.writerIdx + nestedBound ≤ bufferMaxSize →
      (nested c).Within (c.outBuffer.writerIdx + nestedBound))
    (hd : Descends n ops c)
    (hfit : c.outBuffer.writerIdx + (ops.map (CallbackOp.bound nestedBound)).sum ≤ bufferMaxSize) :
    (runScript nested ops c).Within
      (c.outBuffer.writerIdx + (ops.map (CallbackOp.bound nestedBound)).sum) := by
  induction ops generalizing c with
  | nil => exact Nat.le_refl _
  | cons op ops ih =>
    rw [List.map_cons, List.sum_cons, ← Nat.add_assoc] at hfit ⊢
    have hop : (op.run nested c).Within (c.outBuffer.writerIdx + op.bound nestedBound) := by
      cases op with
      | send data => exact Connection.sendCall_within (by exact Nat.le_of_add_right_le hfit)
      | shutdown => exact hn c hd.at_shutdown (Nat.le_of_add_right_le hfit)
      | consume k => exact Nat.le_refl _
    refine hop.andThen fun m hm hidx => ?_
    exact (ih (hd.next hle hm) (by omega)).mono (by omega)

/-- A callback that takes nothing first calls `Shutdown` with what was left. -/
theorem runScript_ne_returned (ht : ¬ TakesFirst ops)
    (hn : ∀ c c', 0 < c.left → nested c ≠ .returned c') (hpos : 0 < c.left) :
    runScript nested ops c ≠ .returned c' := by
  induction ops generalizing c with
  | nil => exact absurd trivial ht
  | cons op ops ih =>
    intro h
    obtain ⟨m, hm, hr⟩ := Outcome.andThen_eq_returned h
    cases op with
    | send data => exact ih ht ((Connection.sendCall_left hm).symm ▸ hpos) hr
    | shutdown => exact hn c m hpos hm
    | consume k =>
      obtain ⟨hk, ht⟩ := not_or.mp ht
      obtain rfl := Outcome.returned.inj hm
      have hl := Connection.consumeUpTo_left c k
      exact ih ht (by omega) hr

/-- More depth changes nothing where there was enough. -/
theorem runScript_mono (hn : ∀ c, nested c ≠ .deep → nested' c = nested c)
    (h : runScript nested ops c ≠ .deep) : runScript nested' ops c = runScript nested ops c := by
  induction ops generalizing c with
  | nil => rfl
  | cons op ops ih =>
    have hop : op.run nested' c = op.run nested c := by
      cases op with
      | send data => rfl
      | shutdown =>
        refine hn c fun hd => h ?_
        show (nested c).andThen _ = .deep
        rw [hd]
        rfl
      | consume n => rfl
    rw [runScript] at h ⊢
    rw [hop, runScript]
    cases hr : op.run nested c with
    | returned m =>
      rw [hr] at h
      exact ih h
    | overrun => rfl
    | deep => rfl

end Nested

/-! ### The nested calls -/

section Calls

variable {hasTimer : Bool} {script : List CallbackOp} {c c' : Connection} {d : Nat}

theorem shutdownCall_of_read (h : c.left = 0) : shutdownCall hasTimer script (d + 1) c =
    .returned (c.shutdownInLoop.conn.shutdownEnd hasTimer) := by
  have hf := mt (Connection.mem_shutdownInLoop_frames c).mp (by omega)
  rw [shutdownCall, if_neg hf]
  rfl

theorem shutdownCall_of_unread (h : 0 < c.left) : shutdownCall hasTimer script (d + 1) c =
    (runScript (shutdownCall hasTimer script d) script c.shutdownInLoop.conn).andThen
      fun c => .returned (c.shutdownEnd hasTimer) := by
  rw [shutdownCall, if_pos ((Connection.mem_shutdownInLoop_frames c).mpr h)]

theorem shutdownCall_left (h : shutdownCall hasTimer script d c = .returned c') :
    c'.left ≤ c.left := by
  induction d generalizing c c' with
  | zero => exact absurd h (by simp [shutdownCall])
  | succ d ih =>
    rcases Nat.eq_zero_or_pos c.left with h0 | hpos
    · rw [shutdownCall_of_read h0] at h
      obtain rfl := Outcome.returned.inj h
      rw [Connection.shutdownEnd_left, Connection.shutdownInLoop_left]
    · rw [shutdownCall_of_unread hpos] at h
      obtain ⟨m, hm, hr⟩ := Outcome.andThen_eq_returned h
      obtain rfl := Outcome.returned.inj hr
      rw [Connection.shutdownEnd_left, ← Connection.shutdownInLoop_left c]
      exact runScript_left (fun _ _ => ih) hm

/-- **One nested call for each byte left is enough.** -/
theorem shutdownCall_ne_deep (ht : TakesFirst script) (hc : c.left ≤ d) :
    shutdownCall hasTimer script (d + 1) c ≠ .deep := by
  induction d generalizing c with
  | zero => simp [shutdownCall_of_read (Nat.le_zero.mp hc)]
  | succ d ih =>
    rcases Nat.eq_zero_or_pos c.left with h0 | hpos
    · simp [shutdownCall_of_read h0]
    · rw [shutdownCall_of_unread hpos]
      rw [← Connection.shutdownInLoop_left] at hpos hc
      refine Outcome.andThen_ne_deep ?_ fun _ _ => by simp
      exact runScript_ne_deep (fun _ _ => shutdownCall_left) (fun _ => ih) (Or.inr ⟨ht, hpos, hc⟩)

/-- **The bytes left bound what is sent**: at any depth nothing runs past a buffer. -/
theorem shutdownCall_within {n : Nat} (ht : TakesFirst script) (hc : c.left ≤ n)
    (hfit : c.outBuffer.writerIdx + shutdownBound script n ≤ bufferMaxSize) :
    (shutdownCall hasTimer script d c).Within (c.outBuffer.writerIdx + shutdownBound script n) := by
  induction n generalizing c d with
  | zero =>
    cases d with
    | zero => trivial
    | succ d =>
      rw [shutdownCall_of_read (Nat.le_zero.mp hc)]
      show (Connection.shutdownEnd _ _).outBuffer.writerIdx ≤ _
      rw [Connection.shutdownEnd_outBuffer, Connection.shutdownInLoop_outBuffer]
      exact Nat.le_refl _
  | succ n ih =>
    cases d with
    | zero => trivial
    | succ d =>
      rcases Nat.eq_zero_or_pos c.left with h0 | hpos
      · rw [shutdownCall_of_read h0]
        show (Connection.shutdownEnd _ _).outBuffer.writerIdx ≤ _
        rw [Connection.shutdownEnd_outBuffer, Connection.shutdownInLoop_outBuffer]
        exact Nat.le_add_right _ _
      · rw [shutdownCall_of_unread hpos]
        rw [← Connection.shutdownInLoop_left] at hpos hc
        rw [← Connection.shutdownInLoop_outBuffer, shutdownBound] at hfit ⊢
        refine (runScript_within (fun _ _ => shutdownCall_left) (fun _ => ih)
          (Or.inr ⟨ht, hpos, hc⟩) hfit).andThen fun m _ hidx => ?_
        show (Connection.shutdownEnd _ _).outBuffer.writerIdx ≤ _
        rwa [Connection.shutdownEnd_outBuffer]

/-- **No depth is enough** for a callback that takes nothing. -/
theorem shutdownCall_ne_returned (ht : ¬ TakesFirst script) (hpos : 0 < c.left) :
    shutdownCall hasTimer script d c ≠ .returned c' := by
  induction d generalizing c c' with
  | zero => simp [shutdownCall]
  | succ d ih =>
    rw [shutdownCall_of_unread hpos]
    rw [← Connection.shutdownInLoop_left] at hpos
    intro h
    obtain ⟨m, hm, _⟩ := Outcome.andThen_eq_returned h
    exact runScript_ne_returned ht (fun _ _ => ih) hpos hm

theorem shutdownCall_succ (h : shutdownCall hasTimer script d c ≠ .deep) :
    shutdownCall hasTimer script (d + 1) c = shutdownCall hasTimer script d c := by
  induction d generalizing c with
  | zero => exact absurd rfl h
  | succ d ih =>
    rcases Nat.eq_zero_or_pos c.left with h0 | hpos
    · rw [shutdownCall_of_read h0, shutdownCall_of_read h0]
    · rw [shutdownCall_of_unread hpos] at h ⊢
      rw [shutdownCall_of_unread hpos, runScript_mono fun _ => ih]
      intro hd
      rw [hd] at h
      exact h rfl

theorem shutdownCall_mono {d' : Nat} (h : shutdownCall hasTimer script d c ≠ .deep) (hd : d ≤ d') :
    shutdownCall hasTimer script d' c = shutdownCall hasTimer script d c := by
  induction d', hd using Nat.le_induction with
  | base => rfl
  | succ d' _ ih => rw [shutdownCall_succ (ih.symm ▸ h), ih]

end Calls

/-! ### The runs behind a call -/

/-- Above its stack a connection gets from one state to another. -/
def Gets (c : Connection) (stack : List Frame) (c' : Connection) (stack' : List Frame) : Prop :=
  ∀ log, ∃ inputs log', run ConnState.step ⟨c, stack, log⟩ inputs = some ⟨c', stack', log'⟩

namespace Gets

variable {c₁ c₂ c₃ : Connection} {s₁ s₂ s₃ : List Frame}

theorem refl (c : Connection) (stack : List Frame) : Gets c stack c stack :=
  fun log => ⟨[], log, rfl⟩

theorem trans (h : Gets c₁ s₁ c₂ s₂) (g : Gets c₂ s₂ c₃ s₃) : Gets c₁ s₁ c₃ s₃ := by
  intro log
  obtain ⟨inputs, mid, hr⟩ := h log
  obtain ⟨more, log', hm⟩ := g mid
  exact ⟨inputs ++ more, log', run_append.mpr ⟨_, hr, hm⟩⟩

theorem input (act : Act) (hasTimer : Bool) {seg : Segment} {e : Exec}
    (hs : segment s₁ act = some (seg, s₂)) (he : seg.exec c₁ hasTimer = some e) :
    Gets c₁ s₁ e.conn (e.frames ++ s₂) := by
  intro log
  refine ⟨[⟨act, hasTimer⟩], log ++ e.obs, run_cons.mpr ⟨_, ?_, rfl⟩⟩
  exact ConnState.step_eq_some.mpr ⟨seg, s₂, e, hs, he, rfl⟩

theorem ret (c : Connection) (k : Callback) (stack : List Frame) :
    Gets c (.callback k :: stack) c stack :=
  input .ret false (rfl : segment (.callback k :: stack) .ret = some (.ret, stack))
    (rfl : Segment.ret.exec c false = some ⟨c, [], []⟩)

theorem releaseTail (c : Connection) (stack : List Frame) :
    Gets c (.releaseTail :: stack) c stack := by
  have hstep : Gets c (.releaseTail :: stack) c.releaseTail.conn (c.releaseTail.frames ++ stack) :=
    input .resume false rfl (rfl : Segment.releaseTail.exec c false = some c.releaseTail)
  rw [Connection.releaseTail, Connection.invoke_conn] at hstep
  refine hstep.trans ?_
  unfold Connection.invoke
  split
  · exact ret c .srvClosed stack
  · exact .refl c stack

theorem release (c : Connection) (hasTimer : Bool) (stack : List Frame) :
    Gets c (.releaseCall :: stack) (c.releaseInLoop hasTimer).conn stack := by
  have hstep : Gets c (.releaseCall :: stack) (c.releaseInLoop hasTimer).conn
      ((c.releaseInLoop hasTimer).frames ++ stack) :=
    input .resume hasTimer rfl (rfl : Segment.releaseInLoop.exec c hasTimer = some _)
  refine hstep.trans ?_
  rw [Connection.releaseInLoop_frames]
  split
  · exact (ret _ .closed _).trans (releaseTail _ stack)
  · exact releaseTail _ stack

theorem shutdownEnd (c : Connection) (hasTimer : Bool) (stack : List Frame) :
    Gets c (.shutdownTail :: stack) (c.shutdownEnd hasTimer) stack := by
  have hstep : Gets c (.shutdownTail :: stack) c.shutdownTail.conn
      (c.shutdownTail.frames ++ stack) :=
    input .resume hasTimer rfl (rfl : Segment.shutdownTail.exec c hasTimer = some c.shutdownTail)
  refine hstep.trans ?_
  have hframes : c.shutdownTail.frames = [] ∨ c.shutdownTail.frames = [.releaseCall] := by
    unfold Connection.shutdownTail
    split
    · split <;> exact Or.inl rfl
    · exact Or.inr rfl
  unfold Connection.shutdownEnd
  rcases hframes with hf | hf
  · simp only [hf, List.not_mem_nil, if_false]
    exact .refl _ stack
  · simp only [hf, List.mem_singleton, if_true]
    exact release _ hasTimer stack

end Gets

section Runs

variable {hasTimer : Bool} {script : List CallbackOp} {c c' : Connection} {stack : List Frame}
  {d : Nat}

theorem sendCall_gets {data : Bytes} (hu : userRuns stack = true)
    (h : c.sendCall data = .returned c') :
    Gets c stack c' stack := by
  unfold Connection.sendCall at h
  split at h
  · rename_i e he
    obtain ⟨buf, hb, hs⟩ := Option.bind_eq_some_iff.mp he
    obtain rfl := Outcome.returned.inj h
    have hframes : e.frames = [] := by
      unfold Connection.sendInLoop at hs
      split at hs
      · obtain rfl := Option.some.inj hs
        rfl
      · obtain ⟨out, _, rfl⟩ := Option.map_eq_some_iff.mp hs
        dsimp only
        split <;> rfl
    have hseg : segment stack (.call (.send data)) = some (.sendInLoop buf, stack) := by
      simp [segment, hu, ConnOp.segment, hb]
    simpa [hframes] using Gets.input _ false hseg hs
  · exact absurd h (by simp)

theorem consumeUpTo_gets (hu : userRuns stack = true) (c : Connection) (n : Nat) :
    Gets c stack (c.consumeUpTo n) stack := by
  have hseg : segment stack (.consume (min n c.left)) = some (.consume (min n c.left), stack) := by
    simp [segment, hu]
  have hexec : (Segment.consume (min n c.left)).exec c false = some ⟨c.consumeUpTo n, [], []⟩ := by
    have hle : min n c.left ≤ c.inBuffer.readAbleSize := Nat.min_le_right _ _
    simp only [Segment.exec, Connection.consume, dif_pos hle]
    rfl
  exact Gets.input _ false hseg hexec

theorem runScript_gets {nested : Connection → Outcome} {ops : List CallbackOp}
    (hn : ∀ c c', nested c = .returned c' → Gets c stack c' stack) (hu : userRuns stack = true)
    (h : runScript nested ops c = .returned c') : Gets c stack c' stack := by
  induction ops generalizing c with
  | nil =>
    obtain rfl := Outcome.returned.inj h
    exact .refl c stack
  | cons op ops ih =>
    obtain ⟨m, hm, hr⟩ := Outcome.andThen_eq_returned h
    refine Gets.trans ?_ (ih hr)
    cases op with
    | send data => exact sendCall_gets hu hm
    | shutdown => exact hn c m hm
    | consume n =>
      obtain rfl := Outcome.returned.inj hm
      exact consumeUpTo_gets hu c n

/-- **A call that returns is a run of the connection** above the stack it was made on. -/
theorem shutdownCall_gets (hu : userRuns stack = true)
    (h : shutdownCall hasTimer script d c = .returned c') : Gets c stack c' stack := by
  induction d generalizing c c' stack with
  | zero => exact absurd h (by simp [shutdownCall])
  | succ d ih =>
    have hcall : Gets c stack c.shutdownInLoop.conn (c.shutdownInLoop.frames ++ stack) := by
      have hseg : segment stack (.call .shutdown) = some (.shutdownInLoop, stack) := by
        simp [segment, hu, ConnOp.segment]
      exact Gets.input _ hasTimer hseg (rfl : Segment.shutdownInLoop.exec c hasTimer = some _)
    refine hcall.trans ?_
    rw [Connection.shutdownInLoop_frames]
    rcases Nat.eq_zero_or_pos c.left with h0 | hpos
    · rw [shutdownCall_of_read h0] at h
      obtain rfl := Outcome.returned.inj h
      rw [if_neg (by omega)]
      exact .shutdownEnd _ hasTimer stack
    · rw [shutdownCall_of_unread hpos] at h
      obtain ⟨m, hm, hr⟩ := Outcome.andThen_eq_returned h
      obtain rfl := Outcome.returned.inj hr
      rw [if_pos hpos]
      have hscript :
          Gets c.shutdownInLoop.conn (.callback .message :: .shutdownTail :: stack) m _ :=
        runScript_gets (fun _ _ => ih rfl) rfl hm
      exact hscript.trans ((Gets.ret m .message _).trans (.shutdownEnd m hasTimer stack))

end Runs

/-! ### When it returns -/

section Returns

variable {hasTimer : Bool} {script : List CallbackOp}

/-- **When `Shutdown` returns.**  A call of `Shutdown` in the loop, with a message callback that
does any finite sequence of sends, shutdowns and consumptions, is nested finitely deep if nothing is
left unread or the callback takes something before it calls `Shutdown`, and returns if what is sent
on the way also fits into the output buffer.  Otherwise it never returns. -/
theorem shutdown_returns_when (hasTimer : Bool) (script : List CallbackOp) (c : Connection) :
    ((c.left = 0 ∨ TakesFirst script) → ∃ d, shutdownCall hasTimer script d c ≠ .deep ∧
      (SendsFit script c → ∃ c', shutdownCall hasTimer script d c = .returned c')) ∧
    ((∃ d c', shutdownCall hasTimer script d c = .returned c') → c.left = 0 ∨
      TakesFirst script) := by
  constructor
  · rintro (h0 | ht)
    · exact ⟨1, by simp [shutdownCall_of_read h0], fun _ => ⟨_, shutdownCall_of_read h0⟩⟩
    · have hdeep : shutdownCall hasTimer script (c.left + 1) c ≠ .deep :=
        shutdownCall_ne_deep ht (Nat.le_refl c.left)
      refine ⟨c.left + 1, hdeep, fun hfit => ?_⟩
      have hwithin : (shutdownCall hasTimer script (c.left + 1) c).Within _ :=
        shutdownCall_within ht (Nat.le_refl c.left) hfit
      cases h : shutdownCall hasTimer script (c.left + 1) c with
      | returned c' => exact ⟨c', rfl⟩
      | overrun =>
        rw [h] at hwithin
        exact hwithin.elim
      | deep => exact absurd h hdeep
  · rintro ⟨d, c', h⟩
    by_contra hno
    obtain ⟨h0, ht⟩ := not_or.mp hno
    exact shutdownCall_ne_returned ht (Nat.pos_of_ne_zero h0) h

theorem one_le_tailIdleSize : 1 ≤ Buffer.new.tailIdleSize := by
  simp [Buffer.tailIdleSize, bufferDefaultSize]

def oneLeft : Connection :=
  { Connection.new 1 5 ⟨true, true, true, true⟩ with
    statu := .connected
    inBuffer := Buffer.new.moveWriteOffset 1 one_le_tailIdleSize }

/-- A callback that answers, takes the byte and only then calls `Shutdown`. -/
theorem shutdown_returns_when_taken :
    ∃ d c', shutdownCall false [.send [33], .consume 1, .shutdown] d oneLeft = .returned c' := by
  obtain ⟨d, -, hreturns⟩ :=
    (shutdown_returns_when false [.send [33], .consume 1, .shutdown] oneLeft).1
      (Or.inr (by decide))
  exact ⟨d, hreturns (by decide)⟩

/-- A callback that only calls `Shutdown`, as one that rejects what it has not taken, never
returns. -/
theorem shutdown_nested_for_ever :
    ¬ ∀ (hasTimer : Bool) (script : List CallbackOp) (c : Connection),
    ∃ d c', shutdownCall hasTimer script d c = .returned c' := by
  intro h
  obtain ⟨d, c', hd⟩ := h false [.shutdown] oneLeft
  have hpos : 0 < oneLeft.left := Nat.one_pos
  exact shutdownCall_ne_returned (by decide) hpos hd

end Returns

end Flux
