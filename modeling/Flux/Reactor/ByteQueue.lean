import Flux.Lib.Fifo
import Flux.Lib.Run
import Flux.Reactor.Capacity

/-!
# A buffer is a byte queue

Within the capacity rule, and with reads of at most `ReadAbleSize()` bytes, the
operations of `Buffer` are those of a first-in first-out queue whose content is the unread
bytes.  `buffer_refines` is the step, `buffer_is_queue` the statement for whole
sequences of operations.

The rule itself is not one about the queue: what fits depends on the write index too, and so on all
that was read before.  `writeAndPush_offset_iff` compares two buffers with the same content.
-/

namespace Flux

open Lib

/-- The reading and writing operations of `Buffer`, each with its arguments.  The source of
`WriteBufferAndPush` is another buffer, or this one itself (`none`). -/
inductive BufferOp
  | writeAndPush (data : Bytes)
  | writeStringAndPush (data : Bytes)
  | writeBufferAndPush (data : Option Buffer)
  | readAndPop (len : Nat)
  | readAsStringAndPop (len : Nat)
  | getLineAndPop
  | moveReadOffset (len : Nat)
  | clear

namespace BufferOp

def run (b : Buffer) : BufferOp → Option (Buffer × Bytes)
  | writeAndPush data => (b.writeAndPush data).map fun b' => (b', [])
  | writeStringAndPush data => (b.writeStringAndPush data).map fun b' => (b', [])
  | writeBufferAndPush data => (b.writeBufferAndPush data).map fun b' => (b', [])
  | readAndPop len | readAsStringAndPop len =>
      if h : len ≤ b.readAbleSize then
        some ((b.readAsStringAndPop len h).2, (b.readAsStringAndPop len h).1)
      else none
  | getLineAndPop => some (b.getLineAndPop.2, b.getLineAndPop.1)
  | moveReadOffset len =>
      if h : len ≤ b.readAbleSize then some (b.moveReadOffset len h, []) else none
  | clear => some (b.clear, [])

def queueOp : BufferOp → Fifo.Op UInt8
  | writeAndPush data | writeStringAndPush data => .push data
  | writeBufferAndPush (some data) => .push data.unread
  | writeBufferAndPush none => .pushSelf
  | readAndPop len | readAsStringAndPop len => .pop len
  | getLineAndPop => .popThrough (· == newline)
  | moveReadOffset len => .drop len
  | clear => .clear

def onQueue (q : Bytes) (op : BufferOp) : Bytes × Bytes := Fifo.step q op.queueOp

/-- A read asks for no more than there is, a write meets the capacity rule. -/
def Admitted (b : Buffer) : BufferOp → Prop
  | writeAndPush data | writeStringAndPush data => b.Fits data.length
  | writeBufferAndPush (some data) => b.Fits data.readAbleSize
  | writeBufferAndPush none => b.Fits b.readAbleSize
  | readAndPop len | readAsStringAndPop len | moveReadOffset len => len ≤ b.readAbleSize
  | getLineAndPop | clear => True

end BufferOp

namespace Buffer

/-- `GetLineAndPop` cuts the unread bytes after the first newline. -/
theorem getLineAndPop_eq (b : Buffer) :
    (b.getLineAndPop.1, b.getLineAndPop.2.unread) =
      match splitThrough (· == newline) b.unread with
      | none => ([], b.unread)
      | some (l, r) => (l, r) := by
  rw [splitThrough_findIdx]
  cases h : b.findCRLF with
  | none =>
    have hl : b.getLine = [] := by rw [getLine, h]
    rw [findCRLF] at h
    simp only [h, getLineAndPop, moveReadOffset_unread, hl, Option.map_none, List.length_nil,
      List.drop_zero]
  | some i =>
    have hl : b.getLine = b.unread.take (i + 1) := by rw [getLine, h]; rfl
    rw [findCRLF] at h
    have hi : i < b.unread.length := (List.findIdx?_eq_some_iff_findIdx_eq.mp h).1
    simp only [h, getLineAndPop, moveReadOffset_unread, hl, Option.map_some, List.length_take,
      min_eq_left (Nat.succ_le_of_lt hi)]

theorem getLineAndPop_none {b : Buffer} (h : splitThrough (· == newline) b.unread = none) :
    b.getLineAndPop.1 = [] ∧ b.getLineAndPop.2.unread = b.unread := by
  have := b.getLineAndPop_eq
  rw [h] at this
  exact ⟨congrArg Prod.fst this, congrArg Prod.snd this⟩

theorem getLineAndPop_some {b : Buffer} {l r : Bytes}
    (h : splitThrough (· == newline) b.unread = some (l, r)) :
    b.getLineAndPop.1 = l ∧ b.getLineAndPop.2.unread = r := by
  have := b.getLineAndPop_eq
  rw [h] at this
  exact ⟨congrArg Prod.fst this, congrArg Prod.snd this⟩

@[simp] theorem clear_unread (b : Buffer) : b.clear.unread = [] := by
  simp [unread, clear, readAbleSize]

theorem readAsString_all (b : Buffer) : b.readAsString b.readAbleSize = b.unread := by
  rw [readAsString, ← unread_length, List.take_length]

theorem write_readAbleSize {b b' : Buffer} {data : Bytes} (h : b.write data = some b') :
    b'.readAbleSize = b.readAbleSize := by
  unfold write at h
  split at h
  · obtain rfl := Option.some.inj h; rfl
  · split at h
    · obtain rfl := Option.some.inj h
      exact b.ensureWriteSpace_readAbleSize data.length
    · exact absurd h (by simp)

/-- Appending a buffer is appending its unread bytes, also to itself. -/
theorem writeBufferAndPush_eq (b : Buffer) (data : Option Buffer) :
    b.writeBufferAndPush data = b.writeAndPush (data.elim b.unread Buffer.unread) := by
  cases data with
  | none =>
    simp only [writeBufferAndPush, writeBuffer, writeString, readAsString_all, Option.elim_none,
      writeAndPush, unread_length]
    cases h : b.write b.unread with
    | none => rfl
    | some b' => rw [Option.bind_some, Option.bind_some, write_readAbleSize h]
  | some data =>
    simp only [writeBufferAndPush, writeBuffer, Option.elim_some, writeAndPush, unread_length]

end Buffer

/-- **One operation refines the queue's.** -/
theorem buffer_refines :
    Refines BufferOp.run BufferOp.onQueue Buffer.unread BufferOp.Admitted where
  sim b op h := by
    cases op with
    | writeAndPush data =>
      obtain ⟨b', hb, hu⟩ := b.writeAndPush_of_fits data h
      exact ⟨b', [], by rw [BufferOp.run, hb]; rfl, by rw [hu]; rfl⟩
    | writeStringAndPush data =>
      obtain ⟨b', hb, hu⟩ := b.writeAndPush_of_fits data h
      refine ⟨b', [], ?_, by rw [hu]; rfl⟩
      rw [BufferOp.run, show b.writeStringAndPush data = b.writeAndPush data from rfl, hb]
      rfl
    | writeBufferAndPush data =>
      have hfits : b.Fits (data.elim b.unread Buffer.unread).length := by
        cases data <;> simpa [BufferOp.Admitted] using h
      obtain ⟨b', hb, hu⟩ := b.writeAndPush_of_fits _ hfits
      refine ⟨b', [], by rw [BufferOp.run, Buffer.writeBufferAndPush_eq, hb]; rfl, ?_⟩
      cases data <;> rw [hu] <;> rfl
    | readAndPop len =>
      have hlen : len ≤ b.readAbleSize := h
      refine ⟨b.moveReadOffset len hlen, b.readAsString len,
        by rw [BufferOp.run, dif_pos hlen]; rfl, ?_⟩
      rw [Buffer.moveReadOffset_unread]; rfl
    | readAsStringAndPop len =>
      have hlen : len ≤ b.readAbleSize := h
      refine ⟨b.moveReadOffset len hlen, b.readAsString len,
        by rw [BufferOp.run, dif_pos hlen]; rfl, ?_⟩
      rw [Buffer.moveReadOffset_unread]; rfl
    | getLineAndPop =>
      refine ⟨b.getLineAndPop.2, b.getLineAndPop.1, rfl, ?_⟩
      cases hs : splitThrough (· == newline) b.unread with
      | none =>
        obtain ⟨hl, hu⟩ := Buffer.getLineAndPop_none hs
        simp [BufferOp.onQueue, BufferOp.queueOp, Fifo.step, hs, hl, hu]
      | some c =>
        obtain ⟨l, r⟩ := c
        obtain ⟨hl, hu⟩ := Buffer.getLineAndPop_some hs
        simp [BufferOp.onQueue, BufferOp.queueOp, Fifo.step, hs, hl, hu]
    | moveReadOffset len =>
      have hlen : len ≤ b.readAbleSize := h
      refine ⟨b.moveReadOffset len hlen, [], by rw [BufferOp.run, dif_pos hlen], ?_⟩
      rw [Buffer.moveReadOffset_unread]; rfl
    | clear => exact ⟨b.clear, [], rfl, by rw [Buffer.clear_unread]; rfl⟩

/-- **Inside its capacity rule a buffer is exactly a first-in first-out byte queue.**  Along any
sequence of operations each of which is admitted where it runs, at every point the operations so
far have answered what the queue answers, the unread bytes are the queue's content, and the
indices are in order inside at most one MiB. -/
theorem buffer_is_queue (b : Buffer) (ops : List BufferOp)
    (h : Admits BufferOp.run BufferOp.Admitted b ops) :
    ∀ pre, pre <+: ops → ∃ b' answers,
      runOps BufferOp.run b pre = some (b', answers) ∧
      specOps BufferOp.onQueue b.unread pre = (b'.unread, answers) ∧
      0 ≤ b'.readerIdx ∧ b'.readerIdx ≤ b'.writerIdx ∧ b'.writerIdx ≤ b'.buffer.length ∧
      b'.buffer.length ≤ 1024 * 1024 := by
  intro pre hp
  obtain ⟨b', answers, hr, hs⟩ := buffer_refines.runOps (h.of_prefix hp)
  exact ⟨b', answers, hr, hs, Nat.zero_le _, b'.reader_le, b'.writer_le, b'.le_max⟩

/-- The hypothesis at work: one line written into a fresh buffer and taken out again. -/
theorem buffer_is_queue_line :
    ∃ b' answers,
      runOps BufferOp.run Buffer.new [.writeAndPush [71, 10], .getLineAndPop]
        = some (b', answers) ∧
      specOps BufferOp.onQueue Buffer.new.unread
        [.writeAndPush [71, 10], .getLineAndPop] = (b'.unread, answers) ∧
      0 ≤ b'.readerIdx ∧ b'.readerIdx ≤ b'.writerIdx ∧ b'.writerIdx ≤ b'.buffer.length ∧
      b'.buffer.length ≤ 1024 * 1024 :=
  buffer_is_queue Buffer.new [.writeAndPush [71, 10], .getLineAndPop]
    ⟨Buffer.fits_of_le _ (by rw [Buffer.new_length]; decide),
      fun _ _ => ⟨trivial, fun _ _ => trivial⟩⟩ _ List.prefix_rfl

/-! ### Where the unread bytes lie -/

namespace Buffer

/-- A buffer that operations on a fresh one lead to. -/
def Reachable (b : Buffer) : Prop :=
  ∃ ops answers, runOps BufferOp.run Buffer.new ops = some (b, answers)

theorem writeAndPush_tail (b : Buffer) (data : Bytes) (h : data.length ≤ b.tailIdleSize) :
    ∃ b', b.writeAndPush data = some b' ∧ b'.buffer.length = b.buffer.length ∧
      b'.readerIdx = b.readerIdx ∧ b'.writerIdx = b.writerIdx + data.length := by
  have hsame : b.ensureWriteSpace data.length = b := if_pos h
  unfold writeAndPush write
  by_cases h0 : data.length = 0
  · refine ⟨b.moveWriteOffset 0 (Nat.zero_le _), ?_, rfl, rfl, by rw [h0]; rfl⟩
    rw [if_pos h0, Option.bind_some, h0, pushed, dif_pos (Nat.zero_le _)]
  · have hlen : (b.copyIn data h).buffer.length = b.buffer.length := by
      have hw := b.writer_le
      simp only [tailIdleSize] at h
      simp only [copyIn, List.length_append, List.length_take, List.length_drop]
      omega
    have htail : data.length ≤ (b.copyIn data h).tailIdleSize := by
      rw [tailIdleSize, hlen]
      exact h
    refine ⟨(b.copyIn data h).moveWriteOffset data.length htail, ?_, hlen, rfl, rfl⟩
    simp only [if_neg h0, hsame, dif_pos h, Option.bind_some, pushed, dif_pos htail]

/-- **When a write does not care where the unread bytes lie.**  In two buffers of one size with the
same unread bytes it goes through in both or in neither, and leaves the same unread bytes, exactly
when the data fit into what is idle, or end inside one MiB counted from either write index or from
neither. -/
theorem writeAndPush_offset_iff (b b' : Buffer) (data : Bytes)
    (hsize : b.buffer.length = b'.buffer.length) (hunread : b.unread = b'.unread) :
    (((b.writeAndPush data).isSome ↔ (b'.writeAndPush data).isSome) ∧
      ∀ c c', b.writeAndPush data = some c → b'.writeAndPush data = some c' →
        c.unread = c'.unread) ↔
    (data.length ≤ b.buffer.length - b.readAbleSize ∨
      (b.writerIdx + data.length ≤ 1024 * 1024 ↔ b'.writerIdx + data.length ≤ 1024 * 1024)) := by
  have hread : b.readAbleSize = b'.readAbleSize := by
    rw [← unread_length, hunread, unread_length]
  have hidle : ∀ d : Buffer, d.headIdleSize + d.tailIdleSize =
      d.buffer.length - d.readAbleSize := by
    intro d
    have hr := d.reader_le
    have hw := d.writer_le
    simp only [headIdleSize, tailIdleSize, readAbleSize]
    omega
  have hsame : ∀ c c', b.writeAndPush data = some c → b'.writeAndPush data = some c' →
      c.unread = c'.unread := by
    intro c c' hc hc'
    rw [writeAndPush_unread hc, writeAndPush_unread hc', hunread]
  rw [and_iff_left hsame, writeAndPush_isSome_iff, writeAndPush_isSome_iff, Fits, Fits,
    hidle, hidle,
    ← hsize, ← hread]
  by_cases hfit : data.length ≤ b.buffer.length - b.readAbleSize
  · simp [hfit]
  · simp only [hfit, false_or]
    exact Iff.rfl

/-- One byte written and read again leaves a fresh buffer empty but a byte further on. -/
theorem exists_shifted : ∃ b : Buffer, b.Reachable ∧ b.buffer.length = new.buffer.length ∧
    b.unread = new.unread ∧ b.writerIdx = 1 := by
  obtain ⟨b, hb, hlen, hr, hw⟩ :=
    new.writeAndPush_tail [0] (by rw [tailIdleSize, new_length]; decide)
  have hone : 1 ≤ b.readAbleSize := by
    rw [readAbleSize, hr, hw]
    decide
  refine ⟨b.moveReadOffset 1 hone, ⟨[.writeAndPush [0], .moveReadOffset 1], [[], []], ?_⟩,
    hlen, ?_, hw⟩
  · simp only [runOps, BufferOp.run, hb, Option.map_some, Option.bind_some, dif_pos hone]
  · rw [moveReadOffset_unread, writeAndPush_unread hb]
    rfl

/-- Two thousand bytes, for which both vectors grow. -/
theorem writeAndPush_offset_iff_shifted : ∃ (b : Buffer) (data : Bytes), b.Reachable ∧
    b.writerIdx = 1 ∧ data.length = 2000 ∧
    ((b.writeAndPush data).isSome ↔ (new.writeAndPush data).isSome) ∧
    ∀ c c', b.writeAndPush data = some c → new.writeAndPush data = some c' →
      c.unread = c'.unread := by
  obtain ⟨b, hreach, hlen, hunread, hw⟩ := exists_shifted
  let data : Bytes := List.replicate 2000 7
  have hdata : data.length = 2000 := List.length_replicate
  have hfits : b.writerIdx + data.length ≤ 1024 * 1024 ↔
      new.writerIdx + data.length ≤ 1024 * 1024 := by
    simp [hw, hdata]
  exact ⟨b, data, hreach, hw, hdata,
    (writeAndPush_offset_iff b new data hlen hunread).mpr (Or.inr hfits)⟩

/-- One MiB fits into a fresh buffer, and not into an empty one whose indices are at one. -/
theorem writeAndPush_shifted :
    ¬ ∀ b b' : Buffer, b.Reachable → b'.Reachable → b.buffer.length = b'.buffer.length →
      b.unread = b'.unread → ∀ data : Bytes,
        ((b.writeAndPush data).isSome ↔ (b'.writeAndPush data).isSome) ∧
        ∀ c c', b.writeAndPush data = some c → b'.writeAndPush data = some c' →
          c.unread = c'.unread := by
  intro h
  obtain ⟨b, hreach, hlen, hunread, hw⟩ := exists_shifted
  have hmib : (List.replicate 1048576 (0 : UInt8)).length = 1048576 := List.length_replicate
  have hsame := (h new b ⟨[], [], rfl⟩ hreach hlen.symm hunread.symm (List.replicate 1048576 0)).1
  have hnew := new_length
  rw [writeAndPush_isSome_iff, writeAndPush_isSome_iff, hmib] at hsame
  simp only [Fits, headIdleSize, tailIdleSize, new_readerIdx, new_writerIdx, hw, hlen, hnew,
    bufferDefaultSize, bufferMaxSize] at hsame
  have hr := b.reader_le
  omega

end Buffer

end Flux
