import Flux.Lib.Scan
import Mathlib.Algebra.Group.Nat.Defs

/-!
# `Buffer`

The read and write buffer of a connection: a vector of bytes with a read index and a
write index.  The unread bytes are those between the two.

The invariant of the indices is part of the type: no value of `Buffer` has its read
index past its write index or its write index past the end of the vector.  An
operation that could leave the vector answers `none` there, which is the point where
the C++ copies out of bounds (`write`) or stops in an assertion; the assertions of
`MoveReadOffset` and `MoveWriteOffset` are arguments.
-/

namespace Flux

abbrev Bytes := List UInt8

def newline : UInt8 := 10

def bufferDefaultSize : Nat := 1024

/-- The cap of a single buffer, one MiB. -/
def bufferMaxSize : Nat := 1024 * 1024

/-- `std::vector::resize`: new elements are zero. -/
def resize (v : Bytes) (n : Nat) : Bytes := v.take n ++ List.replicate (n - v.length) 0

@[simp] theorem resize_length (v : Bytes) (n : Nat) : (resize v n).length = n := by
  simp only [resize, List.length_append, List.length_take, List.length_replicate]
  omega

structure Buffer where
  buffer : Bytes
  readerIdx : Nat
  writerIdx : Nat
  reader_le : readerIdx ≤ writerIdx
  writer_le : writerIdx ≤ buffer.length
  default_le : bufferDefaultSize ≤ buffer.length
  le_max : buffer.length ≤ bufferMaxSize

namespace Buffer

def new : Buffer where
  buffer := List.replicate bufferDefaultSize 0
  readerIdx := 0
  writerIdx := 0
  reader_le := le_rfl
  writer_le := Nat.zero_le _
  default_le := by rw [List.length_replicate]
  le_max := by rw [List.length_replicate]; decide

@[simp] theorem new_length : new.buffer.length = bufferDefaultSize := List.length_replicate
@[simp] theorem new_readerIdx : new.readerIdx = 0 := rfl
@[simp] theorem new_writerIdx : new.writerIdx = 0 := rfl

def headIdleSize (b : Buffer) : Nat := b.readerIdx

def tailIdleSize (b : Buffer) : Nat := b.buffer.length - b.writerIdx

def readAbleSize (b : Buffer) : Nat := b.writerIdx - b.readerIdx

def unread (b : Buffer) : Bytes := (b.buffer.drop b.readerIdx).take b.readAbleSize

@[simp] theorem unread_length (b : Buffer) : b.unread.length = b.readAbleSize := by
  have := b.writer_le
  simp only [unread, List.length_take, List.length_drop, readAbleSize]
  omega

@[simp] theorem new_unread : new.unread = [] := rfl

/-! ### The indices -/

def moveReadOffset (b : Buffer) (len : Nat) (h : len ≤ b.readAbleSize) : Buffer where
  buffer := b.buffer
  readerIdx := b.readerIdx + len
  writerIdx := b.writerIdx
  reader_le := by
    have := b.reader_le
    simp only [readAbleSize] at h
    omega
  writer_le := b.writer_le
  default_le := b.default_le
  le_max := b.le_max

def moveWriteOffset (b : Buffer) (len : Nat) (h : len ≤ b.tailIdleSize) : Buffer where
  buffer := b.buffer
  readerIdx := b.readerIdx
  writerIdx := b.writerIdx + len
  reader_le := b.reader_le.trans (Nat.le_add_right _ _)
  writer_le := by
    have := b.writer_le
    simp only [tailIdleSize] at h
    omega
  default_le := b.default_le
  le_max := b.le_max

@[simp] theorem moveReadOffset_readAbleSize (b : Buffer) (len : Nat) (h : len ≤ b.readAbleSize) :
    (b.moveReadOffset len h).readAbleSize = b.readAbleSize - len := by
  simp only [readAbleSize, moveReadOffset]
  omega

@[simp] theorem moveReadOffset_unread (b : Buffer) (len : Nat) (h : len ≤ b.readAbleSize) :
    (b.moveReadOffset len h).unread = b.unread.drop len := by
  rw [unread, moveReadOffset_readAbleSize, unread, List.drop_take, List.drop_drop]
  rfl

/-! ### Room for a write -/

/-- The second branch of `EnsureWriteSpace`: the unread bytes move to the front. -/
def compact (b : Buffer) : Buffer where
  buffer := b.unread ++ b.buffer.drop b.readAbleSize
  readerIdx := 0
  writerIdx := b.readAbleSize
  reader_le := Nat.zero_le _
  writer_le := by simp
  default_le := by
    have := b.default_le
    have := b.writer_le
    simp only [List.length_append, unread_length, List.length_drop, readAbleSize]
    omega
  le_max := by
    have := b.le_max
    have := b.writer_le
    simp only [List.length_append, unread_length, List.length_drop, readAbleSize]
    omega

/-- The size the third branch of `EnsureWriteSpace` asks for: twice the vector or the
room wanted, whichever is more, cut at the cap.  The sum is one of `uint64_t`. -/
def newSize (b : Buffer) (len : Nat) : Nat :=
  min (max (b.buffer.length * 2) ((b.writerIdx + len) % 2 ^ 64)) bufferMaxSize

theorem length_le_newSize (b : Buffer) (len : Nat) : b.buffer.length ≤ b.newSize len := by
  have := b.le_max
  simp only [newSize]
  omega

def grow (b : Buffer) (len : Nat) : Buffer where
  buffer := resize b.buffer (b.newSize len)
  readerIdx := b.readerIdx
  writerIdx := b.writerIdx
  reader_le := b.reader_le
  writer_le := by
    rw [resize_length]
    exact b.writer_le.trans (b.length_le_newSize len)
  default_le := by
    rw [resize_length]
    exact b.default_le.trans (b.length_le_newSize len)
  le_max := by
    rw [resize_length]
    exact min_le_right _ _

def ensureWriteSpace (b : Buffer) (len : Nat) : Buffer :=
  if len ≤ b.tailIdleSize then b
  else if len ≤ b.headIdleSize + b.tailIdleSize then b.compact
  else b.grow len

@[simp] theorem compact_readAbleSize (b : Buffer) : b.compact.readAbleSize = b.readAbleSize := rfl

@[simp] theorem compact_unread (b : Buffer) : b.compact.unread = b.unread := by
  rw [unread, compact_readAbleSize]
  simp only [compact, List.drop_zero]
  rw [List.take_append_of_le_length (by simp), List.take_of_length_le (by simp)]

theorem compact_tailIdleSize (b : Buffer) :
    b.compact.tailIdleSize = b.headIdleSize + b.tailIdleSize := by
  have := b.reader_le
  have := b.writer_le
  simp only [tailIdleSize, compact, List.length_append, unread_length, List.length_drop,
    headIdleSize, readAbleSize]
  omega

@[simp] theorem grow_unread (b : Buffer) (len : Nat) : (b.grow len).unread = b.unread := by
  have hr := b.reader_le
  have hw := b.writer_le
  have hn := b.length_le_newSize len
  simp only [unread, grow, resize, readAbleSize]
  rw [List.take_of_length_le hn, List.drop_append_of_le_length (by omega),
    List.take_append_of_le_length (by rw [List.length_drop]; omega)]

theorem grow_tailIdleSize (b : Buffer) (len : Nat) :
    (b.grow len).tailIdleSize = b.newSize len - b.writerIdx := by
  simp [tailIdleSize, grow]

/-- Making room never touches the unread bytes. -/
@[simp] theorem ensureWriteSpace_unread (b : Buffer) (len : Nat) :
    (b.ensureWriteSpace len).unread = b.unread := by
  unfold ensureWriteSpace
  split
  · rfl
  · split <;> simp

/-! ### Writing -/

/-- `std::copy` to the write position, inside the vector. -/
def copyIn (b : Buffer) (data : Bytes) (h : data.length ≤ b.tailIdleSize) : Buffer where
  buffer := b.buffer.take b.writerIdx ++ (data ++ b.buffer.drop (b.writerIdx + data.length))
  readerIdx := b.readerIdx
  writerIdx := b.writerIdx
  reader_le := b.reader_le
  writer_le := by
    have := b.writer_le
    simp only [List.length_append, List.length_take]
    omega
  default_le := by
    have := b.default_le
    have := b.writer_le
    simp only [tailIdleSize] at h
    simp only [List.length_append, List.length_take, List.length_drop]
    omega
  le_max := by
    have := b.le_max
    have := b.writer_le
    simp only [tailIdleSize] at h
    simp only [List.length_append, List.length_take, List.length_drop]
    omega

/-- `Write`: `none` when the copy runs past the end of the vector. -/
def write (b : Buffer) (data : Bytes) : Option Buffer :=
  if data.length = 0 then some b
  else if h : data.length ≤ (b.ensureWriteSpace data.length).tailIdleSize then
    some ((b.ensureWriteSpace data.length).copyIn data h)
  else none

/-- `MoveWriteOffset` with its assertion. -/
def pushed (b : Buffer) (len : Nat) : Option Buffer :=
  if h : len ≤ b.tailIdleSize then some (b.moveWriteOffset len h) else none

def writeAndPush (b : Buffer) (data : Bytes) : Option Buffer :=
  (b.write data).bind fun b' => b'.pushed data.length

def writeString (b : Buffer) (data : Bytes) : Option Buffer := b.write data

def writeStringAndPush (b : Buffer) (data : Bytes) : Option Buffer :=
  (b.writeString data).bind fun b' => b'.pushed data.length

/-! ### Reading -/

/-- `Read` and `ReadAsString`, for a length within `ReadAbleSize()`. -/
def readAsString (b : Buffer) (len : Nat) : Bytes := b.unread.take len

def readAsStringAndPop (b : Buffer) (len : Nat) (h : len ≤ b.readAbleSize) : Bytes × Buffer :=
  (b.readAsString len, b.moveReadOffset len h)

/-- Append another buffer's unread bytes, or this buffer's own (`none`). -/
def writeBuffer (b : Buffer) : Option Buffer → Option Buffer
  | none => b.writeString (b.readAsString b.readAbleSize)
  | some data => b.write data.unread

def writeBufferAndPush (b : Buffer) : Option Buffer → Option Buffer
  | none => (b.writeBuffer none).bind fun b' => b'.pushed b'.readAbleSize
  | some data => (b.writeBuffer (some data)).bind fun b' => b'.pushed data.readAbleSize

/-- `memchr` for a newline in the unread bytes. -/
def findCRLF (b : Buffer) : Option Nat := b.unread.findIdx? (· == newline)

/-- The unread bytes through the first newline, the empty string without one. -/
def getLine (b : Buffer) : Bytes :=
  match b.findCRLF with
  | none => []
  | some pos => b.readAsString (pos + 1)

theorem getLine_length_le (b : Buffer) : b.getLine.length ≤ b.readAbleSize := by
  unfold getLine
  split
  · exact Nat.zero_le _
  · rw [readAsString, List.length_take, unread_length]
    exact min_le_right _ _

def getLineAndPop (b : Buffer) : Bytes × Buffer :=
  (b.getLine, b.moveReadOffset b.getLine.length b.getLine_length_le)

/-- Reset both indices and give a grown vector back.  The constructor, an upward
`resize` and this swap are the only writers of the vector, so its `capacity()` exceeds
the default size exactly when its size does. -/
def clear (b : Buffer) : Buffer where
  buffer := if bufferDefaultSize < b.buffer.length then List.replicate bufferDefaultSize 0
    else b.buffer
  readerIdx := 0
  writerIdx := 0
  reader_le := le_rfl
  writer_le := Nat.zero_le _
  default_le := by
    split
    · rw [List.length_replicate]
    · exact b.default_le
  le_max := by
    split
    · rw [List.length_replicate]; decide
    · exact b.le_max

end Buffer

end Flux
