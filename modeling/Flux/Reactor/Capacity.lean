import Flux.Reactor.Buffer

/-!
# When a write fits

`EnsureWriteSpace(len)` is called before every copy into a buffer, and its third branch
cuts the new size at one MiB.  `Fits` is the condition under which the room is really
there afterwards: `len` bytes fit into what is idle at the two ends, or they
end inside the cap counted from the write index, dead bytes at the front included.

`ensureWriteSpace_room_iff` says this is exact.  Past it the copy of `Write` runs over
the end of the vector before `MoveWriteOffset` can assert anything.
-/

namespace Flux.Buffer

/-- The capacity rule of a write of `len` bytes. -/
def Fits (b : Buffer) (len : Nat) : Prop :=
  len ≤ b.headIdleSize + b.tailIdleSize ∨ b.writerIdx + len ≤ bufferMaxSize

instance (b : Buffer) (len : Nat) : Decidable (b.Fits len) :=
  inferInstanceAs (Decidable (_ ∨ _))

theorem fits_zero (b : Buffer) : b.Fits 0 := Or.inl (Nat.zero_le _)

/-- A buffer at rest leaves room up to the cap for a read of any smaller size. -/
theorem fits_of_le (b : Buffer) {len : Nat} (h : b.buffer.length + len ≤ bufferMaxSize) :
    b.Fits len := by
  have := b.writer_le
  exact Or.inr (by omega)

/-- **Room after `EnsureWriteSpace`, exactly when the write fits.** -/
theorem ensureWriteSpace_tail_iff (b : Buffer) (len : Nat) :
    len ≤ (b.ensureWriteSpace len).tailIdleSize ↔ b.Fits len := by
  unfold ensureWriteSpace Fits
  by_cases htail : len ≤ b.tailIdleSize
  · rw [if_pos htail]
    exact ⟨fun _ => Or.inl (htail.trans (Nat.le_add_left _ _)), fun _ => htail⟩
  · rw [if_neg htail]
    by_cases hall : len ≤ b.headIdleSize + b.tailIdleSize
    · rw [if_pos hall, compact_tailIdleSize]
      exact ⟨fun _ => Or.inl hall, fun _ => hall⟩
    · -- the vector grows, and only the cap can make it too small
      rw [if_neg hall, grow_tailIdleSize]
      have hw := b.writer_le
      have hm := b.le_max
      have hcap : bufferMaxSize < 2 ^ 64 := by decide
      simp only [tailIdleSize] at htail
      constructor
      · intro h
        refine Or.inr ?_
        simp only [newSize] at h
        omega
      · rintro (h | h)
        · exact absurd h hall
        · have hmod : (b.writerIdx + len) % 2 ^ 64 = b.writerIdx + len :=
            Nat.mod_eq_of_lt (by omega)
          simp only [newSize, hmod]
          omega

theorem ensureWriteSpace_readAbleSize (b : Buffer) (len : Nat) :
    (b.ensureWriteSpace len).readAbleSize = b.readAbleSize := by
  rw [← unread_length, ensureWriteSpace_unread, unread_length]

/-! ### What a write leaves behind -/

theorem copyIn_pushed (b : Buffer) (data : Bytes) (h : data.length ≤ b.tailIdleSize) :
    ∃ b', (b.copyIn data h).pushed data.length = some b' ∧ b'.unread = b.unread ++ data := by
  have hr := b.reader_le
  have hw := b.writer_le
  have htail : (b.copyIn data h).tailIdleSize = b.tailIdleSize := by
    simp only [tailIdleSize] at h
    simp only [tailIdleSize, copyIn, List.length_append, List.length_take, List.length_drop]
    omega
  refine ⟨_, by rw [pushed, dif_pos (htail ▸ h)], ?_⟩
  have htake : (b.buffer.take b.writerIdx).length = b.writerIdx := by
    rw [List.length_take, min_eq_left hw]
  have hlen : ((b.buffer.take b.writerIdx).drop b.readerIdx).length = b.readAbleSize := by
    rw [List.length_drop, htake, readAbleSize]
  have hun : b.unread = (b.buffer.take b.writerIdx).drop b.readerIdx := by
    rw [unread, readAbleSize, List.drop_take]
  simp only [unread, readAbleSize, moveWriteOffset, copyIn] at hlen ⊢
  rw [List.drop_append_of_le_length (by rw [htake]; exact hr), ← List.append_assoc,
    show b.writerIdx + data.length - b.readerIdx
      = ((b.buffer.take b.writerIdx).drop b.readerIdx ++ data).length by
        rw [List.length_append, hlen]; omega,
    List.take_left, ← hun]
  rfl

theorem writeAndPush_of_fits (b : Buffer) (data : Bytes) (h : b.Fits data.length) :
    ∃ b', b.writeAndPush data = some b' ∧ b'.unread = b.unread ++ data := by
  unfold writeAndPush write
  by_cases h0 : data.length = 0
  · obtain rfl : data = [] := List.length_eq_zero_iff.mp h0
    refine ⟨b.moveWriteOffset 0 (Nat.zero_le _), ?_, by rw [List.append_nil]; rfl⟩
    rw [if_pos List.length_nil, Option.bind_some, List.length_nil, pushed,
      dif_pos (Nat.zero_le _)]
  · have hroom := (b.ensureWriteSpace_tail_iff data.length).mpr h
    rw [if_neg h0, dif_pos hroom, Option.bind_some]
    obtain ⟨b', hp, hu⟩ := copyIn_pushed (b.ensureWriteSpace data.length) data hroom
    exact ⟨b', hp, hu.trans (by rw [ensureWriteSpace_unread])⟩

/-- **A write stays inside the vector exactly when it fits.** -/
theorem writeAndPush_isSome_iff (b : Buffer) (data : Bytes) :
    (b.writeAndPush data).isSome ↔ b.Fits data.length := by
  constructor
  · intro h
    by_cases h0 : data.length = 0
    · rw [h0]; exact b.fits_zero
    · rw [← ensureWriteSpace_tail_iff]
      by_contra hroom
      rw [writeAndPush, write, if_neg h0, dif_neg hroom] at h
      exact absurd h (by simp)
  · intro h
    obtain ⟨b', hb, _⟩ := b.writeAndPush_of_fits data h
    rw [hb]; rfl

theorem writeAndPush_unread {b b' : Buffer} {data : Bytes} (h : b.writeAndPush data = some b') :
    b'.unread = b.unread ++ data := by
  have hfits := (b.writeAndPush_isSome_iff data).mp (h ▸ rfl)
  obtain ⟨c, hc, hu⟩ := b.writeAndPush_of_fits data hfits
  obtain rfl : b' = c := Option.some.inj (h.symm.trans hc)
  exact hu

/-- The write index moves by what was written at most; a compaction takes it back first. -/
theorem writeAndPush_writerIdx_le {b b' : Buffer} {data : Bytes}
    (h : b.writeAndPush data = some b') :
    b'.writerIdx ≤ b.writerIdx + data.length := by
  obtain ⟨b1, hb1, hp⟩ := Option.bind_eq_some_iff.mp h
  have hpushed : b'.writerIdx = b1.writerIdx + data.length := by
    unfold pushed at hp
    split at hp
    · rw [← Option.some.inj hp]
      rfl
    · exact absurd hp (by simp)
  have hwrite : b1.writerIdx ≤ b.writerIdx := by
    have hspace : (b.ensureWriteSpace data.length).writerIdx ≤ b.writerIdx := by
      unfold ensureWriteSpace
      split
      · exact Nat.le_refl _
      · split
        · exact Nat.sub_le _ _
        · exact Nat.le_refl _
    unfold write at hb1
    split at hb1
    · rw [← Option.some.inj hb1]
    · split at hb1
      · rw [← Option.some.inj hb1]
        exact hspace
      · exact absurd hb1 (by simp)
  omega

/-! ### The size of the vector -/

/-- The vector grows only when it cannot hold the unread bytes and the new ones together. -/
theorem ensureWriteSpace_length_le (b : Buffer) (len : Nat) :
    (b.ensureWriteSpace len).buffer.length ≤
      max b.buffer.length (2 * (b.readAbleSize + len)) := by
  have hr := b.reader_le
  have hw := b.writer_le
  have hm := b.le_max
  unfold ensureWriteSpace
  split
  · exact le_max_left _ _
  · split
    · refine le_trans (le_of_eq ?_) (le_max_left _ _)
      simp only [compact, List.length_append, unread_length, List.length_drop, readAbleSize]
      omega
    · rename_i hall
      have hmod := Nat.mod_le (b.writerIdx + len) (2 ^ 64)
      simp only [headIdleSize, tailIdleSize] at hall
      simp only [grow, resize_length, newSize, readAbleSize]
      omega

theorem writeAndPush_length_le {b b' : Buffer} {data : Bytes} (h : b.writeAndPush data = some b') :
    b'.buffer.length ≤ max b.buffer.length (2 * (b.readAbleSize + data.length)) := by
  obtain ⟨b1, hb1, hp⟩ := Option.bind_eq_some_iff.mp h
  have hpushed : b'.buffer = b1.buffer := by
    unfold pushed at hp
    split at hp
    · rw [← Option.some.inj hp]; rfl
    · exact absurd hp (by simp)
  rw [hpushed]
  unfold write at hb1
  split at hb1
  · rw [← Option.some.inj hb1]
    exact le_max_left _ _
  · split at hb1
    · rename_i hroom
      refine le_trans (le_of_eq ?_) (b.ensureWriteSpace_length_le data.length)
      rw [← Option.some.inj hb1]
      have := (b.ensureWriteSpace data.length).writer_le
      simp only [tailIdleSize] at hroom
      simp only [copyIn, List.length_append, List.length_take, List.length_drop]
      omega
    · exact absurd hb1 (by simp)

/-- **When no write leaves the storage.**  After `EnsureWriteSpace(len)` the tail has room for
`len` bytes, the unread bytes are the ones before it and every `WriteAndPush` of that
length goes through, exactly when `len` bytes are idle at the two ends or end inside one MiB
counted from the write index. -/
theorem ensureWriteSpace_room_iff (b : Buffer) (len : Nat) :
    (len ≤ (b.ensureWriteSpace len).tailIdleSize ∧
      (b.ensureWriteSpace len).unread = b.unread ∧
      ∀ data : Bytes, data.length = len → (b.writeAndPush data).isSome) ↔
    (len ≤ b.headIdleSize + b.tailIdleSize ∨ b.writerIdx + len ≤ 1024 * 1024) := by
  constructor
  · rintro ⟨h, _, _⟩
    exact (b.ensureWriteSpace_tail_iff len).mp h
  · intro h
    refine ⟨(b.ensureWriteSpace_tail_iff len).mpr h, b.ensureWriteSpace_unread len, ?_⟩
    rintro data rfl
    exact (b.writeAndPush_isSome_iff data).mpr h

/-- One byte over a MiB sent through a fresh buffer, as `Connection::Send` does with a
response of that size: the vector stops growing one byte short. -/
theorem ensureWriteSpace_short :
    ¬ ∀ (b : Buffer) (len : Nat), len ≤ (b.ensureWriteSpace len).tailIdleSize ∧
      (b.ensureWriteSpace len).unread = b.unread ∧
      ∀ data : Bytes, data.length = len → (b.writeAndPush data).isSome := by
  intro h
  have hroom := (new.ensureWriteSpace_tail_iff 1048577).mp (h new 1048577).1
  have hlen := new_length
  simp only [Fits, headIdleSize, tailIdleSize, new_readerIdx, new_writerIdx, hlen,
    bufferDefaultSize, bufferMaxSize] at hroom
  omega

end Flux.Buffer
