import SysMonitor.Source.Interface

/-!
What the ring's pointers mean. `ValidRing` is the pointer invariant, `contents` the
bytes waiting to be read, oldest first. One specification lemma per locked body:
a write appends its whole buffer or changes nothing, a read removes the oldest
bytes. Neither leaves the pages at `cycle_buffer`.
-/

namespace SysMonitor.Source.Interface
open SysMonitor.Library.CyclicBuffer

structure ValidRing (d : Device) : Prop where
  size_pos : 0 < d.cycleBufferSize
  ring_length : d.ring.length = d.cycleBufferSize
  read_low : d.cycleBuffer ≤ d.readPtr
  read_high : d.readPtr < d.cycleBuffer + d.cycleBufferSize
  write_low : d.cycleBuffer ≤ d.writePtr
  write_high : d.writePtr < d.cycleBuffer + d.cycleBufferSize

def readOffset (d : Device) : Nat := d.readPtr - d.cycleBuffer

/-- The unread bytes, oldest first. -/
def contents (d : Device) : List Byte := window d.ring (readOffset d) (getUsedSize d)

theorem ValidRing.used_lt {d : Device} (valid : ValidRing d) :
    getUsedSize d < d.cycleBufferSize := by
  obtain ⟨pos, -, rlo, rhi, wlo, whi⟩ := valid
  unfold getUsedSize
  split
  · exact pos
  · split <;> omega

theorem contents_length {d : Device} (valid : ValidRing d) :
    (contents d).length = getUsedSize d := by
  apply window_length
  rw [valid.ring_length]
  exact valid.used_lt.le

/-- The write pointer is the read pointer moved on by the used bytes, around the end. -/
theorem ValidRing.write_offset {d : Device} (valid : ValidRing d) :
    d.writePtr - d.cycleBuffer = (readOffset d + getUsedSize d) % d.ring.length := by
  obtain ⟨pos, len, rlo, rhi, wlo, whi⟩ := valid
  unfold getUsedSize readOffset
  rw [len]
  split
  next same =>
    rw [same, Nat.add_zero, Nat.mod_eq_of_lt (by omega)]
  next differ =>
    split
    next above =>
      have wraps : d.readPtr - d.cycleBuffer + (d.cycleBufferSize - (d.readPtr - d.writePtr)) =
          (d.writePtr - d.cycleBuffer) + d.cycleBufferSize := by omega
      rw [wraps, Nat.add_mod_right, Nat.mod_eq_of_lt (by omega)]
    next below =>
      rw [Nat.mod_eq_of_lt (by omega)]
      omega

/-- A used size is determined by the two pointers: `used` bytes on, around the end. -/
theorem getUsedSize_of_pointers {d : Device} {used : Nat} (valid : ValidRing d)
    (small : used < d.cycleBufferSize)
    (ahead : d.writePtr - d.cycleBuffer = (readOffset d + used) % d.cycleBufferSize) :
    getUsedSize d = used := by
  obtain ⟨pos, len, rlo, rhi, wlo, whi⟩ := valid
  unfold readOffset at ahead
  by_cases wraps : d.readPtr - d.cycleBuffer + used < d.cycleBufferSize
  · rw [Nat.mod_eq_of_lt wraps] at ahead
    unfold getUsedSize
    split
    · omega
    · split <;> omega
  · rw [Nat.mod_eq_sub_mod (by omega), Nat.mod_eq_of_lt (by omega)] at ahead
    unfold getUsedSize
    split
    · omega
    · split <;> omega

/-- Both copies of `copy_to_buffer` stay in the ring and together store the buffer
cyclically from the write pointer. -/
theorem copyToBuffer_spec {d : Device} (valid : ValidRing d) (buffer : List Byte)
    (fits : buffer.length < d.cycleBufferSize) :
    copyToBuffer d d.writePtr buffer =
      .ok ({ d with ring := overwrite d.ring (d.writePtr - d.cycleBuffer) buffer },
        d.cycleBuffer + (d.writePtr - d.cycleBuffer + buffer.length) % d.cycleBufferSize) := by
  obtain ⟨pos, len, -, -, wlo, whi⟩ := valid
  unfold copyToBuffer
  split
  next across =>
    have cut : (buffer.take (d.cycleBufferSize + d.cycleBuffer - d.writePtr)).length =
        d.cycleBufferSize + d.cycleBuffer - d.writePtr := by simp; omega
    have first : d.cycleBufferSize + d.cycleBuffer - d.writePtr =
        d.ring.length - (d.writePtr - d.cycleBuffer) := by omega
    have inside : d.cycleBuffer ≤ d.writePtr ∧
        d.writePtr + (buffer.take (d.cycleBufferSize + d.cycleBuffer - d.writePtr)).length ≤
          d.cycleBuffer + d.ring.length := by omega
    have stored : (splice d.ring (d.writePtr - d.cycleBuffer)
        (buffer.take (d.cycleBufferSize + d.cycleBuffer - d.writePtr))).length =
        d.ring.length := splice_length _ _ _ (by omega)
    have after : (d.writePtr - d.cycleBuffer + buffer.length) % d.cycleBufferSize =
        (buffer.drop (d.cycleBufferSize + d.cycleBuffer - d.writePtr)).length := by
      rw [List.length_drop, Nat.mod_eq_sub_mod (by omega), Nat.mod_eq_of_lt (by omega)]
      omega
    simp only [memcpyToRing, if_pos inside, bind, Except.bind]
    unfold copyStraight
    split
    next rest =>
      have inside' : d.cycleBuffer ≤ d.cycleBuffer ∧ d.cycleBuffer +
          (buffer.drop (d.cycleBufferSize + d.cycleBuffer - d.writePtr)).length ≤
          d.cycleBuffer + (splice d.ring (d.writePtr - d.cycleBuffer)
            (buffer.take (d.cycleBufferSize + d.cycleBuffer - d.writePtr))).length := by
        rw [stored, List.length_drop]; omega
      simp only [memcpyToRing, if_pos inside', bind, Except.bind, pure, Except.pure, after,
        overwrite, ← first, Nat.sub_self]
    next exact_hit =>
      have empty : buffer.drop (d.cycleBufferSize + d.cycleBuffer - d.writePtr) = [] :=
        List.eq_nil_of_length_eq_zero (by omega)
      simp only [overwrite, ← first, empty, splice_nil, after, List.length_nil, Nat.add_zero]
  next before =>
    have whole : buffer.length ≤ d.ring.length - (d.writePtr - d.cycleBuffer) := by omega
    have straight : overwrite d.ring (d.writePtr - d.cycleBuffer) buffer =
        splice d.ring (d.writePtr - d.cycleBuffer) buffer := by
      simp [overwrite, List.take_of_length_le whole, List.drop_of_length_le whole]
    rw [Nat.mod_eq_of_lt (by omega), straight]
    unfold copyStraight
    split
    · have inside : d.cycleBuffer ≤ d.writePtr ∧
          d.writePtr + buffer.length ≤ d.cycleBuffer + d.ring.length := by omega
      have position : d.cycleBuffer + (d.writePtr - d.cycleBuffer + buffer.length) =
          d.writePtr + buffer.length := by omega
      simp only [memcpyToRing, if_pos inside, bind, Except.bind, pure, Except.pure, position]
    next empty =>
      have nil : buffer = [] := List.eq_nil_of_length_eq_zero (by omega)
      have position : d.cycleBuffer + (d.writePtr - d.cycleBuffer + 0) = d.writePtr := by omega
      simp only [nil, splice_nil, List.length_nil, position]

/-- The device after an accepted write, in closed form. -/
def afterWrite (d : Device) (buffer : List Byte) : Device :=
  { d with
    ring := overwrite d.ring (d.writePtr - d.cycleBuffer) buffer
    writePtr := d.cycleBuffer +
      (d.writePtr - d.cycleBuffer + buffer.length) % d.cycleBufferSize }

theorem ValidRing.afterWrite {d : Device} (valid : ValidRing d) (buffer : List Byte)
    (fits : buffer.length < d.cycleBufferSize) : ValidRing (afterWrite d buffer) := by
  obtain ⟨pos, len, rlo, rhi, wlo, whi⟩ := valid
  have bound := Nat.mod_lt (d.writePtr - d.cycleBuffer + buffer.length) pos
  refine ⟨pos, ?_, rlo, rhi, Nat.le_add_right _ _, Nat.add_lt_add_left bound _⟩
  exact (overwrite_length _ _ _ (by omega) (by omega)).trans len

/-- The abstract effect of an accepted write. -/
theorem contents_afterWrite {d : Device} (valid : ValidRing d) (buffer : List Byte)
    (fits : getUsedSize d + buffer.length < d.cycleBufferSize) :
    contents (afterWrite d buffer) = contents d ++ buffer := by
  have len := valid.ring_length
  have offset := valid.write_offset
  have valid' := valid.afterWrite buffer (by omega)
  have ahead : (afterWrite d buffer).writePtr - (afterWrite d buffer).cycleBuffer =
      (readOffset (afterWrite d buffer) + (getUsedSize d + buffer.length)) %
        (afterWrite d buffer).cycleBufferSize := by
    show d.cycleBuffer + _ - d.cycleBuffer = (readOffset d + _) % d.cycleBufferSize
    rw [Nat.add_sub_cancel_left, offset, len, Nat.mod_add_mod, Nat.add_assoc]
  have grown := getUsedSize_of_pointers valid' fits ahead
  rw [contents, grown]
  show window (overwrite d.ring (d.writePtr - d.cycleBuffer) buffer) (readOffset d) _ = _
  rw [offset]
  exact window_overwrite d.ring (readOffset d) (getUsedSize d) buffer (by omega)

/-- A write that fits is appended whole. -/
theorem writeLocked_fits {d : Device} (valid : ValidRing d) (buffer : List Byte)
    (fits : (contents d).length + buffer.length ≤ d.cycleBufferSize - 1) :
    writeLocked d buffer = .ok (afterWrite d buffer) ∧ ValidRing (afterWrite d buffer) ∧
      contents (afterWrite d buffer) = contents d ++ buffer := by
  rw [contents_length valid] at fits
  have pos := valid.size_pos
  have room : d.cycleBufferSize - getUsedSize d > buffer.length := by omega
  have copied := copyToBuffer_spec valid buffer (by omega)
  refine ⟨?_, valid.afterWrite buffer (by omega), contents_afterWrite valid buffer (by omega)⟩
  simp only [writeLocked, if_pos room, copied, bind, Except.bind, pure, Except.pure, afterWrite]

/-- A write that does not fit changes nothing. -/
theorem writeLocked_full {d : Device} (valid : ValidRing d) (buffer : List Byte)
    (full : d.cycleBufferSize - 1 < (contents d).length + buffer.length) :
    writeLocked d buffer = .ok d := by
  rw [contents_length valid] at full
  have used := valid.used_lt
  have none : ¬ d.cycleBufferSize - getUsedSize d > buffer.length := by omega
  rw [writeLocked, if_neg none]

/-- The device after `n` bytes were consumed, in closed form. -/
def afterRead (d : Device) (n : Nat) : Device :=
  { d with readPtr := d.cycleBuffer + (readOffset d + n) % d.cycleBufferSize }

theorem ValidRing.afterRead {d : Device} (valid : ValidRing d) (n : Nat) :
    ValidRing (afterRead d n) := by
  obtain ⟨pos, len, -, -, wlo, whi⟩ := valid
  exact ⟨pos, len, Nat.le_add_right _ _, Nat.add_lt_add_left (Nat.mod_lt _ pos) _, wlo, whi⟩

theorem ValidRing.afterRead_zero {d : Device} (valid : ValidRing d) :
    Interface.afterRead d 0 = d := by
  obtain ⟨-, -, rlo, rhi, -, -⟩ := valid
  have same : d.cycleBuffer + (readOffset d + 0) % d.cycleBufferSize = d.readPtr := by
    rw [Nat.add_zero, Nat.mod_eq_of_lt] <;> (unfold readOffset; omega)
  rw [Interface.afterRead, same]

/-- The abstract effect of consuming `n` bytes. -/
theorem contents_afterRead {d : Device} (valid : ValidRing d) (n : Nat)
    (le : n ≤ getUsedSize d) : contents (afterRead d n) = (contents d).drop n := by
  have used := valid.used_lt
  have offset := valid.write_offset
  have len := valid.ring_length
  have valid' := valid.afterRead n
  have start : readOffset (afterRead d n) = (readOffset d + n) % d.cycleBufferSize := by
    show d.cycleBuffer + _ - d.cycleBuffer = _
    rw [Nat.add_sub_cancel_left]
  have ahead : (afterRead d n).writePtr - (afterRead d n).cycleBuffer =
      (readOffset (afterRead d n) + (getUsedSize d - n)) % (afterRead d n).cycleBufferSize := by
    rw [start]
    show d.writePtr - d.cycleBuffer = (_ + _) % d.cycleBufferSize
    rw [Nat.mod_add_mod, offset, len]
    congr 1
    omega
  have shrunk := getUsedSize_of_pointers valid' (by show _ < d.cycleBufferSize; omega) ahead
  rw [contents, shrunk, start]
  show window d.ring _ _ = _
  rw [← len, window_mod, window_advance _ _ _ _ le (by omega)]
  rfl

/-- A copy that stays before the end of the ring delivers the oldest bytes. -/
theorem ringBytes_oldest {d : Device} (valid : ValidRing d) (n : Nat) (le : n ≤ getUsedSize d)
    (before : readOffset d + n ≤ d.cycleBufferSize) :
    ringBytes d d.readPtr n = .ok ((contents d).take n) := by
  obtain ⟨-, len, rlo, rhi, -, -⟩ := valid
  have inside : d.cycleBuffer ≤ d.readPtr ∧
      d.readPtr + n ≤ d.cycleBuffer + d.ring.length := by unfold readOffset at before; omega
  rw [ringBytes, if_pos inside, contents, window_take _ _ _ _ le, window_inside _ _ _ (by omega)]
  rfl

/-- The straight copy, also when it stops `uncopied` bytes short: what it reports is
what it delivers and what it consumes. -/
theorem readStraight_spec {d : Device} (valid : ValidRing d) (n copyed : Nat)
    (delivered : List Byte) (uncopied : Nat) (le : n ≤ getUsedSize d)
    (before : readOffset d + n < d.cycleBufferSize) :
    readStraight d n copyed delivered uncopied =
      .ok (afterRead d (n - uncopied),
        ⟨(copyed + (n - uncopied) : Nat), delivered ++ (contents d).take (n - uncopied)⟩) := by
  have left : n - Nat.min uncopied n = n - uncopied := by
    have : Nat.min uncopied n = min uncopied n := rfl
    omega
  have bytes := ringBytes_oldest valid n le before.le
  have position : d.cycleBuffer + (readOffset d + (n - uncopied)) % d.cycleBufferSize =
      d.readPtr + (n - uncopied) := by
    have := valid.read_low
    rw [Nat.mod_eq_of_lt (by omega)]
    unfold readOffset
    omega
  unfold readStraight
  split
  · simp only [bytes, bind, Except.bind, pure, Except.pure, left, afterRead, position,
      List.take_take, Nat.min_eq_left (Nat.sub_le n uncopied)]
  next none =>
    have zero : n - uncopied = 0 := by omega
    rw [zero, valid.afterRead_zero]
    simp

/-- Consuming up to the end of the ring puts the read pointer back to its start. -/
theorem afterRead_to_end {d : Device} (valid : ValidRing d) :
    afterRead d (d.cycleBufferSize - (d.readPtr - d.cycleBuffer)) =
      { d with readPtr := d.cycleBuffer } := by
  obtain ⟨-, -, rlo, rhi, -, -⟩ := valid
  have zero : (readOffset d + (d.cycleBufferSize - (d.readPtr - d.cycleBuffer))) %
      d.cycleBufferSize = 0 := by
    rw [readOffset, Nat.add_sub_cancel' (by omega), Nat.mod_self]
  rw [afterRead, zero, Nat.add_zero]

theorem afterRead_afterRead (d : Device) (m n : Nat) :
    afterRead (afterRead d m) n = afterRead d (m + n) := by
  have start : readOffset (afterRead d m) = (readOffset d + m) % d.cycleBufferSize := by
    show d.cycleBuffer + _ - d.cycleBuffer = _
    rw [Nat.add_sub_cancel_left]
  rw [afterRead, start]
  show { d with readPtr := d.cycleBuffer + (_ + n) % d.cycleBufferSize } = afterRead d (m + n)
  rw [Nat.mod_add_mod, Nat.add_assoc, afterRead]

/-- How many bytes lie between the read pointer and the ring's end. -/
def firstPart (d : Device) : Nat := d.cycleBufferSize - readOffset d

/-- A read of `count` bytes goes across the ring's end, with a copy of its own for the part
before it. -/
def Across (d : Device) (count : Nat) : Prop :=
  d.readPtr > d.writePtr ∧ firstPart d ≤ min count (getUsedSize d)

instance (d : Device) (count : Nat) : Decidable (Across d count) :=
  inferInstanceAs (Decidable (_ ∧ _))

theorem asked_eq_min (d : Device) (count : Nat) :
    (if count > getUsedSize d then getUsedSize d else count) = min count (getUsedSize d) := by
  split <;> omega

theorem firstPart_pos {d : Device} (valid : ValidRing d) : 0 < firstPart d := by
  obtain ⟨pos, len, rlo, rhi, wlo, whi⟩ := valid
  unfold firstPart readOffset
  omega

/-- A read with one copy: it reports, delivers and consumes what the copy managed. -/
theorem readLocked_straight {d : Device} (valid : ValidRing d) {count : Nat} (user : UserCopy)
    (straight : ¬ Across d count) :
    readLocked d count user =
      .ok (afterRead d (min count (getUsedSize d) - user.second),
        ⟨(min count (getUsedSize d) - user.second : Nat),
          (contents d).take (min count (getUsedSize d) - user.second)⟩) := by
  have le : min count (getUsedSize d) ≤ getUsedSize d := Nat.min_le_right ..
  have used := valid.used_lt
  have size : d.cycleBufferSize - (d.readPtr - d.cycleBuffer) = firstPart d := rfl
  simp only [readLocked, asked_eq_min, size]
  unfold Across at straight
  generalize min count (getUsedSize d) = n at le straight
  by_cases same : d.readPtr = d.writePtr
  · have zero : n = 0 := by
      have : getUsedSize d = 0 := by simp [getUsedSize, same]
      omega
    simp [same, zero, valid.afterRead_zero]
  · rw [if_neg same, if_neg straight]
    have before : readOffset d + n < d.cycleBufferSize := by
      obtain ⟨pos, len, rlo, rhi, wlo, whi⟩ := valid
      unfold firstPart readOffset at straight
      unfold readOffset
      unfold getUsedSize at le
      rw [if_neg same] at le
      split at le <;> omega
    simpa using readStraight_spec valid n 0 [] user.second le before

/-- What the first copy of a read across the end asks for. -/
theorem readLocked_first {d : Device} (valid : ValidRing d) {count : Nat} (user : UserCopy)
    (across : Across d count) :
    readLocked d count user =
      if Nat.min user.first (firstPart d) = 0 then
        readStraight (afterRead d (firstPart d)) (min count (getUsedSize d) - firstPart d)
          (firstPart d) ((contents d).take (firstPart d)) user.second
      else
        .ok (d, ⟨(firstPart d - Nat.min user.first (firstPart d) : Nat),
          (contents d).take (firstPart d - Nat.min user.first (firstPart d))⟩) := by
  have positive := firstPart_pos valid
  have part := ringBytes_oldest valid (firstPart d) (across.2.trans (Nat.min_le_right ..))
    (by have := valid.read_high; have := valid.read_low; unfold firstPart readOffset; omega)
  have to_end : afterRead d (firstPart d) = { d with readPtr := d.cycleBuffer } :=
    afterRead_to_end valid
  have size : d.cycleBufferSize - (d.readPtr - d.cycleBuffer) = firstPart d := rfl
  have differ : ¬ d.readPtr = d.writePtr := by
    have := across.1
    omega
  obtain ⟨above, first⟩ := across
  simp only [readLocked, asked_eq_min, size, if_neg differ]
  rw [if_pos ⟨above, first⟩]
  simp only [if_neg (Nat.ne_of_gt positive), part, bind, Except.bind, to_end, pure, Except.pure,
    List.take_take, Nat.min_eq_left (Nat.sub_le _ _)]

/-- A read across the end whose first copy is complete. -/
theorem readLocked_across {d : Device} (valid : ValidRing d) {count : Nat} {user : UserCopy}
    (across : Across d count) (whole : user.first = 0) :
    let n := firstPart d + (min count (getUsedSize d) - firstPart d - user.second)
    readLocked d count user = .ok (afterRead d n, ⟨(n : Nat), (contents d).take n⟩) := by
  intro n
  have le : min count (getUsedSize d) ≤ getUsedSize d := Nat.min_le_right ..
  have first := across.2
  have used := valid.used_lt
  have valid' := valid.afterRead (firstPart d)
  have consumed := contents_afterRead valid (firstPart d) (first.trans le)
  have rest := contents_length valid'
  rw [consumed, List.length_drop, contents_length valid] at rest
  have start : readOffset (afterRead d (firstPart d)) = 0 := by
    have to_end : afterRead d (firstPart d) = { d with readPtr := d.cycleBuffer } :=
      afterRead_to_end valid
    rw [to_end]
    simp [readOffset]
  have second := readStraight_spec valid' (min count (getUsedSize d) - firstPart d) (firstPart d)
    ((contents d).take (firstPart d)) user.second (by omega)
    (by rw [start]; show _ < d.cycleBufferSize; omega)
  rw [readLocked_first valid user across, whole, if_pos (Nat.zero_min _), second, consumed,
    ← List.take_add, afterRead_afterRead]

/-- A read across the end whose first copy stops short leaves the device as it was. -/
theorem readLocked_cut {d : Device} (valid : ValidRing d) {count : Nat} {user : UserCopy}
    (across : Across d count) (short : 0 < user.first) :
    readLocked d count user =
      .ok (d, ⟨(firstPart d - user.first : Nat),
        (contents d).take (firstPart d - user.first)⟩) := by
  have positive := firstPart_pos valid
  have left : Nat.min user.first (firstPart d) ≠ 0 := by
    have : Nat.min user.first (firstPart d) = min user.first (firstPart d) := rfl
    omega
  have copied : firstPart d - Nat.min user.first (firstPart d) = firstPart d - user.first := by
    have : Nat.min user.first (firstPart d) = min user.first (firstPart d) := rfl
    omega
  rw [readLocked_first valid user across, if_neg left, copied]

/-- A read whose copies complete delivers the oldest bytes and consumes exactly these. -/
theorem readLocked_complete {d : Device} (valid : ValidRing d) (count : Nat) :
    readLocked d count .complete =
      .ok (afterRead d (min count (getUsedSize d)),
        ⟨(min count (getUsedSize d) : Nat), (contents d).take count⟩) := by
  have taken : (contents d).take count = (contents d).take (min count (getUsedSize d)) := by
    rw [← contents_length valid, List.take_eq_take_min]
  rw [taken]
  by_cases across : Across d count
  · have whole := @readLocked_across d valid count .complete across rfl
    simpa only [UserCopy.complete, Nat.sub_zero, Nat.add_sub_cancel' across.2] using whole
  · simpa only [UserCopy.complete, Nat.sub_zero] using readLocked_straight valid .complete across

end SysMonitor.Source.Interface
