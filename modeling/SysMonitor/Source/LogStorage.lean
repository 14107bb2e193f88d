import SysMonitor.Source.Interface
import SysMonitor.Source.LogDef

/-!
# From a log item to the ring: `log_item_to_storage` of driver/log.c

The function allocates one buffer, lays header, path and details out in it and
hands it to `write_to_interface`. The buffer starts with whatever `kmalloc` left in
it and is filled store by store, as in the source.
-/

namespace SysMonitor.Source.LogStorage
open SysMonitor.Library.CyclicBuffer SysMonitor.Source.Interface

/-- `kmalloc` returns NULL for more than this in every kernel configuration. -/
def KMALLOC_MAX_SIZE : Nat := 2 ^ 25

/-- `memory` is the free block the allocator finds, if any. -/
def kmalloc (size : Nat) (memory : Option (Nat → Byte)) : Option (List Byte) :=
  if size ≤ KMALLOC_MAX_SIZE then memory.map ((List.range size).map ·) else none

theorem kmalloc_some {size : Nat} {memory : Option (Nat → Byte)} {buff : List Byte}
    (got : kmalloc size memory = some buff) : size ≤ KMALLOC_MAX_SIZE ∧ buff.length = size := by
  unfold kmalloc at got
  split at got
  · cases memory with
    | none => cases got
    | some g => cases got; exact ⟨by assumption, by simp⟩
  · cases got

/-- The size of a possibly NULL string with its terminator, one for NULL. -/
def stringSize : Option CString → Nat
  | some s => s.strlen + 1
  | none => 1

/-- `full_size`. It is below 2^32, so that `kmalloc`, whose parameter is a `size_t`,
receives this number even where the `int` that holds it is negative. -/
def fullSize (path details : Option CString) : Nat :=
  LogHeader.size + stringSize path + stringSize details

/-- The three fields `log_item_to_storage` sets in its copy of the header. -/
def withOffsets (header : LogHeader) (path details : Option CString) : LogHeader :=
  { header with
    pathOffset := BitVec.ofNat 32 LogHeader.size
    detailsOffset := BitVec.ofNat 32 (LogHeader.size + stringSize path)
    contentSize := BitVec.ofNat 32 (stringSize path + stringSize details) }

/-- `strcpy` into the buffer, when the string is not NULL. -/
def copyIfPresent (buff : List Byte) (offset : Nat) : Option CString → List Byte
  | some s => splice buff offset s.terminated
  | none => buff

/-- The stores into the fresh buffer, in order: header, two terminators, two strings. -/
def fillBuffer (buff : List Byte) (header : LogHeader) (path details : Option CString) :
    List Byte :=
  let header := withOffsets header path details
  let buff := splice buff 0 header.toBytes
  let buff := splice buff LogHeader.size [0]
  let buff := splice buff (LogHeader.size + stringSize path) [0]
  let buff := copyIfPresent buff LogHeader.size path
  copyIfPresent buff (LogHeader.size + stringSize path) details

def logItemToStorage (d : Device) (header : LogHeader) (path details : Option CString)
    (memory : Option (Nat → Byte)) (outcome : Down) : Except Fault Device :=
  if !isDeviceReady d then .ok d
  else
    match kmalloc (fullSize path details) memory with
    | none => .ok d
    | some buff => writeToInterface d (fillBuffer buff header path details) outcome

/-- A possibly NULL string as it arrives: NULL leaves the terminator alone. -/
def stringBytes : Option CString → List Byte
  | some s => s.terminated
  | none => [0]

@[simp] theorem stringBytes_length (s : Option CString) :
    (stringBytes s).length = stringSize s := by
  cases s <;> simp [stringBytes, stringSize]

/-- The record in closed form. -/
def record (header : LogHeader) (path details : Option CString) : List Byte :=
  (withOffsets header path details).toBytes ++ stringBytes path ++ stringBytes details

@[simp] theorem record_length (header : LogHeader) (path details : Option CString) :
    (record header path details).length = fullSize path details := by
  simp [record, fullSize, Nat.add_assoc]

/-- A terminator and then the string, if there is one, over a block of the right
size: nothing of the block remains. -/
theorem string_fills (block : List Byte) (s : Option CString)
    (size : block.length = stringSize s) :
    copyIfPresent (splice block 0 [0]) 0 s = stringBytes s := by
  cases s with
  | none => exact splice_all block [0] size.symm
  | some s =>
    have cleared : (splice block 0 [0]).length = block.length :=
      splice_length _ _ _ (by simp [size, stringSize])
    exact splice_all _ _ (by rw [cleared, size, CString.terminated_length]; rfl)

theorem copyIfPresent_append_left (first rest : List Byte) (start : Nat) (s : Option CString) :
    copyIfPresent (first ++ rest) (first.length + start) s =
      first ++ copyIfPresent rest start s := by
  cases s with
  | none => rfl
  | some s => exact splice_append_left first rest start s.terminated

theorem copyIfPresent_append_right (first rest : List Byte) (start : Nat) (s : Option CString)
    (fits : start + stringSize s ≤ first.length) :
    copyIfPresent (first ++ rest) start s = copyIfPresent first start s ++ rest := by
  cases s with
  | none => rfl
  | some s =>
    have inside : start + s.terminated.length ≤ first.length := by
      rw [CString.terminated_length]; exact fits
    exact splice_append_right first rest start s.terminated inside

/-- No byte of the record is left as `kmalloc` found it. -/
theorem fillBuffer_eq (buff : List Byte) (header : LogHeader) (path details : Option CString)
    (size : buff.length = fullSize path details) :
    fillBuffer buff header path details = record header path details := by
  -- cut the buffer where the three parts of the record will lie
  obtain ⟨top, rest, rfl, top_size⟩ : ∃ top rest, buff = top ++ rest ∧
      top.length = LogHeader.size :=
    ⟨buff.take LogHeader.size, buff.drop LogHeader.size, by simp, by
      rw [List.length_take, size, fullSize]; omega⟩
  obtain ⟨front, back, rfl, front_size⟩ : ∃ front back, rest = front ++ back ∧
      front.length = stringSize path :=
    ⟨rest.take (stringSize path), rest.drop (stringSize path), by simp, by
      rw [List.length_append, top_size, fullSize] at size
      rw [List.length_take]; omega⟩
  have back_size : back.length = stringSize details := by
    simp only [List.length_append, top_size, front_size, fullSize] at size
    omega
  have path_pos : 0 < stringSize path := by cases path <;> simp [stringSize]
  have details_pos : 0 < stringSize details := by cases details <;> simp [stringSize]
  have path_filled := string_fills front path front_size
  have details_filled := string_fills back details back_size
  have image : ((withOffsets header path details).toBytes).length = LogHeader.size :=
    LogHeader.toBytes_length _
  simp only [fillBuffer, record]
  generalize (withOffsets header path details).toBytes = H at image
  have headed : splice (top ++ (front ++ back)) 0 H = H ++ (front ++ back) := by
    rw [splice_append_right _ _ _ _ (by omega), splice_all _ _ (by omega)]
  have path_cleared : splice (H ++ (front ++ back)) LogHeader.size [0] =
      H ++ (splice front 0 [0] ++ back) := by
    rw [← image, ← Nat.add_zero H.length, splice_append_left,
      splice_append_right _ _ _ _ (by rw [front_size]; exact path_pos)]
  have cleared_size : (splice front 0 [0]).length = stringSize path := by
    rw [splice_length _ _ _ (by rw [front_size]; exact path_pos), front_size]
  generalize splice front 0 [0] = F at path_filled path_cleared cleared_size
  have details_cleared : splice (H ++ (F ++ back)) (LogHeader.size + stringSize path) [0] =
      H ++ (F ++ splice back 0 [0]) := by
    rw [← image, ← cleared_size, splice_append_left, ← Nat.add_zero F.length, splice_append_left]
  have path_stored : copyIfPresent (H ++ (F ++ splice back 0 [0])) LogHeader.size path =
      H ++ (stringBytes path ++ splice back 0 [0]) := by
    rw [← image, ← Nat.add_zero H.length, copyIfPresent_append_left,
      copyIfPresent_append_right _ _ _ _ (by omega), path_filled]
  have details_stored : copyIfPresent (H ++ (stringBytes path ++ splice back 0 [0]))
      (LogHeader.size + stringSize path) details =
      H ++ (stringBytes path ++ stringBytes details) := by
    rw [← image, ← stringBytes_length path, copyIfPresent_append_left,
      ← Nat.add_zero (stringBytes path).length, copyIfPresent_append_left, details_filled]
  simp only [headed, path_cleared, details_cleared, path_stored, details_stored,
    List.append_assoc]

end SysMonitor.Source.LogStorage
