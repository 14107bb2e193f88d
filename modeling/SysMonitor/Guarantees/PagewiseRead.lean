import Mathlib.Data.BitVec
import SysMonitor.Source.ProcessMemory

/-!
# Reading page by page reads everything in front of the first missing page

Each round of the loop copies the part of the range that lies in one page. What is left of the
range after it begins on a page boundary.
-/

namespace SysMonitor.Guarantees.PagewiseRead
open SysMonitor.Library.CyclicBuffer SysMonitor.Library.PagedMemory
open SysMonitor.Source SysMonitor.Source.ProcessMemory

/-- The pages of a task, as memory of the process. -/
def pagesOf (m : TaskMemory) (page : Nat) : Option (Nat → Byte) := (m.frame page).map m.content

/-- The size of a page, as a number. -/
def sizeOf (m : TaskMemory) : Nat := 2 ^ m.pageShift

section Chunk

variable {m : TaskMemory} {addr len : Word}

theorem pageSize_toNat (m : TaskMemory) : (pageSize m).toNat = sizeOf m := by
  have small : 2 ^ m.pageShift < 2 ^ 32 := Nat.pow_lt_pow_right (by decide) m.pageFits
  rw [pageSize, BitVec.toNat_shiftLeft, Nat.shiftLeft_eq]
  show 1 * 2 ^ m.pageShift % 2 ^ 32 = _
  rw [Nat.one_mul, Nat.mod_eq_of_lt small, sizeOf]

theorem sizeOf_pos (m : TaskMemory) : 0 < sizeOf m := Nat.two_pow_pos _

theorem pageOffset_toNat : (pageOffset m addr).toNat = addr.toNat % sizeOf m := by
  have positive := sizeOf_pos m
  have small := (pageSize m).isLt
  rw [pageSize_toNat] at small
  have mask : (pageSize m - 1#32).toNat = sizeOf m - 1 := by
    rw [BitVec.toNat_sub, pageSize_toNat]
    show (2 ^ 32 - 1 + sizeOf m) % 2 ^ 32 = _
    omega
  rw [pageOffset, BitVec.toNat_and, mask, sizeOf, Nat.and_two_pow_sub_one_eq_mod]

theorem chunk_toNat :
    (chunk m addr len).toNat = min len.toNat (sizeOf m - addr.toNat % sizeOf m) := by
  have below := Nat.mod_lt addr.toNat (sizeOf_pos m)
  have small := (pageSize m).isLt
  rw [pageSize_toNat] at small
  have rest : (pageSize m - pageOffset m addr).toNat = sizeOf m - addr.toNat % sizeOf m := by
    rw [BitVec.toNat_sub, pageSize_toNat, pageOffset_toNat]
    omega
  rw [chunk]
  split
  · rename_i less
    rw [BitVec.lt_def, rest] at less
    rw [rest]
    omega
  · rename_i notLess
    rw [BitVec.lt_def, rest] at notLess
    omega

end Chunk

/-- What the loop does from a state on, as far as the range stays in the address space. -/
structure Reads (m : TaskMemory) (s t : ReadState) : Prop where
  counts : t.counts = s.counts
  length : t.buffer.length = s.buffer.length
  more : s.written ≤ t.written ∧ t.written ≤ s.written + s.len.toNat
  kept : ∀ i, i < s.written ∨ t.written ≤ i → t.buffer[i]? = s.buffer[i]?
  exact : s.addr.toNat + s.len.toNat ≤ 2 ^ 32 →
    t.written = s.written + readable (sizeOf m) (pagesOf m) s.addr.toNat s.len.toNat
  cells : s.addr.toNat + s.len.toNat ≤ 2 ^ 32 → ∀ i < t.written - s.written,
    t.buffer[s.written + i]? = cell (sizeOf m) (pagesOf m) (s.addr.toNat + i)

section Loop

variable {m : TaskMemory} {s t : ReadState}

/-- The loop stops at once when nothing is left or the page is missing. -/
theorem Reads.stop
    (nothing : readable (sizeOf m) (pagesOf m) s.addr.toNat s.len.toNat = 0) : Reads m s s where
  counts := rfl
  length := rfl
  more := ⟨Nat.le_refl _, Nat.le_add_right _ _⟩
  kept _ _ := rfl
  exact _ := by rw [nothing, Nat.add_zero]
  cells _ i below := by
    rw [Nat.sub_self] at below
    cases below

theorem raise_release (c : Counts) (frame : Nat) :
    (c.raisePage frame).pageCacheRelease frame = c := by
  simp [Counts.raisePage, Counts.pageCacheRelease]

/-- The state after a round in which the page has this frame. -/
def afterRound (m : TaskMemory) (s : ReadState) (frame : Nat) : ReadState where
  len := s.len - chunk m s.addr s.len
  addr := s.addr + chunk m s.addr s.len
  written := s.written + (chunk m s.addr s.len).toNat
  buffer := splice s.buffer s.written ((List.range (chunk m s.addr s.len).toNat).map fun i =>
    m.content frame ((pageOffset m s.addr).toNat + i))
  counts := s.counts

theorem afterRound_len (m : TaskMemory) (s : ReadState) (frame : Nat) :
    (afterRound m s frame).len.toNat = s.len.toNat - (chunk m s.addr s.len).toNat := by
  have small := s.len.isLt
  have chunk_eq := @chunk_toNat m s.addr s.len
  show (s.len - chunk m s.addr s.len).toNat = _
  rw [BitVec.toNat_sub]
  omega

theorem afterRound_addr (m : TaskMemory) (s : ReadState) (frame : Nat) :
    (afterRound m s frame).addr.toNat
      = (s.addr.toNat + (chunk m s.addr s.len).toNat) % 2 ^ 32 :=
  BitVec.toNat_add _ _

theorem readLoop_round {rounds frame : Nat} (some' : s.len ≠ 0)
    (present : m.frame (s.addr.toNat / sizeOf m) = some frame)
    (room : s.written + s.len.toNat ≤ s.buffer.length) :
    readLoop m (rounds + 1) s = readLoop m rounds (afterRound m s frame) := by
  have chunk_eq := @chunk_toNat m s.addr s.len
  have below := Nat.mod_lt s.addr.toNat (sizeOf_pos m)
  have copied : copyFromUserPage m frame (pageOffset m s.addr) (chunk m s.addr s.len) s.buffer
      s.written = .ok (afterRound m s frame).buffer := by
    rw [copyFromUserPage, pageSize_toNat, pageOffset_toNat]
    rw [if_pos (by omega)]
    rw [afterRound, pageOffset_toNat]
  rw [readLoop, if_neg some', pageSize_toNat, present]
  simp only [copied, raise_release, bind, Except.bind]
  rfl

/-- The part of the range that a round copies lies in the page. -/
theorem chunk_present {frame : Nat} (present : m.frame (s.addr.toNat / sizeOf m) = some frame)
    {i : Nat} (below : i < (chunk m s.addr s.len).toNat) :
    cell (sizeOf m) (pagesOf m) (s.addr.toNat + i)
      = some (m.content frame ((pageOffset m s.addr).toNat + i)) := by
  rw [chunk_toNat] at below
  rw [cell, div_same_page (by omega), mod_same_page (by omega), pagesOf, present, pageOffset_toNat]
  rfl

theorem afterRound_cell {frame i : Nat} (room : s.written + s.len.toNat ≤ s.buffer.length) :
    (afterRound m s frame).buffer[i]? =
      if s.written ≤ i ∧ i < s.written + (chunk m s.addr s.len).toNat then
        some (m.content frame ((pageOffset m s.addr).toNat + (i - s.written)))
      else s.buffer[i]? := by
  have chunk_eq := @chunk_toNat m s.addr s.len
  rw [afterRound, getElem?_splice (by rw [List.length_map, List.length_range]; omega),
    List.length_map, List.length_range]
  split
  · rw [List.getElem?_map, List.getElem?_range (by omega)]
    rfl
  · rfl

/-- After the part that a round copies, the rest of the range is read from the next address on. -/
theorem readable_round {frame : Nat} (present : m.frame (s.addr.toNat / sizeOf m) = some frame)
    (inside : s.addr.toNat + s.len.toNat ≤ 2 ^ 32) :
    readable (sizeOf m) (pagesOf m) s.addr.toNat s.len.toNat
      = (chunk m s.addr s.len).toNat + readable (sizeOf m) (pagesOf m)
          (afterRound m s frame).addr.toNat (afterRound m s frame).len.toNat := by
  have chunk_eq := @chunk_toNat m s.addr s.len
  have first : ∀ i < (chunk m s.addr s.len).toNat,
      (pagesOf m ((s.addr.toNat + i) / sizeOf m)).isSome := by
    intro i below
    rw [div_same_page (by omega), pagesOf, present]
    rfl
  rw [readable_add (by omega) first, afterRound_len]
  by_cases wraps : s.addr.toNat + (chunk m s.addr s.len).toNat = 2 ^ 32
  · have nothing : s.len.toNat - (chunk m s.addr s.len).toNat = 0 := by omega
    rw [nothing, readable, readable]
  · rw [afterRound_addr, Nat.mod_eq_of_lt (by omega)]

/-- A round in front of what the loop does. -/
theorem Reads.round {frame : Nat}
    (present : m.frame (s.addr.toNat / sizeOf m) = some frame)
    (room : s.written + s.len.toNat ≤ s.buffer.length) (rest : Reads m (afterRound m s frame) t) :
    Reads m s t := by
  have chunk_eq := @chunk_toNat m s.addr s.len
  have written : (afterRound m s frame).written = s.written + (chunk m s.addr s.len).toNat := rfl
  have more := rest.more
  rw [afterRound_len, written] at more
  have behind : s.addr.toNat + s.len.toNat ≤ 2 ^ 32 → (afterRound m s frame).addr.toNat
      + (afterRound m s frame).len.toNat ≤ 2 ^ 32 := by
    intro inside
    rw [afterRound_addr, afterRound_len]
    omega
  constructor
  case counts => exact rest.counts
  case length =>
    rw [rest.length]
    apply splice_length
    rw [List.length_map, List.length_range]
    omega
  case more => omega
  case kept =>
    intro i outside
    rw [rest.kept i (by omega), afterRound_cell room, if_neg (by omega)]
  case exact =>
    intro inside
    rw [rest.exact (behind inside), readable_round present inside, written, Nat.add_assoc]
  case cells =>
    intro inside i below
    by_cases first : i < (chunk m s.addr s.len).toNat
    · rw [rest.kept _ (by omega), afterRound_cell room, if_pos (by omega),
        chunk_present present first, Nat.add_sub_cancel_left]
    · have later := rest.cells (behind inside) (i - (chunk m s.addr s.len).toNat) (by omega)
      rw [afterRound_addr, Nat.mod_eq_of_lt (by omega), written] at later
      rwa [Nat.add_assoc, Nat.add_assoc, Nat.add_sub_cancel' (Nat.le_of_not_lt first)] at later

/-- The loop ends, whatever pages are missing. -/
theorem readLoop_spec (rounds : Nat) (enough : s.len.toNat < rounds)
    (room : s.written + s.len.toNat ≤ s.buffer.length) :
    ∃ t, readLoop m rounds s = .ok t ∧ Reads m s t := by
  induction rounds generalizing s with
  | zero => cases enough
  | succ rounds ih =>
    by_cases none' : s.len = 0
    · refine ⟨s, by rw [readLoop, if_pos none'], .stop ?_⟩
      rw [none']
      rfl
    cases present : m.frame (s.addr.toNat / sizeOf m) with
    | none =>
      refine ⟨s, ?_, .stop (readable_of_missing ?_)⟩
      · rw [readLoop, if_neg none', pageSize_toNat, present]
      · rw [pagesOf, present]
        rfl
    | some frame =>
      have chunk_eq := @chunk_toNat m s.addr s.len
      have below := Nat.mod_lt s.addr.toNat (sizeOf_pos m)
      have positive : s.len.toNat ≠ 0 := fun zero => none' (BitVec.eq_of_toNat_eq zero)
      have less := afterRound_len m s frame
      have size : (afterRound m s frame).buffer.length = s.buffer.length := by
        apply splice_length
        rw [List.length_map, List.length_range]
        omega
      have written : (afterRound m s frame).written
          = s.written + (chunk m s.addr s.len).toNat := rfl
      obtain ⟨t, ran, rest⟩ := ih (s := afterRound m s frame) (by omega) (by omega)
      exact ⟨t, (readLoop_round none' present room).trans ran, .round present room rest⟩

end Loop

/-- A read of a task that has an mm is one run of the loop, on the counts with a reference more. -/
theorem readProcessMemoryLocked_spec (m : TaskMemory) (counts : Counts) (addr len : Word)
    (buffer : List Byte) {mm : Nat} (owned : getTaskMm m = some mm)
    (room : len.toNat ≤ buffer.length) :
    ∃ t, readProcessMemoryLocked m counts addr len buffer = .ok (t.written, t.buffer, t.counts) ∧
      Reads m ⟨len, addr, 0, buffer, counts.raiseMm mm⟩ t := by
  obtain ⟨t, ran, reads⟩ := readLoop_spec (m := m) (s := ⟨len, addr, 0, buffer, counts.raiseMm mm⟩)
    (len.toNat + 1) (Nat.lt_succ_self _) (by simpa using room)
  refine ⟨t, ?_, reads⟩
  rw [readProcessMemoryLocked, owned]
  show (readLoop m (len.toNat + 1) _ >>= _) = _
  rw [ran]
  rfl

/-- The counts with a reference to the mm, if one was taken. -/
def withMm (c : Counts) : Option Nat → Counts
  | none => c
  | some mm => c.raiseMm mm

/-- A read into a buffer that has room for it comes back with no more than was asked for, and
keeps a reference to the mm only. -/
theorem readProcessMemoryLocked_returns (m : TaskMemory) (counts : Counts) (addr len : Word)
    (buffer : List Byte) (room : len.toNat ≤ buffer.length) :
    ∃ n buffer', readProcessMemoryLocked m counts addr len buffer
        = .ok (n, buffer', withMm counts (getTaskMm m)) ∧
      n ≤ len.toNat ∧ buffer'.length = buffer.length := by
  cases owned : getTaskMm m with
  | none => exact ⟨0, buffer, by rw [readProcessMemoryLocked, owned]; rfl, Nat.zero_le _, rfl⟩
  | some mm =>
    obtain ⟨t, ran, reads⟩ := readProcessMemoryLocked_spec m counts addr len buffer owned room
    have more := reads.more.2
    rw [Nat.zero_add] at more
    rw [reads.counts] at ran
    exact ⟨_, _, ran, more, reads.length⟩

/-- What a read of a range returned, and what it did to the buffer. -/
structure ReadExactly (m : TaskMemory) (addr len : Word) (n : Nat) (before after : List Byte) :
    Prop where
  whole : (∀ page, Covers (sizeOf m) addr.toNat len.toNat page → pagesOf m page ≠ none) →
    n = len.toNat
  firstMissing : ∀ page, FirstMissing (sizeOf m) (pagesOf m) addr.toNat len.toNat page →
    n = page * sizeOf m - addr.toNat
  copied : ∀ i < n, after[i]? = cell (sizeOf m) (pagesOf m) (addr.toNat + i)
  kept : ∀ i, n ≤ i → after[i]? = before[i]?

theorem Reads.exactly {m : TaskMemory} {addr len : Word} {buffer : List Byte} {counts : Counts}
    {t : ReadState} (reads : Reads m ⟨len, addr, 0, buffer, counts⟩ t)
    (inside : addr.toNat + len.toNat ≤ 2 ^ 32) :
    ReadExactly m addr len t.written buffer t.buffer where
  whole present := by rw [reads.exact inside, Nat.zero_add, readable_all present]
  firstMissing page first := by
    rw [reads.exact inside, Nat.zero_add, readable_first (sizeOf_pos m) first]
  copied i below := by
    have cells := reads.cells inside i (by simpa using below)
    rwa [Nat.zero_add] at cells
  kept i behind := reads.kept i (.inr behind)

/-- The mm that `get_task_mm` gives when the arguments are read. -/
def argumentsMm (m : TaskMemory) (memory : Option (Nat → Byte)) : Option Nat :=
  if 0 ≤ (m.argEnd - m.argStart).toInt ∧
      (LogStorage.kmalloc ((m.argEnd - m.argStart).toNat + 1) memory).isSome then
    getTaskMm m
  else none

/-- The block for the arguments has one byte more than is read, and the terminator stands behind
what was read. -/
structure ArgumentBlock (m : TaskMemory) (n : Nat) (block : List Byte) : Prop where
  size : block.length = (m.argEnd - m.argStart).toNat + 1
  short : n ≤ (m.argEnd - m.argStart).toNat
  terminated : block[n]? = some 0

theorem getCurrentProcessArguments_spec (m : TaskMemory) (counts : Counts)
    (memory : Option (Nat → Byte)) :
    ∃ argBuffer n, ProcessMemory.getCurrentProcessArguments m counts memory
        = .ok (argBuffer, n, withMm counts (argumentsMm m memory)) ∧
      ∀ block, argBuffer = some block → ArgumentBlock m n block := by
  rw [ProcessMemory.getCurrentProcessArguments, argumentsMm]
  cases owned : m.mm with
  | none =>
    have noMm : getTaskMm m = none := by rw [getTaskMm, owned, ite_self]
    rw [noMm, ite_self]
    exact ⟨none, 0, rfl, fun block none => nomatch none⟩
  | some mm =>
    dsimp only
    by_cases signed : 0 ≤ (m.argEnd - m.argStart).toInt
    · rw [if_pos signed]
      cases got : LogStorage.kmalloc ((m.argEnd - m.argStart).toNat + 1) memory with
      | none =>
        rw [if_neg (fun both => Bool.noConfusion both.2)]
        exact ⟨none, 0, rfl, fun block none => nomatch none⟩
      | some argBuffer =>
        have size := (LogStorage.kmalloc_some got).2
        obtain ⟨n, read, returned, short, length⟩ := readProcessMemoryLocked_returns m counts
          m.argStart (m.argEnd - m.argStart) argBuffer (by omega)
        have inside : n < read.length := by omega
        rw [if_pos ⟨signed, rfl⟩]
        refine ⟨some (read.set n 0), n, ?_, ?_⟩
        · dsimp only
          rw [returned]
          exact if_pos inside
        · intro block same
          rw [← Option.some.inj same]
          exact ⟨by rw [List.length_set, length, size], short, List.getElem?_set_self inside⟩
    · rw [if_neg signed, if_neg (fun both => signed both.1)]
      exact ⟨none, 0, rfl, fun block none => nomatch none⟩

theorem one_lt_word : 1 < 32 := by decide

/-- Pages of two bytes, of which the second is missing. -/
def holed : TaskMemory where
  pageShift := 1
  pageFits := one_lt_word
  frame page := if page = 1 then none else some page
  content frame offset := BitVec.ofNat 8 (10 * frame + offset)
  mm := some 0
  kernelThread := false
  argStart := 1
  argEnd := 5

def noCounts : Counts := ⟨fun _ => 0, fun _ => 0⟩

/-- One byte is read in front of the missing page. -/
example : (readProcessMemoryLocked holed noCounts 1 4 [7, 7, 7, 7, 7]).map
    (fun result => (result.1, result.2.1)) = .ok (1, [1, 7, 7, 7, 7]) := by decide

end SysMonitor.Guarantees.PagewiseRead
