import SysMonitor.Library.BoundedJoin
import SysMonitor.Source.KernelStrings
import SysMonitor.Source.LogStorage
import SysMonitor.Source.LogText

/-!
# The details buffer of `end_log_system_call`, byte by byte

The loop over the parameters with its `strcat` calls, each of which needs room in the buffer,
and with `left` as the machine computes it: an `int` from which the `size_t` of `strlen` is
subtracted. One step goes from one of the places after a `strcat` to the next.
-/

namespace SysMonitor.Source.DetailsBuffer
open SysMonitor.Library.TerminatedStrings SysMonitor.Library.BoundedJoin
open SysMonitor.Source.KernelStrings SysMonitor.Source.LogStorage SysMonitor.Source.LogText

/-- `", "` -/
def separator : CText := ⟨[44, 32], by decide⟩

theorem separator_length : separator.val.length = 2 := rfl

theorem nullEntry_free : (0 : Byte) ∉ [60, 78, 85, 76, 76, 62] := by decide

/-- `"<NULL>"` -/
def nullEntry : CText := ⟨[60, 78, 85, 76, 76, 62], nullEntry_free⟩

/-- `path_size`, which is 1 for NULL. -/
def pathSizeOf : Option CText → Nat
  | some path => path.val.length
  | none => 1

/-- `detail_size`: unsigned arithmetic, stored in an `int`. -/
def detailSizeOf (path : Option CText) : Word :=
  BitVec.ofNat 32 RECORD_MAX_SIZE - BitVec.ofNat 32 logItemSize - BitVec.ofNat 32 (pathSizeOf path)
    - 1#32

/-- The buffer, NULL when nothing is left for it or there is no memory. -/
def allocateDetails (detailSize : Word) (memory : Option (Nat → Byte)) : Option (List Byte) :=
  if detailSize.toInt ≤ 0 then none else LogStorage.kmalloc detailSize.toNat memory

/-- Where the loop is: at the head of an iteration, behind the first `strcat` of one, or
behind the loop. -/
inductive Point where
  | head
  | tail
  | finished
  deriving DecidableEq

structure Loop where
  point : Point
  i : Nat
  left : Word
  details : List Byte
  deriving DecidableEq

/-- What an entry of `param_strings` stands for. -/
def entryText : Option CText → CText
  | some string => string
  | none => nullEntry

/-- What is subtracted from `left` for an entry. -/
def entrySize : Option CText → Except Fault Word
  | some string => do
    let length ← strlen (string.val ++ [0])
    return BitVec.ofNat 32 length
  | none => .ok 6

def loopStep (entries : List (Option CText)) (s : Loop) : Except Fault Loop :=
  match s.point with
  | .head =>
    match entries[s.i]? with
    | none => .ok { s with point := .finished }
    | some entry => do
      let size ← entrySize entry
      let left := s.left - size
      if left.toInt > 0 then
        let details ← strcat s.details ((entryText entry).val ++ [0])
        return ⟨.tail, s.i, left, details⟩
      else return ⟨.finished, s.i, left, s.details⟩
  | .tail =>
    if entries.length - 1 ≠ s.i ∧ s.left.toInt > 2 then do
      let details ← strcat s.details (separator.val ++ [0])
      return ⟨.head, s.i + 1, s.left - 2, details⟩
    else .ok ⟨.head, s.i + 1, s.left, s.details⟩
  | .finished => .ok s

def loopSteps (entries : List (Option CText)) : Nat → Loop → Except Fault Loop
  | 0, s => .ok s
  | n + 1, s => do
    let s ← loopStep entries s
    loopSteps entries n s

/-- `details[0] = '\\0'; left = detail_size`. Without an array there are no entries. -/
def loopStart (detailSize : Word) (buffer : List Byte) : Loop :=
  ⟨.head, 0, detailSize, buffer.set 0 0⟩

/-- The whole loop: two steps for every parameter, and the test that ends it. -/
def fillDetails (entries : List (Option CText)) (detailSize : Word) (buffer : List Byte) :
    Except Fault Loop :=
  loopSteps entries (2 * entries.length + 1) (loopStart detailSize buffer)

/-- The buffer of `size` bytes has `room` bytes behind its string and the NUL, and `left`
counts these and the NUL. -/
structure LoopAt (size room : Nat) (s : Loop) : Prop where
  length : s.details.length = size
  nul : 0 ∈ s.details
  string : (text s.details).length + room + 1 = size
  left : s.left.toInt = room + 1

/-- The strings fit into an `int`. -/
def Countable (entries : List (Option CText)) : Prop :=
  ∀ string, some string ∈ entries → string.val.length < 2 ^ 31

section Steps

variable {entries : List (Option CText)} {size room : Nat} {s : Loop}

/-- Subtracting from a positive `int` a length that fits into one. -/
theorem toInt_sub_length {left : Word} {n : Nat} (positive : 0 < left.toInt) (fits : n < 2 ^ 31) :
    (left - BitVec.ofNat 32 n).toInt = left.toInt - n := by
  rw [BitVec.toInt_eq_toNat_cond] at positive ⊢
  rw [BitVec.toInt_eq_toNat_cond, BitVec.toNat_sub, BitVec.toNat_ofNat]
  split at positive <;> split <;> omega

/-- Paths of which the size can be subtracted. -/
def ShortPath (path : Option CText) : Prop :=
  ∀ string, path = some string → string.val.length < 2 ^ 31 - 2048

theorem detailSizeOf_toInt {path : Option CText} (short : ShortPath path) :
    (detailSizeOf path).toInt = 967 - pathSizeOf path := by
  have bound : pathSizeOf path < 2 ^ 31 - 2048 := by
    cases path with
    | none => decide
    | some string => exact short string rfl
  have budget : ∀ n : Word, BitVec.ofNat 32 RECORD_MAX_SIZE
      - BitVec.ofNat 32 logItemSize - n - 1#32 = 967#32 - n := by
    intro n
    change 968#32 - n - 1#32 = 967#32 - n
    bv_omega
  rw [detailSizeOf, budget]
  exact toInt_sub_length (by decide) (by omega)

theorem entrySize_eq (entry : Option CText) :
    entrySize entry = .ok (BitVec.ofNat 32 (entryText entry).val.length) := by
  cases entry with
  | none => rfl
  | some string =>
    have read : strlen (string.val ++ [0]) = .ok string.val.length :=
      strlen_eq (stringIn_terminated string.property [])
    rw [entrySize, read]
    rfl

theorem entryText_countable (count : Countable entries) {entry : Option CText}
    (inside : entry ∈ entries) : (entryText entry).val.length < 2 ^ 31 := by
  cases entry with
  | none => decide
  | some string => exact count string inside

/-- A string that the room is enough for. -/
theorem strcat_room (here : LoopAt size room s) (string : CText) (fits : string.val.length ≤ room) :
    strcat s.details (string.val ++ [0]) = .ok (append s.details string.val) ∧
      (append s.details string.val).length = size ∧ 0 ∈ append s.details string.val ∧
      text (append s.details string.val) = text s.details ++ string.val := by
  have counted := here.string
  have length := here.length
  have enough : (text s.details).length + string.val.length < s.details.length := by omega
  have written := append_spec string.property enough
  refine ⟨strcat_eq (stringIn_text here.nul) (stringIn_terminated string.property []) enough, ?_,
    written.2.1, written.2.2⟩
  rw [written.1, length]

theorem step_end (head : s.point = .head) (last : entries[s.i]? = none) :
    loopStep entries s = .ok { s with point := .finished } := by
  rw [loopStep, head, last]

/-- A parameter that fits is written. -/
theorem step_fits (here : LoopAt size room s) (head : s.point = .head) {entry : Option CText}
    (found : entries[s.i]? = some entry) (count : Countable entries)
    (fits : (entryText entry).val.length ≤ room) :
    ∃ t, loopStep entries s = .ok t ∧ t.point = .tail ∧ t.i = s.i ∧
      LoopAt size (room - (entryText entry).val.length) t ∧
      text t.details = text s.details ++ (entryText entry).val := by
  have small := entryText_countable count (List.mem_of_getElem? found)
  have counted := here.left
  have left := @toInt_sub_length s.left _ (by omega) small
  obtain ⟨wrote, length, nul, string⟩ := strcat_room here (entryText entry) fits
  refine ⟨⟨.tail, s.i, s.left - BitVec.ofNat 32 (entryText entry).val.length,
    append s.details (entryText entry).val⟩, ?_, rfl, rfl, ⟨length, nul, ?_, ?_⟩, string⟩
  · rw [loopStep, head, found]
    simp only [entrySize_eq, bind, Except.bind]
    rw [if_pos (by omega), wrote]
    rfl
  · have before := here.string
    rw [string, List.length_append]
    omega
  · rw [left, counted]
    omega

/-- A parameter that does not fit ends the loop. -/
theorem step_large (here : LoopAt size room s) (head : s.point = .head) {entry : Option CText}
    (found : entries[s.i]? = some entry) (count : Countable entries)
    (large : room < (entryText entry).val.length) :
    ∃ left, loopStep entries s = .ok ⟨.finished, s.i, left, s.details⟩ := by
  have small := entryText_countable count (List.mem_of_getElem? found)
  have counted := here.left
  have left := @toInt_sub_length s.left _ (by omega) small
  refine ⟨s.left - BitVec.ofNat 32 (entryText entry).val.length, ?_⟩
  rw [loopStep, head, found]
  simp only [entrySize_eq, bind, Except.bind]
  rw [if_neg (by omega)]
  rfl

/-- Behind a parameter that is not the last, a separator that fits is written. -/
theorem step_separator (here : LoopAt size room s) (tail : s.point = .tail)
    (more : s.i + 1 < entries.length) (fits : 2 ≤ room) :
    ∃ t, loopStep entries s = .ok t ∧ t.point = .head ∧ t.i = s.i + 1 ∧ LoopAt size (room - 2) t ∧
      text t.details = text s.details ++ separator.val := by
  have counted := here.left
  have left := @toInt_sub_length s.left 2 (by omega) (by decide)
  obtain ⟨wrote, length, nul, string⟩ := strcat_room here separator fits
  refine ⟨⟨.head, s.i + 1, s.left - 2, append s.details separator.val⟩, ?_, rfl, rfl,
    ⟨length, nul, ?_, ?_⟩, string⟩
  · rw [loopStep, tail]
    dsimp only
    rw [if_pos ⟨by omega, by omega⟩, wrote]
    rfl
  · have before := here.string
    rw [string, List.length_append, separator_length]
    omega
  · rw [show s.left - 2 = s.left - BitVec.ofNat 32 2 from rfl, left, counted]
    omega

/-- Behind the last parameter, or without room for a separator, nothing is written. -/
theorem step_next (here : LoopAt size room s) (tail : s.point = .tail)
    (none : ¬ (s.i + 1 < entries.length ∧ 2 ≤ room)) (inside : s.i < entries.length) :
    loopStep entries s = .ok ⟨.head, s.i + 1, s.left, s.details⟩ := by
  have counted := here.left
  rw [loopStep, tail]
  dsimp only
  rw [if_neg]
  rintro ⟨notLast, more⟩
  exact none ⟨by omega, by omega⟩

end Steps

end SysMonitor.Source.DetailsBuffer
