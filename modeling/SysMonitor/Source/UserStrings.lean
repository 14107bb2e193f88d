import SysMonitor.Source.KernelStrings
import SysMonitor.Source.LogStorage
import SysMonitor.Source.LogText

/-!
# Copies of user strings: `copy_string_from_user` and what is done with them

The copy of a path goes into a record, the copy of a parameter into the text that
`add_string_param` formats, and the name that `fake_sys_open` or `fake_sys_creat` falls back
on into the fd cache. A block from `kmalloc` starts with arbitrary bytes.
-/

namespace SysMonitor.Source.UserStrings
open SysMonitor.Library.CyclicBuffer SysMonitor.Library.TerminatedStrings
open SysMonitor.Source.KernelStrings SysMonitor.Source.LogStorage SysMonitor.Source.LogText

/-- A block of `STRING_MAX_SIZE` bytes. -/
abbrev Holder := { bytes : List Byte // bytes.length = STRING_MAX_SIZE }

/-- `copy_string_from_user`; there is no holder when `kmalloc` returned NULL. The message about a
copy that failed prints the string. `printed`: the address is one where that does no harm. -/
def copyStringFromUser (source : UserMemory) (printed : Bool) (holder : Option Holder) :
    Except Fault (Option (List Byte)) :=
  match holder with
  | none => .ok none
  | some holder =>
    let (stored, copied) := strncpyFromUser source STRING_MAX_SIZE
    if copied < 0 then
      if printed then .ok none else .error .badAddress
    else .ok (some (splice holder.val 0 stored))

/-- The path in `log_item_to_storage`: its size, the buffer and `strcpy` behind the header. -/
def pathInRecord (path : List Byte) (detailsSize : Nat) (memory : Option (Nat → Byte)) :
    Except Fault (Option (List Byte)) := do
  let length ← strlen path
  match LogStorage.kmalloc (LogHeader.size + (length + 1) + detailsSize) memory with
  | none => return none
  | some buff =>
    let behind ← strcpy (buff.drop LogHeader.size) path
    return some (buff.take LogHeader.size ++ behind)

/-- The filename in `allocate_file_fd_record`. -/
def nameInRecord (path : List Byte) (memory : Option (Nat → Byte)) :
    Except Fault (Option (List Byte)) := do
  let len ← strlen path
  match LogStorage.kmalloc (len + 1) memory with
  | none => return none
  | some filename =>
    let filename ← if len > 0 then strcpy filename path else .ok filename
    return some (splice filename len [0])

/-- The text in `add_string_param`. -/
def textOfParam (name str : List Byte) (memory : Option (Nat → Byte)) :
    Except Fault (Option (List Byte)) := do
  let first ← strlen name
  let length ← strlen str
  match LogStorage.kmalloc (first + 3 + length) memory with
  | none => return none
  | some holder =>
    let holder ← sprintfString holder name str
    return some holder

/-- The calls stay inside their blocks, and the block that is made, if any, holds a string. -/
def MakesString (outcome : Except Fault (Option (List Byte))) : Prop :=
  ∃ made, outcome = .ok made ∧ ∀ block, made = some block → 0 ∈ block

theorem strcpy_ok {dst src s : List Byte} (found : stringIn src = .ok s)
    (fits : s.length < dst.length) : strcpy dst src = .ok (splice dst 0 (s ++ [0])) := by
  rw [strcpy, found]
  exact if_pos fits

section Uses

variable {block s : List Byte} (found : stringIn block = .ok s) (memory : Option (Nat → Byte))
include found

/-- A copy that holds a string is read inside its block, wherever it goes. -/
theorem pathInRecord_ok (detailsSize : Nat) :
    MakesString (pathInRecord block detailsSize memory) := by
  rw [pathInRecord, strlen_eq found]
  cases allocated : LogStorage.kmalloc (LogHeader.size + (s.length + 1) + detailsSize) memory with
  | none =>
    simp only [bind, Except.bind, allocated]
    exact ⟨none, rfl, nofun⟩
  | some buff =>
    have room : s.length < (buff.drop LogHeader.size).length := by
      rw [List.length_drop, (kmalloc_some allocated).2]
      omega
    simp only [bind, Except.bind, allocated, strcpy_ok found room]
    refine ⟨_, rfl, fun block made => ?_⟩
    rw [← Option.some.inj made]
    exact List.mem_append_right _ (mem_splice (by simp) _ _)

theorem nameInRecord_ok : MakesString (nameInRecord block memory) := by
  rw [nameInRecord, strlen_eq found]
  cases allocated : LogStorage.kmalloc (s.length + 1) memory with
  | none =>
    simp only [bind, Except.bind, allocated]
    exact ⟨none, rfl, nofun⟩
  | some filename =>
    have room : s.length < filename.length := by
      rw [(kmalloc_some allocated).2]
      omega
    simp only [bind, Except.bind, allocated, strcpy_ok found room]
    split <;>
      · refine ⟨_, rfl, fun block made => ?_⟩
        rw [← Option.some.inj made]
        exact mem_splice (List.mem_singleton_self 0) _ _

theorem textOfParam_ok {name : List Byte} (free : 0 ∉ name) :
    MakesString (textOfParam (name ++ [0]) block memory) := by
  have first := stringIn_terminated free []
  rw [textOfParam, strlen_eq first, strlen_eq found]
  cases allocated : LogStorage.kmalloc (name.length + 3 + s.length) memory with
  | none =>
    simp only [bind, Except.bind, allocated]
    exact ⟨none, rfl, nofun⟩
  | some holder =>
    have room : name.length + 2 + s.length < holder.length := by
      rw [(kmalloc_some allocated).2]
      omega
    simp only [bind, Except.bind, allocated, sprintfString, first, found, if_pos room]
    refine ⟨_, rfl, fun block made => ?_⟩
    rw [← Option.some.inj made]
    exact mem_splice (by simp) _ _

end Uses

end SysMonitor.Source.UserStrings
