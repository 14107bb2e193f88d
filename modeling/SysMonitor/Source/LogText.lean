import Mathlib.Data.List.TakeWhile
import SysMonitor.Source.Memory

/-!
# The texts of a log record: driver/log.c

The strings that the `add_*_param` functions format and the details that
`end_log_system_call` puts together from them.
-/

namespace SysMonitor.Source

/-- What a C function finds where these bytes begin: it stops at the first NUL, and no string
reaches past kernel space. -/
def CString.ofBytes (bytes : List Byte) : CString where
  bytes := (bytes.takeWhile (· ≠ 0)).take (kernelSpace - 1)
  nulFree inside := by
    have kept := List.mem_takeWhile_imp (List.mem_of_mem_take inside)
    simp at kept
  fits := Nat.lt_of_le_of_lt (List.length_take_le _ _) (by decide)

/-- `strcat` -/
def CString.append (s t : CString) : CString := .ofBytes (s.bytes ++ t.bytes)

/-- A literal of the source. -/
def CString.literal (text : String) : CString :=
  .ofBytes (text.toList.map fun c => BitVec.ofNat 8 c.toNat)

namespace LogText

/-- `STRING_MAX_SIZE` -/
def STRING_MAX_SIZE : Nat := 256

/-- `RECORD_MAX_SIZE` -/
def RECORD_MAX_SIZE : Nat := 1024

/-- `sizeof(log_item)`: the header, the three words of the connector, the path. -/
def logItemSize : Nat := 56

/-- `%08x` -/
def hex (value : Word) : String :=
  String.ofList ((List.range 8).map fun i => Nat.digitChar (value.toNat / 16 ^ (7 - i) % 16))

/-- `add_void_param` -/
def voidText : CString := .literal "void: void"

/-- `"%s: %d"` -/
def intText (name : String) (value : Word) : CString :=
  .literal (name ++ ": " ++ toString value.toInt)

/-- `"%s: 0x%08x"` -/
def unsignedIntText (name : String) (value : Word) : CString :=
  .literal (name ++ ": 0x" ++ hex value)

/-- `"%s: %s"` -/
def stringText (name : String) (str : CString) : CString := (CString.literal (name ++ ": ")).append str

/-- What stands for NULL in the details and for a string that could not be copied. -/
def nullText : CString := .literal "<NULL>"

/-- `path_size` of `end_log_system_call`, which is 1 for NULL. -/
def pathSize : Option CString → Nat
  | some path => path.strlen
  | none => 1

/-- `detail_size`: unsigned arithmetic, stored in an `int`. -/
def detailSize (path : Option CString) : Int :=
  (BitVec.ofNat 32 RECORD_MAX_SIZE - BitVec.ofNat 32 logItemSize - BitVec.ofNat 32 (pathSize path) -
    1#32).toInt

/-- What is subtracted from `left` for a parameter. -/
def paramSize : Option CString → Int
  | some text => text.strlen
  | none => 6

def paramText : Option CString → CString
  | some text => text
  | none => nullText

/-- The loop over the parameters; `left` is what remains of the buffer before the next. -/
def joinParams : List (Option CString) → Int → CString → CString
  | [], _, details => details
  | param :: rest, left, details =>
    let left := left - paramSize param
    if left > 0 then
      let details := details.append (paramText param)
      if rest ≠ [] ∧ left > 2 then joinParams rest (left - 2) (details.append (.literal ", "))
      else joinParams rest left details
    else details

end LogText

end SysMonitor.Source
