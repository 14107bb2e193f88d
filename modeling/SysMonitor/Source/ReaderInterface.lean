import SysMonitor.Library.TerminatedStrings
import SysMonitor.Source.Reader
import SysMonitor.Source.ReaderStrings

/-!
# What the reader calls a process, a time, an operation and an api: native/jni/interface.cpp

Local buffers are lists of bytes that hold anything before they are written, and a pointer
into a buffer is an offset.
-/

namespace SysMonitor.Source.ReaderInterface
open SysMonitor.Library SysMonitor.Library.CyclicBuffer
open SysMonitor.Source.Reader (stringAt)
open SysMonitor.Source.ReaderStrings

/-- `buffer[i] = c` -/
def store (buffer : List Byte) (i : Nat) (c : Byte) : Except Fault (List Byte) :=
  if i < buffer.length then .ok (buffer.set i c) else .error .outOfBounds

/-- `snprintf` into a buffer of which the program says that it has `size` bytes. -/
def snprintfInto (buffer : List Byte) (size : Nat) (text : List Byte) :
    Except Fault (List Byte) :=
  if size = 0 then .ok buffer
  else if (snprintf size text).length < buffer.length then
    .ok (splice buffer 0 (snprintf size text ++ [0]))
  else .error .outOfBounds

/-- A file that `open` found, and what `read` delivers of it, none when it fails. Descriptor 0
is in use: it is the standard input, or the device where that was closed. -/
structure OpenedFile where
  fd : Nat
  delivers : Option (List Byte)
  notFirst : fd ≠ 0

/-- What a look-up of a process name meets: the files of /proc by their path, and what its
two local buffers hold before they are written. -/
structure Surroundings where
  files : List Byte → Option OpenedFile
  cmdline : List Byte
  name : List Byte
  cmdlineSize : cmdline.length = 1024
  nameSize : name.length = 1024

/-- A buffer that nothing was written to. -/
def cleared (size : Nat) : List Byte := List.replicate size 0

theorem cleared_length (size : Nat) : (cleared size).length = size := List.length_replicate

def noFiles (_path : List Byte) : Option OpenedFile := none

/-- There are no processes. -/
def noProcesses : Surroundings :=
  ⟨noFiles, cleared 1024, cleared 1024, cleared_length 1024, cleared_length 1024⟩

/-- The bytes that `read` of at most 1023 stores, none where `r` ends up zero. A failed
`open` leaves -1, of which `read` fails. -/
def readFile (files : List Byte → Option OpenedFile) (path : List Byte) : List Byte :=
  match files path with
  | none => []
  | some file => if file.fd = 0 then [] else (file.delivers.getD []).take 1023

/-- `nexttok`: the blank that ends the token is overwritten, and the pointer goes behind it.
It becomes NULL when there is no blank. -/
def nexttok (buffer : List Byte) (ptr : Nat) : Except Fault (List Byte × Option Nat) := do
  let string ← stringAt (buffer.drop ptr)
  if string.contains 32 then
    let buffer ← store buffer (ptr + string.idxOf 32) 0
    return (buffer, some (ptr + string.idxOf 32 + 1))
  else return (buffer, none)

/-- `strrchr`: where in the string the character stands last. -/
def strrchr (c : Byte) : List Byte → Option Nat
  | [] => none
  | d :: string =>
    match strrchr c string with
    | some i => some (i + 1)
    | none => if d = c then some 0 else none

/-- `name` and `ptr_name` of `GetProcessFromNative`, from what was read of the stat file. A
NULL that is moved on by one is no address of a string. -/
def nameFromStat (name stat : List Byte) : Except Fault (List Byte × Nat) := do
  let name ← store (splice name 0 stat) stat.length 0
  let (name, next) ← nexttok name 0
  match next with
  | none => throw .nullPointer
  | some ptr =>
    let ptrName := ptr + 1
    let string ← stringAt (name.drop ptrName)
    match strrchr 41 string with
    | none => throw .nullPointer
    | some i =>
      let name ← store name (ptrName + i) 0
      return (name, ptrName)

def procPath (pid : Word) (file : String) : List Byte :=
  literal "/proc/" ++ decimal pid.toInt ++ literal file

/-- `GetProcessFromNative`: the value returned and the buffer as it is then. -/
def getProcessFromNative (s : Surroundings) (pid : Word) (buffer : List Byte) (bufferSize : Nat) :
    Except Fault (Int × List Byte) := do
  let cmdline ← snprintfInto s.cmdline 1024 (procPath pid "/cmdline")
  let path ← stringAt cmdline
  let delivered := readFile s.files path
  let cmdline ← store (splice cmdline 0 delivered) delivered.length 0
  let ptrName ←
    if delivered = [] then do
      let name ← snprintfInto s.name 1024 (procPath pid "/stat")
      let path ← stringAt name
      let stat := readFile s.files path
      if stat = [] then pure none
      else do
        let found ← nameFromStat name stat
        pure (some found)
    else pure none
  if cmdline.head? ≠ some 0 then
    let string ← stringAt cmdline
    let buffer ← snprintfInto buffer bufferSize string
    return (toInt string.length, buffer)
  match ptrName with
  | some (name, ptr) =>
    let string ← stringAt (name.drop ptr)
    let buffer ← snprintfInto buffer bufferSize string
    return (toInt string.length, buffer)
  | none => return (0, buffer)

/-- `GetProcessFromDriver`, which finds nothing. -/
def getProcessFromDriver (_pid : Word) (buffer : List Byte) (_bufferSize : Nat) :
    Int × List Byte :=
  (0, buffer)

/-- How `FilterOneLog` and `main` fill a buffer with the name of a process. -/
def processName (s : Surroundings) (pid : Word) (buffer : List Byte) (bufferSize : Nat) :
    Except Fault (List Byte) := do
  let (r, buffer) ← getProcessFromNative s pid buffer bufferSize
  if r ≠ 0 then stringAt buffer
  else
    let (r, buffer) := getProcessFromDriver pid buffer bufferSize
    if r ≠ 0 then stringAt buffer
    else
      let buffer ← snprintfInto buffer bufferSize (literal "PROCESS #" ++ decimal pid.toInt)
      stringAt buffer

/-- `struct tm`, as `localtime` fills it. -/
structure Tm where
  year : Int
  mon : Int
  mday : Int
  hour : Int
  min : Int
  sec : Int

/-- The text that `GetTime` formats. -/
def timeText (tm : Tm) (nsec : Word) : List Byte :=
  padded 4 (tm.year + 1900) ++ literal "-" ++ padded 2 (tm.mon + 1) ++ literal "-" ++
    padded 2 tm.mday ++ literal " " ++ padded 2 tm.hour ++ literal ":" ++ padded 2 tm.min ++
    literal ":" ++ padded 2 tm.sec ++ literal "." ++ padded 3 (nsec.toInt.tdiv 1000000)

/-- `GetTime`: the string in the buffer afterwards. -/
def getTime (localtime : Word → Tm) (sec nsec : Word) (bufferSize : Nat) : List Byte :=
  snprintf bufferSize (timeText (localtime sec) nsec)

/-- `OperationToString` -/
def operationToString (operation : Word) : List Byte :=
  match operation.toNat with
  | 0 => literal "<Null operation>"
  | 1 => literal "Create file"
  | 2 => literal "Read file"
  | 3 => literal "Write file"
  | 4 => literal "Close file"
  | 5 => literal "Ioctl file"
  | 6 => literal "Stat file"
  | 7 => literal "Rename file"
  | 8 => literal "Make directory"
  | 9 => literal "Rename directory"
  | 10 => literal "Sync file"
  | 11 => literal "Open pipe"
  | 12 => literal "Symbol link"
  | 13 => literal "Read symbol link"
  | 14 => literal "Load library"
  | 15 => literal "Exit process"
  | 16 => literal "Fork process"
  | 17 => literal "Exec process"
  | 18 => literal "Kill process"
  | _ => literal "<Unknown>"

/-- `ApiToString`, which has no name for `api_sys_kill`. -/
def apiToString (api : Word) : List Byte :=
  match api.toNat with
  | 0 => literal "<Null api>"
  | 1 => literal "sys_creat"
  | 2 => literal "sys_open"
  | 3 => literal "sys_read"
  | 4 => literal "sys_write"
  | 5 => literal "sys_close"
  | 6 => literal "sys_ioctl"
  | 7 => literal "sys_stat"
  | 8 => literal "sys_lstat"
  | 9 => literal "sys_fstat"
  | 10 => literal "sys_rename"
  | 11 => literal "sys_mkdir"
  | 12 => literal "sys_rmdir"
  | 13 => literal "sys_sync"
  | 14 => literal "sys_pipe"
  | 15 => literal "sys_symlink"
  | 16 => literal "sys_readlink"
  | 17 => literal "sys_uselib"
  | 18 => literal "sys_exit"
  | 19 => literal "sys_fork"
  | 20 => literal "sys_vfork"
  | 21 => literal "sys_clone"
  | 22 => literal "sys_execve"
  | _ => literal "<Unknown>"

theorem stringAt_terminated {string : List Byte} (free : 0 ∉ string) (rest : List Byte) :
    stringAt (string ++ 0 :: rest) = .ok string := by
  rw [stringAt, if_pos (List.mem_append_right _ List.mem_cons_self)]
  exact congrArg Except.ok (TerminatedStrings.text_terminated free rest)

theorem nulFree_of_stringAt {memory string : List Byte} (found : stringAt memory = .ok string) :
    0 ∉ string := by
  rw [stringAt] at found
  split at found
  · rw [← Except.ok.inj found]
    exact TerminatedStrings.zero_notMem_text memory
  · cases found

/-- A store between two parts of a buffer. -/
theorem store_between (before rest : List Byte) (old c : Byte) :
    store (before ++ old :: rest) before.length c = .ok (before ++ c :: rest) := by
  rw [store, if_pos (by simp), List.set_append_right _ _ (Nat.le_refl _), Nat.sub_self]
  rfl

theorem snprintfInto_eq {buffer : List Byte} {size : Nat} (positive : 0 < size)
    (room : size ≤ buffer.length) (text : List Byte) :
    snprintfInto buffer size text = .ok (splice buffer 0 (snprintf size text ++ [0])) := by
  have short : (snprintf size text).length ≤ size - 1 := List.length_take_le _ _
  rw [snprintfInto, if_neg (Nat.ne_of_gt positive), if_pos (by omega)]

/-- A buffer that `snprintf` wrote holds the text, as far as there was room for it. -/
theorem snprintf_stored {buffer text : List Byte} {size : Nat} (free : 0 ∉ text) :
    stringAt (splice buffer 0 (snprintf size text ++ [0])) = .ok (snprintf size text) := by
  have free' : 0 ∉ snprintf size text := fun inside => free (List.mem_of_mem_take inside)
  rw [splice, List.take_zero, List.nil_append, List.append_assoc]
  exact stringAt_terminated free' _

/-- `nexttok` where the token is what stands before the first blank. -/
theorem nexttok_first {token rest : List Byte} (noBlank : 32 ∉ token) (free : 0 ∉ token)
    (terminated : 0 ∈ rest) :
    nexttok (token ++ 32 :: rest) 0 = .ok (token ++ 0 :: rest, some (token.length + 1)) := by
  obtain ⟨after, behind, split, free'⟩ := List.eq_append_cons_of_mem terminated
  have string : stringAt (token ++ 32 :: rest) = .ok (token ++ 32 :: after) := by
    have whole : 0 ∉ token ++ 32 :: after := by
      simp only [List.mem_append, List.mem_cons, not_or]
      exact ⟨free, by decide, free'⟩
    rw [split, ← List.cons_append, ← List.append_assoc]
    exact stringAt_terminated whole behind
  have place : (token ++ 32 :: after).idxOf 32 = token.length := by
    rw [List.idxOf_append_of_notMem noBlank, List.idxOf_cons_self, Nat.add_zero]
  have stored := store_between token rest 32 0
  rw [nexttok, List.drop_zero, string]
  have blank : (token ++ 32 :: after).contains 32 = true :=
    List.contains_iff_mem.mpr (List.mem_append_right _ List.mem_cons_self)
  show (if (token ++ 32 :: after).contains 32 then _ else _) = _
  rw [if_pos blank, place, Nat.zero_add, stored]
  rfl

theorem strrchr_absent {c : Byte} {string : List Byte} (absent : c ∉ string) :
    strrchr c string = none := by
  induction string with
  | nil => rfl
  | cons d string ih =>
    rw [strrchr, ih (List.not_mem_of_not_mem_cons absent)]
    exact if_neg (List.ne_of_not_mem_cons absent).symm

/-- `strrchr` finds the last of the characters it looks for. -/
theorem strrchr_last {c : Byte} (before : List Byte) {rest : List Byte} (absent : c ∉ rest) :
    strrchr c (before ++ c :: rest) = some before.length := by
  induction before with
  | nil =>
    rw [List.nil_append, strrchr, strrchr_absent absent]
    exact if_pos rfl
  | cons d before ih =>
    rw [List.cons_append, strrchr, ih]
    rfl

end SysMonitor.Source.ReaderInterface
