import SysMonitor.Source.Process

/-!
# What sys_open, sys_creat and sys_close do with the fd cache

The hooks of driver/sys_calls/open.c and close.c, as far as the process table and the fd
cache go; the log calls in them touch neither. What the kernel answers, the result of the
original call among it, comes with the call.
-/

namespace SysMonitor.Source.Process
open SysMonitor.Library SysMonitor.Source.FdCache

/-- `copy_string_from_user` sees: room for the holder, what a reader of the holder finds in it
unless `strncpy_from_user` fails, and whether the string can be printed. -/
structure UserString where
  room : Bool
  text : Option CString
  printed : Bool

/-- The task dies in the message about a copy that failed. -/
def UserString.dies (answers : UserString) : Bool :=
  answers.room && answers.text.isNone && !answers.printed

/-- `copy_string_from_user`; no answer when the task dies in its message, with the holder still
allocated. -/
def copyStringFromUser (h : Heap) (answers : UserString) : Except Fault (Option Ptr × Heap) :=
  let (holder, h) := kmalloc h .chars answers.room
  if holder = NULL then .ok (some NULL, h)
  else
    match answers.text with
    | some text => do
      let h ← writeChars h holder text
      return (some holder, h)
    | none =>
      if answers.printed then do
        let h ← kfree h holder
        return (some NULL, h)
      else .ok (none, h)

/-- `"<NULL>"` -/
def nullName : CString := ⟨[60, 78, 85, 76, 76, 62], by decide, by decide⟩

/-- `fake_sys_open` and `fake_sys_creat` see: for `notify_enter`, the result of the original
call, and for each of the ways to a name. -/
structure OpenAnswers where
  path : PathAnswers
  arguments : ArgumentAnswers
  room : Bool
  result : Int
  file : FileAnswers
  user : UserString
  literalRoom : Bool
  recordRoom : Bool
  nameRoom : Bool

/-- The name under which the result is cached: from the system, else as the caller gave it,
else a literal; no answer when the task dies in one of the first two. -/
def fullName (h : Heap) (answers : OpenAnswers) : Except Fault (Option Ptr × Heap) := do
  let (name, h) ← getAbsolutePathByFd h answers.file
  if name = some NULL then do
    let (name, h) ← copyStringFromUser h answers.user
    if name = some NULL then do
      let (name, h) ← copyOut h nullName answers.literalRoom
      return (some name, h)
    else return (name, h)
  else return (name, h)

/-- The part of `fake_sys_open` and of `fake_sys_creat` that caches the result. Only `-1`
counts as a failure of the original call. -/
def cacheResult (k : Kernel) (task : Task) (answers : OpenAnswers) : Except Fault Kernel :=
  if answers.result = -1 then .ok k
  else do
    let (name, h) ← fullName k.heap answers
    let k := { k with heap := h }
    match name with
    | none => return k
    | some name => do
      let text ← pathAt k.heap name
      let k ← insertIntoCache k task (BitVec.ofInt 32 answers.result) text answers.recordRoom
        answers.nameRoom
      let h ← kfree k.heap name
      return { k with heap := h }

/-- `fake_sys_open` -/
def fakeSysOpen (k : Kernel) (task : Task) (answers : OpenAnswers) : Except Fault Kernel := do
  let k ← notifyEnter k task answers.path answers.arguments answers.room
  cacheResult k task answers

/-- `fake_sys_creat` -/
def fakeSysCreat (k : Kernel) (task : Task) (answers : OpenAnswers) : Except Fault Kernel := do
  let k ← notifyEnter k task answers.path answers.arguments answers.room
  cacheResult k task answers

/-- `get_cache_by_fd` sees. -/
structure LookupAnswers where
  file : FileAnswers
  recordRoom : Bool
  nameRoom : Bool

/-- `fake_sys_close` sees: for `notify_enter`, for `begin_log_system_call_by_fd`, the result
of the original call, and for the message when nothing was deleted. -/
structure CloseAnswers where
  path : PathAnswers
  arguments : ArgumentAnswers
  room : Bool
  before : LookupAnswers
  result : Int
  after : LookupAnswers

/-- A lookup, and whether the task dies in it. -/
def lookUp (k : Kernel) (task : Task) (fd : Word) (answers : LookupAnswers) :
    Except Fault (Kernel × Bool) := do
  let (k, path) ← getCacheByFd k task fd answers.file answers.recordRoom answers.nameRoom
  return (k, decide (path = NULL) && answers.file.dies)

/-- `fake_sys_close` -/
def fakeSysClose (k : Kernel) (task : Task) (fd : Word) (answers : CloseAnswers) :
    Except Fault (Kernel × Option Int) := do
  let k ← notifyEnter k task answers.path answers.arguments answers.room
  let (k, died) ← lookUp k task fd answers.before
  if died then return (k, none)
  else if answers.result = 0 then do
    let (k, deleteOk) ← deleteCacheByFd k task fd
    if deleteOk then return (k, some answers.result)
    else do
      let (k, died) ← lookUp k task fd answers.after
      if died then return (k, none) else return (k, some answers.result)
  else return (k, some answers.result)

end SysMonitor.Source.Process
