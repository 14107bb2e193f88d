import SysMonitor.Library.Runs
import SysMonitor.Source.FdCache

/-!
# The process table: driver/process.c

`process_cache` has one slot for every pid and `outstanding_header` starts a list of all
records. A record is built when a task is first seen, rebuilt after an execve and rebuilt
when another task has taken its pid. What the kernel answers during a call (whether
`kmalloc` finds room, what `d_path` yields) comes with the call.
-/

namespace SysMonitor.Source.Process
open SysMonitor.Library SysMonitor.Source.FdCache

def HASH_SLOT_SIZE : Int := 65535

/-- `struct timespec` -/
structure TimeSpec where
  tvSec : Int
  tvNsec : Int
  deriving DecidableEq

/-- `process_record`, without the semaphore. -/
structure ProcessRecord where
  prev : Ptr
  next : Ptr
  startTime : TimeSpec
  beforeExecve : Bool
  filename : Ptr
  argvLength : Int
  argv : Ptr
  envLength : Int
  env : Ptr
  area : FdArea

/-- `strict` says whether a debug message that prints a freed string is a fault. A kernel that
goes on there has changed nothing: it read a freed block, and followed and freed none. -/
structure Kernel where
  heap : Heap
  process : Ptr → ProcessRecord
  processCache : Ptr
  slots : Int → Ptr
  outstandingHeader : Ptr
  strict : Bool

/-- What `current` shows of the calling task. -/
structure Task where
  pid : Int
  realStartTime : TimeSpec

/-- `get_current_process_path` sees: whether the task has a binary, room for the
temporary buffer, the path unless `d_path` fails, room for its copy. -/
structure PathAnswers where
  exeFile : Bool
  tmpRoom : Bool
  dPath : Option CString
  pathRoom : Bool

/-- `get_current_process_arguments` sees: whether the task has memory, the length of its
arguments, room for the buffer, how much could be read. -/
structure ArgumentAnswers where
  mm : Bool
  len : Int
  room : Bool
  read : Int

/-- `get_absolute_path_by_fd` sees: whether the descriptor is open, room for the
temporary buffer, the path unless `d_path` fails, room for its copy. -/
structure FileAnswers where
  file : Bool
  tmpRoom : Bool
  dPath : Option CString
  pathRoom : Bool

/-- The path, when the descriptor is open, `d_path` goes well and there is room. -/
def FileAnswers.text (answers : FileAnswers) : Option CString :=
  if answers.file ∧ answers.tmpRoom ∧ answers.pathRoom then answers.dPath else none

/-- The task dies in `strlen`: `d_path` failed. -/
def FileAnswers.dies (answers : FileAnswers) : Bool :=
  answers.file && answers.tmpRoom && answers.dPath.isNone

namespace Kernel

def readProcess (k : Kernel) (p : Ptr) : Except Fault ProcessRecord := do
  follow k.heap .processRecord p
  return k.process p

def writeProcess (k : Kernel) (p : Ptr) (change : ProcessRecord → ProcessRecord) :
    Except Fault Kernel := do
  follow k.heap .processRecord p
  return { k with process := Function.update k.process p (change (k.process p)) }

/-- `process_cache[i]` -/
def readSlot (k : Kernel) (i : Int) : Except Fault Ptr := do
  follow k.heap .processCache k.processCache
  if 0 ≤ i ∧ i < HASH_SLOT_SIZE then .ok (k.slots i) else .error .outOfBounds

def writeSlot (k : Kernel) (i : Int) (p : Ptr) : Except Fault Kernel := do
  follow k.heap .processCache k.processCache
  if 0 ≤ i ∧ i < HASH_SLOT_SIZE then .ok { k with slots := Function.update k.slots i p }
  else .error .outOfBounds

end Kernel

/-- The string of a debug message, which counts as read only where messages are strict. -/
def printed (strict : Bool) (name : Ptr) : Ptr := if strict then name else NULL

/-- `process_monitor_init`, when there is room for the table. -/
def processMonitorInit (h : Heap) (process : Ptr → ProcessRecord) : Kernel :=
  let (processCache, h) := kmalloc h .processCache true
  ⟨h, process, processCache, fun _ => NULL, NULL, true⟩

/-- The same table on a kernel that goes on where a message prints a freed string. -/
def Kernel.lenient (k : Kernel) : Kernel := { k with strict := false }

/-- A string of the kernel copied to a new block, or NULL. -/
def copyOut (h : Heap) (text : CString) (room : Bool) : Except Fault (Ptr × Heap) :=
  let (path, h) := kmalloc h .chars room
  if path = NULL then .ok (NULL, h)
  else do
    let h ← writeChars h path text
    return (path, h)

/-- Copy a path out of a temporary buffer and free the buffer. -/
def copyAndFree (h : Heap) (tmp : Ptr) (text : CString) (room : Bool) :
    Except Fault (Ptr × Heap) := do
  let (path, h) ← copyOut h text room
  let h ← kfree h tmp
  return (path, h)

/-- `get_current_process_path` -/
def getCurrentProcessPath (h : Heap) (answers : PathAnswers) : Except Fault (Ptr × Heap) :=
  if answers.exeFile then
    let (tmp, h) := kmalloc h .chars answers.tmpRoom
    if tmp = NULL then .ok (NULL, h)
    else
      match answers.dPath with
      | some text => copyAndFree h tmp text answers.pathRoom
      | none => do
        let h ← kfree h tmp
        return (NULL, h)
  else .ok (NULL, h)

/-- `get_current_process_arguments`: the buffer and the length. Nothing reads the buffer
again, so its bytes are left out. -/
def getCurrentProcessArguments (h : Heap) (answers : ArgumentAnswers) : Ptr × Int × Heap :=
  if answers.mm ∧ 0 ≤ answers.len then
    let (argBuffer, h) := kmalloc h .chars answers.room
    if argBuffer = NULL then (NULL, 0, h) else (argBuffer, answers.read, h)
  else (NULL, 0, h)

/-- `get_current_process_environment`, not implemented yet. -/
def getCurrentProcessEnvironment : Ptr × Int := (NULL, 0)

/-- `fd_cache_cleanup` on a process record. -/
def cleanupFds (k : Kernel) (record : Ptr) : Except Fault Kernel := do
  let r ← k.readProcess record
  let s ← fdCacheCleanup ⟨k.heap, r.area⟩ (printed k.strict r.filename)
  return { k with heap := s.heap }

/-- `fd_cache_initize` on a process record. -/
def initizeFds (k : Kernel) (record : Ptr) : Except Fault Kernel := do
  let r ← k.readProcess record
  let s ← fdCacheInitize k.heap (printed k.strict r.filename)
  Kernel.writeProcess { k with heap := s.heap } record fun r => { r with area := s.area }

/-- `cleanup_process_record`. The record keeps its pointers. -/
def cleanupProcessRecord (k : Kernel) (record : Ptr) : Except Fault Kernel := do
  let r ← k.readProcess record
  let h ← kfree k.heap r.filename
  let h ← kfree h r.argv
  let h ← kfree h r.env
  cleanupFds { k with heap := h } record

/-- The walk of `process_monitor_cleanup`. -/
def cleanupProcesses : Nat → Kernel → Ptr → Except Fault Kernel
  | 0, _, _ => .error .diverged
  | rounds + 1, k, p =>
    if p = NULL then .ok k
    else do
      let k ← cleanupProcessRecord k p
      let r ← k.readProcess p
      let h ← kfree k.heap p
      cleanupProcesses rounds { k with heap := h } r.next

/-- `process_monitor_cleanup` -/
def processMonitorCleanup (k : Kernel) : Except Fault Kernel := do
  let k ← cleanupProcesses (k.heap.fresh + 1) k k.outstandingHeader
  let h ← kfree k.heap k.processCache
  return { k with heap := h }

/-- The stores of `build_process_record` that describe the task. -/
def describe (k : Kernel) (record : Ptr) (task : Task) (path : PathAnswers)
    (arguments : ArgumentAnswers) : Except Fault Kernel := do
  let (filename, h) ← getCurrentProcessPath k.heap path
  let k ← Kernel.writeProcess { k with heap := h } record fun r => { r with filename := filename }
  let (argv, argvLength, h) := getCurrentProcessArguments k.heap arguments
  let k ← Kernel.writeProcess { k with heap := h } record fun r =>
    { r with argv := argv, argvLength := argvLength }
  let (env, envLength) := getCurrentProcessEnvironment
  k.writeProcess record fun r =>
    { r with env := env, envLength := envLength, beforeExecve := false,
             startTime := task.realStartTime }

/-- The new record goes to the head of the list of all records. -/
def linkProcess (k : Kernel) (record : Ptr) : Except Fault Kernel :=
  if k.outstandingHeader = NULL then do
    let k ← k.writeProcess record fun r => { r with next := NULL, prev := NULL }
    return { k with outstandingHeader := record }
  else do
    let k ← k.writeProcess record fun r => { r with prev := NULL, next := k.outstandingHeader }
    let k ← k.writeProcess k.outstandingHeader fun r => { r with prev := record }
    return { k with outstandingHeader := record }

/-- `build_process_record(NULL)`: a new record, or NULL. -/
def buildNewRecord (k : Kernel) (task : Task) (path : PathAnswers) (arguments : ArgumentAnswers)
    (room : Bool) : Except Fault (Kernel × Ptr) :=
  let (record, h) := kmalloc k.heap .processRecord room
  if record = NULL then .ok ({ k with heap := h }, NULL)
  else do
    let k ← describe { k with heap := h } record task path arguments
    let k ← linkProcess k record
    let k ← initizeFds k record
    return (k, record)

/-- `build_process_record` on a record that exists: the fd cache it holds is cleaned up
first. -/
def rebuildRecord (k : Kernel) (record : Ptr) (task : Task) (path : PathAnswers)
    (arguments : ArgumentAnswers) : Except Fault Kernel := do
  let k ← describe k record task path arguments
  let k ← cleanupFds k record
  initizeFds k record

/-- `update_process_record` -/
def updateProcessRecord (k : Kernel) (record : Ptr) (task : Task) (path : PathAnswers)
    (arguments : ArgumentAnswers) : Except Fault Kernel :=
  if record = NULL then .ok k else rebuildRecord k record task path arguments

/-- `get_current_process_id`, `-1` for a pid that has no slot. -/
def getCurrentProcessId (task : Task) : Int :=
  if task.pid < 0 ∨ task.pid ≥ HASH_SLOT_SIZE then -1 else task.pid

/-- The message that ends every rebuilding branch of `notify_enter`. -/
def reportProcess (k : Kernel) (record : Ptr) : Except Fault Unit := do
  let r ← k.readProcess record
  printChars k.heap (printed k.strict r.filename)

/-- `notify_enter` for a record of the calling task itself: rebuilt after an execve. -/
def enterKnown (k : Kernel) (record : Ptr) (task : Task) (path : PathAnswers)
    (arguments : ArgumentAnswers) : Except Fault Kernel := do
  let r ← k.readProcess record
  if r.beforeExecve then do
    let k ← updateProcessRecord k record task path arguments
    let k ← k.writeProcess record fun r => { r with beforeExecve := false }
    reportProcess k record
    return k
  else return k

/-- `notify_enter` for a record that an earlier task with this pid left. -/
def enterReused (k : Kernel) (record : Ptr) (task : Task) (path : PathAnswers)
    (arguments : ArgumentAnswers) : Except Fault Kernel := do
  let k ← cleanupProcessRecord k record
  let k ← rebuildRecord k record task path arguments
  reportProcess k record
  return k

/-- `notify_enter` for a pid seen for the first time. -/
def enterNew (k : Kernel) (id : Int) (task : Task) (path : PathAnswers)
    (arguments : ArgumentAnswers) (room : Bool) : Except Fault Kernel := do
  let (k, record) ← buildNewRecord k task path arguments room
  if record = NULL then return k
  else do
    let k ← k.writeSlot id record
    reportProcess k record
    return k

/-- `notify_enter` -/
def notifyEnter (k : Kernel) (task : Task) (path : PathAnswers) (arguments : ArgumentAnswers)
    (room : Bool) : Except Fault Kernel :=
  let id := getCurrentProcessId task
  if id = -1 then .ok k
  else do
    let record ← k.readSlot id
    if record = NULL then enterNew k id task path arguments room
    else do
      let r ← k.readProcess record
      if r.startTime = task.realStartTime then enterKnown k record task path arguments
      else enterReused k record task path arguments

/-- `notify_execve` -/
def notifyExecve (k : Kernel) (task : Task) : Except Fault Kernel :=
  let id := getCurrentProcessId task
  if id = -1 then .ok k
  else do
    let record ← k.readSlot id
    if record = NULL then return k
    else do
      let k ← k.writeProcess record fun r => { r with beforeExecve := true }
      reportProcess k record
      return k

/-- `get_record_by_pid` -/
def getRecordByPid (k : Kernel) (pid : Int) : Except Fault Ptr :=
  if pid < 0 ∨ pid ≥ HASH_SLOT_SIZE then .ok NULL else k.readSlot pid

/-- An operation of the fd cache on the record of the current process. -/
def onRecord {α : Type} (k : Kernel) (record : Ptr)
    (operation : FdState → Except Fault (FdState × α)) : Except Fault (Kernel × α) := do
  let r ← k.readProcess record
  let (s, answer) ← operation ⟨k.heap, r.area⟩
  let k ← Kernel.writeProcess { k with heap := s.heap } record fun r => { r with area := s.area }
  return (k, answer)

/-- `insert_into_cache` -/
def insertIntoCache (k : Kernel) (task : Task) (fd : Word) (path : Option CString)
    (recordRoom nameRoom : Bool) : Except Fault Kernel := do
  let record ← getRecordByPid k task.pid
  if record = NULL then return k
  else do
    let (k, _) ← onRecord k record fun s => do
      let s ← FdCache.insertIntoCache s fd path recordRoom nameRoom
      return (s, ())
    return k

/-- `get_cache_by_fd_internal` -/
def getCacheByFdInternal (k : Kernel) (task : Task) (fd : Word) : Except Fault (Kernel × Ptr) := do
  let record ← getRecordByPid k task.pid
  if record = NULL then return (k, NULL)
  else onRecord k record fun s => FdCache.getCacheByFdInternal s fd

/-- `delete_cache_by_fd` -/
def deleteCacheByFd (k : Kernel) (task : Task) (fd : Word) : Except Fault (Kernel × Bool) := do
  let record ← getRecordByPid k task.pid
  if record = NULL then return (k, false)
  else onRecord k record fun s => FdCache.deleteCacheByFd s fd

/-- `get_absolute_path_by_fd`. Where `d_path` fails `strlen` reads an error pointer and the
task dies there, with the temporary buffer still allocated: no answer. -/
def getAbsolutePathByFd (h : Heap) (answers : FileAnswers) :
    Except Fault (Option Ptr × Heap) :=
  if answers.file then
    let (tPath, h) := kmalloc h .chars answers.tmpRoom
    if tPath = NULL then .ok (some NULL, h)
    else
      match answers.dPath with
      | some text => do
        let (path, h) ← copyAndFree h tPath text answers.pathRoom
        return (some path, h)
      | none => .ok (none, h)
  else .ok (some NULL, h)

/-- The part of `get_cache_by_fd` that asks the system for the path and caches it. -/
def getFromSystem (k : Kernel) (task : Task) (fd : Word) (answers : FileAnswers)
    (recordRoom nameRoom : Bool) : Except Fault (Kernel × Ptr) := do
  let (path, h) ← getAbsolutePathByFd k.heap answers
  let k := { k with heap := h }
  match path with
  | none => return (k, NULL)
  | some path =>
    if path = NULL then return (k, NULL)
    else do
      let text ← readChars k.heap path
      let k ← insertIntoCache k task fd (some text) recordRoom nameRoom
      let h ← kfree k.heap path
      getCacheByFdInternal { k with heap := h } task fd

/-- `get_cache_by_fd` -/
def getCacheByFd (k : Kernel) (task : Task) (fd : Word) (answers : FileAnswers)
    (recordRoom nameRoom : Bool) : Except Fault (Kernel × Ptr) := do
  let (k, path) ← getCacheByFdInternal k task fd
  if path = NULL then getFromSystem k task fd answers recordRoom nameRoom
  else return (k, path)

/-- A call of a task into the process table and the fd caches. -/
inductive ProcessCall where
  | notifyEnter (task : Task) (path : PathAnswers) (arguments : ArgumentAnswers) (room : Bool)
  | notifyExecve (task : Task)
  | insert (task : Task) (fd : Word) (path : Option CString) (recordRoom nameRoom : Bool)
  | get (task : Task) (fd : Word) (answers : FileAnswers) (recordRoom nameRoom : Bool)
  | delete (task : Task) (fd : Word)

def processStep (k : Kernel) : ProcessCall → Except Fault (Kernel × Unit)
  | .notifyEnter task path arguments room => do
    let k ← notifyEnter k task path arguments room
    return (k, ())
  | .notifyExecve task => do
    let k ← notifyExecve k task
    return (k, ())
  | .insert task fd path recordRoom nameRoom => do
    let k ← insertIntoCache k task fd path recordRoom nameRoom
    return (k, ())
  | .get task fd answers recordRoom nameRoom => do
    let (k, _) ← getCacheByFd k task fd answers recordRoom nameRoom
    return (k, ())
  | .delete task fd => do
    let (k, _) ← deleteCacheByFd k task fd
    return (k, ())

/-- The calls of a session of the module, which ends with an unload or is still going on. -/
def session (k : Kernel) (calls : List ProcessCall) (unload : Bool) : Except Fault Kernel := do
  let (k, _) ← run processStep k calls
  if unload then processMonitorCleanup k else return k

end SysMonitor.Source.Process
