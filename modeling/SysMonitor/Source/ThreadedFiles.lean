import SysMonitor.Source.AbsolutePath
import SysMonitor.Source.ProcessFds

/-!
# Threads that share a descriptor table

The hooks of open, read, write, ioctl and close, cut where other threads may run: at the
original calls, at every look at the descriptor table and at every operation of the fd
cache, which hold their locks while they run. Each thread has a pid and so an fd cache of
its own, but the table is the same for all. A path on its way from the table to a cache is
a temporary copy; its text is what counts.
-/

namespace SysMonitor.Source.Process
open SysMonitor.Library SysMonitor.Source.FdCache

/-- What `get_cache_by_fd` is called for: the log record of a read, a write or an ioctl,
that of a close, or the message when a close deleted nothing. -/
inductive Purpose where
  | use
  | close
  | warn
  deriving DecidableEq

/-- Where a thread is. In an open: before the original, before the look at the table, before
`insert_into_cache`. In `get_cache_by_fd`: before the first lookup, before the look at the
table, before `insert_into_cache`, before the second lookup. In a close: before the original,
before `delete_cache_by_fd`. A dead thread has left its call for good. -/
inductive Stage where
  | idle
  | opening (path : CString)
  | opened (fd : Word)
  | named (fd : Word) (text : Option CString)
  | asking (purpose : Purpose) (fd : Word)
  | missed (purpose : Purpose) (fd : Word)
  | found (purpose : Purpose) (fd : Word) (text : CString)
  | stored (purpose : Purpose) (fd : Word)
  | closing (fd : Word)
  | closed (fd : Word)
  | dead
  deriving DecidableEq

inductive HookedCall where
  | «open» (path : CString)
  | use (fd : Word)
  | close (fd : Word)

/-- What the kernel answers in one step, as far as the step asks. -/
structure StepAnswers where
  /-- The descriptor that an original open returns. -/
  fd : Word
  tmpRoom : Bool
  pathRoom : Bool
  /-- What an open caches when the table gives no path; no answer where the thread dies in
  `copy_string_from_user`. -/
  fallback : Option (Option CString)
  recordRoom : Bool
  nameRoom : Bool
  copyRoom : Bool

inductive ThreadAct where
  | start (call : HookedCall) (path : PathAnswers) (arguments : ArgumentAnswers) (room : Bool)
  | go (answers : StepAnswers)

structure Threads where
  kernel : Kernel
  table : Word → Option CString
  stage : Int → Stage

/-- The record of a read, write or ioctl on this descriptor gets this path. -/
abbrev Record := Word × Option CString

def HookedCall.first : HookedCall → Stage
  | .open path => .opening path
  | .use fd => .asking .use fd
  | .close fd => .asking .close fd

/-- What `get_absolute_path_by_fd` sees. `d_path` fails for a path that does not fit the temporary
buffer. -/
def fileAnswers (table : Word → Option CString) (fd : Word) (answers : StepAnswers) :
    FileAnswers where
  file := (table fd).isSome
  tmpRoom := answers.tmpRoom
  dPath := (table fd).filter fun path => path.bytes.length + 1 ≤ AbsolutePath.tmpSize
  pathRoom := answers.pathRoom

/-- `get_absolute_path_by_fd`: the path or NULL, and no answer where the thread dies. -/
def tablePath (table : Word → Option CString) (fd : Word) (answers : StepAnswers) :
    Option (Option CString) :=
  if (fileAnswers table fd answers).dies then none else some (fileAnswers table fd answers).text

/-- After `get_cache_by_fd`: the path is copied to the record. -/
def afterLookup (fd : Word) (path : Option CString) (answers : StepAnswers) :
    Purpose → Stage × Option Record
  | .use => (.idle, some (fd, if answers.copyRoom then path else none))
  | .close => (.closing fd, none)
  | .warn => (.idle, none)

/-- A thread takes its next step. -/
def goOn (s : Threads) (task : Task) (answers : StepAnswers) :
    Stage → Except Fault (Kernel × (Word → Option CString) × Stage × Option Record)
  | .idle => .ok (s.kernel, s.table, .idle, none)
  | .dead => .ok (s.kernel, s.table, .dead, none)
  | .opening path =>
    .ok (s.kernel, Function.update s.table answers.fd (some path), .opened answers.fd, none)
  | .opened fd =>
    match tablePath s.table fd answers with
    | none => .ok (s.kernel, s.table, .dead, none)
    | some (some text) => .ok (s.kernel, s.table, .named fd (some text), none)
    | some none =>
      match answers.fallback with
      | none => .ok (s.kernel, s.table, .dead, none)
      | some text => .ok (s.kernel, s.table, .named fd text, none)
  | .named fd text => do
    let k ← insertIntoCache s.kernel task fd text answers.recordRoom answers.nameRoom
    return (k, s.table, .idle, none)
  | .asking purpose fd => do
    let (k, path) ← getCacheByFdInternal s.kernel task fd
    let path ← pathAt k.heap path
    if path = none then return (k, s.table, .missed purpose fd, none)
    else return (k, s.table, afterLookup fd path answers purpose)
  | .missed purpose fd =>
    match tablePath s.table fd answers with
    | none => .ok (s.kernel, s.table, .dead, none)
    | some none => .ok (s.kernel, s.table, afterLookup fd none answers purpose)
    | some (some text) => .ok (s.kernel, s.table, .found purpose fd text, none)
  | .found purpose fd text => do
    let k ← insertIntoCache s.kernel task fd (some text) answers.recordRoom answers.nameRoom
    return (k, s.table, .stored purpose fd, none)
  | .stored purpose fd => do
    let (k, path) ← getCacheByFdInternal s.kernel task fd
    let path ← pathAt k.heap path
    return (k, s.table, afterLookup fd path answers purpose)
  | .closing fd =>
    if (s.table fd).isSome then
      .ok (s.kernel, Function.update s.table fd none, .closed fd, none)
    else .ok (s.kernel, s.table, .idle, none)
  | .closed fd => do
    let (k, deleteOk) ← deleteCacheByFd s.kernel task fd
    if deleteOk then return (k, s.table, .idle, none)
    else return (k, s.table, .asking .warn fd, none)

/-- One step of the named thread; a call begins with `notify_enter`. An act that does not fit
where the thread is changes nothing. -/
def threadStep (owner : Int → TimeSpec) (s : Threads) (e : Int × ThreadAct) :
    Except Fault (Threads × Option Record) :=
  let task : Task := ⟨e.1, owner e.1⟩
  match s.stage e.1, e.2 with
  | .idle, .start call path arguments room => do
    let k ← notifyEnter s.kernel task path arguments room
    return (⟨k, s.table, Function.update s.stage e.1 call.first⟩, none)
  | stage, .go answers => do
    let (k, table, stage, record) ← goOn s task answers stage
    return (⟨k, table, Function.update s.stage e.1 stage⟩, record)
  | _, .start _ _ _ _ => .ok (s, none)

end SysMonitor.Source.Process
