import SysMonitor.Source.Interface
import SysMonitor.Source.LogDef

/-!
# The reader: `ReadHeader`, `ReadContent` and the loop of native/jni/main.cpp

The reader is a process at the other end of the device. One step is one `read` system
call: an iteration of the loop in `ReadHeader`, or the read in `ReadContent`. When
either function returns false, `main` leaves its loop.
-/

namespace SysMonitor.Source.Reader
open SysMonitor.Source.Interface

/-- The string that starts here: what `strlen` and the `char *` functions see. They
run off the memory when it holds no terminator. -/
def stringAt (memory : List Byte) : Except Fault (List Byte) :=
  if 0 ∈ memory then .ok (memory.takeWhile (· ≠ 0)) else .error .outOfBounds

/-- The result of one iteration of the loop in `ReadHeader`. -/
inductive HeaderRead where
  | noData
  | failed
  | header (h : LogHeader)
  deriving DecidableEq

def readHeader (d : Device) (user : UserCopy) (outcome : Down) :
    Except Fault (Device × HeaderRead) := do
  let (d, result) ← interfaceRead d LogHeader.size user outcome
  if result.returned = 0 then return (d, .noData)
  else if result.returned ≠ LogHeader.size then return (d, .failed)
  else return (d, .header (.ofBytes result.delivered))

/-- What `ReadContent` leaves in `*path` and `*details`, with the block they lie in. -/
structure Content where
  inner : List Byte
  path : List Byte
  details : List Byte
  deriving DecidableEq

/-- `ReadContent`; `malloc` tells whether memory for `content_size` bytes is available.
The two offsets are parameters of the source as well, and are not used there either. -/
def readContent (d : Device) (contentSize _pathOffset _detailsOffset : Word) (malloc : Bool)
    (user : UserCopy) (outcome : Down) : Except Fault (Device × Option Content) := do
  if contentSize.toInt ≤ 0 then return (d, none)
  if !malloc then return (d, none)
  let (d, result) ← interfaceRead d contentSize.toNat user outcome
  if result.returned ≠ contentSize.toInt then return (d, none)
  let path ← stringAt result.delivered
  let details ← stringAt (result.delivered.drop (path.length + 1))
  return (d, some ⟨result.delivered, path, details⟩)

/-- A record as `main` has it after `ReadContent`. -/
structure Obtained where
  header : LogHeader
  content : Content
  deriving DecidableEq

/-- Where `main` is in its loop. -/
inductive Phase where
  | wantHeader
  | wantContent (header : LogHeader)
  | stopped
  deriving DecidableEq

/-- One `read` of the reader. -/
def readerStep (d : Device) (phase : Phase) (malloc : Bool) (user : UserCopy) (outcome : Down) :
    Except Fault (Device × Phase × Option Obtained) :=
  match phase with
  | .wantHeader => do
    let (d, result) ← readHeader d user outcome
    match result with
    | .noData => return (d, .wantHeader, none)
    | .failed => return (d, .stopped, none)
    | .header h => return (d, .wantContent h, none)
  | .wantContent h => do
    let (d, content) ←
      readContent d h.contentSize h.pathOffset h.detailsOffset malloc user outcome
    match content with
    | none => return (d, .stopped, none)
    | some content => return (d, .wantHeader, some ⟨h, content⟩)
  | .stopped => .ok (d, .stopped, none)

end SysMonitor.Source.Reader
