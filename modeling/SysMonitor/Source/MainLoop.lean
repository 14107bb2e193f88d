import SysMonitor.Source.FilterMemory
import SysMonitor.Source.LogStorage
import SysMonitor.Source.ReaderOutput

/-!
# The loop of native/jni/main.cpp with its memory

A step is one `read` of the reader with everything that `main` does before its next `read`, or one
call of `log_item_to_storage` in the driver. The content of a record lies in a block that
`ReadContent` allocates; `FilterLog` and the line see its two strings, and `main` frees it.
-/

namespace SysMonitor.Source.MainLoop
open SysMonitor.Library SysMonitor.Library.CyclicBuffer
open SysMonitor.Source.Interface SysMonitor.Source.Reader SysMonitor.Source.ReaderInterface
open SysMonitor.Source.ReaderStrings SysMonitor.Source.FilterMemory
open SysMonitor.Source.Filter (LogRecord World)
open SysMonitor.Source.ReaderOutput (composeLine)

structure MainState where
  device : Device
  filters : Filters
  phase : Phase
  records : Nat
  printed : List Byte

/-- What `copy_to_user` stores in the block. -/
def copyToUser (h : ReaderHeap) (p : Ptr) (delivered : List Byte) : Except Fault ReaderHeap := do
  let bytes ← readBytes h p
  if delivered.length ≤ bytes.length then return h.store p (.chars (splice bytes 0 delivered))
  else throw .outOfBounds

/-- `ReadContent`: `*path` is the beginning of the block, `*details` a position in it. -/
def readContent (h : ReaderHeap) (d : Device) (contentSize _pathOffset _detailsOffset : Word)
    (outcome : Option (Nat → Byte)) (user : UserCopy) (down : Down) :
    Except Fault (Device × ReaderHeap × Option (Ptr × Nat)) := do
  if contentSize.toInt ≤ 0 then return (d, h, none)
  let (innerContent, h) := mallocChars h contentSize.toNat outcome
  if innerContent = NULL then return (d, h, none)
  let (d, result) ← interfaceRead d contentSize.toNat user down
  let h ← copyToUser h innerContent result.delivered
  if result.returned ≠ contentSize.toInt then
    let h ← free h innerContent
    return (d, h, none)
  let path ← stringIn h innerContent 0
  let details := path.length + 1
  let _ ← stringIn h innerContent details
  return (d, h, some (innerContent, details))

/-- The strings that a pointer into a block leads to have no NUL. -/
theorem stringIn_nulFree {h : ReaderHeap} {p : Ptr} {start : Nat} {string : List Byte}
    (found : stringIn h p start = .ok string) : 0 ∉ string := by
  obtain ⟨bytes, -, rest⟩ := bind_eq_ok found
  exact nulFree_of_stringAt rest

/-- The record that `main` has pointers to. -/
def recordAt (h : ReaderHeap) (header : LogHeader) (content : Ptr × Nat) : Except Fault LogRecord :=
  match pathFound : stringIn h content.1 0, detailsFound : stringIn h content.1 content.2 with
  | .ok path, .ok details =>
    .ok ⟨header, path, details, stringIn_nulFree pathFound, stringIn_nulFree detailsFound⟩
  | .error fault, _ | _, .error fault => .error fault

/-- What the loop prints of a record. The rules meet the worlds `worlds`, and `main` meets `own`. -/
def showRecord (worlds : Nat → World) (own : World) (s : Filters) (r : LogRecord) (fuel : Nat) :
    Option (Except Fault (List Byte)) :=
  (filterLog worlds s r fuel).map fun result => do
    let result ← result
    if result = .resultInclude then
      let buffer ← composeLine own r
      printf buffer
    else return []

inductive MainEvent where
  | log (header : LogHeader) (path details : Option CString) (memory : Option (Nat → Byte))
      (down : Down)
  | read (outcome : Option (Nat → Byte)) (user : UserCopy) (down : Down)

/-- What follows a step, unless the step went wrong. -/
def unlessFault {α β : Type} (next : α → Option (Except Fault β)) :
    Except Fault α → Option (Except Fault β)
  | .error fault => some (.error fault)
  | .ok a => next a

section Steps

variable (worlds : Nat → Nat → World) (own : Nat → World)

/-- The rest of the loop behind `ReadContent`. -/
def finishRecord (s : MainState) (header : LogHeader) (content : Ptr × Nat) (fuel : Nat) :
    Option (Except Fault MainState) :=
  match recordAt s.filters.heap header content with
  | .error fault => some (.error fault)
  | .ok record =>
    (showRecord (worlds s.records) (own s.records) s.filters record fuel).map fun shown => do
      let line ← shown
      let heap ← free s.filters.heap content.1
      return { s with
        filters := { s.filters with heap }, phase := .wantHeader, records := s.records + 1
        printed := s.printed ++ line }

def mainStep (s : MainState) (event : MainEvent) (fuel : Nat) : Option (Except Fault MainState) :=
  match event with
  | .log header path details memory down =>
    some do
      let device ← LogStorage.logItemToStorage s.device header path details memory down
      return { s with device }
  | .read outcome user down =>
    match s.phase with
    | .stopped => some (.ok s)
    | .wantHeader =>
      some do
        let (device, result) ← readHeader s.device user down
        match result with
        | .noData => return { s with device }
        | .failed => return { s with device, phase := .stopped }
        | .header header => return { s with device, phase := .wantContent header }
    | .wantContent header =>
      match readContent s.filters.heap s.device header.contentSize header.pathOffset
          header.detailsOffset outcome user down with
      | .error fault => some (.error fault)
      | .ok (device, heap, none) =>
        some (.ok { s with device, filters := { s.filters with heap }, phase := .stopped })
      | .ok (device, heap, some content) =>
        finishRecord worlds own { s with device, filters := { s.filters with heap } } header content
          fuel

/-- A run of the loop and the driver. -/
def mainRun (s : MainState) : List MainEvent → Nat → Option (Except Fault MainState)
  | [], _ => some (.ok s)
  | event :: events, fuel =>
    (mainStep worlds own s event fuel).bind (unlessFault fun s => mainRun s events fuel)

end Steps

/-- `main` when it has added its filters and `Initize` has opened the device. -/
def mainStart (device : Device) (filters : Filters) : MainState :=
  ⟨device, filters, .wantHeader, 0, []⟩

end SysMonitor.Source.MainLoop
