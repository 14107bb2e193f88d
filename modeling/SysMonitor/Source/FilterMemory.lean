import SysMonitor.Library.BlockHeap
import SysMonitor.Source.FilterRegex
import SysMonitor.Source.Heap

/-!
# The filters in memory: `AddFilter` and `FilterLog` of native/jni/filter.cpp

A sentence is matched by the regular expression engine, cut into strings in a copy of it, and
becomes an item of a linked list with a string of its own. Three blocks are allocated on the way,
and each of them may be refused.
-/

namespace SysMonitor.Source.FilterMemory
open SysMonitor.Library SysMonitor.Library.CyclicBuffer
open SysMonitor.Source.Deelx SysMonitor.Source.Filter SysMonitor.Source.ReaderStrings
open SysMonitor.Source.Reader (stringAt)
open SysMonitor.Source.ReaderInterface (store)
open SysMonitor.Source.FilterSentences (getColumnFromString getOperateFromString getActionFromString)

/-- `filter_item` -/
structure FilterItemRecord where
  next : Ptr
  column : ColumnItem
  operate : OperateType
  value : Ptr
  valueLength : Int
  action : ActionItem
  deriving DecidableEq

/-- A live block of the reader. -/
inductive ReaderBlock where
  | chars (bytes : List Byte)
  | filterItem (item : FilterItemRecord)
  deriving DecidableEq

abbrev ReaderHeap := BlockHeap ReaderBlock

/-- The heap with the two global pointers. -/
structure Filters where
  heap : ReaderHeap
  filterHeader : Ptr
  filterTail : Ptr

/-- What the three calls of `malloc` come to: nothing, or a block with these contents. -/
structure Mallocs where
  tmp : Option (Nat → Byte)
  item : Option FilterItemRecord
  value : Option (Nat → Byte)

/-- None of the three is refused. -/
def Mallocs.given (mallocs : Mallocs) : Bool :=
  mallocs.tmp.isSome && mallocs.item.isSome && mallocs.value.isSome

section Accesses

variable (h : ReaderHeap)

def malloc : Option ReaderBlock → Ptr × ReaderHeap
  | none => (NULL, h)
  | some contents => (h.fresh, h.allocate contents)

/-- A block of characters. -/
def mallocChars (size : Nat) (outcome : Option (Nat → Byte)) : Ptr × ReaderHeap :=
  malloc h (outcome.map fun garbage => .chars ((List.range size).map garbage))

def free (p : Ptr) : Except Fault ReaderHeap :=
  if p = NULL then .ok h
  else
    match h.block p with
    | none => .error .doubleFree
    | some _ => .ok (h.release p)

def wild (p : Ptr) : Fault := if p = NULL then .nullPointer else .useAfterFree

def readBytes (p : Ptr) : Except Fault (List Byte) :=
  match h.block p with
  | some (.chars bytes) => .ok bytes
  | _ => .error (wild p)

def readItem (p : Ptr) : Except Fault FilterItemRecord :=
  match h.block p with
  | some (.filterItem item) => .ok item
  | _ => .error (wild p)

def writeItem (p : Ptr) (change : FilterItemRecord → FilterItemRecord) : Except Fault ReaderHeap := do
  let item ← readItem h p
  return h.store p (.filterItem (change item))

/-- The string that begins inside a block. -/
def stringIn (p : Ptr) (start : Nat) : Except Fault (List Byte) := do
  let bytes ← readBytes h p
  stringAt (bytes.drop start)

/-- `strcpy` to the beginning of a block. -/
def strcpy (p : Ptr) (text : List Byte) : Except Fault ReaderHeap := do
  let bytes ← readBytes h p
  if text.length < bytes.length then return h.store p (.chars (splice bytes 0 (text ++ [0])))
  else throw .outOfBounds

end Accesses

/-- `&tmp[result.GetGroupStart(n)]` as a position in `tmp`, and `tmp[result.GetGroupEnd(n)] = '\0'`. -/
def endGroup (h : ReaderHeap) (tmp : Ptr) (result : MatchResult) (n : Nat) :
    Except Fault (ReaderHeap × Nat) := do
  let start := result.getGroupStart n
  let stop := result.getGroupEnd n
  if start < 0 ∨ stop < 0 then throw .outOfBounds
  let bytes ← readBytes h tmp
  let bytes ← store bytes stop.toNat 0
  return (h.store tmp (.chars bytes), start.toNat)

/-- The fields of the new item, and the copy of its value. -/
def fillItem (h : ReaderHeap) (item tmp : Ptr) (column op value action : Nat)
    (outcome : Option (Nat → Byte)) : Except Fault (ReaderHeap × Ptr) := do
  let column ← stringIn h tmp column
  let op ← stringIn h tmp op
  let action ← stringIn h tmp action
  let value ← stringIn h tmp value
  let valueLength := toInt value.length
  let (copy, h) := mallocChars h (sizeT (valueLength + 1)) outcome
  let h ← writeItem h item fun _ =>
    ⟨NULL, getColumnFromString column, getOperateFromString op, copy, valueLength,
      getActionFromString action⟩
  if copy = NULL then return (h, copy)
  let h ← strcpy h copy value
  return (h, copy)

/-- The item is put at the end of the list. -/
def linkItem (s : Filters) (item : Ptr) : Except Fault Filters := do
  if s.filterHeader = NULL then return { s with filterHeader := item, filterTail := item }
  let heap ← writeItem s.heap s.filterTail fun last => { last with next := item }
  return { s with heap, filterTail := item }

/-- `AddFilter` with a match that has four groups. -/
def addMatched (s : Filters) (filter : List Byte) (result : MatchResult) (mallocs : Mallocs) :
    Except Fault (Filters × Bool) := do
  let (tmp, heap) := mallocChars s.heap (filter.length + 1) mallocs.tmp
  if tmp = NULL then return ({ s with heap }, false)
  let heap ← strcpy heap tmp filter
  let (heap, column) ← endGroup heap tmp result 1
  let (heap, op) ← endGroup heap tmp result 2
  let (heap, value) ← endGroup heap tmp result 3
  let (heap, action) ← endGroup heap tmp result 4
  let (item, heap) := malloc heap (mallocs.item.map .filterItem)
  if item = NULL then
    let heap ← free heap tmp
    return ({ s with heap }, false)
  let (heap, copy) ← fillItem heap item tmp column op value action mallocs.value
  if copy = NULL then
    let heap ← free heap item
    let heap ← free heap tmp
    return ({ s with heap }, false)
  let s ← linkItem { s with heap } item
  let heap ← free s.heap tmp
  return ({ s with heap }, true)

/-- `AddFilter` behind the match. -/
def addFound (s : Filters) (filter : List Byte) (mallocs : Mallocs) :
    Option MatchResult → Except Fault (Filters × Bool)
  | some result =>
    if result.maxGroupNumber = 4 then addMatched s filter result mallocs else .ok (s, false)
  | none => .ok (s, false)

/-- `AddFilter` -/
def addFilter (s : Filters) (filter : UserString) (mallocs : Mallocs) (fuel : Nat) :
    Option (Except Fault (Filters × Bool)) :=
  (compileAndMatch (FilterRegex.regexp ++ [0]) filter.bytes fuel).map
    (addFound s filter.bytes mallocs)

/-- No filter was added yet. -/
def Filters.empty : Filters := ⟨BlockHeap.unused, NULL, NULL⟩

/-- `AddFilter` called with one sentence after the other. -/
def addFilters (s : Filters) : List (UserString × Mallocs) → Nat → Option (Except Fault Filters)
  | [], _ => some (.ok s)
  | (filter, mallocs) :: calls, fuel =>
    (addFilter s filter mallocs fuel).bind fun added =>
      match added with
      | .error fault => some (.error fault)
      | .ok (s, _) => addFilters s calls fuel

/-- The rule that a pointer leads to. -/
def ruleAt (h : ReaderHeap) (p : Ptr) : Except Fault FilterItem := do
  let item ← readItem h p
  let value ← stringIn h item.value 0
  return ⟨item.column, item.operate, value, item.valueLength, item.action⟩

/-- The loop of `FilterLog` from an item on. -/
def filterFrom (h : ReaderHeap) (r : LogRecord) :
    Nat → (Nat → World) → Ptr → ActionResult → Option (Except Fault ActionResult)
  | 0, _, _, _ => none
  | fuel + 1, worlds, p, result =>
    if p = NULL then some (.ok result)
    else
      match (do
        let rule ← ruleAt h p
        let item ← readItem h p
        let result ← filterOneLog (worlds 0) rule r
        return (item, result)) with
      | .error fault => some (.error fault)
      | .ok (item, result) =>
        if item.action = .actionInclude ∧ result = .resultInclude then some (.ok result)
        else if item.action = .actionExclude then
          if result = .resultExclude then some (.ok result)
          else filterFrom h r fuel (fun k => worlds (k + 1)) item.next .resultInclude
        else filterFrom h r fuel (fun k => worlds (k + 1)) item.next result

/-- `FilterLog` -/
def filterLog (worlds : Nat → World) (s : Filters) (r : LogRecord) (fuel : Nat) :
    Option (Except Fault ActionResult) :=
  filterFrom s.heap r fuel worlds s.filterHeader .resultInclude

end SysMonitor.Source.FilterMemory
