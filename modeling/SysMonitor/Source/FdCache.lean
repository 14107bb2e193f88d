import SysMonitor.Source.Heap

/-!
# The fd cache of a process: driver/fd_cache.c

Every cached descriptor has a record in a doubly linked list, newest first. Up to
sixteen of the records are also in the hot cache: an array sorted by descriptor, and
a circular list in the order in which they were placed there. The functions run under
the record's `file_fd_sem`; what they share with other code is the heap.

Loops are recursions. A loop over pointers or a bisection gets as many rounds as there
are addresses or slots, and `diverged` stands for needing more. An `ASSERT` that fires
and the consistency check at the end of `insert_into_hot_cache` are faults here.
-/

namespace SysMonitor.Source.FdCache

def HOT_FD_CACHE_SIZE : Int := 16

/-- The file fd area of a `process_record`. A record that is counted is a live block, so
neither count comes near the range of an `int`. -/
structure FdArea where
  fdCount : Int
  hotCount : Int
  fileFdHead : Ptr
  hotFdHead : Ptr
  hotFdCache : Int → Ptr

/-- What the functions work on. -/
structure FdState where
  heap : Heap
  area : FdArea

/-- `ASSERT` -/
def ASSERT (condition : Prop) [Decidable condition] : Except Fault Unit :=
  if condition then .ok () else .error .assertion

namespace FdState

/-- `record->hot_fd_cache[i]` -/
def readSlot (s : FdState) (i : Int) : Except Fault Ptr :=
  if 0 ≤ i ∧ i < HOT_FD_CACHE_SIZE then .ok (s.area.hotFdCache i) else .error .outOfBounds

def writeSlot (s : FdState) (i : Int) (p : Ptr) : Except Fault FdState :=
  if 0 ≤ i ∧ i < HOT_FD_CACHE_SIZE then
    .ok { s with area := { s.area with hotFdCache := Function.update s.area.hotFdCache i p } }
  else .error .outOfBounds

def read (s : FdState) (p : Ptr) : Except Fault FileFdRecord := readRecord s.heap p

def write (s : FdState) (p : Ptr) (change : FileFdRecord → FileFdRecord) :
    Except Fault FdState := do
  let heap ← writeRecord s.heap p change
  return { s with heap := heap }

/-- A record goes into a slot and learns its index. -/
def place (s : FdState) (i : Int) (p : Ptr) : Except Fault FdState := do
  let s ← s.writeSlot i p
  s.write p fun r => { r with hotIndex := i }

end FdState

/-- `fd_cache_initize`, with the process's `filename`, which it prints. -/
def fdCacheInitize (h : Heap) (filename : Ptr) : Except Fault FdState := do
  printChars h filename
  return { heap := h, area := ⟨0, 0, NULL, NULL, fun _ => NULL⟩ }

/-- The walk of `fd_cache_cleanup`. -/
def cleanupRecords : Nat → Heap → Ptr → Except Fault Heap
  | 0, _, _ => .error .diverged
  | rounds + 1, h, p =>
    if p = NULL then .ok h
    else do
      let r ← readRecord h p
      let h ← kfree h r.filename
      let h ← kfree h p
      cleanupRecords rounds h r.next

/-- `fd_cache_cleanup`. The area keeps its pointers. -/
def fdCacheCleanup (s : FdState) (filename : Ptr) : Except Fault FdState := do
  let heap ← cleanupRecords (s.heap.fresh + 1) s.heap s.area.fileFdHead
  printChars heap filename
  return { s with heap := heap }

/-- `record->hot_fd_cache[i]->fd` -/
def hotFd (s : FdState) (i : Int) : Except Fault Word := do
  let p ← s.readSlot i
  let r ← s.read p
  return r.fd

/-- The bisection of `find_record_in_hot_cache`; `-1` when it finds nothing. -/
def searchHot (fdAt : Int → Except Fault Word) (fd : Word) : Nat → Int → Int → Except Fault Int
  | 0, _, _ => .error .diverged
  | rounds + 1, l, r =>
    if l ≤ r then do
      let m := (l + r) / 2
      let tFd ← fdAt m
      if tFd < fd then searchHot fdAt fd rounds (m + 1) r
      else if fd < tFd then searchHot fdAt fd rounds l (m - 1)
      else return m
    else .ok (-1)

/-- `find_record_in_hot_cache`: the record and its index. -/
def findRecordInHotCache (s : FdState) (fd : Word) : Except Fault (Ptr × Int) := do
  let index ← searchHot (hotFd s) fd (s.area.hotCount.toNat + 1) 0 (s.area.hotCount - 1)
  if index ≠ -1 then do
    let p ← s.readSlot index
    return (p, index)
  else return (NULL, -1)

/-- The walk of `find_record_in_link`. -/
def searchLink (h : Heap) (fd : Word) : Nat → Ptr → Except Fault Ptr
  | 0, _ => .error .diverged
  | rounds + 1, p =>
    if p = NULL then .ok NULL
    else do
      let r ← readRecord h p
      if r.fd = fd then return p
      else searchLink h fd rounds r.next

/-- `find_record_in_link` -/
def findRecordInLink (s : FdState) (fd : Word) : Except Fault Ptr :=
  searchLink s.heap fd (s.heap.fresh + 1) s.area.fileFdHead

/-- `allocate_file_fd_record`, with whether there is room for the record and for the
copy of the path. -/
def allocateFileFdRecord (h : Heap) (fd : Word) (path : CString) (recordRoom nameRoom : Bool) :
    Except Fault (Ptr × Heap) :=
  let (fdRecord, h) := kmalloc h .fileFdRecord recordRoom
  if fdRecord = NULL then .ok (NULL, h)
  else do
    let h ← writeRecord h fdRecord fun r => { r with fd := fd, hotIndex := 0 }
    let (filename, h) := kmalloc h .chars nameRoom
    let h ← writeRecord h fdRecord fun r => { r with filename := filename }
    if filename = NULL then do
      let h ← kfree h fdRecord
      return (NULL, h)
    else do
      let h ← writeChars h filename path
      return (fdRecord, h)

/-- The descriptor in a neighbour slot, zero where there is no such slot. -/
def neighbourFd (fdAt : Int → Except Fault Word) (there : Prop) [Decidable there] (i : Int) :
    Except Fault Word :=
  if there then fdAt i else .ok 0

/-- The loop of `get_insert_index`. It reads the middle slot with its neighbours and leaves
at the first fitting place. -/
def searchInsert (fdAt : Int → Except Fault Word) (hotCount : Int) (fd : Word) :
    Nat → Int → Int → Int → Except Fault Int
  | 0, _, _, _ => .error .diverged
  | rounds + 1, fitIndex, l, r =>
    if l ≤ r then do
      let m := (l + r) / 2
      let tFd ← fdAt m
      let prevFd ← neighbourFd fdAt (m ≠ 0) (m - 1)
      let nextFd ← neighbourFd fdAt (hotCount - 1 ≠ m) (m + 1)
      if (m = 0 ∨ prevFd ≤ fd) ∧ fd ≤ tFd then return m
      else if tFd ≤ fd ∧ (hotCount - 1 = m ∨ fd ≤ nextFd) then return m + 1
      else if tFd < fd then searchInsert fdAt hotCount fd rounds (hotCount - 1) (m + 1) r
      else searchInsert fdAt hotCount fd rounds (hotCount - 1) l (m - 1)
    else .ok fitIndex

/-- `get_insert_index` -/
def getInsertIndex (s : FdState) (fd : Word) : Except Fault Int :=
  searchInsert (hotFd s) s.area.hotCount fd (s.area.hotCount.toNat + 1) 0 0
    (s.area.hotCount - 1)

/-- The two stores that take a record out of the circular list. -/
def unlinkTime (s : FdState) (fdRecord : Ptr) : Except Fault FdState := do
  let r ← s.read fdRecord
  let s ← s.write r.timePrev fun r' => { r' with timeNext := r.timeNext }
  let r ← s.read fdRecord
  s.write r.timeNext fun r' => { r' with timePrev := r.timePrev }

/-- The part of `insert_into_hot_cache` that makes room when the cache is full: the
oldest record leaves the circular list. Its slot is the answer, `-1` when nothing had to
leave. -/
def makeRoom (s : FdState) : Except Fault (FdState × Int) :=
  if s.area.hotCount = HOT_FD_CACHE_SIZE then do
    ASSERT (s.area.hotFdHead ≠ NULL)
    let head ← s.read s.area.hotFdHead
    let oldestRecord := head.timePrev
    let oldest ← s.read oldestRecord
    let oldestIndex := oldest.hotIndex
    ASSERT (0 ≤ oldestIndex)
    let s ← unlinkTime s oldestRecord
    return (s, oldestIndex)
  else .ok (s, -1)

/-- `for (i = …; i > fit_index; i--)`, in so many rounds: slot `i` gets what slot
`i - 1` holds. -/
def shiftUp (s : FdState) (i : Int) : Nat → Except Fault FdState
  | 0 => .ok s
  | rounds + 1 => do
    let p ← s.readSlot (i - 1)
    let r ← s.read p
    ASSERT (i - 1 = r.hotIndex)
    let s ← s.place i p
    shiftUp s (i - 1) rounds

/-- `for (i = …; i < …; i++)`, in so many rounds: slot `i` gets what slot `i + 1`
holds. -/
def shiftDown (s : FdState) (i : Int) : Nat → Except Fault FdState
  | 0 => .ok s
  | rounds + 1 => do
    let p ← s.readSlot (i + 1)
    let r ← s.read p
    ASSERT (i + 1 = r.hotIndex)
    let s ← s.place i p
    shiftDown s (i + 1) rounds

/-- The four shift cases of `insert_into_hot_cache`, with the slot that is free after. -/
def moveSlots (s : FdState) (oldestIndex fitIndex : Int) : Except Fault (FdState × Int) :=
  if oldestIndex = -1 then do
    let s ← shiftUp s s.area.hotCount (s.area.hotCount - fitIndex).toNat
    return (s, fitIndex)
  else if oldestIndex < fitIndex then do
    let s ← shiftDown s oldestIndex (fitIndex - 1 - oldestIndex).toNat
    return (s, fitIndex - 1)
  else if fitIndex < oldestIndex then do
    let s ← shiftUp s oldestIndex (oldestIndex - fitIndex).toNat
    return (s, fitIndex)
  else return (s, fitIndex)

/-- The two assertions on the head of the circular list. -/
def assertLinked (s : FdState) : Except Fault Unit := do
  let head ← s.read s.area.hotFdHead
  let last ← s.read head.timePrev
  ASSERT (last.timeNext = s.area.hotFdHead)
  let second ← s.read head.timeNext
  ASSERT (second.timePrev = s.area.hotFdHead)

/-- The stores that put a record in front of the head of the circular list. -/
def linkTime (s : FdState) (fdRecord : Ptr) : Except Fault FdState :=
  if s.area.hotFdHead = NULL then do
    let s ← s.write fdRecord fun r => { r with timePrev := fdRecord }
    s.write fdRecord fun r => { r with timeNext := fdRecord }
  else do
    assertLinked s
    let head ← s.read s.area.hotFdHead
    let s ← s.write fdRecord fun r => { r with timePrev := head.timePrev }
    let s ← s.write fdRecord fun r => { r with timeNext := s.area.hotFdHead }
    let head ← s.read s.area.hotFdHead
    let s ← s.write head.timePrev fun r => { r with timeNext := fdRecord }
    s.write s.area.hotFdHead fun r => { r with timePrev := fdRecord }

/-- "link hot cache up": the record becomes the head of the circular list. -/
def linkHot (s : FdState) (fdRecord : Ptr) : Except Fault FdState := do
  let s ← linkTime s fdRecord
  let s := { s with area := { s.area with hotFdHead := fdRecord } }
  assertLinked s
  return s

/-- The consistency check that debug builds make over the array, from slot `i` on. -/
def checkHot (s : FdState) (i : Int) (prev : Word) : Nat → Except Fault Unit
  | 0 => .ok ()
  | rounds + 1 => do
    let p ← s.readSlot i
    let r ← s.read p
    ASSERT (i = r.hotIndex)
    ASSERT (prev ≤ r.fd)
    checkHot s (i + 1) r.fd rounds

/-- The rest of `insert_into_hot_cache` once the slot is free: "settle", "link hot cache
up", "add reference", "check". -/
def settle (s : FdState) (oldestIndex fitIndex : Int) (fdRecord : Ptr) :
    Except Fault FdState := do
  let s ← s.place fitIndex fdRecord
  let s ← linkHot s fdRecord
  let hotCount := if oldestIndex = -1 then s.area.hotCount + 1 else s.area.hotCount
  let s := { s with area := { s.area with hotCount := hotCount } }
  checkHot s 0 0 s.area.hotCount.toNat
  return s

/-- `insert_into_hot_cache` -/
def insertIntoHotCache (s : FdState) (fdRecord : Ptr) : Except Fault FdState := do
  let (s, oldestIndex) ← makeRoom s
  let r ← s.read fdRecord
  let fitIndex ← getInsertIndex s r.fd
  let (s, fitIndex) ← moveSlots s oldestIndex fitIndex
  settle s oldestIndex fitIndex fdRecord

/-- `if (NULL != p) p->prev = prev` -/
def setPrev (s : FdState) (p prev : Ptr) : Except Fault FdState :=
  if p = NULL then .ok s else s.write p fun r => { r with prev := prev }

/-- `insert_into_link`: a new record, if any, at the head of the list. -/
def insertIntoLink (s : FdState) (fd : Word) (path : CString) (recordRoom nameRoom : Bool) :
    Except Fault (FdState × Ptr) := do
  let (fdRecord, heap) ← allocateFileFdRecord s.heap fd path recordRoom nameRoom
  let s := { s with heap := heap }
  if fdRecord = NULL then return (s, NULL)
  else do
    let s ← s.write fdRecord fun r =>
      { r with prev := NULL, next := s.area.fileFdHead, timeNext := NULL, timePrev := NULL }
    let s ← setPrev s s.area.fileFdHead fdRecord
    let area := { s.area with fileFdHead := fdRecord, fdCount := s.area.fdCount + 1 }
    return ({ s with area := area }, fdRecord)

/-- "delete from link" -/
def unlinkRecord (s : FdState) (fdRecord : Ptr) : Except Fault FdState := do
  if fdRecord = s.area.fileFdHead then do
    let head ← s.read s.area.fileFdHead
    let s := { s with area := { s.area with fileFdHead := head.next } }
    setPrev s s.area.fileFdHead NULL
  else do
    let r ← s.read fdRecord
    let s ← s.write r.prev fun r' => { r' with next := r.next }
    let r ← s.read fdRecord
    setPrev s r.next r.prev

/-- The head of the circular list moves on when it is the record to delete. -/
def leaveHead (s : FdState) (fdRecord : Ptr) : Except Fault FdState := do
  if fdRecord = s.area.hotFdHead then do
    let head ← s.read s.area.hotFdHead
    return { s with area := { s.area with hotFdHead := head.timeNext } }
  else return s

/-- "delete from hot cache" -/
def removeHot (s : FdState) (fdRecord : Ptr) (delIndex : Int) : Except Fault FdState := do
  let s ← shiftDown s delIndex (s.area.hotCount - 1 - delIndex).toNat
  let s ← leaveHead s fdRecord
  let s ← unlinkTime s fdRecord
  let hotCount := s.area.hotCount - 1
  let hotFdHead := if hotCount = 0 then NULL else s.area.hotFdHead
  return { s with area := { s.area with hotCount := hotCount, hotFdHead := hotFdHead } }

def removeIfHot (s : FdState) (fdRecord : Ptr) (hot : Bool) (delIndex : Int) :
    Except Fault FdState :=
  if hot then removeHot s fdRecord delIndex else .ok s

/-- The part of `delete_from_record` that looks the descriptor up: the record, whether
it is hot, and its slot. -/
def findForDelete (s : FdState) (fd : Word) : Except Fault (Ptr × Bool × Int) := do
  let (fdRecord, delIndex) ← findRecordInHotCache s fd
  if fdRecord = NULL then do
    let fdRecord ← findRecordInLink s fd
    return (fdRecord, false, delIndex)
  else return (fdRecord, true, delIndex)

/-- `delete_from_record`. The record itself is not freed. -/
def deleteFromRecord (s : FdState) (fd : Word) : Except Fault (FdState × Bool) := do
  let (fdRecord, hot, delIndex) ← findForDelete s fd
  if fdRecord = NULL then return (s, false)
  else do
    let s ← unlinkRecord s fdRecord
    let s ← removeIfHot s fdRecord hot delIndex
    let fdCount := s.area.fdCount - 1
    let fileFdHead := if fdCount = 0 then NULL else s.area.fileFdHead
    let s := { s with area := { s.area with fdCount := fdCount, fileFdHead := fileFdHead } }
    return (s, true)

/-- `get_cache_by_fd_internal` on the record of the current process: the path, or NULL.
A record that was found by the walk only becomes hot. -/
def getCacheByFdInternal (s : FdState) (fd : Word) : Except Fault (FdState × Ptr) := do
  let (fdRecord, _) ← findRecordInHotCache s fd
  if fdRecord = NULL then do
    let fdRecord ← findRecordInLink s fd
    if fdRecord = NULL then return (s, NULL)
    else do
      let s ← insertIntoHotCache s fdRecord
      let r ← s.read fdRecord
      return (s, r.filename)
  else do
    let r ← s.read fdRecord
    return (s, r.filename)

/-- `insert_into_cache` on the record of the current process. -/
def insertIntoCache (s : FdState) (fd : Word) (path : Option CString)
    (recordRoom nameRoom : Bool) : Except Fault FdState :=
  match path with
  | none => .ok s
  | some path => do
    let (s, fdRecord) ← insertIntoLink s fd path recordRoom nameRoom
    if fdRecord = NULL then return s
    else insertIntoHotCache s fdRecord

/-- `delete_cache_by_fd` on the record of the current process. -/
def deleteCacheByFd (s : FdState) (fd : Word) : Except Fault (FdState × Bool) :=
  deleteFromRecord s fd

/-- One of the three operations, with what the caller chooses and what the allocator
does. -/
inductive FdCall where
  | insert (fd : Word) (path : Option CString) (recordRoom nameRoom : Bool)
  | get (fd : Word)
  | delete (fd : Word)

/-- What an operation answers. The path of a `get` is the string its pointer shows. -/
inductive FdAnswer where
  | inserted
  | path (found : Option CString)
  | deleted (suc : Bool)
  deriving DecidableEq

/-- The string at a possibly NULL `char *`. -/
def pathAt (h : Heap) (p : Ptr) : Except Fault (Option CString) :=
  if p = NULL then .ok none
  else do
    let text ← readChars h p
    return some text

def fdStep (s : FdState) : FdCall → Except Fault (FdState × FdAnswer)
  | .insert fd path recordRoom nameRoom => do
    let s ← insertIntoCache s fd path recordRoom nameRoom
    return (s, .inserted)
  | .get fd => do
    let (s, p) ← getCacheByFdInternal s fd
    let path ← pathAt s.heap p
    return (s, .path path)
  | .delete fd => do
    let (s, suc) ← deleteCacheByFd s fd
    return (s, .deleted suc)

end SysMonitor.Source.FdCache
