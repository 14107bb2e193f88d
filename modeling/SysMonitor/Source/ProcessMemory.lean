import SysMonitor.Library.PagedMemory
import SysMonitor.Source.LogStorage

/-!
# Reading a process's memory page by page: driver/process.c

`read_process_memory_locked` and the one function that calls it. A page for which
`get_user_pages` succeeds has a frame, in which its bytes lie. The reference counts are those of
the mm structures and of the frames.
-/

namespace SysMonitor.Source.ProcessMemory
open SysMonitor.Library.CyclicBuffer

/-- What the kernel knows of a task's memory. The page size is a power of two, and a kernel
thread has no memory of its own even while it borrows some. -/
structure TaskMemory where
  pageShift : Nat
  pageFits : pageShift < 32
  frame : Nat → Option Nat
  content : Nat → Nat → Byte
  mm : Option Nat
  kernelThread : Bool
  argStart : Word
  argEnd : Word

/-- `PAGE_SIZE` -/
def pageSize (m : TaskMemory) : Word := 1#32 <<< m.pageShift

structure Counts where
  mm : Nat → Int
  page : Nat → Int

namespace Counts

def raiseMm (c : Counts) (mm : Nat) : Counts :=
  { c with mm := Function.update c.mm mm (c.mm mm + 1) }

def raisePage (c : Counts) (frame : Nat) : Counts :=
  { c with page := Function.update c.page frame (c.page frame + 1) }

/-- `page_cache_release` -/
def pageCacheRelease (c : Counts) (frame : Nat) : Counts :=
  { c with page := Function.update c.page frame (c.page frame - 1) }

end Counts

/-- The mm that `get_task_mm` takes a reference to. -/
def getTaskMm (m : TaskMemory) : Option Nat := if m.kernelThread then none else m.mm

/-- The variables of the loop: `written` is `buf - old_buf`. -/
structure ReadState where
  len : Word
  addr : Word
  written : Nat
  buffer : List Byte
  counts : Counts

/-- `offset` -/
def pageOffset (m : TaskMemory) (addr : Word) : Word := addr &&& (pageSize m - 1#32)

/-- `bytes`: `PAGE_SIZE` is an `unsigned long`, so the comparison is one of unsigned words. -/
def chunk (m : TaskMemory) (addr len : Word) : Word :=
  if pageSize m - pageOffset m addr < len then pageSize m - pageOffset m addr else len

/-- `copy_from_user_page`, from a mapped page to a place in the buffer. -/
def copyFromUserPage (m : TaskMemory) (frame : Nat) (offset bytes : Word) (buffer : List Byte)
    (at_ : Nat) : Except Fault (List Byte) :=
  if offset.toNat + bytes.toNat ≤ (pageSize m).toNat ∧ at_ + bytes.toNat ≤ buffer.length then
    .ok (splice buffer at_
      ((List.range bytes.toNat).map fun i => m.content frame (offset.toNat + i)))
  else .error .outOfBounds

/-- The loop of `read_process_memory_locked`. -/
def readLoop (m : TaskMemory) : Nat → ReadState → Except Fault ReadState
  | 0, _ => .error .diverged
  | rounds + 1, s =>
    if s.len = 0 then .ok s
    else
      match m.frame (s.addr.toNat / (pageSize m).toNat) with
      | none => .ok s
      | some frame => do
        let counts := s.counts.raisePage frame
        let bytes := chunk m s.addr s.len
        let buffer ←
          copyFromUserPage m frame (pageOffset m s.addr) bytes s.buffer s.written
        let counts := counts.pageCacheRelease frame
        readLoop m rounds
          ⟨s.len - bytes, s.addr + bytes, s.written + bytes.toNat, buffer, counts⟩

/-- `read_process_memory_locked`: the value returned, the buffer and the counts. Each round of
the loop takes something off `len`. -/
def readProcessMemoryLocked (m : TaskMemory) (counts : Counts) (addr len : Word)
    (buffer : List Byte) : Except Fault (Nat × List Byte × Counts) :=
  match getTaskMm m with
  | none => .ok (0, buffer, counts)
  | some mm => do
    let s ← readLoop m (len.toNat + 1) ⟨len, addr, 0, buffer, counts.raiseMm mm⟩
    return (s.written, s.buffer, s.counts)

/-- `get_current_process_arguments`: the buffer, `*length` and the counts. `memory` is what
`kmalloc` finds for the buffer. -/
def getCurrentProcessArguments (m : TaskMemory) (counts : Counts)
    (memory : Option (Nat → Byte)) : Except Fault (Option (List Byte) × Nat × Counts) :=
  match m.mm with
  | none => .ok (none, 0, counts)
  | some _ =>
    let len := m.argEnd - m.argStart
    if 0 ≤ len.toInt then
      match LogStorage.kmalloc (len.toNat + 1) memory with
      | none => .ok (none, 0, counts)
      | some argBuffer => do
        let (read, argBuffer, counts) ←
          readProcessMemoryLocked m counts m.argStart len argBuffer
        if read < argBuffer.length then return (some (argBuffer.set read 0), read, counts)
        else throw .outOfBounds
    else .ok (none, 0, counts)

end SysMonitor.Source.ProcessMemory
