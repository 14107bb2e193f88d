import SysMonitor.Library.CyclicBuffer
import SysMonitor.Source.Memory

/-!
# The character device: driver/interface.c

The globals of `interface.c` and its five file operations. Every function that
takes the semaphore is split the way the source is: what happens between a
successful `down_interruptible` and the matching `up` is a definition of its own
(`writeLocked`, `openLocked`, ...), so that the same bodies serve the sequential
runs and the interleavings. Pointers are addresses; the pages at `cycle_buffer` are
a list of bytes, and a copy that leaves them is a fault.
-/

namespace SysMonitor.Source.Interface
open SysMonitor.Library.CyclicBuffer

def PAGE_INCREASE : Nat := 7
def PAGE_SHIFT : Nat := 12

def EINTR : Int := 4
def ENOMEM : Int := 12
def EACCES : Int := 13
def ETXTBSY : Int := 26

/-- `FMODE_WRITE` of `linux/fs.h` -/
def FMODE_WRITE : Word := 2

/-- The pid of a task in a system call. Zero is the idle task, which makes none. -/
abbrev Pid := { n : Nat // 0 < n }

/-- The global variables. `ring` is the memory at `cycleBuffer`. -/
structure Device where
  sem : Nat
  deviceReady : Bool
  cycleBufferSize : Nat
  readPtr : Nat
  writePtr : Nat
  cycleBuffer : Nat
  ring : List Byte
  ownerPid : Nat
  deriving DecidableEq

/-- The globals when the module is loaded, after `sema_init(&sem, 1)`. -/
def initial : Device where
  sem := 1
  deviceReady := false
  cycleBufferSize := 0
  readPtr := 0
  writePtr := 0
  cycleBuffer := 0
  ring := []
  ownerPid := 0

def isDeviceReady (d : Device) : Bool := d.deviceReady

def isOurProcess (d : Device) (current : Pid) : Bool := d.ownerPid == current.val

/-- A successful `down_interruptible`. -/
def down (d : Device) : Device := { d with sem := d.sem - 1 }

def up (d : Device) : Device := { d with sem := d.sem + 1 }

/-- How many bytes are used in the ring. -/
def getUsedSize (d : Device) : Nat :=
  if d.readPtr = d.writePtr then 0
  else if d.readPtr > d.writePtr then d.cycleBufferSize - (d.readPtr - d.writePtr)
  else d.writePtr - d.readPtr

/-- `memcpy` to an address of the ring. -/
def memcpyToRing (d : Device) (dst : Nat) (bytes : List Byte) : Except Fault Device :=
  if d.cycleBuffer ≤ dst ∧ dst + bytes.length ≤ d.cycleBuffer + d.ring.length then
    .ok { d with ring := splice d.ring (dst - d.cycleBuffer) bytes }
  else .error .outOfBounds

/-- The `n` bytes at an address of the ring, as `copy_to_user` reads them. -/
def ringBytes (d : Device) (src n : Nat) : Except Fault (List Byte) :=
  if d.cycleBuffer ≤ src ∧ src + n ≤ d.cycleBuffer + d.ring.length then
    .ok ((d.ring.drop (src - d.cycleBuffer)).take n)
  else .error .outOfBounds

/-- The last statement of `copy_to_buffer`: what is left of the buffer is copied
straight. -/
def copyStraight (d : Device) (startPos : Nat) (buffer : List Byte) :
    Except Fault (Device × Nat) :=
  if buffer.length > 0 then do
    let d ← memcpyToRing d startPos buffer
    return (d, startPos + buffer.length)
  else .ok (d, startPos)

/-- Copy the buffer to the ring from `startPos`, in two parts when it reaches the
end; the result is the position after it. -/
def copyToBuffer (d : Device) (startPos : Nat) (buffer : List Byte) :
    Except Fault (Device × Nat) :=
  if startPos + buffer.length ≥ d.cycleBuffer + d.cycleBufferSize then do
    let firstSize := d.cycleBufferSize + d.cycleBuffer - startPos
    let d ← memcpyToRing d startPos (buffer.take firstSize)
    copyStraight d d.cycleBuffer (buffer.drop firstSize)
  else copyStraight d startPos buffer

def writeLocked (d : Device) (buffer : List Byte) : Except Fault Device :=
  -- never let the ring be full: equal pointers always mean empty
  if d.cycleBufferSize - getUsedSize d > buffer.length then do
    let (d, writePtr) ← copyToBuffer d d.writePtr buffer
    return { d with writePtr }
  else .ok d

def writeToInterface (d : Device) (buffer : List Byte) (outcome : Down) : Except Fault Device :=
  if !isDeviceReady d then .ok d
  else if 0 = buffer.length then .ok d
  else match outcome with
    | .interrupted => .ok d
    | .acquired => do
      let d ← writeLocked (down d) buffer
      return up d

/-- The body of `interface_open` and the `result` it computes. -/
def openLocked (d : Device) (current : Pid) (fMode : Word) : Device × Int :=
  if 0 ≠ d.ownerPid then (d, -EACCES)
  else if FMODE_WRITE &&& fMode ≠ 0 then (d, -EACCES)
  else ({ d with ownerPid := current.val, deviceReady := true }, 0)

/-- `interface_open`. Every path ends in `exit: return 0`, whatever `result` is. -/
def interfaceOpen (d : Device) (current : Pid) (fMode : Word) (outcome : Down) : Device × Int :=
  match outcome with
  | .interrupted => (d, 0)
  | .acquired =>
    let (d, _result) := openLocked (down d) current fMode
    (up d, 0)

/-- How many bytes each of the two `copy_to_user` calls leaves uncopied. A call
leaves at most what it was asked to copy. -/
structure UserCopy where
  first : Nat
  second : Nat
  deriving DecidableEq

/-- No page fault in the user's buffer. -/
def UserCopy.complete : UserCopy := ⟨0, 0⟩

/-- The value returned by `interface_read` and the bytes it stored from `buf` on. -/
structure ReadResult where
  returned : Int
  delivered : List Byte
  deriving DecidableEq

/-- The second, or only, copy of `interface_read`: `copyed` bytes went before. -/
def readStraight (d : Device) (min copyed : Nat) (delivered : List Byte) (uncopied : Nat) :
    Except Fault (Device × ReadResult) :=
  if min > 0 then do
    let bytes ← ringBytes d d.readPtr min
    let left := Nat.min uncopied min
    return ({ d with readPtr := d.readPtr + (min - left) },
      ⟨(copyed + (min - left) : Nat), delivered ++ bytes.take (min - left)⟩)
  else .ok (d, ⟨copyed, delivered⟩)

def readLocked (d : Device) (count : Nat) (user : UserCopy) : Except Fault (Device × ReadResult) :=
  let used := getUsedSize d
  let min := if count > used then used else count
  let firstSize := d.cycleBufferSize - (d.readPtr - d.cycleBuffer)
  if d.readPtr = d.writePtr then .ok (d, ⟨0, []⟩)
  else if d.readPtr > d.writePtr ∧ firstSize ≤ min then do
    if firstSize = 0 then throw .assertion
    let bytes ← ringBytes d d.readPtr firstSize
    let left := Nat.min user.first firstSize
    if left = 0 then
      readStraight { d with readPtr := d.cycleBuffer } (min - firstSize) firstSize bytes user.second
    else
      -- goto cleanup: read_ptr stays where it was
      return (d, ⟨(firstSize - left : Nat), bytes.take (firstSize - left)⟩)
  else readStraight d min 0 [] user.second

/-- `interface_read`. An interrupted `down_interruptible` also goes to `cleanup`,
where `up` is called. -/
def interfaceRead (d : Device) (count : Nat) (user : UserCopy) (outcome : Down) :
    Except Fault (Device × ReadResult) :=
  match outcome with
  | .interrupted => .ok (up d, ⟨-EINTR, []⟩)
  | .acquired => do
    let (d, result) ← readLocked (down d) count user
    return (up d, result)

def releaseLocked (d : Device) (current : Pid) : Device :=
  if current.val = d.ownerPid then { d with ownerPid := 0, deviceReady := false } else d

def interfaceRelease (d : Device) (current : Pid) (outcome : Down) : Device × Int :=
  match outcome with
  | .interrupted => (d, -EINTR)
  | .acquired => (up (releaseLocked (down d) current), 0)

/-- The body of `begin_interface` for a ring of `size` bytes; `pages` is what
`__get_free_pages` returned, an address and the memory there, or NULL. -/
def beginLocked (d : Device) (size : Nat) (pages : Option (Nat × List Byte)) : Device × Int :=
  if isDeviceReady d then (d, -ETXTBSY)
  else
    match pages with
    | none => ({ d with cycleBufferSize := size, cycleBuffer := 0, ring := [] }, -ENOMEM)
    | some (address, ring) =>
      ({ d with
          cycleBufferSize := size
          cycleBuffer := address
          ring
          readPtr := address
          writePtr := address }, 0)

def beginInterfaceSized (d : Device) (size : Nat) (pages : Option (Nat × List Byte))
    (outcome : Down) : Device × Int :=
  match outcome with
  | .interrupted => (d, -EINTR)
  | .acquired =>
    let (d, result) := beginLocked (down d) size pages
    (up d, result)

/-- `begin_interface`: `2 ^ PAGE_INCREASE` pages. -/
def beginInterface (d : Device) (pages : Option (Nat × List Byte)) (outcome : Down) :
    Device × Int :=
  beginInterfaceSized d (2 ^ PAGE_INCREASE <<< PAGE_SHIFT) pages outcome

def endLocked (d : Device) : Device :=
  if d.cycleBuffer = 0 then d
  else { d with readPtr := 0, writePtr := 0, cycleBuffer := 0, ring := [] }

def endInterface (d : Device) (outcome : Down) : Device × Int :=
  match outcome with
  | .interrupted => (d, -EINTR)
  | .acquired => (up (endLocked (down d)), 0)

end SysMonitor.Source.Interface
