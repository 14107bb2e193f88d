import SysMonitor.Source.KernelStrings
import SysMonitor.Source.LogStorage
import SysMonitor.Source.LogText
import SysMonitor.Source.FileHooks

/-!
# From a descriptor to a path, byte by byte: driver/sys_calls/open.c

`get_absolute_path_by_fd` with its temporary buffer, its pointers and the reference it holds on
the file. Source.Process has the same function as its callers see it.
-/

namespace SysMonitor.Source.AbsolutePath
open SysMonitor.Library.CyclicBuffer SysMonitor.Source.KernelStrings

/-- A pointer into the temporary buffer, or an error number in its place. -/
inductive Pointer where
  | inside (offset : Nat)
  | error (errno : Int)
  deriving DecidableEq

/-- `IS_ERR` -/
def IS_ERR : Pointer → Bool
  | .inside _ => false
  | .error _ => true

def ENAMETOOLONG : Int := 36

/-- The string at a pointer; an error number is no address. -/
def stringAtPointer (buffer : List Byte) : Pointer → Except Fault (List Byte)
  | .inside offset => stringIn (buffer.drop offset)
  | .error _ => .error .outOfBounds

/-- `d_path` builds the path at the end of the buffer, where it fits with its NUL. -/
def dPath (path : CText) (buffer : List Byte) : List Byte × Pointer :=
  if path.1.length + 1 ≤ buffer.length then
    let start := buffer.length - (path.1.length + 1)
    (splice buffer start (path.1 ++ [0]), .inside start)
  else (buffer, .error ENAMETOOLONG)

/-- What a call meets: the file that `fget` finds, its path, and what `kmalloc` finds for the
temporary buffer and for the copy. -/
structure FileByFd where
  file : Option Nat
  path : CText
  tmpMemory : Option (Nat → Byte)
  pathMemory : Option (Nat → Byte)

/-- The reference counts of files, and the temporary buffers that are allocated. -/
structure Held where
  files : Nat → Int
  buffers : Int

namespace Held

def fget (h : Held) (file : Nat) : Held :=
  { h with files := Function.update h.files file (h.files file + 1) }

def fput (h : Held) (file : Nat) : Held :=
  { h with files := Function.update h.files file (h.files file - 1) }

def allocateTmp (h : Held) : Held := { h with buffers := h.buffers + 1 }

def freeTmp (h : Held) : Held := { h with buffers := h.buffers - 1 }

end Held

/-- `len`, the size of the temporary buffer. -/
def tmpSize : Nat := 2048

/-- `get_absolute_path_by_fd`: the copy of the path, or NULL. -/
def getAbsolutePathByFd (a : FileByFd) (held : Held) :
    Except Fault (Option (List Byte) × Held) :=
  match a.file with
  | none => .ok (none, held)
  | some f =>
    let held := held.fget f
    match LogStorage.kmalloc tmpSize a.tmpMemory with
    | none => .ok (none, held.fput f)
    | some tPath => do
      let held := held.allocateTmp
      let (tmp, ptr) := dPath a.path tPath
      -- the test is on `t_path`, which points to the buffer's first byte
      let path ←
        if !IS_ERR (.inside 0) then do
          let string ← stringAtPointer tmp ptr
          match LogStorage.kmalloc (string.length + 1) a.pathMemory with
          | none => pure none
          | some path => do
            let string ← stringAtPointer tmp ptr
            let path ← strcpy path (string ++ [0])
            pure (some path)
        else pure none
      return (path, held.freeTmp.fput f)

/-- The call as the callers see it. -/
def answersOf (a : FileByFd) : Process.FileAnswers where
  file := a.file.isSome
  tmpRoom := (LogStorage.kmalloc tmpSize a.tmpMemory).isSome
  dPath := if a.path.1.length + 1 ≤ tmpSize then some (.ofBytes a.path.1) else none
  pathRoom := (LogStorage.kmalloc (a.path.1.length + 1) a.pathMemory).isSome

end SysMonitor.Source.AbsolutePath
