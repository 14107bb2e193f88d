import Mathlib.Algebra.Group.Nat.Defs
import Mathlib.Data.List.Basic

/-!
# Bytes, C strings and the faults a C function can commit

The kernel module is C for 32-bit ARM. A function of the model that follows a
pointer or indexes an array returns `Except Fault`: where the C program would have
undefined behaviour the model stops, so "no fault" is a statement about the code.
-/

namespace SysMonitor.Source

abbrev Byte := BitVec 8

/-- An `int`, `unsigned int` or `long` of the 32-bit machine, as its bit pattern. -/
abbrev Word := BitVec 32

/-- What the C program must never do. -/
inductive Fault where
  | outOfBounds
  | nullPointer
  | useAfterFree
  | doubleFree
  | assertion
  | diverged
  /-- User memory that cannot be read, read without care. -/
  | badAddress
  deriving DecidableEq, Repr

/-- The outcome of `down_interruptible`: zero with the semaphore taken, or non-zero
because a signal arrived. -/
inductive Down where
  | acquired
  | interrupted
  deriving DecidableEq, Repr

/-- Kernel space: the top gigabyte of the 32-bit address space. -/
def kernelSpace : Nat := 2 ^ 30

/-- A NUL-terminated string of the kernel, without its terminator. The string and
its terminator lie in kernel space. -/
structure CString where
  bytes : List Byte
  nulFree : 0 ∉ bytes
  fits : bytes.length < kernelSpace
  deriving DecidableEq

namespace CString

def empty : CString := ⟨[], by simp, by decide⟩

/-- `strlen` -/
def strlen (s : CString) : Nat := s.bytes.length

/-- The string as it lies in memory. -/
def terminated (s : CString) : List Byte := s.bytes ++ [0]

@[ext] theorem ext {s t : CString} (same : s.bytes = t.bytes) : s = t := by
  cases s; cases t; simp_all

@[simp] theorem terminated_length (s : CString) : s.terminated.length = s.strlen + 1 := by
  simp [terminated, strlen]

end CString

/-- What is at an address that a program gave: a string, or a text that cannot be read to its
end. -/
inductive UserText where
  | whole (text : CString)
  /-- `printed`: a message can print it all the same. The address is in the first page, for
  which `printk` writes `<NULL>`, or it is one of the kernel's. -/
  | broken (text : CString) (printed : Bool)
  deriving DecidableEq

namespace UserText

/-- What can be read of it. -/
def text : UserText → CString
  | whole text | broken text _ => text

/-- A message with `%s` gets over it. -/
def prints : UserText → Bool
  | whole _ => true
  | broken _ printed => printed

/-- The string, if it can be read to its end. -/
def string : UserText → Option CString
  | whole text => some text
  | broken _ _ => none

end UserText

end SysMonitor.Source
