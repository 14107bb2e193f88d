import SysMonitor.Library.LittleEndian
import SysMonitor.Source.Memory

/-!
# share/log_def.h

The header of a log record as both sides see it: ten 32-bit words in declaration
order, little-endian. Operation and api are `enum`s, stored as `int`.
-/

namespace SysMonitor.Source
open SysMonitor.Library

structure LogHeader where
  sec : Word
  nsec : Word
  pid : Word
  tid : Word
  operation : Word
  api : Word
  result : Word
  pathOffset : Word
  detailsOffset : Word
  contentSize : Word
  deriving DecidableEq, Repr

namespace LogHeader

/-- `sizeof(log_header)` -/
def size : Nat := 40

def words (h : LogHeader) : List Word :=
  [h.sec, h.nsec, h.pid, h.tid, h.operation, h.api, h.result, h.pathOffset, h.detailsOffset,
    h.contentSize]

/-- The memory image. -/
def toBytes (h : LogHeader) : List Byte := LittleEndian.encodeWords h.words

/-- What a program finds in a `log_header` after the bytes were stored over it. -/
def ofBytes (bytes : List Byte) : LogHeader :=
  match LittleEndian.decodeWords 10 bytes with
  | [sec, nsec, pid, tid, operation, api, result, pathOffset, detailsOffset, contentSize] =>
    { sec, nsec, pid, tid, operation, api, result, pathOffset, detailsOffset, contentSize }
  | _ => ⟨0, 0, 0, 0, 0, 0, 0, 0, 0, 0⟩

@[simp] theorem toBytes_length (h : LogHeader) : h.toBytes.length = size := by
  rw [toBytes, LittleEndian.encodeWords_length]
  rfl

/-- The reader finds the fields the writer stored. -/
theorem ofBytes_toBytes (h : LogHeader) (tail : List Byte) : ofBytes (h.toBytes ++ tail) = h := by
  have decoded : LittleEndian.decodeWords 10 (h.toBytes ++ tail) = h.words :=
    LittleEndian.decodeWords_encodeWords h.words tail
  rw [ofBytes, decoded]
  rfl

end LogHeader

end SysMonitor.Source
