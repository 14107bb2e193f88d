import SysMonitor.Library.Runs
import SysMonitor.Source.KernelStrings
import SysMonitor.Source.Reader

/-!
# `ReadContent` of native/jni/interface.cpp in the reader's memory

The two `strlen` calls go on behind the block of `malloc` when there is no NUL in it. The
pointers that are returned are offsets into the block.
-/

namespace SysMonitor.Source.Reader
open SysMonitor.Library SysMonitor.Library.TerminatedStrings SysMonitor.Source.Interface
open SysMonitor.Source.KernelStrings

/-- `*path` and `*details` -/
structure Located where
  path : Nat
  details : Nat
  deriving DecidableEq

/-- `ReadContent`, with the memory behind the block. -/
def readContentIn (d : Device) (contentSize _pathOffset _detailsOffset : Word) (malloc : Bool)
    (beyond : List Byte) (user : UserCopy) (outcome : Down) :
    Except Fault (Device × Option Located) := do
  if contentSize.toInt ≤ 0 then return (d, none)
  if !malloc then return (d, none)
  let (d, result) ← interfaceRead d contentSize.toNat user outcome
  if result.returned ≠ contentSize.toInt then return (d, none)
  let memory := result.delivered ++ beyond
  let path := 0
  let pathSize ← strlen (memory.drop path)
  let details := path + pathSize + 1
  let _ ← strlen (memory.drop details)
  return (d, some ⟨path, details⟩)

/-- Each of the two strings has a NUL inside the block. -/
def Located.Inside (content : List Byte) (found : Located) : Prop :=
  0 ∈ content.drop found.path ∧ 0 ∈ content.drop found.details

section Reads

variable {d d' : Device}

theorem ringBytes_length {src n : Nat} {bytes : List Byte} (read : ringBytes d src n = .ok bytes) :
    bytes.length = n := by
  unfold ringBytes at read
  split at read
  · cases read
    rw [List.length_take, List.length_drop]
    omega
  · cases read

theorem readStraight_counts {min copyed uncopied : Nat} {delivered : List Byte} {result : ReadResult}
    (length : delivered.length = copyed)
    (read : readStraight d min copyed delivered uncopied = .ok (d', result)) :
    result.returned = result.delivered.length := by
  unfold readStraight at read
  split at read
  · obtain ⟨bytes, stored, read⟩ := bind_eq_ok read
    cases read
    have more := ringBytes_length stored
    dsimp only
    rw [List.length_append, List.length_take, length, more]
    omega
  · cases read
    rw [length]

theorem readLocked_counts {count : Nat} {user : UserCopy} {result : ReadResult}
    (read : readLocked d count user = .ok (d', result)) :
    result.returned = result.delivered.length := by
  unfold readLocked at read
  dsimp only at read
  generalize (if count > getUsedSize d then getUsedSize d else count) = min at read
  generalize d.cycleBufferSize - (d.readPtr - d.cycleBuffer) = firstSize at read
  by_cases empty : d.readPtr = d.writePtr
  · rw [if_pos empty] at read
    cases read
    rfl
  rw [if_neg empty] at read
  by_cases across : d.readPtr > d.writePtr ∧ firstSize ≤ min
  · rw [if_pos across] at read
    by_cases none : firstSize = 0
    · rw [if_pos none] at read
      cases read
    · rw [if_neg none] at read
      obtain ⟨bytes, first, read⟩ := bind_eq_ok read
      have length := ringBytes_length first
      split at read
      · exact readStraight_counts length read
      · cases read
        dsimp only
        rw [List.length_take, length]
        omega
  · rw [if_neg across] at read
    exact readStraight_counts List.length_nil read

/-- Unless it fails, a read delivers as many bytes as it reports. -/
theorem interfaceRead_counts {count : Nat} {user : UserCopy} {outcome : Down} {result : ReadResult}
    (read : interfaceRead d count user outcome = .ok (d', result)) (done : 0 ≤ result.returned) :
    result.returned = result.delivered.length := by
  cases outcome with
  | interrupted =>
    cases read
    exact absurd done (by decide)
  | acquired =>
    obtain ⟨⟨e, result'⟩, locked, read⟩ := bind_eq_ok read
    cases read
    exact readLocked_counts locked

end Reads

end SysMonitor.Source.Reader
