import SysMonitor.Library.Runs
import SysMonitor.Source.Interface

/-!
# What each body of the device leaves alone

No body between a `down_interruptible` and its `up` touches the semaphore, and reading
and writing leave the owner and the ready flag alone. This holds on any device, also
where the ring's pointers are not valid.
-/

namespace SysMonitor.Source.Interface
open SysMonitor.Library SysMonitor.Library.CyclicBuffer

/-- The variables that the ring's reader and writer leave alone. -/
structure SameControl (d d' : Device) : Prop where
  sem : d'.sem = d.sem
  ready : d'.deviceReady = d.deviceReady
  owner : d'.ownerPid = d.ownerPid
  size : d'.cycleBufferSize = d.cycleBufferSize
  base : d'.cycleBuffer = d.cycleBuffer

section Control

variable {d d' d'' : Device}

theorem SameControl.refl (d : Device) : SameControl d d := ⟨rfl, rfl, rfl, rfl, rfl⟩

theorem SameControl.trans (first : SameControl d d') (second : SameControl d' d'') :
    SameControl d d'' where
  sem := second.sem.trans first.sem
  ready := second.ready.trans first.ready
  owner := second.owner.trans first.owner
  size := second.size.trans first.size
  base := second.base.trans first.base

theorem memcpyToRing_control {dst : Nat} {bytes : List Byte}
    (copied : memcpyToRing d dst bytes = .ok d') : SameControl d d' := by
  unfold memcpyToRing at copied
  split at copied
  · cases copied
    exact ⟨rfl, rfl, rfl, rfl, rfl⟩
  · cases copied

theorem copyStraight_control {startPos p : Nat} {buffer : List Byte}
    (copied : copyStraight d startPos buffer = .ok (d', p)) : SameControl d d' := by
  unfold copyStraight at copied
  split at copied
  · obtain ⟨d₁, stored, same⟩ := bind_eq_ok copied
    cases same
    exact memcpyToRing_control stored
  · cases copied
    exact .refl d

theorem copyToBuffer_control {startPos p : Nat} {buffer : List Byte}
    (copied : copyToBuffer d startPos buffer = .ok (d', p)) : SameControl d d' := by
  unfold copyToBuffer at copied
  split at copied
  · obtain ⟨d₁, stored, rest⟩ := bind_eq_ok copied
    exact (memcpyToRing_control stored).trans (copyStraight_control rest)
  · exact copyStraight_control copied

theorem writeLocked_control {buffer : List Byte} (wrote : writeLocked d buffer = .ok d') :
    SameControl d d' := by
  unfold writeLocked at wrote
  split at wrote
  · obtain ⟨⟨d₁, p⟩, copied, same⟩ := bind_eq_ok wrote
    obtain ⟨sem, ready, owner, size, base⟩ := copyToBuffer_control copied
    cases same
    exact ⟨sem, ready, owner, size, base⟩
  · cases wrote
    exact .refl d

theorem readStraight_control {min copyed uncopied : Nat} {delivered : List Byte}
    {result : ReadResult} (read : readStraight d min copyed delivered uncopied = .ok (d', result)) :
    SameControl d d' := by
  unfold readStraight at read
  split at read
  · obtain ⟨bytes, -, same⟩ := bind_eq_ok read
    cases same
    exact ⟨rfl, rfl, rfl, rfl, rfl⟩
  · cases read
    exact .refl d

theorem readLocked_control {count : Nat} {user : UserCopy} {result : ReadResult}
    (read : readLocked d count user = .ok (d', result)) : SameControl d d' := by
  unfold readLocked at read
  dsimp only at read
  generalize (if count > getUsedSize d then getUsedSize d else count) = n at read
  split at read
  · cases read
    exact .refl d
  · split at read
    · split at read
      · cases read
      · obtain ⟨bytes, -, rest⟩ := bind_eq_ok read
        split at rest
        · have moved : SameControl d { d with readPtr := d.cycleBuffer } :=
            ⟨rfl, rfl, rfl, rfl, rfl⟩
          exact moved.trans (readStraight_control rest)
        · cases rest
          exact .refl d
    · exact readStraight_control read

/-- Reading leaves the owner and the ready flag alone, also when it is interrupted. -/
theorem interfaceRead_keeps {count : Nat} {user : UserCopy} {outcome : Down}
    {answer : ReadResult} (read : interfaceRead d count user outcome = .ok (d', answer)) :
    d'.ownerPid = d.ownerPid ∧ d'.deviceReady = d.deviceReady := by
  cases outcome with
  | interrupted =>
    cases read
    exact ⟨rfl, rfl⟩
  | acquired =>
    obtain ⟨⟨d₁, answer₁⟩, ran, same⟩ := bind_eq_ok read
    have kept := readLocked_control ran
    cases same
    exact ⟨kept.owner, kept.ready⟩

/-- So does writing. -/
theorem writeToInterface_keeps {buffer : List Byte} {outcome : Down}
    (wrote : writeToInterface d buffer outcome = .ok d') :
    d'.ownerPid = d.ownerPid ∧ d'.deviceReady = d.deviceReady := by
  unfold writeToInterface at wrote
  split at wrote
  · cases wrote
    exact ⟨rfl, rfl⟩
  · split at wrote
    · cases wrote
      exact ⟨rfl, rfl⟩
    · cases outcome with
      | interrupted =>
        cases wrote
        exact ⟨rfl, rfl⟩
      | acquired =>
        obtain ⟨d₁, ran, same⟩ := bind_eq_ok wrote
        have kept := writeLocked_control ran
        cases same
        exact ⟨kept.owner, kept.ready⟩

end Control

/-- What `interface_open` does to the owner. -/
theorem openLocked_owner (d : Device) (current : Pid) (fMode : Word) :
    (openLocked d current fMode).1.ownerPid
      = if d.ownerPid = 0 ∧ FMODE_WRITE &&& fMode = 0 then current.val else d.ownerPid := by
  unfold openLocked
  by_cases free : d.ownerPid = 0
  · rw [if_neg (not_not.mpr free.symm)]
    by_cases reads : FMODE_WRITE &&& fMode = 0
    · rw [if_neg (not_not.mpr reads), if_pos ⟨free, reads⟩]
    · rw [if_pos reads, if_neg fun both => reads both.2]
  · rw [if_pos (Ne.symm free), if_neg fun both => free both.1]

/-- It wakes the logger up exactly when it takes the device. -/
theorem openLocked_ready (d : Device) (current : Pid) (fMode : Word) :
    (openLocked d current fMode).1.deviceReady
      = if d.ownerPid = 0 ∧ FMODE_WRITE &&& fMode = 0 then true else d.deviceReady := by
  unfold openLocked
  by_cases free : d.ownerPid = 0
  · rw [if_neg (not_not.mpr free.symm)]
    by_cases reads : FMODE_WRITE &&& fMode = 0
    · rw [if_neg (not_not.mpr reads), if_pos ⟨free, reads⟩]
    · rw [if_pos reads, if_neg fun both => reads both.2]
  · rw [if_pos (Ne.symm free), if_neg fun both => free both.1]

end SysMonitor.Source.Interface
