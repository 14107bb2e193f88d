import SysMonitor.Source.DeviceAccess

/-!
# One process at a time reads the device

`interface_read` checks no owner: it relies on the file system, which reads only through
a handle, and a handle exists only when `interface_open` returned 0. It returns 0 always,
so exclusivity holds exactly as long as every open does take the device.
-/

namespace SysMonitor.Guarantees.SingleReader
open SysMonitor.Library SysMonitor.Source SysMonitor.Source.Interface

def EBADF : Int := 9

/-- The device with its open handles; a handle remembers the process that opened it. -/
structure Vfs where
  device : Device
  handles : Nat → Option Pid
  next : Nat

/-- No handle is open. -/
def closed (device : Device) : Vfs := ⟨device, fun _ => none, 0⟩

/-- A call through the file system, or a write of the logger. A handle may be read and
released by a process that did not open it. -/
inductive VfsCall where
  | open (current : Pid) (fMode : Word) (outcome : Down)
  | read (handle : Nat) (current : Pid) (count : Nat) (user : UserCopy) (outcome : Down)
  | release (handle : Nat) (current : Pid) (outcome : Down)
  | write (buffer : List Byte) (outcome : Down)

/-- An open that returns 0 makes a handle. Reads and releases reach the device only
through an open handle; a release closes it whatever the device returns. -/
def vfsStep (s : Vfs) : VfsCall → Except Fault (Vfs × Int)
  | .open current fMode outcome =>
    let (device, result) := interfaceOpen s.device current fMode outcome
    if result = 0 then
      .ok (⟨device, Function.update s.handles s.next (some current), s.next + 1⟩, result)
    else .ok ({ s with device }, result)
  | .read handle _ count user outcome =>
    match s.handles handle with
    | none => .ok (s, -EBADF)
    | some _ => do
      let (device, result) ← interfaceRead s.device count user outcome
      return ({ s with device }, result.returned)
  | .release handle current outcome =>
    match s.handles handle with
    | none => .ok (s, -EBADF)
    | some _ =>
      let (device, result) := interfaceRelease s.device current outcome
      .ok ({ s with device, handles := Function.update s.handles handle none }, result)
  | .write buffer outcome => do
    let device ← writeToInterface s.device buffer outcome
    return ({ s with device }, 0)

/-- An open returns 0 exactly when it made the caller the owner; a read that removes
bytes is one of the owner. -/
def Exclusive (s : Vfs) : VfsCall → Vfs → Int → Prop
  | .open current _ _, t, result =>
    result = 0 ↔ s.device.ownerPid ≠ current.val ∧ t.device.ownerPid = current.val
  | .read _ current _ _ _, t, _ =>
    getUsedSize t.device < getUsedSize s.device → s.device.ownerPid = current.val
  | _, _, _ => True

instance (s : Vfs) (call : VfsCall) (t : Vfs) (result : Int) :
    Decidable (Exclusive s call t result) := by
  cases call <;> (unfold Exclusive; infer_instance)

/-- Every open finds the device free, asks for reading only and is not interrupted; every
read through a handle is one of the process that opened it. -/
def Undisputed (s : Vfs) : VfsCall → Prop
  | .open _ fMode outcome =>
    outcome = .acquired ∧ s.device.ownerPid = 0 ∧ FMODE_WRITE &&& fMode = 0
  | .read handle current _ _ _ => s.handles handle = none ∨ s.handles handle = some current
  | _ => True

instance (s : Vfs) (call : VfsCall) : Decidable (Undisputed s call) := by
  cases call <;> (unfold Undisputed; infer_instance)

section Step

variable {s t : Vfs} {result : Int}

/-- The owner is the process that opened the one open handle. -/
def OwnersHandle (s : Vfs) : Prop :=
  ∀ i opener, s.handles i = some opener →
    s.device.ownerPid = opener.val ∧ ∀ j other, s.handles j = some other → j = i

/-- An open that gets the semaphore makes a handle, whatever it found. -/
theorem vfsStep_open (s : Vfs) (current : Pid) (fMode : Word) :
    vfsStep s (.open current fMode .acquired)
      = .ok (⟨up (openLocked (down s.device) current fMode).1,
          Function.update s.handles s.next (some current), s.next + 1⟩, 0) := rfl

/-- An open that succeeds as it says is one that is undisputed. -/
theorem open_exclusive_iff {current : Pid} {fMode : Word} {outcome : Down}
    (step : vfsStep s (.open current fMode outcome) = .ok (t, result)) :
    Exclusive s (.open current fMode outcome) t result
      ↔ Undisputed s (.open current fMode outcome) := by
  have pos := current.property
  unfold Exclusive Undisputed
  cases outcome with
  | interrupted =>
    cases step
    refine iff_of_false ?_ (by simp)
    intro honest
    obtain ⟨other, same⟩ := honest.mp rfl
    exact other same
  | acquired =>
    rw [vfsStep_open, Except.ok.injEq, Prod.mk.injEq] at step
    obtain ⟨rfl, rfl⟩ := step
    have owner := openLocked_owner (down s.device) current fMode
    have before : (down s.device).ownerPid = s.device.ownerPid := rfl
    rw [before] at owner
    simp only [true_iff, true_and]
    change s.device.ownerPid ≠ current.val ∧
      (openLocked (down s.device) current fMode).1.ownerPid = current.val ↔ _
    rw [owner]
    by_cases took : s.device.ownerPid = 0 ∧ FMODE_WRITE &&& fMode = 0
    · rw [if_pos took]
      exact iff_of_true ⟨by omega, rfl⟩ took
    · rw [if_neg took]
      exact iff_of_false (fun ⟨other, same⟩ => other same) took

/-- One step of an undisputed run. -/
theorem vfsStep_exclusive (s : Vfs) (call : VfsCall) (t : Vfs) (result : Int)
    (handle : OwnersHandle s) (undisputed : Undisputed s call)
    (step : vfsStep s call = .ok (t, result)) :
    Exclusive s call t result ∧ OwnersHandle t := by
  cases call with
  | «open» current fMode outcome =>
    refine ⟨(open_exclusive_iff step).mpr undisputed, ?_⟩
    obtain ⟨rfl, free, reads⟩ := undisputed
    -- the device is free, so no handle was open
    have none_open : ∀ i opener, s.handles i ≠ some opener := by
      intro i opener found
      have owner := (handle i opener found).1
      have pos := opener.property
      omega
    rw [vfsStep_open, Except.ok.injEq, Prod.mk.injEq] at step
    obtain ⟨rfl, rfl⟩ := step
    have took := openLocked_owner (down s.device) current fMode
    rw [if_pos ⟨free, reads⟩] at took
    have only : ∀ i opener,
        Function.update s.handles s.next (some current) i = some opener → i = s.next := by
      intro i opener found
      by_contra other
      rw [Function.update_of_ne other] at found
      exact none_open i opener found
    intro i opener found
    obtain rfl := only i opener found
    refine ⟨?_, only⟩
    dsimp only at found
    rw [Function.update_self, Option.some.injEq] at found
    exact took.trans (congrArg Subtype.val found)
  | read i current count user outcome =>
    rw [vfsStep] at step
    cases found : s.handles i with
    | none =>
      rw [found] at step
      cases step
      exact ⟨fun less => absurd less (Nat.lt_irrefl _), handle⟩
    | some opener =>
      rw [found] at step
      obtain ⟨⟨device, answer⟩, read, same⟩ := bind_eq_ok step
      cases same
      have kept := (interfaceRead_keeps read).1
      refine ⟨fun _ => ?_, fun j other open_j => ?_⟩
      · have mine : s.handles i = some current :=
          undisputed.resolve_left (by rw [found]; simp)
        exact (handle i current mine).1
      · obtain ⟨owner, only⟩ := handle j other open_j
        exact ⟨kept.trans owner, only⟩
  | release i current outcome =>
    rw [vfsStep] at step
    cases found : s.handles i with
    | none =>
      rw [found] at step
      cases step
      exact ⟨trivial, handle⟩
    | some opener =>
      rw [found] at step
      cases step
      refine ⟨trivial, fun j other open_j => ?_⟩
      dsimp only at open_j
      by_cases same : j = i
      · rw [same, Function.update_self] at open_j
        simp at open_j
      · rw [Function.update_of_ne same] at open_j
        exact absurd ((handle i opener found).2 j other open_j) same
  | write buffer outcome =>
    obtain ⟨device, wrote, same⟩ := bind_eq_ok step
    cases same
    have kept := (writeToInterface_keeps wrote).1
    refine ⟨trivial, fun j other open_j => ?_⟩
    obtain ⟨owner, only⟩ := handle j other open_j
    exact ⟨kept.trans owner, only⟩

end Step

/-- In every run, from any device without open handles, in which the device is never
disputed, every open returns 0 exactly when it took the device, and only the owner removes
bytes. -/
theorem undisputed_reads_exclusive (d : Device) (calls : List VfsCall)
    (admitted : Admitted vfsStep Undisputed (closed d) calls) :
    EveryStep vfsStep Exclusive (closed d) calls := by
  refine everyStep_of_admitted OwnersHandle vfsStep_exclusive calls _ ?_ admitted
  intro i opener found
  simp [closed] at found

/-- A device with a ring of four bytes. -/
def fourBytes : Device :=
  (beginInterfaceSized initial 4 (some (4096, [0, 0, 0, 0])) .acquired).1

/-- One process after the other opens the device and reads it. -/
theorem undisputed_reads_exclusive_in_turn :
    EveryStep vfsStep Exclusive (closed fourBytes)
      [.open ⟨7, by decide⟩ 1 .acquired, .write [1, 2, 3] .acquired,
        .read 0 ⟨7, by decide⟩ 2 .complete .acquired, .release 0 ⟨7, by decide⟩ .acquired,
        .open ⟨8, by decide⟩ 1 .acquired, .read 1 ⟨8, by decide⟩ 2 .complete .acquired] :=
  undisputed_reads_exclusive fourBytes _ (by decide +kernel)

/-- An open of a device that is taken, one with write access and one that is interrupted
all return 0 without taking the device, and the second process reads the owner's bytes. -/
theorem refused_open_returns_zero :
    ¬ EveryStep vfsStep Exclusive (closed fourBytes)
      [.open ⟨7, by decide⟩ 1 .acquired, .open ⟨8, by decide⟩ 1 .acquired] ∧
    ¬ EveryStep vfsStep Exclusive (closed fourBytes) [.open ⟨7, by decide⟩ 3 .acquired] ∧
    ¬ EveryStep vfsStep Exclusive (closed fourBytes) [.open ⟨7, by decide⟩ 1 .interrupted] ∧
    (run vfsStep (closed fourBytes)
      [.open ⟨7, by decide⟩ 1 .acquired, .write [1, 2, 3] .acquired,
        .open ⟨8, by decide⟩ 1 .acquired, .read 1 ⟨8, by decide⟩ 2 .complete .acquired]).map
      (fun r => (r.2, r.1.device.ownerPid)) = .ok ([0, 0, 0, 2], 7) := by
  decide +kernel

end SysMonitor.Guarantees.SingleReader
