import SysMonitor.Guarantees.SingleReader

/-!
# Ownership and the open handle

The file system calls `interface_release` once for every handle, from whichever task drops
the last reference, and ignores what it returns. The device tells handles apart only by the
pid of that task. So the ownership ends with the handle that took it exactly when this
handle is released by the owner, without a signal, and no other handle is.
-/

namespace SysMonitor.Guarantees.HandleOwnership
open SysMonitor.Library SysMonitor.Source SysMonitor.Source.Interface
open SysMonitor.Guarantees.SingleReader

/-- The open handles and, as a ghost, which of them took ownership when it was opened. -/
structure Tracked where
  vfs : Vfs
  took : Nat → Bool

/-- This open made the free device an owned one. -/
def tookOwnership (before after : Device) : Bool := before.ownerPid == 0 && after.ownerPid != 0

def trackedStep (s : Tracked) (call : VfsCall) : Except Fault (Tracked × Int) := do
  let (vfs, result) ← vfsStep s.vfs call
  let took := match call with
    | .open _ _ _ =>
      Function.update s.took s.vfs.next (tookOwnership s.vfs.device vfs.device)
    | _ => s.took
  return (⟨vfs, took⟩, result)

/-- The handle is open and took ownership. -/
def Owning (s : Tracked) (i : Nat) : Prop := s.vfs.handles i ≠ none ∧ s.took i = true

instance (s : Tracked) (i : Nat) : Decidable (Owning s i) :=
  inferInstanceAs (Decidable (_ ∧ _))

/-- The device is owned and awake while a handle that took ownership is open, and free and
asleep otherwise. -/
def Follows (_ : Tracked) (_ : VfsCall) (t : Tracked) (_ : Int) : Prop :=
  if ∃ i < t.vfs.next, Owning t i then
    t.vfs.device.ownerPid ≠ 0 ∧ t.vfs.device.deviceReady = true
  else t.vfs.device.ownerPid = 0 ∧ t.vfs.device.deviceReady = false

instance (s : Tracked) (call : VfsCall) (t : Tracked) (result : Int) :
    Decidable (Follows s call t result) := by
  unfold Follows
  infer_instance

/-- A handle is released by the owner without a signal exactly when it took ownership. -/
def OwnersRelease (s : Tracked) : VfsCall → Prop
  | .release i current outcome => s.vfs.handles i ≠ none →
      ((outcome = .acquired ∧ current.val = s.vfs.device.ownerPid) ↔ s.took i = true)
  | _ => True

instance (s : Tracked) : ∀ call, Decidable (OwnersRelease s call)
  | .release _ _ _ => inferInstanceAs (Decidable (_ ≠ _ → (_ ∧ _ ↔ _)))
  | .open _ _ _ | .read _ _ _ _ _ | .write _ _ => .isTrue trivial

/-- The device belongs to the one open handle that took ownership, if there is one. -/
structure Consistent (s : Tracked) : Prop where
  fresh : ∀ i, s.vfs.next ≤ i → s.vfs.handles i = none
  owned : ∀ i, Owning s i → s.vfs.device.ownerPid ≠ 0 ∧ s.vfs.device.deviceReady = true ∧
    ∀ j, Owning s j → j = i
  free : (∀ i, ¬Owning s i) → s.vfs.device.ownerPid = 0 ∧ s.vfs.device.deviceReady = false

section Step

variable {s t : Tracked} {result : Int} {call : VfsCall}

theorem Consistent.below (consistent : Consistent s) {i : Nat} (owning : Owning s i) :
    i < s.vfs.next := by
  by_contra above
  exact owning.1 (consistent.fresh i (Nat.le_of_not_lt above))

theorem Consistent.follows (consistent : Consistent t) : Follows s call t result := by
  unfold Follows
  split
  · next some_owner =>
    obtain ⟨i, -, owning⟩ := some_owner
    obtain ⟨owner, ready, -⟩ := consistent.owned i owning
    exact ⟨owner, ready⟩
  · next none_owner =>
    apply consistent.free
    intro i owning
    exact none_owner ⟨i, consistent.below owning, owning⟩

/-- Where the same handles own and the device has the same owner, nothing is to be shown. -/
theorem Consistent.of_same (consistent : Consistent s)
    (fresh : ∀ i, t.vfs.next ≤ i → t.vfs.handles i = none)
    (same : ∀ i, Owning t i ↔ Owning s i)
    (owner : t.vfs.device.ownerPid = s.vfs.device.ownerPid)
    (ready : t.vfs.device.deviceReady = s.vfs.device.deviceReady) : Consistent t := by
  constructor
  · exact fresh
  · intro i owning
    obtain ⟨owner_s, ready_s, only⟩ := consistent.owned i ((same i).mp owning)
    rw [owner, ready]
    exact ⟨owner_s, ready_s, fun j other => only j ((same j).mp other)⟩
  · intro none_owner
    rw [owner, ready]
    exact consistent.free fun i owning => none_owner i ((same i).mpr owning)

/-- A call that changes neither the handles nor the ownership. -/
theorem Consistent.congr (consistent : Consistent s) (handles : t.vfs.handles = s.vfs.handles)
    (next : t.vfs.next = s.vfs.next) (took : t.took = s.took)
    (owner : t.vfs.device.ownerPid = s.vfs.device.ownerPid)
    (ready : t.vfs.device.deviceReady = s.vfs.device.deviceReady) : Consistent t := by
  refine consistent.of_same (fun i above => ?_) (fun i => ?_) owner ready
  · rw [handles]
    exact consistent.fresh i (next ▸ above)
  · rw [Owning, Owning, handles, took]

/-- An open leaves the ownership alone, or takes a free device. -/
theorem interfaceOpen_owner (d : Device) (current : Pid) (fMode : Word) (outcome : Down) :
    ((interfaceOpen d current fMode outcome).1.ownerPid = d.ownerPid ∧
        (interfaceOpen d current fMode outcome).1.deviceReady = d.deviceReady) ∨
      (d.ownerPid = 0 ∧ (interfaceOpen d current fMode outcome).1.ownerPid = current.val ∧
        (interfaceOpen d current fMode outcome).1.deviceReady = true) := by
  cases outcome with
  | interrupted => exact .inl ⟨rfl, rfl⟩
  | acquired =>
    have owner : (interfaceOpen d current fMode .acquired).1.ownerPid
        = (openLocked (down d) current fMode).1.ownerPid := rfl
    have ready : (interfaceOpen d current fMode .acquired).1.deviceReady
        = (openLocked (down d) current fMode).1.deviceReady := rfl
    rw [owner, ready, openLocked_owner, openLocked_ready]
    by_cases took : (down d).ownerPid = 0 ∧ FMODE_WRITE &&& fMode = 0
    · rw [if_pos took, if_pos took]
      exact .inr ⟨took.1, rfl, rfl⟩
    · rw [if_neg took, if_neg took]
      exact .inl ⟨rfl, rfl⟩

/-- An open makes a handle; it owns the device exactly when the open took it. -/
theorem open_consistent (consistent : Consistent s) {current : Pid} {fMode : Word}
    {outcome : Down} (step : trackedStep s (.open current fMode outcome) = .ok (t, result)) :
    Consistent t := by
  have pos := current.property
  have effect := interfaceOpen_owner s.vfs.device current fMode outcome
  obtain ⟨d, d_eq⟩ : ∃ d, d = (interfaceOpen s.vfs.device current fMode outcome).1 := ⟨_, rfl⟩
  have opened : t = ⟨⟨d, Function.update s.vfs.handles s.vfs.next (some current),
      s.vfs.next + 1⟩, Function.update s.took s.vfs.next (tookOwnership s.vfs.device d)⟩ := by
    cases outcome <;> (cases step; rw [d_eq]; rfl)
  rw [← d_eq] at effect
  have old : ∀ i, i ≠ s.vfs.next → (Owning t i ↔ Owning s i) := by
    intro i other
    rw [opened, Owning, Owning]
    dsimp only
    rw [Function.update_of_ne other, Function.update_of_ne other]
  have new : Owning t s.vfs.next ↔ tookOwnership s.vfs.device d = true := by
    rw [opened, Owning]
    dsimp only
    rw [Function.update_self, Function.update_self]
    simp
  have fresh : ∀ i, t.vfs.next ≤ i → t.vfs.handles i = none := by
    intro i above
    rw [opened] at above ⊢
    dsimp only at above ⊢
    rw [Function.update_of_ne (by omega)]
    exact consistent.fresh i (by omega)
  have device : t.vfs.device = d := by rw [opened]
  rcases effect with ⟨owner, ready⟩ | ⟨zero, owner, ready⟩
  · refine consistent.of_same fresh (fun i => ?_) (by rw [device, owner]) (by rw [device, ready])
    by_cases here : i = s.vfs.next
    · rw [here, new, tookOwnership, owner]
      exact iff_of_false (by simp) fun owning => Nat.lt_irrefl _ (consistent.below owning)
    · exact old i here
  · have only_new : ∀ i, Owning t i → i = s.vfs.next := by
      intro i owning
      by_contra other
      exact (consistent.owned i ((old i other).mp owning)).1 zero
    constructor
    · exact fresh
    · intro i owning
      rw [device, owner, ready]
      constructor
      · omega
      · exact ⟨rfl, fun j other => (only_new j other).trans (only_new i owning).symm⟩
    · intro none_owner
      apply absurd _ (none_owner s.vfs.next)
      rw [new, tookOwnership, zero, owner]
      simp
      omega

/-- What a release does, and that the handle is closed. -/
theorem release_cases {i : Nat} {current opener : Pid} {outcome : Down}
    (found : s.vfs.handles i = some opener)
    (step : trackedStep s (.release i current outcome) = .ok (t, result)) :
    t.vfs.handles = Function.update s.vfs.handles i none ∧ t.vfs.next = s.vfs.next ∧
      t.took = s.took ∧
      if outcome = .acquired ∧ current.val = s.vfs.device.ownerPid then
        t.vfs.device.ownerPid = 0 ∧ t.vfs.device.deviceReady = false
      else t.vfs.device.ownerPid = s.vfs.device.ownerPid ∧
        t.vfs.device.deviceReady = s.vfs.device.deviceReady := by
  rw [trackedStep, vfsStep, found] at step
  cases outcome with
  | interrupted =>
    cases step
    exact ⟨rfl, rfl, rfl, by simp⟩
  | acquired =>
    cases step
    constructor
    · rfl
    · by_cases mine : current.val = s.vfs.device.ownerPid
      · simp [releaseLocked, mine, up, down]
      · simp [releaseLocked, mine, up, down]

theorem owning_release {i : Nat} (handles : t.vfs.handles = Function.update s.vfs.handles i none)
    (took : t.took = s.took) (j : Nat) : Owning t j ↔ j ≠ i ∧ Owning s j := by
  rw [Owning, Owning, handles, took]
  by_cases here : j = i
  · rw [here, Function.update_self]
    simp
  · rw [Function.update_of_ne here]
    simp [here]

/-- A release that meets the condition keeps the device with its handle. -/
theorem release_consistent (consistent : Consistent s) {i : Nat} {current opener : Pid}
    {outcome : Down} (found : s.vfs.handles i = some opener)
    (mine : (outcome = .acquired ∧ current.val = s.vfs.device.ownerPid) ↔ s.took i = true)
    (step : trackedStep s (.release i current outcome) = .ok (t, result)) : Consistent t := by
  obtain ⟨handles, next, took, device⟩ := release_cases found step
  have owning := owning_release handles took
  have is_open : s.vfs.handles i ≠ none := by simp [found]
  have fresh : ∀ j, t.vfs.next ≤ j → t.vfs.handles j = none := by
    intro j above
    rw [handles]
    by_cases here : j = i
    · rw [here, Function.update_self]
    · rw [Function.update_of_ne here]
      exact consistent.fresh j (next ▸ above)
  by_cases took_i : s.took i = true
  · rw [if_pos (mine.mpr took_i)] at device
    have nobody : ∀ j, ¬Owning t j := by
      intro j owns
      obtain ⟨other, owns⟩ := (owning j).mp owns
      exact other ((consistent.owned i ⟨is_open, took_i⟩).2.2 j owns)
    exact ⟨fresh, fun j owns => absurd owns (nobody j), fun _ => device⟩
  · rw [if_neg (fun both => took_i (mine.mp both))] at device
    refine consistent.of_same fresh (fun j => ?_) device.1 device.2
    rw [owning]
    apply and_iff_right_of_imp
    rintro owns rfl
    exact took_i owns.2

/-- A release that does not meet it separates the two. -/
theorem release_breaks (consistent : Consistent s) {i : Nat} {current opener : Pid}
    {outcome : Down} (found : s.vfs.handles i = some opener)
    (wrong : ¬((outcome = .acquired ∧ current.val = s.vfs.device.ownerPid) ↔ s.took i = true))
    (step : trackedStep s (.release i current outcome) = .ok (t, result)) :
    ¬Follows s (.release i current outcome) t result := by
  have pos := current.property
  obtain ⟨handles, next, took, device⟩ := release_cases found step
  have owning := owning_release handles took
  have is_open : s.vfs.handles i ≠ none := by simp [found]
  intro follows
  by_cases took_i : s.took i = true
  · -- the owning handle is gone, but the device keeps its owner
    have kept : ¬(outcome = .acquired ∧ current.val = s.vfs.device.ownerPid) :=
      fun both => wrong (iff_of_true both took_i)
    obtain ⟨owner, -, only⟩ := consistent.owned i ⟨is_open, took_i⟩
    have nobody : ¬∃ j < t.vfs.next, Owning t j := by
      rintro ⟨j, -, owns⟩
      obtain ⟨other, owns⟩ := (owning j).mp owns
      exact other (only j owns)
    rw [if_neg kept] at device
    rw [Follows, if_neg nobody, device.1] at follows
    exact owner follows.1
  · -- another handle of the owner takes the device away from the owning one
    have both : outcome = .acquired ∧ current.val = s.vfs.device.ownerPid := by
      by_contra neither
      exact wrong (iff_of_false neither took_i)
    have owner : s.vfs.device.ownerPid ≠ 0 := by rw [← both.2]; omega
    have some_owner : ∃ j, Owning s j := by
      by_contra none_owner
      exact owner (consistent.free fun j owns => none_owner ⟨j, owns⟩).1
    obtain ⟨j, owns⟩ := some_owner
    have other : j ≠ i := by
      rintro rfl
      exact took_i owns.2
    have still : ∃ j < t.vfs.next, Owning t j :=
      ⟨j, next ▸ consistent.below owns, (owning j).mpr ⟨other, owns⟩⟩
    rw [if_pos both] at device
    rw [Follows, if_pos still] at follows
    exact follows.1 device.1

/-- One step. -/
theorem trackedStep_consistent (s : Tracked) (call : VfsCall) (t : Tracked) (result : Int)
    (consistent : Consistent s) (admitted : OwnersRelease s call)
    (step : trackedStep s call = .ok (t, result)) : Consistent t := by
  cases call with
  | «open» current fMode outcome => exact open_consistent consistent step
  | read i current count user outcome =>
    rw [trackedStep, vfsStep] at step
    cases found : s.vfs.handles i with
    | none =>
      rw [found] at step
      cases step
      exact consistent
    | some opener =>
      rw [found] at step
      obtain ⟨⟨vfs, answer⟩, read, same⟩ := bind_eq_ok step
      obtain ⟨⟨device, answer'⟩, ran, same'⟩ := bind_eq_ok read
      obtain ⟨owner, ready⟩ := interfaceRead_keeps ran
      cases same'
      cases same
      exact consistent.congr rfl rfl rfl owner ready
  | release i current outcome =>
    cases found : s.vfs.handles i with
    | none =>
      rw [trackedStep, vfsStep, found] at step
      cases step
      exact consistent
    | some opener =>
      exact release_consistent consistent found (admitted (by simp [found])) step
  | write buffer outcome =>
    rw [trackedStep, vfsStep] at step
    obtain ⟨⟨vfs, answer⟩, wrote, same⟩ := bind_eq_ok step
    obtain ⟨device, ran, same'⟩ := bind_eq_ok wrote
    obtain ⟨owner, ready⟩ := writeToInterface_keeps ran
    cases same'
    cases same
    exact consistent.congr rfl rfl rfl owner ready

/-- A step that does not meet the condition is a release, which is always possible. -/
theorem trackedStep_breaks (s : Tracked) (call : VfsCall) (consistent : Consistent s)
    (wrong : ¬OwnersRelease s call) :
    ∃ t result, trackedStep s call = .ok (t, result) ∧ ¬Follows s call t result := by
  cases call with
  | «open» current fMode outcome => exact absurd trivial wrong
  | read i current count user outcome => exact absurd trivial wrong
  | write buffer outcome => exact absurd trivial wrong
  | release i current outcome =>
    rw [OwnersRelease, Classical.not_imp] at wrong
    obtain ⟨is_open, wrong⟩ := wrong
    obtain ⟨opener, found⟩ := Option.ne_none_iff_exists'.mp is_open
    obtain ⟨t, result, step⟩ : ∃ t result,
        trackedStep s (.release i current outcome) = .ok (t, result) := by
      rw [trackedStep, vfsStep, found]
      exact ⟨_, _, rfl⟩
    exact ⟨t, result, step, release_breaks consistent found wrong step⟩

end Step

/-- The device when `begin_interface` has allocated the ring, before any open. -/
def begun (size address : Nat) (ring : List Byte) : Tracked :=
  ⟨closed (beginInterfaceSized initial size (some (address, ring)) .acquired).1, fun _ => false⟩

/-- In every run of opens, reads, releases and writes the device belongs to the handle that
took it, from its open to its release, exactly when each release by the owner without a
signal is one of that handle, and each release of that handle is one by the owner without a
signal. -/
theorem ownership_follows_iff (size address : Nat) (ring : List Byte) (calls : List VfsCall) :
    EveryStep trackedStep Follows (begun size address ring) calls
      ↔ Admitted trackedStep OwnersRelease (begun size address ring) calls := by
  apply everyStep_iff_admitted Consistent
  · intro s call t result consistent admitted step
    have next := trackedStep_consistent s call t result consistent admitted step
    exact ⟨next.follows, next⟩
  · exact trackedStep_breaks
  · constructor
    · exact fun _ _ => rfl
    · rintro i ⟨is_open, -⟩
      exact absurd rfl is_open
    · exact fun _ => ⟨rfl, rfl⟩

/-- A child of the reader drops the last reference; a signal interrupts the release; the
reader opens the device a second time and closes that handle. -/
theorem release_by_pid_separates :
    ¬EveryStep trackedStep Follows (begun 4 4096 [0, 0, 0, 0])
      [.open ⟨7, by decide⟩ 1 .acquired, .release 0 ⟨8, by decide⟩ .acquired] ∧
    ¬EveryStep trackedStep Follows (begun 4 4096 [0, 0, 0, 0])
      [.open ⟨7, by decide⟩ 1 .acquired, .release 0 ⟨7, by decide⟩ .interrupted] ∧
    ¬EveryStep trackedStep Follows (begun 4 4096 [0, 0, 0, 0])
      [.open ⟨7, by decide⟩ 1 .acquired, .open ⟨7, by decide⟩ 1 .acquired,
        .release 1 ⟨7, by decide⟩ .acquired] := by
  decide +kernel

end SysMonitor.Guarantees.HandleOwnership
