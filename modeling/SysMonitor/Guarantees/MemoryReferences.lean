import SysMonitor.Guarantees.PagewiseRead
import SysMonitor.Library.Runs

/-!
# Which reads leave the reference counts as they were

Every page that the loop takes is released again, on whatever page it stops. The reference to the
mm that `get_task_mm` takes is never dropped.
-/

namespace SysMonitor.Guarantees.MemoryReferences
open SysMonitor.Library
open SysMonitor.Source SysMonitor.Source.ProcessMemory
open SysMonitor.Guarantees.PagewiseRead

/-- A read into a buffer that has room for it, or the arguments for a process record. -/
inductive MemoryCall where
  | read (m : TaskMemory) (addr len : Word) (buffer : List Byte)
      (room : len.toNat ≤ buffer.length)
  | arguments (m : TaskMemory) (memory : Option (Nat → Byte))

/-- A call, with the number of bytes it read. -/
def memoryStep (c : Counts) : MemoryCall → Except Fault (Counts × Nat)
  | .read m addr len buffer _ => do
    let (n, _, c) ← readProcessMemoryLocked m c addr len buffer
    return (c, n)
  | .arguments m memory => do
    let (_, n, c) ← ProcessMemory.getCurrentProcessArguments m c memory
    return (c, n)

/-- The mm that `get_task_mm` gives to the read of the call. -/
def MemoryCall.mm : MemoryCall → Option Nat
  | .read m _ _ _ _ => getTaskMm m
  | .arguments m memory => argumentsMm m memory

/-- A call takes a reference to an mm at most, and changes no other count. -/
theorem memoryStep_spec (c : Counts) (call : MemoryCall) :
    ∃ n, memoryStep c call = .ok (withMm c call.mm, n) := by
  cases call with
  | read m addr len buffer room =>
    obtain ⟨n, buffer', ran, -⟩ := readProcessMemoryLocked_returns m c addr len buffer room
    refine ⟨n, ?_⟩
    rw [memoryStep, ran]
    rfl
  | arguments m memory =>
    obtain ⟨argBuffer, n, ran, -⟩ := getCurrentProcessArguments_spec m c memory
    refine ⟨n, ?_⟩
    rw [memoryStep, ran]
    rfl

/-- No count of an mm goes down, and one goes up where a reference is taken. -/
theorem withMm_grows (c : Counts) (mm : Option Nat) :
    c.mm ≤ (withMm c mm).mm ∧ ((withMm c mm).mm = c.mm ↔ mm = none) := by
  cases mm with
  | none => exact ⟨le_refl _, iff_of_true rfl rfl⟩
  | some mm =>
    constructor
    · intro other
      show c.mm other ≤ Function.update c.mm mm (c.mm mm + 1) other
      by_cases same : other = mm
      · rw [same, Function.update_self]
        omega
      · rw [Function.update_of_ne same]
    · refine iff_of_false (fun same => ?_) (fun none => nomatch none)
      have raised := congrFun same mm
      simp [withMm, Counts.raiseMm] at raised

theorem withMm_page (c : Counts) (mm : Option Nat) : (withMm c mm).page = c.page := by
  cases mm <;> rfl

/-- What a run does to the counts. -/
theorem run_grows (c : Counts) (calls : List MemoryCall) :
    ∃ c' read, run memoryStep c calls = .ok (c', read) ∧ c'.page = c.page ∧ c.mm ≤ c'.mm ∧
      (c'.mm = c.mm ↔ ∀ call ∈ calls, call.mm = none) := by
  induction calls generalizing c with
  | nil => exact ⟨c, [], rfl, rfl, le_refl _, iff_of_true rfl (fun call listed => nomatch listed)⟩
  | cons call calls ih =>
    obtain ⟨n, first⟩ := memoryStep_spec c call
    obtain ⟨c', read, rest, pages, grows, unchanged⟩ := ih (withMm c call.mm)
    obtain ⟨grows₁, unchanged₁⟩ := withMm_grows c call.mm
    refine ⟨c', n :: read, run_cons_ok first rest, pages.trans (withMm_page c call.mm),
      le_trans grows₁ grows, ?_⟩
    rw [List.forall_mem_cons, ← unchanged₁, ← unchanged]
    constructor
    · intro same
      have between : (withMm c call.mm).mm = c.mm := le_antisymm (same ▸ grows) grows₁
      exact ⟨between, same.trans between.symm⟩
    · rintro ⟨first, rest⟩
      exact rest.trans first

/-- Any number of reads leaves every count of a page as it was, and the counts of the mms exactly
when no read got an mm. -/
theorem references_kept_iff (c : Counts) (calls : List MemoryCall) :
    ∃ c' read, run memoryStep c calls = .ok (c', read) ∧ c'.page = c.page ∧
      ((c'.mm = c.mm ∧ c'.page = c.page) ↔ ∀ call ∈ calls, call.mm = none) := by
  obtain ⟨c', read, ran, pages, -, unchanged⟩ := run_grows c calls
  exact ⟨c', read, ran, pages, (and_iff_left pages).trans unchanged⟩

theorem oneByte_room : (1 : Word).toNat ≤ ([7] : List Byte).length := by decide

/-- One read of one byte keeps a reference to the mm. -/
theorem reference_kept : (memoryStep noCounts (.read holed 1 1 [7] oneByte_room)).map
    (fun result => (result.1.mm 0, result.2)) = .ok (1, 1) := by
  decide

end SysMonitor.Guarantees.MemoryReferences
