import Mathlib.Data.Nat.Find
import SysMonitor.Library.ArmBranch
import SysMonitor.Source.SysCallScan

/-!
# What the scan for the system call table finds

The address that is returned comes from the last add that wrote the base register of the load.
It is the value of that register only if the immediate of the add is not rotated, and no branch
in front of the load stops the scan, as the test for one is never met.
-/

namespace SysMonitor.Guarantees.TableScan
open SysMonitor.Library.ArmInstructions SysMonitor.Library.ArmBranch SysMonitor.Source
open SysMonitor.Source.SysCallTable SysMonitor.Source.SysCallScan

section Registers

variable (memory : Word → Word) (start : Word)

/-- What the adds among the first instructions leave in the registers; a later add overwrites an
earlier one. -/
def registersAfter : Nat → Nat → Option Word
  | 0 => fun _ => none
  | k + 1 =>
    match addPc (memory (wordAt start k)) with
    | some (rd, imm) => Function.update (registersAfter k) rd (some (wordAt start k + 8 + imm))
    | none => registersAfter k

/-- The value of a register as the instruction at `k` reads it. The pc is two instructions
ahead. -/
def baseValue (k rn : Nat) : Option Word :=
  if rn = 15 then some (wordAt start k + 8) else registersAfter memory start k rn

/-- The load that the scan stops at. -/
structure Found (k : Nat) : Prop where
  scanned : k < 100
  load : isLoad (memory (wordAt start k))
  first : ∀ i < k, ¬ isLoad (memory (wordAt start i))

/-- The last add to a register among the first instructions. -/
def lastAdd (r : Nat) : Nat → Option Nat
  | 0 => none
  | k + 1 =>
    if field (memory (wordAt start k)) 16 16 = 0xe28f ∧ field (memory (wordAt start k)) 12 4 = r then
      some k
    else lastAdd r k

/-- The address that the scan forms for the add at `j`: the 12 bits are taken for the number. -/
def formed (j : Nat) : Word :=
  wordAt start j + 8 + BitVec.ofNat 32 (field (memory (wordAt start j)) 0 12)

/-- `regCache` in front of the instruction at `k`. -/
def cacheAfter (k r : Nat) : Word :=
  match lastAdd memory start r k with
  | some j => formed memory start j
  | none => 0

theorem registersAfter_eq (k r : Nat) : registersAfter memory start k r
    = (lastAdd memory start r k).map fun j =>
        wordAt start j + 8 + expandImm (field (memory (wordAt start j)) 0 12) := by
  induction k with
  | zero => rfl
  | succ k ih =>
    rw [registersAfter, lastAdd, addPc]
    by_cases add : field (memory (wordAt start k)) 16 16 = 0xe28f
    · rw [if_pos add]
      by_cases same : field (memory (wordAt start k)) 12 4 = r
      · rw [if_pos ⟨add, same⟩]
        dsimp only
        rw [same, Function.update_self]
        rfl
      · rw [if_neg fun both => same both.2]
        dsimp only
        rw [Function.update_of_ne (Ne.symm same), ih]
    · rw [if_neg add, if_neg fun both => add both.1]
      exact ih

theorem cacheAfter_add {k : Nat} (add : isAdd (memory (wordAt start k))) :
    cacheAdd (cacheAfter memory start k) (wordAt start k) (memory (wordAt start k))
      = cacheAfter memory start (k + 1) := by
  have opcode := (isAdd_iff _).mp add
  funext r
  have value : (memory (wordAt start k) &&& 0xfff) + 8 + wordAt start k = formed memory start k := by
    rw [immediate_eq, formed, BitVec.add_comm _ (wordAt start k), BitVec.add_assoc,
      BitVec.add_comm 8]
  rw [cacheAdd, register_toNat, value, cacheAfter, lastAdd]
  by_cases same : field (memory (wordAt start k)) 12 4 = r
  · rw [if_pos ⟨opcode, same⟩, same, Function.update_self]
  · rw [if_neg fun both => same both.2, Function.update_of_ne (Ne.symm same), cacheAfter]

theorem cacheAfter_other {k : Nat} (other : ¬ isAdd (memory (wordAt start k))) :
    cacheAfter memory start k = cacheAfter memory start (k + 1) := by
  rw [isAdd_iff] at other
  funext r
  rw [cacheAfter, cacheAfter, lastAdd, if_neg fun both => other both.1]

theorem wordAt_succ (k : Nat) : wordAt start k + 4 = wordAt start (k + 1) := by
  rw [wordAt, wordAt, Nat.mul_succ, BitVec.ofNat_add, BitVec.add_assoc]
  rfl

/-- An instruction that is no load is passed. -/
theorem scan_passes {k : Nat} (other : ¬ isLoad (memory (wordAt start k))) (n : Nat) :
    scan memory (n + 1) (wordAt start k) (cacheAfter memory start k)
      = scan memory n (wordAt start (k + 1)) (cacheAfter memory start (k + 1)) := by
  rw [scan]
  dsimp only
  rw [if_neg (never_branch _), if_neg other, wordAt_succ]
  by_cases add : isAdd (memory (wordAt start k))
  · rw [if_pos add, cacheAfter_add memory start add]
  · rw [if_neg add, ← cacheAfter_other memory start add]

theorem scan_stops {k : Nat} (load : isLoad (memory (wordAt start k))) (n : Nat) :
    scan memory (n + 1) (wordAt start k) (cacheAfter memory start k)
      = cacheAfter memory start k (field (memory (wordAt start k)) 16 4) := by
  rw [scan]
  dsimp only
  rw [if_neg (never_branch _), if_neg fun add => not_load_of_add _ add load, if_pos load,
    register_toNat]

/-- From any instruction on, the scan ends at the first load. -/
theorem scan_load {k : Nat} (load : isLoad (memory (wordAt start k))) (n i : Nat) (before : i ≤ k)
    (inside : k < i + n) (first : ∀ m, i ≤ m → m < k → ¬ isLoad (memory (wordAt start m))) :
    scan memory n (wordAt start i) (cacheAfter memory start i)
      = cacheAfter memory start k (field (memory (wordAt start k)) 16 4) := by
  induction n generalizing i with
  | zero => exact absurd inside (by omega)
  | succ n ih =>
    rcases Nat.eq_or_lt_of_le before with rfl | later
    · exact scan_stops memory start load n
    · rw [scan_passes memory start (first i (Nat.le_refl i) later)]
      exact ih (i + 1) later (by omega) fun m from_ => first m (by omega)

theorem scan_none (n i : Nat)
    (none : ∀ m, i ≤ m → m < i + n → ¬ isLoad (memory (wordAt start m))) :
    scan memory n (wordAt start i) (cacheAfter memory start i) = 0 := by
  induction n generalizing i with
  | zero => rfl
  | succ n ih =>
    rw [scan_passes memory start (none i (Nat.le_refl i) (by omega))]
    exact ih (i + 1) fun m after inside => none m (by omega) (by omega)

end Registers

variable {memory : Word → Word}

/-- What is returned is the value of the base register of the load that the scan stops at, and no
branch stands in front of that load. -/
def ScanAgrees (memory : Word → Word) : Prop :=
  findSysCallTable memory ≠ 0 → ∃ k rn, Found memory (scanStart memory) k ∧
    ldrPc (memory (wordAt (scanStart memory) k)) = some rn ∧
    baseValue memory (scanStart memory) k rn = some (findSysCallTable memory) ∧
    ∀ i < k, branchTarget (wordAt (scanStart memory) i) (memory (wordAt (scanStart memory) i)) = none

/-- The load at `k` gets the address that the add at `j` formed. -/
structure Reads (memory : Word → Word) (k j : Nat) : Prop where
  vector : isVector (memory 0xffff0008)
  found : Found memory (scanStart memory) k
  last : lastAdd memory (scanStart memory) (field (memory (wordAt (scanStart memory) k)) 16 4) k
    = some j
  real : formed memory (scanStart memory) j ≠ 0

/-- The load is one, no unconditional branch stands in front of it, and the immediate of the add is
not rotated. If the base register is the pc, the add formed the address two instructions ahead
of the load. -/
structure Decoded (memory : Word → Word) (k j : Nat) : Prop where
  load : field (memory (wordAt (scanStart memory) k)) 28 4 ≠ 0xf ∧
    field (memory (wordAt (scanStart memory) k)) 4 1 = 0
  straight : ∀ i < k, field (memory (wordAt (scanStart memory) i)) 24 8 ≠ 0xea
  base : if field (memory (wordAt (scanStart memory) k)) 16 4 = 15 then
      formed memory (scanStart memory) j = wordAt (scanStart memory) k + 8
    else field (memory (wordAt (scanStart memory) j)) 8 4 = 0

theorem Found.unique {start : Word} {k k' : Nat} (found : Found memory start k)
    (found' : Found memory start k') : k = k' := by
  rcases Nat.lt_trichotomy k k' with before | same | after
  · exact absurd found.load (found'.first k before)
  · exact same
  · exact absurd found'.load (found.first k' after)

/-- What is returned where a load is found. -/
theorem find_of_found (vector : isVector (memory 0xffff0008)) {k : Nat}
    (found : Found memory (scanStart memory) k) : findSysCallTable memory
      = cacheAfter memory (scanStart memory) k
          (field (memory (wordAt (scanStart memory) k)) 16 4) := by
  have start : wordAt (scanStart memory) 0 = scanStart memory := BitVec.add_zero _
  have scanned := scan_load memory (scanStart memory) found.load 100 0 (Nat.zero_le k)
    (by have short := found.scanned; omega) fun m _ before => found.first m before
  rw [start] at scanned
  rw [findSysCallTable, if_pos vector]
  exact scanned

theorem find_of_reads {k j : Nat} (reads : Reads memory k j) :
    findSysCallTable memory = formed memory (scanStart memory) j := by
  rw [find_of_found reads.vector reads.found, cacheAfter, reads.last]

/-- An address is returned only where a load reads one. -/
theorem reads_of_find (some : findSysCallTable memory ≠ 0) : ∃ k j, Reads memory k j := by
  have vector : isVector (memory 0xffff0008) := by
    by_contra other
    rw [findSysCallTable, if_neg other] at some
    exact some rfl
  have loads : ∃ k, k < 100 ∧ isLoad (memory (wordAt (scanStart memory) k)) := by
    by_contra none
    have start : wordAt (scanStart memory) 0 = scanStart memory := BitVec.add_zero _
    have scanned := scan_none memory (scanStart memory) 100 0 fun m _ inside load =>
      none ⟨m, by omega, load⟩
    rw [start] at scanned
    rw [findSysCallTable, if_pos vector] at some
    exact some scanned
  obtain ⟨short, load⟩ := Nat.find_spec loads
  have found : Found memory (scanStart memory) (Nat.find loads) :=
    ⟨short, load, fun i before load' => Nat.find_min loads before ⟨by omega, load'⟩⟩
  rw [find_of_found vector found, cacheAfter] at some
  cases last : lastAdd memory (scanStart memory)
      (field (memory (wordAt (scanStart memory) (Nat.find loads))) 16 4) (Nat.find loads) with
  | none =>
    rw [last] at some
    exact absurd rfl some
  | some j =>
    rw [last] at some
    exact ⟨_, j, vector, found, last, some⟩

/-- The base register has the address that was formed, or what the add's immediate stands for. -/
theorem baseValue_iff {k j : Nat} (reads : Reads memory k j) :
    baseValue memory (scanStart memory) k (field (memory (wordAt (scanStart memory) k)) 16 4)
        = some (formed memory (scanStart memory) j) ↔
      if field (memory (wordAt (scanStart memory) k)) 16 4 = 15 then
        formed memory (scanStart memory) j = wordAt (scanStart memory) k + 8
      else field (memory (wordAt (scanStart memory) j)) 8 4 = 0 := by
  unfold baseValue
  by_cases pc : field (memory (wordAt (scanStart memory) k)) 16 4 = 15
  · rw [if_pos pc, if_pos pc, Option.some.injEq]
    exact eq_comm
  · have small := field_lt (memory (wordAt (scanStart memory) j)) 0 12
    have rotation : field (memory (wordAt (scanStart memory) j)) 0 12 / 2 ^ 8
        = field (memory (wordAt (scanStart memory) j)) 8 4 := by
      unfold field
      omega
    rw [if_neg pc, if_neg pc, registersAfter_eq, reads.last, Option.map_some, Option.some.injEq,
      formed, BitVec.add_right_inj, expandImm_eq_iff small, rotation]

/-- For every memory: the scan agrees with the instructions that it scans if and only if, where a
load gets an address, the instructions are the ones that the source takes them for. -/
theorem scan_agrees_iff (memory : Word → Word) :
    ScanAgrees memory ↔ ∀ k j, Reads memory k j → Decoded memory k j := by
  constructor
  · intro agrees k j reads
    have value := find_of_reads reads
    obtain ⟨k', rn, found, load, base, straight⟩ := agrees (by rw [value]; exact reads.real)
    obtain rfl := found.unique reads.found
    unfold ldrPc at load
    split at load
    · rename_i bits
      cases load
      rw [value] at base
      refine ⟨bits.2.2, fun i before => ?_, (baseValue_iff reads).mp base⟩
      exact (branchTarget_eq_none_iff _ _).mp (straight i before)
    · cases load
  · intro decoded some
    obtain ⟨k, j, reads⟩ := reads_of_find some
    obtain ⟨load, straight, base⟩ := decoded k j reads
    obtain ⟨opcode, pc⟩ := (isLoad_iff _).mp reads.found.load
    refine ⟨k, _, reads.found, if_pos ⟨opcode, pc, load⟩, ?_, fun i before => ?_⟩
    · rw [find_of_reads reads]
      exact (baseValue_iff reads).mpr base
    · exact (branchTarget_eq_none_iff _ _).mpr (straight i before)

/-- A vector that jumps to an add, and two words behind it `ldrcc pc, [r8, r7, lsl #2]`. -/
def kernel (add between : Word) : Word → Word := fun address =>
  if address = 0xffff0008 then 0xe59ff410
  else if address = 0xffff0420 then 0xc0008000
  else if address = 0xc0008000 then add
  else if address = 0xc0008004 then between
  else 0x3798f107

theorem kernel_found (add between : Word) (other : ¬ isLoad add) (other' : ¬ isLoad between) :
    Found (kernel add between) 0xc0008000 2 := by
  refine ⟨by decide, (by decide : isLoad 0x3798f107), fun i before => ?_⟩
  rcases (by omega : i = 0 ∨ i = 1) with rfl | rfl
  · exact other
  · exact other'

/-- `add r8, pc, #0x100`, which is 1 rotated by 24 bits: the address that is returned is not the
one in the register. With `add r8, pc, #4` and `b` behind it, the scan passes the branch. -/
theorem rotated_or_branched :
    (findSysCallTable (kernel 0xe28f8c01 0xe1a00000) = 0xc0008c09 ∧
      registersAfter (kernel 0xe28f8c01 0xe1a00000) 0xc0008000 2 8 = some 0xc0008108 ∧
      ¬ ScanAgrees (kernel 0xe28f8c01 0xe1a00000)) ∧
    (findSysCallTable (kernel 0xe28f8004 0xea000010) = 0xc000800c ∧
      branchTarget 0xc0008004 (kernel 0xe28f8004 0xea000010 0xc0008004) = some 0xc000804c ∧
      ¬ ScanAgrees (kernel 0xe28f8004 0xea000010)) := by
  refine ⟨⟨by decide, by decide, fun agrees => ?_⟩, ⟨by decide, by decide, fun agrees => ?_⟩⟩
  · obtain ⟨k, rn, found, load, base, -⟩ := agrees (by decide)
    obtain rfl := found.unique (kernel_found _ _ (by decide) (by decide))
    obtain rfl : 8 = rn := Option.some.inj load
    exact absurd base (by decide)
  · obtain ⟨k, rn, found, load, -, straight⟩ := agrees (by decide)
    obtain rfl := found.unique (kernel_found _ _ (by decide) (by decide))
    exact absurd (straight 1 (by decide)) (by decide)

end SysMonitor.Guarantees.TableScan
