import SysMonitor.Library.ArmInstructions

/-!
# The ARM branch instruction

An unconditional branch has 0xea in its top byte. Its low 24 bits are a signed number of
words, counted from two instructions behind the branch. What another instruction does to the
flow of control is left open as far as the developments here need not know.
-/

namespace SysMonitor.Library.ArmBranch
open SysMonitor.Library.ArmInstructions

/-- The offset of a branch in bytes. -/
def branchOffset (instruction : BitVec 32) : BitVec 32 := (instruction.setWidth 24).signExtend 32 * 4

/-- Where the branch at `address` goes; nothing for any other instruction. -/
def branchTarget (address instruction : BitVec 32) : Option (BitVec 32) :=
  if instruction.toNat / 2 ^ 24 = 0xea then some (address + 8 + branchOffset instruction) else none

/-- A sum that stays in the opcode's own byte is a branch. -/
theorem isBranch_iff (n : BitVec 32) (small : n.toNat < 2 ^ 30) :
    (0xea000000 + n).toNat / 2 ^ 24 = 0xea ↔ n.toNat < 2 ^ 24 := by
  rw [BitVec.toNat_add]
  change (0xea000000 + n.toNat) % 2 ^ 32 / 2 ^ 24 = 0xea ↔ _
  omega

/-- The offset of a branch: the words are signed, and 2^23 words or more lead back. -/
theorem branchOffset_toNat (instruction : BitVec 32) : (branchOffset instruction).toNat
    = if field instruction 0 24 < 2 ^ 23 then 4 * field instruction 0 24
      else 4 * field instruction 0 24 + 2 ^ 32 - 2 ^ 26 := by
  have imm : (instruction.setWidth 24).toNat = field instruction 0 24 := by
    rw [BitVec.toNat_setWidth, field, pow_zero, Nat.div_one]
  have small := field_lt instruction 0 24
  generalize field instruction 0 24 = n at imm small
  have wide : (instruction.setWidth 24 |>.setWidth 32).toNat = n := by
    rw [BitVec.toNat_setWidth, imm]
    omega
  unfold branchOffset
  rw [BitVec.toNat_mul, BitVec.toNat_signExtend, wide, BitVec.msb_eq_decide, imm]
  change (n + _) * 4 % 2 ^ 32 = _
  by_cases forward : n < 2 ^ 23
  · rw [if_pos forward, if_neg (by simpa using forward)]
    omega
  · rw [if_neg forward, if_pos (by simpa using forward)]
    omega

/-- The words that a branch keeps of a sum that stays in the opcode's byte. -/
theorem field_add (n : BitVec 32) (fits : n.toNat < 2 ^ 24) :
    field (0xea000000 + n) 0 24 = n.toNat := by
  rw [field, BitVec.toNat_add]
  change (0xea000000 + n.toNat) % 2 ^ 32 / 2 ^ 0 % 2 ^ 24 = _
  omega

/-- Without the sign, the offset is right for a forward branch only. -/
theorem branchOffset_eq_iff (instruction : BitVec 32) :
    branchOffset instruction = (instruction &&& 0x00ffffff) * 4 ↔
      field instruction 0 24 < 2 ^ 23 := by
  have words : (instruction &&& 0x00ffffff).toNat = field instruction 0 24 := by
    have masked := and_ones_toNat instruction (show 0 + 24 ≤ 32 by decide)
    rw [pow_zero, Nat.mul_one] at masked
    exact masked
  have small := field_lt instruction 0 24
  rw [← BitVec.toNat_inj, branchOffset_toNat, BitVec.toNat_mul, words]
  change _ = field instruction 0 24 * 4 % 2 ^ 32 ↔ _
  by_cases forward : field instruction 0 24 < 2 ^ 23
  · rw [if_pos forward]
    omega
  · rw [if_neg forward]
    omega

theorem opcode_of_branchTarget {address instruction target : BitVec 32}
    (branch : branchTarget address instruction = some target) : field instruction 24 8 = 0xea := by
  unfold branchTarget at branch
  split at branch
  · rw [field]
    omega
  · cases branch

theorem branchTarget_eq_none_iff (address instruction : BitVec 32) :
    branchTarget address instruction = none ↔ field instruction 24 8 ≠ 0xea := by
  have small := instruction.isLt
  unfold branchTarget field
  split
  · exact iff_of_false (by simp) (by omega)
  · exact iff_of_true rfl (by omega)

/-- An instruction with the opcode of a branch in its top byte. -/
theorem branchTarget_of_opcode {address instruction : BitVec 32}
    (opcode : 0xff000000 &&& instruction = 0xea000000) :
    branchTarget address instruction = some (address + 8 + branchOffset instruction) := by
  have top : field instruction 24 8 = 0xea := by
    rw [← and_ones_eq_iff instruction (by decide) (by decide), BitVec.and_comm]
    exact opcode
  have small := instruction.isLt
  rw [field] at top
  exact if_pos (by omega)

/-- Added to the opcode, a number of words below 2^30 makes a branch over that distance
exactly when it is below 2^23, that is when the distance is a forward one in reach. -/
theorem branchTarget_add_iff (address n : BitVec 32) (small : n.toNat < 2 ^ 30) :
    branchTarget address (0xea000000 + n) = some (address + 8 + n * 4) ↔ n.toNat < 2 ^ 23 := by
  unfold branchTarget
  by_cases fits : n.toNat < 2 ^ 24
  · rw [if_pos ((isBranch_iff n small).mpr fits), Option.some.injEq, BitVec.add_right_inj]
    rw [← BitVec.toNat_inj, branchOffset_toNat, field_add n fits, BitVec.toNat_mul]
    change _ = n.toNat * 4 % 2 ^ 32 ↔ _
    by_cases forward : n.toNat < 2 ^ 23
    · rw [if_pos forward]
      omega
    · rw [if_neg forward]
      omega
  · rw [if_neg (fun top => fits ((isBranch_iff n small).mp top))]
    apply iff_of_false (by simp)
    omega

/-- Where execution goes on behind an instruction, where the instruction alone says so: a branch
goes to its target, and `add Rd, sp, #imm` to the next instruction unless it writes the pc. -/
structure Flow where
  next : BitVec 32 → BitVec 32 → Option (BitVec 32)
  branch : ∀ {address instruction target}, branchTarget address instruction = some target →
    next address instruction = some target
  addSp : ∀ {address instruction}, field instruction 16 16 = 0xe28d →
    next address instruction = if field instruction 12 4 = 0xf then none else some (address + 4)

namespace Flow

variable (flow : Flow) {code code' : BitVec 32 → BitVec 32} {inside : BitVec 32 → Prop}
  [DecidablePred inside]

/-- Follow the code for so many instructions at most: where it leaves a region. -/
def leave (code : BitVec 32 → BitVec 32) (inside : BitVec 32 → Prop) [DecidablePred inside] :
    Nat → BitVec 32 → Option (BitVec 32)
  | 0, _ => none
  | n + 1, address =>
    (flow.next address (code address)).bind fun next =>
      if inside next then leave code inside n next else some next

/-- Only the code of the region counts. -/
theorem leave_congr (same : ∀ address, inside address → code address = code' address) (n : Nat)
    {address : BitVec 32} (start : inside address) :
    flow.leave code inside n address = flow.leave code' inside n address := by
  induction n generalizing address with
  | zero => rfl
  | succ n ih =>
    rw [leave, leave, same address start]
    congr 1
    funext next
    split
    · rename_i within
      exact ih within
    · rfl

/-- A flow that knows the branch and, with the registers they write, the data-processing
instructions with an immediate operand and the loads and stores with an immediate offset. -/
def immediates : Flow where
  next address instruction := (branchTarget address instruction).or
    (if (field instruction 25 7 = 0x71 ∨ field instruction 25 7 = 0x72) ∧
      field instruction 12 4 ≠ 0xf then some (address + 4) else none)
  branch goes := by rw [goes, Option.some_or]
  addSp := by
    intro address instruction add
    have small := instruction.isLt
    have other : branchTarget address instruction = none := by
      rw [branchTarget_eq_none_iff]
      unfold field at add ⊢
      omega
    have group : field instruction 25 7 = 0x71 := by
      unfold field at add ⊢
      omega
    rw [other, Option.none_or]
    by_cases pc : field instruction 12 4 = 0xf
    · rw [if_neg fun both => both.2 pc, if_pos pc]
    · rw [if_pos ⟨.inl group, pc⟩, if_neg pc]

end Flow

end SysMonitor.Library.ArmBranch
