import SysMonitor.Library.ArmInstructions
import SysMonitor.Source.SysCallTable

/-!
# `find_sys_call_table` of driver/main.c

The memory is the word at every address. The scan starts where the software interrupt vector
jumps to; `regCache` has the sixteen registers.
-/

namespace SysMonitor.Source.SysCallScan
open SysMonitor.Library.ArmInstructions SysMonitor.Source.SysCallTable

/-- `add Rn, [PC, #Immi]` as the source tests for it. -/
def isAdd (inst : Word) : Prop := 0xe28f0000 = inst &&& 0xffff0000

/-- `ldr{cond} PC, [Rn, Rm, #Immi]` as the source tests for it. -/
def isLoad (inst : Word) : Prop := 0x0790f000 = inst &&& 0x0ff0f000

/-- `ldr{cond} PC, [PC, #Immi]`, the vector. -/
def isVector (inst : Word) : Prop := 0x059ff000 = inst &&& 0x0ffff000

instance (inst : Word) : Decidable (isAdd inst) := inferInstanceAs (Decidable (_ = _))
instance (inst : Word) : Decidable (isLoad inst) := inferInstanceAs (Decidable (_ = _))
instance (inst : Word) : Decidable (isVector inst) := inferInstanceAs (Decidable (_ = _))

/-- The registers after an add at `ptr`. -/
def cacheAdd (regCache : Nat → Word) (ptr inst : Word) : Nat → Word :=
  let rn := (inst >>> 12) &&& 0xf
  Function.update regCache rn.toNat ((inst &&& 0xfff) + 8 + ptr)

/-- The loop over the instructions that are left. -/
def scan (memory : Word → Word) : Nat → Word → (Nat → Word) → Word
  | 0, _, _ => 0
  | n + 1, ptr, regCache =>
    let inst := memory ptr
    if 0xea000000 = inst &&& 0xff then 0
    else if isAdd inst then scan memory n (ptr + 4) (cacheAdd regCache ptr inst)
    else if isLoad inst then
      let rn := (inst >>> 16) &&& 0xf
      regCache rn.toNat
    else scan memory n (ptr + 4) regCache

/-- Where the vector jumps to. -/
def scanStart (memory : Word → Word) : Word :=
  memory ((memory 0xffff0008 &&& 0xfff) + 0xffff0008 + 8)

/-- `find_sys_call_table` -/
def findSysCallTable (memory : Word → Word) : Word :=
  if isVector (memory 0xffff0008) then scan memory 100 (scanStart memory) fun _ => 0 else 0

section Decoded

variable (inst : Word)

theorem isAdd_iff : isAdd inst ↔ field inst 16 16 = 0xe28f := by
  rw [isAdd, eq_comm, ← and_ones_eq_iff inst (by decide) (by decide)]
  rfl

theorem isLoad_iff : isLoad inst ↔ field inst 20 8 = 0x79 ∧ field inst 12 4 = 0xf := by
  rw [isLoad, eq_comm, ← and_two_eq_iff inst (by decide) (by decide) (by decide) (by decide)]
  rfl

/-- The test for a branch is never met: it keeps the wrong byte of the instruction. -/
theorem never_branch : 0xea000000 ≠ inst &&& 0xff := by
  intro same
  have low := and_ones_toNat inst (show 0 + 8 ≤ 32 by decide)
  have small := field_lt inst 0 8
  have value := congrArg BitVec.toNat same
  change 0xea000000 = (inst &&& ones 0 8).toNat at value
  omega

/-- A register number is a field of four bits. -/
theorem register_toNat (lo : Nat) : ((inst >>> lo) &&& 0xf).toNat = field inst lo 4 := by
  have masked := and_ones_toNat (inst >>> lo) (show 0 + 4 ≤ 32 by decide)
  have shifted : field (inst >>> lo) 0 4 = field inst lo 4 := by
    rw [field, field, BitVec.toNat_ushiftRight, Nat.shiftRight_eq_div_pow, pow_zero, Nat.div_one]
  rw [shifted, pow_zero, Nat.mul_one] at masked
  exact masked

theorem immediate_eq : inst &&& 0xfff = BitVec.ofNat 32 (field inst 0 12) := by
  rw [← BitVec.toNat_inj, BitVec.toNat_ofNat]
  have masked := and_ones_toNat inst (show 0 + 12 ≤ 32 by decide)
  have small := field_lt inst 0 12
  rw [pow_zero, Nat.mul_one] at masked
  rw [Nat.mod_eq_of_lt (by omega)]
  exact masked

/-- An add is no load. -/
theorem not_load_of_add (add : isAdd inst) : ¬ isLoad inst := by
  rw [isAdd_iff, field] at add
  rw [isLoad_iff, field]
  omega

end Decoded

end SysMonitor.Source.SysCallScan
