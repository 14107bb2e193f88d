import Mathlib.Data.Nat.Bitwise

/-!
# Fields of ARM instructions

An instruction is taken apart into runs of bits. A mask of ones over a run selects it, and two
runs that a mask combines are selected independently. Two instructions are decoded from their
runs: the one that forms an address relative to the pc, and the one that jumps through a table.
-/

namespace SysMonitor.Library.ArmInstructions

/-- The `len` bits of an instruction from bit `lo` on. -/
def field (instruction : BitVec 32) (lo len : Nat) : Nat := instruction.toNat / 2 ^ lo % 2 ^ len

/-- Ones in the `len` bits from bit `lo` on. -/
def ones (lo len : Nat) : BitVec 32 := BitVec.ofNat 32 ((2 ^ len - 1) * 2 ^ lo)

section Masks

variable (instruction : BitVec 32)

theorem field_lt (lo len : Nat) : field instruction lo len < 2 ^ len :=
  Nat.mod_lt _ (Nat.two_pow_pos len)

/-- A shifted mask selects the bits that it selects unshifted behind a shift. -/
theorem and_shifted (x m k : Nat) : x &&& m * 2 ^ k = (x / 2 ^ k &&& m) * 2 ^ k := by
  rw [← Nat.shiftRight_eq_div_pow, ← Nat.shiftLeft_eq, ← Nat.shiftLeft_eq]
  apply Nat.eq_of_testBit_eq
  intro i
  simp only [Nat.testBit_and, Nat.testBit_shiftLeft, Nat.testBit_shiftRight]
  by_cases inside : k ≤ i
  · simp [inside, Nat.add_sub_cancel' inside]
  · simp [inside]

/-- A value in a run of bits is below the next run. -/
theorem shifted_lt {lo len value : Nat} (small : value < 2 ^ len) :
    value * 2 ^ lo < 2 ^ (lo + len) := by
  rw [Nat.pow_add, Nat.mul_comm]
  exact Nat.mul_lt_mul_of_pos_left small (Nat.two_pow_pos lo)

theorem shifted_fits {lo len value : Nat} (fits : lo + len ≤ 32) (small : value < 2 ^ len) :
    value * 2 ^ lo < 2 ^ 32 :=
  Nat.lt_of_lt_of_le (shifted_lt small) (Nat.pow_le_pow_right (by decide) fits)

theorem and_ones_toNat {lo len : Nat} (fits : lo + len ≤ 32) :
    (instruction &&& ones lo len).toNat = field instruction lo len * 2 ^ lo := by
  have below := shifted_fits fits (Nat.sub_lt (Nat.two_pow_pos len) Nat.one_pos)
  rw [BitVec.toNat_and, ones, BitVec.toNat_ofNat, Nat.mod_eq_of_lt below, and_shifted,
    Nat.and_two_pow_sub_one_eq_mod, field]

/-- One run of bits is compared. -/
theorem and_ones_eq_iff {lo len value : Nat} (fits : lo + len ≤ 32) (small : value < 2 ^ len) :
    instruction &&& ones lo len = BitVec.ofNat 32 (value * 2 ^ lo) ↔
      field instruction lo len = value := by
  rw [← BitVec.toNat_inj, and_ones_toNat instruction fits, BitVec.toNat_ofNat,
    Nat.mod_eq_of_lt (shifted_fits fits small)]
  exact Nat.mul_left_inj (Nat.two_pow_pos lo).ne'

/-- Two runs of bits are compared. -/
theorem and_two_eq_iff {hi len value lo len' value' : Nat} (fits : hi + len ≤ 32)
    (apart : lo + len' ≤ hi) (small : value < 2 ^ len) (small' : value' < 2 ^ len') :
    instruction &&& (ones hi len ||| ones lo len')
        = BitVec.ofNat 32 (value * 2 ^ hi + value' * 2 ^ lo) ↔
      field instruction hi len = value ∧ field instruction lo len' = value' := by
  have under : ∀ {v}, v < 2 ^ len' → v * 2 ^ lo < 2 ^ hi := fun below =>
    Nat.lt_of_lt_of_le (shifted_lt below) (Nat.pow_le_pow_right (by decide) apart)
  have join : ∀ {v v'}, v' < 2 ^ len' → v * 2 ^ hi + v' * 2 ^ lo = v * 2 ^ hi ||| v' * 2 ^ lo := by
    intro v v' below
    rw [Nat.mul_comm v]
    exact Nat.two_pow_add_eq_or_of_lt (under below) v
  have left := and_ones_toNat instruction fits
  have right := and_ones_toNat instruction (Nat.le_trans apart (Nat.le_of_add_right_le fits))
  have low := field_lt instruction lo len'
  have total : value * 2 ^ hi + value' * 2 ^ lo < 2 ^ 32 := by
    rw [join small']
    exact Nat.or_lt_two_pow (shifted_fits fits small)
      (shifted_fits (Nat.le_trans apart (Nat.le_of_add_right_le fits)) small')
  rw [← BitVec.toNat_inj, BitVec.and_or_distrib_left, BitVec.toNat_or, left, right, ← join low,
    BitVec.toNat_ofNat, Nat.mod_eq_of_lt total]
  constructor
  · intro same
    have high : field instruction hi len = value := by
      have halves := congrArg (· / 2 ^ hi) same
      simp only [Nat.add_comm (_ * 2 ^ hi), Nat.add_mul_div_right _ _ (Nat.two_pow_pos hi),
        Nat.div_eq_of_lt (under low), Nat.div_eq_of_lt (under small'), Nat.zero_add] at halves
      exact halves
    rw [high] at same
    exact ⟨high, Nat.eq_of_mul_eq_mul_right (Nat.two_pow_pos lo) (Nat.add_left_cancel same)⟩
  · rintro ⟨rfl, rfl⟩
    rfl

end Masks

section Decoding

/-- The value of a 12-bit immediate: its lower 8 bits, rotated right by twice its upper 4. -/
def expandImm (imm : Nat) : BitVec 32 :=
  (BitVec.ofNat 32 (imm % 2 ^ 8)).rotateRight (2 * (imm / 2 ^ 8))

/-- `add Rd, pc, #imm`: the register, and what is added to the pc. -/
def addPc (instruction : BitVec 32) : Option (Nat × BitVec 32) :=
  if field instruction 16 16 = 0xe28f then
    some (field instruction 12 4, expandImm (field instruction 0 12))
  else none

/-- `ldr{cond} pc, [Rn, Rm, ...]`: the base register. With bit 4 set, or with 15 for a condition,
the same bits are no load. -/
def ldrPc (instruction : BitVec 32) : Option Nat :=
  if field instruction 20 8 = 0x79 ∧ field instruction 12 4 = 0xf ∧
      field instruction 28 4 ≠ 0xf ∧ field instruction 4 1 = 0 then
    some (field instruction 16 4)
  else none

/-- Only an immediate that is not rotated is the number that its 12 bits make. -/
theorem expandImm_eq_iff {imm : Nat} (small : imm < 2 ^ 12) :
    expandImm imm = BitVec.ofNat 32 imm ↔ imm / 2 ^ 8 = 0 := by
  have all : ∀ (rotation : Fin (2 ^ 4)) (low : Fin (2 ^ 8)),
      expandImm (rotation * 2 ^ 8 + low) = BitVec.ofNat 32 (rotation * 2 ^ 8 + low) ↔
        (rotation : Nat) = 0 := by
    decide +kernel
  have parts := all ⟨imm / 2 ^ 8, by omega⟩ ⟨imm % 2 ^ 8, Nat.mod_lt _ (by decide)⟩
  rw [Nat.div_add_mod'] at parts
  exact parts

end Decoding

end SysMonitor.Library.ArmInstructions
