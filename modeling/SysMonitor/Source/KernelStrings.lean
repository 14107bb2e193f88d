import Mathlib.Data.BitVec
import SysMonitor.Library.TerminatedStrings
import SysMonitor.Source.Memory

/-!
# The kernel's string functions, byte by byte

A block is the list of its bytes. `strlen` and the functions that read a string run off a
block without a NUL, and the functions that write one need room for its NUL.
-/

namespace SysMonitor.Source.KernelStrings
open SysMonitor.Library.CyclicBuffer SysMonitor.Library.TerminatedStrings

/-- A string of any length. -/
abbrev CText := { bytes : List Byte // 0 ∉ bytes }

/-- The string that a block holds. -/
def stringIn (block : List Byte) : Except Fault (List Byte) :=
  match stringOf block with
  | some string => .ok string
  | none => .error .outOfBounds

def strlen (block : List Byte) : Except Fault Nat := do
  let string ← stringIn block
  return string.length

def strcpy (dst src : List Byte) : Except Fault (List Byte) := do
  let string ← stringIn src
  if string.length < dst.length then return splice dst 0 (string ++ [0])
  else throw .outOfBounds

def strcat (dst src : List Byte) : Except Fault (List Byte) := do
  let before ← stringIn dst
  let string ← stringIn src
  if before.length + string.length < dst.length then return append dst string
  else throw .outOfBounds

/-- `sprintf(dst, "%s: %s", name, src)` -/
def sprintfString (dst name src : List Byte) : Except Fault (List Byte) := do
  let first ← stringIn name
  let string ← stringIn src
  if first.length + 2 + string.length < dst.length then
    return splice dst 0 (first ++ [58, 32] ++ string ++ [0])
  else throw .outOfBounds

theorem stringIn_text {block : List Byte} (nul : 0 ∈ block) : stringIn block = .ok (text block) := by
  rw [stringIn, stringOf_eq nul]

theorem stringIn_unterminated {block : List Byte} (noNul : 0 ∉ block) :
    stringIn block = .error .outOfBounds := by
  rw [stringIn, stringOf_eq_none noNul]

theorem stringIn_found {block s : List Byte} (found : stringIn block = .ok s) :
    0 ∈ block ∧ s = text block := by
  by_cases nul : 0 ∈ block
  · rw [stringIn_text nul] at found
    exact ⟨nul, (Except.ok.inj found).symm⟩
  · rw [stringIn_unterminated nul] at found
    cases found

/-- A string with its NUL in front of anything else. -/
theorem stringIn_terminated {s : List Byte} (free : 0 ∉ s) (rest : List Byte) :
    stringIn (s ++ 0 :: rest) = .ok s := by
  rw [stringIn_text (by simp), text_terminated free]

theorem strlen_eq {block s : List Byte} (found : stringIn block = .ok s) :
    strlen block = .ok s.length := by
  rw [strlen, found]
  rfl

/-- `strcat` where there is room. -/
theorem strcat_eq {dst src before s : List Byte} (found : stringIn dst = .ok before)
    (string : stringIn src = .ok s) (fits : before.length + s.length < dst.length) :
    strcat dst src = .ok (append dst s) := by
  rw [strcat, found, string]
  exact if_pos fits

/-- The user's memory from an address on, unreadable where there is no byte. -/
abbrev UserMemory := Nat → Option Byte

def EFAULT : Int := 14

/-- `strncpy_from_user`: the bytes that are stored and the value returned, which is the length
of the string, or the bound when there is no NUL within it. -/
def strncpyFromUser (source : UserMemory) : Nat → List Byte × Int
  | 0 => ([], 0)
  | n + 1 =>
    match source 0 with
    | none => ([], -EFAULT)
    | some byte =>
      if byte = 0 then ([0], 0)
      else
        let (stored, copied) := strncpyFromUser (fun i => source (i + 1)) n
        (byte :: stored, if copied < 0 then copied else copied + 1)

section Copy

variable {source : UserMemory} {n : Nat}

/-- The string ends, or the memory does, within the bound. -/
def EndsWithin (source : UserMemory) (n : Nat) : Prop :=
  ∃ i < n, source i = none ∨ source i = some 0

instance (source : UserMemory) (n : Nat) : Decidable (EndsWithin source n) :=
  inferInstanceAs (Decidable (∃ i < n, source i = none ∨ source i = some 0))

theorem endsWithin_succ {byte : Byte} (first : source 0 = some byte) (nonzero : byte ≠ 0) :
    EndsWithin source (n + 1) ↔ EndsWithin (fun i => source (i + 1)) n := by
  constructor
  · rintro ⟨i, below, ends⟩
    cases i with
    | zero =>
      rw [first] at ends
      rcases ends with none | zero
      · cases none
      · exact absurd (Option.some.inj zero) nonzero
    | succ i => exact ⟨i, by omega, ends⟩
  · rintro ⟨i, below, ends⟩
    exact ⟨i + 1, by omega, ends⟩

/-- What is stored is the beginning of the source, no longer than the bound. -/
theorem stored_begins : (strncpyFromUser source n).1.length ≤ n ∧
    ∀ i (inside : i < (strncpyFromUser source n).1.length),
      source i = some (strncpyFromUser source n).1[i] := by
  induction n generalizing source with
  | zero => exact ⟨Nat.le_refl 0, fun i inside => absurd inside (Nat.not_lt_zero i)⟩
  | succ n ih =>
    rw [strncpyFromUser]
    cases first : source 0 with
    | none => exact ⟨Nat.zero_le _, fun i inside => absurd inside (Nat.not_lt_zero i)⟩
    | some byte =>
      dsimp only
      by_cases zero : byte = 0
      · rw [if_pos zero, ← zero]
        refine ⟨Nat.succ_le_succ (Nat.zero_le n), fun i inside => ?_⟩
        obtain rfl : i = 0 := by simpa using inside
        exact first
      · rw [if_neg zero]
        obtain ⟨short, same⟩ := @ih fun i => source (i + 1)
        refine ⟨Nat.succ_le_succ short, fun i inside => ?_⟩
        cases i with
        | zero => exact first
        | succ i => exact same i (Nat.lt_of_succ_lt_succ inside)

/-- A copy that does not fail stored a NUL exactly when the source ends within the bound. -/
theorem stored_zero_iff (copied : 0 ≤ (strncpyFromUser source n).2) :
    0 ∈ (strncpyFromUser source n).1 ↔ EndsWithin source n := by
  induction n generalizing source with
  | zero => exact iff_of_false (by simp [strncpyFromUser]) (by rintro ⟨i, below, -⟩; omega)
  | succ n ih =>
    rw [strncpyFromUser] at copied ⊢
    cases first : source 0 with
    | none =>
      rw [first] at copied
      have failed : ¬ (0 : Int) ≤ -EFAULT := by decide
      exact absurd copied failed
    | some byte =>
      rw [first] at copied
      dsimp only at copied ⊢
      by_cases zero : byte = 0
      · rw [if_pos zero]
        exact iff_of_true (by simp) ⟨0, by omega, .inr (by rw [first, zero])⟩
      · rw [if_neg zero] at copied ⊢
        have later : 0 ≤ (strncpyFromUser (fun i => source (i + 1)) n).2 := by
          dsimp only at copied
          split at copied <;> omega
        rw [endsWithin_succ first zero, ← ih later]
        exact ⟨fun inside => (List.mem_cons.mp inside).resolve_left (Ne.symm zero),
          List.mem_cons_of_mem byte⟩

/-- Without an end within the bound the whole destination is written. -/
theorem stored_full (long : ¬ EndsWithin source n) :
    (strncpyFromUser source n).1.length = n ∧ (strncpyFromUser source n).2 = n := by
  induction n generalizing source with
  | zero => exact ⟨rfl, rfl⟩
  | succ n ih =>
    rw [strncpyFromUser]
    cases first : source 0 with
    | none => exact absurd ⟨0, by omega, .inl first⟩ long
    | some byte =>
      dsimp only
      have nonzero : byte ≠ 0 := by
        rintro rfl
        exact long ⟨0, by omega, .inr first⟩
      obtain ⟨length, copied⟩ := ih fun ends => long ((endsWithin_succ first nonzero).mpr ends)
      rw [if_neg nonzero, copied, if_neg (by omega)]
      exact ⟨congrArg (· + 1) length, by push_cast; rfl⟩

end Copy

end SysMonitor.Source.KernelStrings
