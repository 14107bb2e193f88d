import Mathlib.Logic.Function.Basic
import SysMonitor.Source.Memory

/-!
# Hooks that may have a wrapper: driver/sys_calls/fork.c and exec.c

On some kernels the table's entry for fork, vfork, clone or execve is a few instructions
that put the registers' address into an argument and branch to the system call. Such an
entry is copied over the module's own wrapper, whose branch then goes to the hook. The
four install sequences are one definition with the values of each.
-/

namespace SysMonitor.Source.SysCallTable

def NR_fork : Nat := 2
def NR_execve : Nat := 11
def NR_clone : Nat := 120
def NR_vfork : Nat := 190

inductive Hook where
  | fork
  | vfork
  | clone
  | exec
  deriving DecidableEq

/-- The `i`-th word from an address on. -/
def wordAt (address : Word) (i : Nat) : Word := address + BitVec.ofNat 32 (4 * i)

/-- Where the module's functions lie: `fake_sys_X` and `fake_sys_X_wrapper`, which is four
instructions long. -/
structure Layout where
  fake : Hook → Word
  wrapper : Hook → Word
  fakeAligned : ∀ h, (fake h).toNat % 4 = 0
  wrapperAligned : ∀ h, (wrapper h).toNat % 4 = 0
  fakeInjective : ∀ h h', fake h = fake h' → h = h'
  fakeApart : ∀ h h', fake h ≠ wrapper h'
  wrapperApart : ∀ h h', h ≠ h' → ∀ i < 4, ∀ j < 4, wordAt (wrapper h) i ≠ wordAt (wrapper h') j

/-- The system call table, the instructions in memory, and of each hook the globals
`original_sys_X`, `original_sys_X_wrapper` and `b_sys_X_wrapper`. -/
structure Hooks where
  table : Nat → Word
  code : Word → Word
  original : Hook → Word
  originalWrapper : Hook → Word
  wrapped : Hook → Bool

/-- The module has just been loaded. -/
def loaded (table : Nat → Word) (code : Word → Word) : Hooks :=
  ⟨table, code, fun _ => 0, fun _ => 0, fun _ => false⟩

namespace Hooks

/-- `original_sys_X = sys_call_table[number]` -/
def getOriginal (s : Hooks) (h : Hook) (number : Nat) : Hooks :=
  { s with original := Function.update s.original h (s.table number) }

/-- `sys_call_table[number] = function` -/
def setEntry (s : Hooks) (number : Nat) (function : Word) : Hooks :=
  { s with table := Function.update s.table number function }

end Hooks

/-- `add r0, sp, #xxx` first and a branch as the word at index `branch`. -/
def isWrapper (code : Word → Word) (entry : Word) (branch : Nat) : Prop :=
  0xffff0000 &&& code entry = 0xe28d0000 ∧ 0xff000000 &&& code (wordAt entry branch) = 0xea000000

instance (code : Word → Word) (entry : Word) (branch : Nat) :
    Decidable (isWrapper code entry branch) := by
  unfold isWrapper
  infer_instance

/-- Check for a wrapper: the original is then what its branch goes to. -/
def checkWrapper (h : Hook) (branch : Nat) (s : Hooks) : Hooks :=
  let inst := s.code (wordAt (s.original h) branch)
  if isWrapper s.code (s.original h) branch then
    { s with
      originalWrapper := Function.update s.originalWrapper h (s.original h)
      original := Function.update s.original h
        (s.original h + (inst &&& 0x00ffffff) * 4 + BitVec.ofNat 32 (4 * branch + 8))
      wrapped := Function.update s.wrapped h true }
  else s

/-- `memcpy` of whole instructions. -/
def memcpyCode (code : Word → Word) (dst src : Word) : Nat → Word → Word
  | 0 => code
  | n + 1 =>
    let copied := memcpyCode code dst src n
    Function.update copied (wordAt dst n) (copied (wordAt src n))

/-- How many words the branch of the new wrapper has to skip. -/
def branchWords (l : Layout) (h : Hook) (branch : Nat) : Word :=
  (l.fake h - l.wrapper h - BitVec.ofNat 32 (4 * branch + 8)) / 4

/-- Copy the original wrapper over the module's and redirect its branch. -/
def copyWrapper (l : Layout) (h : Hook) (branch : Nat) (s : Hooks) : Hooks :=
  let code := memcpyCode s.code (l.wrapper h) (s.originalWrapper h) (branch + 1)
  { s with
    code := Function.update code (wordAt (l.wrapper h) branch)
      (0xea000000 + branchWords l h branch) }

/-- The two branches that replace an entry, each with the index it writes to. -/
def replaceEntry (l : Layout) (h : Hook) (branch wrapperNumber directNumber : Nat) (s : Hooks) :
    Hooks :=
  if s.wrapped h then (copyWrapper l h branch s).setEntry wrapperNumber (l.wrapper h)
  else s.setEntry directNumber (l.fake h)

def checkFork : Hooks → Hooks := checkWrapper .fork 1
def checkVfork : Hooks → Hooks := checkWrapper .vfork 1
def checkClone : Hooks → Hooks := checkWrapper .clone 2
def checkExec : Hooks → Hooks := checkWrapper .exec 1

def dealFork (l : Layout) : Hooks → Hooks := replaceEntry l .fork 1 NR_fork NR_fork

/-- Without a wrapper the entry that is written is the one of fork. -/
def dealVfork (l : Layout) : Hooks → Hooks := replaceEntry l .vfork 1 NR_vfork NR_fork

def dealClone (l : Layout) : Hooks → Hooks := replaceEntry l .clone 2 NR_clone NR_clone
def dealExec (l : Layout) : Hooks → Hooks := replaceEntry l .exec 1 NR_execve NR_execve

/-- `fork_operation_init` -/
def forkOperationInit (l : Layout) (s : Hooks) : Hooks :=
  let s := s.getOriginal .fork NR_fork
  let s := s.getOriginal .vfork NR_vfork
  let s := s.getOriginal .clone NR_clone
  let s := checkClone (checkVfork (checkFork s))
  dealClone l (dealVfork l (dealFork l s))

/-- `exec_operation_init` -/
def execOperationInit (l : Layout) (s : Hooks) : Hooks :=
  let s := s.getOriginal .exec NR_execve
  let s := checkExec s
  dealExec l s

section Specs

variable (l : Layout) (h h' : Hook) (branch : Nat) (s : Hooks)

@[simp] theorem checkWrapper_table : (checkWrapper h branch s).table = s.table := by
  unfold checkWrapper
  split <;> rfl

@[simp] theorem checkWrapper_code : (checkWrapper h branch s).code = s.code := by
  unfold checkWrapper
  split <;> rfl

theorem checkWrapper_wrapped_self (fresh : s.wrapped h = false) :
    (checkWrapper h branch s).wrapped h = true ↔ isWrapper s.code (s.original h) branch := by
  unfold checkWrapper
  by_cases wrapper : isWrapper s.code (s.original h) branch
  · rw [if_pos wrapper]
    simp [wrapper]
  · rw [if_neg wrapper]
    simp [wrapper, fresh]

theorem checkWrapper_wrapped_other (other : h' ≠ h) :
    (checkWrapper h branch s).wrapped h' = s.wrapped h' := by
  unfold checkWrapper
  split
  · exact Function.update_of_ne other _ _
  · rfl

theorem checkWrapper_wrapped_of (recognised : isWrapper s.code (s.original h) branch) :
    (checkWrapper h branch s).wrapped h = true := by
  rw [checkWrapper, if_pos recognised]
  exact Function.update_self ..

theorem checkWrapper_originalWrapper_self (recognised : isWrapper s.code (s.original h) branch) :
    (checkWrapper h branch s).originalWrapper h = s.original h := by
  rw [checkWrapper, if_pos recognised]
  exact Function.update_self ..

theorem checkWrapper_originalWrapper_other (other : h' ≠ h) :
    (checkWrapper h branch s).originalWrapper h' = s.originalWrapper h' := by
  unfold checkWrapper
  split
  · exact Function.update_of_ne other _ _
  · rfl

theorem checkWrapper_original_self (recognised : isWrapper s.code (s.original h) branch) :
    (checkWrapper h branch s).original h
      = s.original h + (s.code (wordAt (s.original h) branch) &&& 0x00ffffff) * 4
        + BitVec.ofNat 32 (4 * branch + 8) := by
  rw [checkWrapper, if_pos recognised]
  exact Function.update_self ..

theorem checkWrapper_original_other (other : h' ≠ h) :
    (checkWrapper h branch s).original h' = s.original h' := by
  unfold checkWrapper
  split
  · exact Function.update_of_ne other _ _
  · rfl

variable (wrapperNumber directNumber : Nat)

@[simp] theorem replaceEntry_wrapped :
    (replaceEntry l h branch wrapperNumber directNumber s).wrapped = s.wrapped := by
  unfold replaceEntry
  split <;> rfl

@[simp] theorem replaceEntry_original :
    (replaceEntry l h branch wrapperNumber directNumber s).original = s.original := by
  unfold replaceEntry
  split <;> rfl

@[simp] theorem replaceEntry_originalWrapper :
    (replaceEntry l h branch wrapperNumber directNumber s).originalWrapper = s.originalWrapper := by
  unfold replaceEntry
  split <;> rfl

theorem replaceEntry_table : (replaceEntry l h branch wrapperNumber directNumber s).table
    = if s.wrapped h then Function.update s.table wrapperNumber (l.wrapper h)
      else Function.update s.table directNumber (l.fake h) := by
  unfold replaceEntry
  split <;> rfl

theorem wordAt_zero (address : Word) : wordAt address 0 = address := by
  rw [wordAt, Nat.mul_zero]
  exact BitVec.add_zero _

theorem wordAt_succ (address : Word) (i : Nat) :
    wordAt address (i + 1) = wordAt address i + 4 := by
  rw [wordAt, Nat.mul_succ, BitVec.ofNat_add, ← BitVec.add_assoc]
  rfl

theorem wordAt_inj {address : Word} {i j : Nat} (below : i < 4) (below' : j < 4)
    (same : wordAt address i = wordAt address j) : i = j := by
  have words := congrArg BitVec.toNat (BitVec.add_right_inj _ |>.mp same)
  rw [BitVec.toNat_ofNat, BitVec.toNat_ofNat] at words
  omega

/-- The words in front of the last are those of the original wrapper. -/
theorem replaceEntry_front (wrapped : s.wrapped h = true) (short : branch < 4) {i : Nat}
    (front : i < branch) :
    (replaceEntry l h branch wrapperNumber directNumber s).code (wordAt (l.wrapper h) i)
      = memcpyCode s.code (l.wrapper h) (s.originalWrapper h) (branch + 1)
          (wordAt (l.wrapper h) i) := by
  unfold replaceEntry
  rw [if_pos wrapped]
  refine Function.update_of_ne (fun same => ?_) _ _
  have last := wordAt_inj (by omega) short same
  omega

/-- The last word of the new wrapper. -/
theorem replaceEntry_branch (wrapped : s.wrapped h = true) :
    (replaceEntry l h branch wrapperNumber directNumber s).code (wordAt (l.wrapper h) branch)
      = 0xea000000 + branchWords l h branch := by
  unfold replaceEntry
  rw [if_pos wrapped]
  exact Function.update_self ..

theorem memcpyCode_frame (code : Word → Word) (dst src address : Word) (n : Nat)
    (out : ∀ i < n, address ≠ wordAt dst i) : memcpyCode code dst src n address = code address := by
  induction n with
  | zero => rfl
  | succ n ih =>
    rw [memcpyCode, Function.update_of_ne (out n (Nat.lt_succ_self n)),
      ih fun i below => out i (Nat.lt_succ_of_lt below)]

/-- Between areas that do not overlap the words are what they were. -/
theorem memcpyCode_copies (code : Word → Word) (dst src : Word) (n : Nat) (short : n ≤ 4)
    (apart : ∀ i < n, ∀ j < n, wordAt src i ≠ wordAt dst j) {i : Nat} (inside : i < n) :
    memcpyCode code dst src n (wordAt dst i) = code (wordAt src i) := by
  induction n with
  | zero => exact absurd inside (Nat.not_lt_zero i)
  | succ n ih =>
    rw [memcpyCode]
    by_cases last : i = n
    · rw [last, Function.update_self]
      exact memcpyCode_frame code dst src _ n fun j below =>
        apart n (Nat.lt_succ_self n) j (Nat.lt_succ_of_lt below)
    · rw [Function.update_of_ne fun same => last (wordAt_inj (by omega) (by omega) same)]
      refine ih (Nat.le_of_succ_le short) (fun j below k below' => ?_) (by omega)
      exact apart j (Nat.lt_succ_of_lt below) k (Nat.lt_succ_of_lt below')

/-- Only the words of the hook's own wrapper are written. -/
theorem replaceEntry_code_frame (address : Word)
    (out : ∀ i < branch + 1, address ≠ wordAt (l.wrapper h) i) :
    (replaceEntry l h branch wrapperNumber directNumber s).code address = s.code address := by
  unfold replaceEntry
  split
  · have written := memcpyCode_frame s.code (l.wrapper h) (s.originalWrapper h) address
      (branch + 1) out
    exact (Function.update_of_ne (out branch (Nat.lt_succ_self branch)) _ _).trans written
  · rfl

end Specs

end SysMonitor.Source.SysCallTable
