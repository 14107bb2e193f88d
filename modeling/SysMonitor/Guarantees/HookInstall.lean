import SysMonitor.Library.ArmBranch
import SysMonitor.Source.SysCallTable

/-!
# Every hooked entry of the system call table gets its own replacement

The table and the code its entries point at are arbitrary, so each of the four entries may
have a wrapper or not. The installation is right exactly when vfork has a wrapper, since
its other branch writes the entry of fork, and every wrapper that is used leads to its branch
and lies in front of its function, within the reach of a branch.
-/

namespace SysMonitor.Guarantees.HookInstall
open SysMonitor.Library.ArmInstructions SysMonitor.Library.ArmBranch SysMonitor.Source
open SysMonitor.Source.SysCallTable

def number : Hook → Nat
  | .fork => NR_fork
  | .vfork => NR_vfork
  | .clone => NR_clone
  | .exec => NR_execve

/-- Which word of a wrapper is its branch. -/
def branchIndex : Hook → Nat
  | .clone => 2
  | _ => 1

/-- `fork_operation_init` and `exec_operation_init` on a module that was just loaded. -/
def install (l : Layout) (table : Nat → Word) (code : Word → Word) : Hooks :=
  execOperationInit l (forkOperationInit l (loaded table code))

/-- One of the words in front of the branch of a wrapper. -/
def InFront (wrapper : Word) (h : Hook) (address : Word) : Prop :=
  ∃ i < branchIndex h, address = wordAt wrapper i

instance (wrapper : Word) (h : Hook) : DecidablePred (InFront wrapper h) := fun address =>
  inferInstanceAs (Decidable (∃ i < branchIndex h, address = wordAt wrapper i))

/-- Where the words in front of the branch lead, followed from the first one. As many steps as
there are words, all in front of the branch, go round for ever. -/
def front (flow : Flow) (code : Word → Word) (wrapper : Word) (h : Hook) : Option Word :=
  flow.leave code (InFront wrapper h) (branchIndex h) wrapper

example : front .immediates (fun a => if a = 0xbf000200 then 0xe28dc008 else 0xe58dc004)
    0xbf000200 .clone = some 0xbf000208 := by decide

example : front .immediates (fun _ => 0xe28df008) 0xbf000000 .fork = none := by decide

/-- Where a call of the entry ends up: through the words of the wrapper and its branch, or
directly. -/
def landing (flow : Flow) (s : Hooks) (h : Hook) : Option Word :=
  let entry := s.table (number h)
  if s.wrapped h then
    (front flow s.code entry h).bind fun address =>
      if address = wordAt entry (branchIndex h) then branchTarget address (s.code address)
      else some address
  else some entry

/-- Every hooked entry holds its own replacement and leads to its own function, and every
other entry is what it was. -/
structure Installed (flow : Flow) (l : Layout) (table : Nat → Word) (s : Hooks) : Prop where
  own : ∀ h, s.table (number h) = if s.wrapped h then l.wrapper h else l.fake h
  lands : ∀ h, landing flow s h = some (l.fake h)
  others : ∀ n, (∀ h, n ≠ number h) → s.table n = table n

/-- The entry is recognised as a wrapper by the function that looks at it. -/
def EntryWrapped (l : Layout) (table : Nat → Word) (code : Word → Word) : Hook → Prop
  | .exec => isWrapper (forkOperationInit l (loaded table code)).code (table NR_execve) 1
  | h => isWrapper code (table (number h)) (branchIndex h)

/-- The function lies behind its wrapper, at most 2^25 bytes from where a branch counts. -/
def InReach (l : Layout) (h : Hook) : Prop :=
  (l.fake h - l.wrapper h - BitVec.ofNat 32 (4 * branchIndex h + 8)).toNat < 2 ^ 25

section Stages

variable (l : Layout) (table : Nat → Word) (code : Word → Word)

/-- The three originals, fetched and checked. -/
def checked : Hooks :=
  checkClone (checkVfork (checkFork
    ((((loaded table code).getOriginal .fork NR_fork).getOriginal .vfork NR_vfork).getOriginal
      .clone NR_clone)))

theorem checked_table : (checked table code).table = table := by
  simp [checked, checkClone, checkVfork, checkFork, Hooks.getOriginal, loaded]

theorem checked_code : (checked table code).code = code := by
  simp [checked, checkClone, checkVfork, checkFork, Hooks.getOriginal, loaded]

theorem checked_fork : (checked table code).wrapped .fork = true
    ↔ EntryWrapped l table code .fork := by
  unfold checked checkClone checkVfork checkFork
  rw [checkWrapper_wrapped_other _ _ _ _ (by decide), checkWrapper_wrapped_other _ _ _ _ (by decide),
    checkWrapper_wrapped_self _ _ _ rfl]
  rfl

theorem checked_vfork : (checked table code).wrapped .vfork = true
    ↔ EntryWrapped l table code .vfork := by
  unfold checked checkClone checkVfork checkFork
  rw [checkWrapper_wrapped_other _ _ _ _ (by decide), checkWrapper_wrapped_self, checkWrapper_code,
    checkWrapper_original_other _ _ _ _ (by decide)]
  · rfl
  · rw [checkWrapper_wrapped_other _ _ _ _ (by decide)]
    rfl

theorem checked_clone : (checked table code).wrapped .clone = true
    ↔ EntryWrapped l table code .clone := by
  unfold checked checkClone checkVfork checkFork
  rw [checkWrapper_wrapped_self, checkWrapper_code, checkWrapper_code,
    checkWrapper_original_other _ _ _ _ (by decide), checkWrapper_original_other _ _ _ _ (by decide)]
  · rfl
  · rw [checkWrapper_wrapped_other _ _ _ _ (by decide),
      checkWrapper_wrapped_other _ _ _ _ (by decide)]
    rfl

theorem checked_exec : (checked table code).wrapped .exec = false := by
  unfold checked checkClone checkVfork checkFork
  rw [checkWrapper_wrapped_other _ _ _ _ (by decide), checkWrapper_wrapped_other _ _ _ _ (by decide),
    checkWrapper_wrapped_other _ _ _ _ (by decide)]
  rfl

theorem forkOperationInit_eq : forkOperationInit l (loaded table code)
    = dealClone l (dealVfork l (dealFork l (checked table code))) := rfl

theorem forked_wrapped : (forkOperationInit l (loaded table code)).wrapped
    = (checked table code).wrapped := by
  rw [forkOperationInit_eq]
  simp [dealClone, dealVfork, dealFork]

/-- The table after `fork_operation_init`. -/
theorem forked_table (n : Nat) : (forkOperationInit l (loaded table code)).table n
    = if n = NR_clone then
        if (checked table code).wrapped .clone then l.wrapper .clone else l.fake .clone
      else if (checked table code).wrapped .vfork then
        if n = NR_vfork then l.wrapper .vfork
        else if n = NR_fork then
          if (checked table code).wrapped .fork then l.wrapper .fork else l.fake .fork
        else table n
      else if n = NR_fork then l.fake .vfork
      else table n := by
  rw [forkOperationInit_eq, dealClone, replaceEntry_table, dealVfork, replaceEntry_table, dealFork,
    replaceEntry_table]
  simp only [replaceEntry_wrapped, checked_table]
  cases (checked table code).wrapped .clone <;> cases (checked table code).wrapped .vfork <;>
    cases (checked table code).wrapped .fork <;> simp [Function.update_apply]

theorem install_eq : install l table code
    = dealExec l (checkExec ((forkOperationInit l (loaded table code)).getOriginal .exec
        NR_execve)) := rfl

/-- The later function leaves the flags of the earlier one alone. -/
theorem install_flag (h : Hook) (other : h ≠ .exec) :
    (install l table code).wrapped h = (checked table code).wrapped h := by
  rw [install_eq, dealExec, replaceEntry_wrapped, checkExec,
    checkWrapper_wrapped_other _ _ _ _ other]
  exact congrFun (forked_wrapped l table code) h

/-- The flags are what the entries were recognised as. -/
theorem install_wrapped (h : Hook) :
    (install l table code).wrapped h = true ↔ EntryWrapped l table code h := by
  cases h with
  | fork =>
    rw [install_flag l table code .fork (by decide)]
    exact checked_fork l table code
  | vfork =>
    rw [install_flag l table code .vfork (by decide)]
    exact checked_vfork l table code
  | clone =>
    rw [install_flag l table code .clone (by decide)]
    exact checked_clone l table code
  | exec =>
    have entry : (forkOperationInit l (loaded table code)).table NR_execve = table NR_execve := by
      rw [forked_table]
      simp [NR_execve, NR_clone, NR_vfork, NR_fork]
    have fresh : (forkOperationInit l (loaded table code)).wrapped .exec = false := by
      rw [forked_wrapped, checked_exec]
    rw [install_eq, dealExec, replaceEntry_wrapped, checkExec,
      checkWrapper_wrapped_self _ _ _ (by exact fresh), EntryWrapped, ← entry]
    simp [Hooks.getOriginal]

/-- The table after both functions. -/
theorem install_table (n : Nat) : (install l table code).table n
    = if n = NR_execve then
        if (install l table code).wrapped .exec then l.wrapper .exec else l.fake .exec
      else (forkOperationInit l (loaded table code)).table n := by
  rw [install_eq, dealExec, replaceEntry_table, replaceEntry_wrapped]
  cases (checkExec ((forkOperationInit l (loaded table code)).getOriginal .exec
      NR_execve)).wrapped .exec <;>
    simp [Function.update_apply, checkExec, Hooks.getOriginal]

/-- Replacing one entry leaves the wrapper of another hook alone. -/
theorem branch_kept {h h' : Hook} (other : h' ≠ h) {branch branch' : Nat} (short : branch < 4)
    (short' : branch' < 4) (m n : Nat) (s : Hooks) :
    (replaceEntry l h' branch' m n s).code (wordAt (l.wrapper h) branch)
      = s.code (wordAt (l.wrapper h) branch) := by
  apply replaceEntry_code_frame l h' branch' s m n _
  intro i below
  exact l.wrapperApart h h' (Ne.symm other) branch short i (by omega)

/-- What the init functions find when they come to replace the entry of a hook. -/
def dealing : Hook → Hooks
  | .fork => checked table code
  | .vfork => dealFork l (checked table code)
  | .clone => dealVfork l (dealFork l (checked table code))
  | .exec => checkExec ((forkOperationInit l (loaded table code)).getOriginal .exec NR_execve)

theorem dealing_wrapped (h : Hook) :
    (dealing l table code h).wrapped h = (install l table code).wrapped h := by
  cases h with
  | fork => rw [install_flag l table code .fork (by decide), dealing]
  | vfork =>
    rw [install_flag l table code .vfork (by decide), dealing, dealFork, replaceEntry_wrapped]
  | clone =>
    rw [install_flag l table code .clone (by decide), dealing, dealVfork, replaceEntry_wrapped,
      dealFork, replaceEntry_wrapped]
  | exec => rw [install_eq, dealExec, replaceEntry_wrapped, dealing]

/-- Outside the module's wrappers the code is what it was. -/
theorem dealing_outside {address : Word}
    (outside : ∀ h, ∀ i < 4, address ≠ wordAt (l.wrapper h) i) (h : Hook) :
    (dealing l table code h).code address = code address := by
  have dealt : ∀ h branch m n s, branch < 4 →
      (replaceEntry l h branch m n s).code address = s.code address := by
    intro h branch m n s short
    exact replaceEntry_code_frame l h branch s m n address fun i below => outside h i (by omega)
  cases h with
  | fork => rw [dealing, checked_code]
  | vfork => rw [dealing, dealFork, dealt _ _ _ _ _ (by decide), checked_code]
  | clone =>
    rw [dealing, dealVfork, dealt _ _ _ _ _ (by decide), dealFork, dealt _ _ _ _ _ (by decide),
      checked_code]
  | exec =>
    rw [dealing, checkExec, checkWrapper_code]
    change (forkOperationInit l (loaded table code)).code address = code address
    rw [forkOperationInit_eq, dealClone, dealt _ _ _ _ _ (by decide), dealVfork,
      dealt _ _ _ _ _ (by decide), dealFork, dealt _ _ _ _ _ (by decide), checked_code]

/-- The words of a wrapper are those that its own replacement left there. -/
theorem install_word (h : Hook) {i : Nat} (short : i < 4) : ∃ m n,
    (install l table code).code (wordAt (l.wrapper h) i)
      = (replaceEntry l h (branchIndex h) m n (dealing l table code h)).code
          (wordAt (l.wrapper h) i) := by
  have exec_keeps : h ≠ .exec → (install l table code).code (wordAt (l.wrapper h) i)
      = (forkOperationInit l (loaded table code)).code (wordAt (l.wrapper h) i) := by
    intro other
    rw [install_eq, dealExec, branch_kept l (Ne.symm other) short (by decide), checkExec,
      checkWrapper_code]
    rfl
  cases h with
  | fork =>
    refine ⟨NR_fork, NR_fork, ?_⟩
    rw [exec_keeps (by decide), forkOperationInit_eq, dealClone,
      branch_kept l (by decide) short (by decide), dealVfork,
      branch_kept l (by decide) short (by decide)]
    rfl
  | vfork =>
    refine ⟨NR_vfork, NR_fork, ?_⟩
    rw [exec_keeps (by decide), forkOperationInit_eq, dealClone,
      branch_kept l (by decide) short (by decide)]
    rfl
  | clone =>
    refine ⟨NR_clone, NR_clone, ?_⟩
    rw [exec_keeps (by decide), forkOperationInit_eq]
    rfl
  | exec => exact ⟨NR_execve, NR_execve, rfl⟩

/-- The branch of every wrapper that is used is the one that was patched in. -/
theorem install_branch (h : Hook) (wrapped : (install l table code).wrapped h = true) :
    (install l table code).code (wordAt (l.wrapper h) (branchIndex h))
      = 0xea000000 + branchWords l h (branchIndex h) := by
  obtain ⟨m, n, word⟩ := install_word l table code h (i := branchIndex h) (by cases h <;> decide)
  rw [← dealing_wrapped] at wrapped
  rw [word, replaceEntry_branch l h (branchIndex h) _ m n wrapped]

/-- The wrapper that is copied is what the table's entry pointed at. -/
theorem dealing_originalWrapper (h : Hook) (entry : EntryWrapped l table code h) :
    (dealing l table code h).originalWrapper h = table (number h) := by
  cases h with
  | fork =>
    unfold dealing checked checkClone checkVfork
    rw [checkWrapper_originalWrapper_other _ _ _ _ (by decide),
      checkWrapper_originalWrapper_other _ _ _ _ (by decide), checkFork,
      checkWrapper_originalWrapper_self _ _ _ (by exact entry)]
    rfl
  | vfork =>
    have original : (checkFork ((((loaded table code).getOriginal .fork NR_fork).getOriginal
        .vfork NR_vfork).getOriginal .clone NR_clone)).original .vfork = table NR_vfork :=
      checkWrapper_original_other _ _ _ _ (by decide)
    rw [dealing, dealFork, replaceEntry_originalWrapper]
    unfold checked checkClone checkVfork
    rw [checkWrapper_originalWrapper_other _ _ _ _ (by decide),
      checkWrapper_originalWrapper_self _ _ _ (by
        rw [original, checkFork, checkWrapper_code]
        exact entry), original]
    rfl
  | clone =>
    have original : (checkVfork (checkFork ((((loaded table code).getOriginal .fork
        NR_fork).getOriginal .vfork NR_vfork).getOriginal .clone NR_clone))).original .clone
          = table NR_clone := by
      rw [checkVfork, checkWrapper_original_other _ _ _ _ (by decide), checkFork,
        checkWrapper_original_other _ _ _ _ (by decide)]
      rfl
    rw [dealing, dealVfork, replaceEntry_originalWrapper, dealFork, replaceEntry_originalWrapper]
    unfold checked checkClone
    rw [checkWrapper_originalWrapper_self _ _ _ (by
      rw [original, checkVfork, checkWrapper_code, checkFork, checkWrapper_code]
      exact entry), original]
    rfl
  | exec =>
    have execve : (forkOperationInit l (loaded table code)).table NR_execve = table NR_execve := by
      rw [forked_table]
      simp [NR_execve, NR_clone, NR_vfork, NR_fork]
    have original : ((forkOperationInit l (loaded table code)).getOriginal .exec
        NR_execve).original .exec = table NR_execve := by
      simp [Hooks.getOriginal, execve]
    rw [dealing, checkExec, checkWrapper_originalWrapper_self _ _ _ (by rw [original]; exact entry),
      original]
    rfl

/-- The module's wrapper with the words that the entry points at, before its branch is patched. -/
def copied (h : Hook) : Word → Word :=
  memcpyCode (dealing l table code h).code (l.wrapper h) (table (number h)) (branchIndex h + 1)

/-- An entry that does not point into the module's own wrappers is copied as it was before. -/
theorem copied_word (h : Hook)
    (outside : ∀ i < 4, ∀ h', ∀ j < 4, wordAt (table (number h)) i ≠ wordAt (l.wrapper h') j)
    {i : Nat} (inside : i ≤ branchIndex h) :
    copied l table code h (wordAt (l.wrapper h) i) = code (wordAt (table (number h)) i) := by
  have short : branchIndex h < 4 := by cases h <;> decide
  rw [copied, memcpyCode_copies _ _ _ _ short
    (fun j below k below' => outside j (by omega) h k (by omega)) (Nat.lt_succ_of_le inside)]
  exact dealing_outside l table code (outside i (by omega)) h

/-- The words in front of the branch lead to it, and the function is in reach of it; or they lead
to the function by themselves. -/
def LeadsOn (flow : Flow) (h : Hook) : Prop :=
  ∃ address, front flow (copied l table code h) (l.wrapper h) h = some address ∧
    if address = wordAt (l.wrapper h) (branchIndex h) then InReach l h else address = l.fake h

theorem install_front (flow : Flow) (h : Hook) (entry : EntryWrapped l table code h) :
    front flow (install l table code).code (l.wrapper h) h
      = front flow (copied l table code h) (l.wrapper h) h := by
  have wrapped : (dealing l table code h).wrapped h = true := by
    rw [dealing_wrapped, install_wrapped]
    exact entry
  have short : branchIndex h < 4 := by cases h <;> decide
  apply flow.leave_congr
  · rintro _ ⟨i, before, rfl⟩
    obtain ⟨m, n, word⟩ := install_word l table code h (Nat.lt_trans before short)
    rw [word, replaceEntry_front l h (branchIndex h) _ m n wrapped short before,
      dealing_originalWrapper l table code h entry, copied]
  · exact ⟨0, by cases h <;> decide, (wordAt_zero _).symm⟩

/-- Code that goes on from one word to the next comes to the branch. -/
theorem front_straight (flow : Flow) (words : Word → Word) (wrapper : Word) (h : Hook)
    (straight : ∀ i < branchIndex h,
      flow.next (wordAt wrapper i) (words (wordAt wrapper i)) = some (wordAt wrapper (i + 1))) :
    front flow words wrapper h = some (wordAt wrapper (branchIndex h)) := by
  have short : branchIndex h < 4 := by cases h <;> decide
  have positive : 0 < branchIndex h := by cases h <;> decide
  have reaches : ∀ n i, i + n = branchIndex h → 0 < n →
      flow.leave words (InFront wrapper h) n (wordAt wrapper i)
        = some (wordAt wrapper (branchIndex h)) := by
    intro n
    induction n with
    | zero => exact fun _ _ none => absurd none (Nat.lt_irrefl 0)
    | succ n ih =>
      intro i whole _
      rw [Flow.leave, straight i (by omega), Option.bind_some]
      by_cases last : n = 0
      · have end_ : i + 1 = branchIndex h := by omega
        rw [if_neg, end_]
        rintro ⟨j, before, same⟩
        have equal := wordAt_inj (by omega) (by omega) same
        omega
      · rw [if_pos ⟨i + 1, by omega, rfl⟩]
        exact ih (i + 1) (by omega) (Nat.pos_of_ne_zero last)
  have whole := reaches (branchIndex h) 0 (Nat.zero_add _) positive
  rw [wordAt_zero] at whole
  exact whole

/-- In reach and behind words that go on from one to the next, the function is led to. The first
word does so unless its `add` writes the pc. -/
theorem leadsOn_of_straight (flow : Flow) (h : Hook) (reach : InReach l h)
    (outside : ∀ i < 4, ∀ h', ∀ j < 4, wordAt (table (number h)) i ≠ wordAt (l.wrapper h') j)
    (first : field (code (table (number h))) 16 16 = 0xe28d ∧
      field (code (table (number h))) 12 4 ≠ 0xf)
    (second : h = .clone → flow.next (wordAt (l.wrapper h) 1)
        (code (wordAt (table (number h)) 1)) = some (wordAt (l.wrapper h) 2)) :
    LeadsOn l table code flow h := by
  refine ⟨_, front_straight flow _ _ h fun i before => ?_, by rw [if_pos rfl]; exact reach⟩
  rw [copied_word l table code h outside (Nat.le_of_lt before)]
  cases i with
  | zero =>
    rw [wordAt_succ, wordAt_zero, wordAt_zero, flow.addSp first.1, if_neg first.2]
  | succ i =>
    have clone : h = .clone := by
      cases h <;> first | rfl | exact absurd before (by simp [branchIndex])
    obtain rfl : i = 0 := by
      rw [clone, branchIndex] at before
      omega
    exact second clone

/-- The patched branch goes to the function exactly when that is in reach. -/
theorem patched_branch_iff (h : Hook) :
    branchTarget (wordAt (l.wrapper h) (branchIndex h)) (0xea000000 + branchWords l h (branchIndex h))
      = some (l.fake h) ↔ InReach l h := by
  have fake := l.fakeAligned h
  have wrapper := l.wrapperAligned h
  have fake_small := (l.fake h).isLt
  have wrapper_small := (l.wrapper h).isLt
  obtain ⟨back, back_eq⟩ : ∃ back, back = 4 * branchIndex h + 8 := ⟨_, rfl⟩
  have back_cases : back = 12 ∨ back = 16 := by
    rw [back_eq]
    cases h <;> decide
  have distance : (l.fake h - l.wrapper h - BitVec.ofNat 32 back).toNat % 4 = 0 := by
    rw [BitVec.toNat_sub, BitVec.toNat_sub, BitVec.toNat_ofNat]
    rcases back_cases with rfl | rfl <;> omega
  have words : (branchWords l h (branchIndex h)).toNat
      = (l.fake h - l.wrapper h - BitVec.ofNat 32 back).toNat / 4 := by
    rw [branchWords, ← back_eq, BitVec.toNat_udiv]
    rfl
  have bound := (l.fake h - l.wrapper h - BitVec.ofNat 32 back).isLt
  have target : wordAt (l.wrapper h) (branchIndex h) + 8 + branchWords l h (branchIndex h) * 4
      = l.fake h := by
    apply BitVec.eq_of_toNat_eq
    rw [BitVec.toNat_add, BitVec.toNat_add, BitVec.toNat_mul, words, wordAt, BitVec.toNat_add,
      BitVec.toNat_ofNat]
    change ((((l.wrapper h).toNat + 4 * branchIndex h % 2 ^ 32) % 2 ^ 32 + 8) % 2 ^ 32
      + (l.fake h - l.wrapper h - BitVec.ofNat 32 back).toNat / 4 * 4 % 2 ^ 32) % 2 ^ 32 = _
    rw [Nat.div_mul_cancel (Nat.dvd_of_mod_eq_zero distance), BitVec.toNat_sub, BitVec.toNat_sub,
      BitVec.toNat_ofNat]
    omega
  rw [← target, branchTarget_add_iff _ _ (by omega), words, InReach, ← back_eq]
  omega

end Stages

section Correctness

variable (l : Layout) (table : Nat → Word) (code : Word → Word)

/-- Without a wrapper on vfork the entry of fork leads to the hook of vfork. -/
theorem fork_entry_overwritten (direct : (install l table code).wrapped .vfork = false) :
    (install l table code).table NR_fork = l.fake .vfork := by
  rw [install_flag l table code .vfork (by decide)] at direct
  rw [install_table, forked_table, direct]
  simp [NR_execve, NR_clone, NR_fork]

/-- With a wrapper on vfork every entry holds its own replacement. -/
theorem own_of_wrapped (wrapped : (install l table code).wrapped .vfork = true) (h : Hook) :
    (install l table code).table (number h)
      = if (install l table code).wrapped h then l.wrapper h else l.fake h := by
  have flag := install_flag l table code
  rw [install_table, forked_table, ← flag .vfork (by decide), ← flag .fork (by decide),
    ← flag .clone (by decide), wrapped]
  cases h with
  | fork => simp [number, NR_execve, NR_clone, NR_vfork, NR_fork]
  | vfork => simp [number, NR_execve, NR_clone, NR_vfork, wrapped]
  | clone => simp [number, NR_execve, NR_clone]
  | exec => simp [number]

theorem others_unchanged (wrapped : (install l table code).wrapped .vfork = true) (n : Nat)
    (other : ∀ h, n ≠ number h) : (install l table code).table n = table n := by
  rw [install_flag l table code .vfork (by decide)] at wrapped
  have not_execve : n ≠ NR_execve := other .exec
  have not_clone : n ≠ NR_clone := other .clone
  have not_vfork : n ≠ NR_vfork := other .vfork
  have not_fork : n ≠ NR_fork := other .fork
  rw [install_table, forked_table, if_neg not_execve, if_neg not_clone, wrapped, if_pos rfl,
    if_neg not_vfork, if_neg not_fork]

/-- A wrapper that is used leads to its function exactly when its words lead on. -/
theorem landing_iff (flow : Flow) {h : Hook} (wrapped : (install l table code).wrapped h = true)
    (own : (install l table code).table (number h) = l.wrapper h) :
    landing flow (install l table code) h = some (l.fake h) ↔ LeadsOn l table code flow h := by
  have entry := (install_wrapped l table code h).mp wrapped
  unfold landing LeadsOn
  dsimp only
  rw [if_pos wrapped, own, install_front l table code flow h entry, Option.bind_eq_some_iff]
  refine exists_congr fun address => and_congr_right fun _ => ?_
  by_cases branch : address = wordAt (l.wrapper h) (branchIndex h)
  · rw [if_pos branch, if_pos branch, branch, install_branch l table code h wrapped]
    exact patched_branch_iff l h
  · rw [if_neg branch, if_neg branch, Option.some.injEq]

/-- For every table and every code, both functions install every hook on its own entry
exactly when vfork's entry is a wrapper and every entry that is a wrapper leads on, from where
it is copied to, to the function of its own hook. -/
theorem install_correct_iff (flow : Flow) :
    Installed flow l table (install l table code) ↔
      EntryWrapped l table code .vfork ∧
        ∀ h, EntryWrapped l table code h → LeadsOn l table code flow h := by
  constructor
  · rintro ⟨own, lands, -⟩
    constructor
    · by_contra direct
      rw [← install_wrapped, Bool.not_eq_true] at direct
      have fork := own .fork
      rw [number, fork_entry_overwritten l table code direct] at fork
      split at fork
      · exact l.fakeApart _ _ fork
      · exact absurd (l.fakeInjective _ _ fork) (by decide)
    · intro h entry
      have wrapped := (install_wrapped l table code h).mpr entry
      have mine := own h
      rw [if_pos wrapped] at mine
      exact (landing_iff l table code flow wrapped mine).mp (lands h)
  · rintro ⟨vfork, leads⟩
    have wrapped_vfork := (install_wrapped l table code .vfork).mpr vfork
    refine ⟨own_of_wrapped l table code wrapped_vfork, ?_,
      others_unchanged l table code wrapped_vfork⟩
    intro h
    have mine := own_of_wrapped l table code wrapped_vfork h
    by_cases wrapped : (install l table code).wrapped h = true
    · rw [if_pos wrapped] at mine
      exact (landing_iff l table code flow wrapped mine).mpr
        (leads h ((install_wrapped l table code h).mp wrapped))
    · rw [if_neg wrapped] at mine
      rw [landing, if_neg wrapped, mine]

end Correctness

/-- A module whose functions lie 128 bytes behind their wrappers. -/
def smallLayout : Layout where
  fake
    | .fork => 0xbf000080
    | .vfork => 0xbf000180
    | .clone => 0xbf000280
    | .exec => 0xbf000380
  wrapper
    | .fork => 0xbf000000
    | .vfork => 0xbf000100
    | .clone => 0xbf000200
    | .exec => 0xbf000300
  fakeAligned h := by cases h <;> decide
  wrapperAligned h := by cases h <;> decide
  fakeInjective h h' := by cases h <;> cases h' <;> decide
  fakeApart h h' := by cases h <;> cases h' <;> decide
  wrapperApart h h' := by cases h <;> cases h' <;> decide

/-- No entry has a wrapper: fork's entry ends up with the hook of vfork, and vfork's entry
is still the old one. -/
theorem direct_vfork_replaces_fork :
    (install smallLayout (fun _ => 0xc0008000) (fun _ => 0)).table NR_fork
        = smallLayout.fake .vfork ∧
    (install smallLayout (fun _ => 0xc0008000) (fun _ => 0)).table NR_vfork = 0xc0008000 ∧
    ¬ Installed .immediates smallLayout (fun _ => 0xc0008000)
      (install smallLayout (fun _ => 0xc0008000) (fun _ => 0)) := by
  refine ⟨by decide, by decide, ?_⟩
  intro installed
  have vfork := installed.own .vfork
  revert vfork
  decide

end SysMonitor.Guarantees.HookInstall
