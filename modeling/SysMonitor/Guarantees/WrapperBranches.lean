import SysMonitor.Guarantees.HookInstall

/-!
# The branches of wrappers

The init functions take the target of a wrapper's branch apart and put the branch of the new
wrapper together without the sign of the 24 bits. Both are right for branches that go forward,
and for no others.
-/

namespace SysMonitor.Guarantees.WrapperBranches
open SysMonitor.Library.ArmInstructions SysMonitor.Library.ArmBranch SysMonitor.Source
open SysMonitor.Source.SysCallTable SysMonitor.Guarantees.HookInstall

/-- The function that looks at the entry of the hook. -/
def initOf (l : Layout) : Hook → Hooks → Hooks
  | .exec => execOperationInit l
  | _ => forkOperationInit l

/-- Where the branch of the hook's entry is, if the entry is a wrapper. -/
def branchAt (s : Hooks) (h : Hook) : Word := wordAt (s.table (number h)) (branchIndex h)

/-- The entry is taken for a wrapper. -/
def Recognised (s : Hooks) (h : Hook) : Prop :=
  isWrapper s.code (s.table (number h)) (branchIndex h)

instance (s : Hooks) (h : Hook) : Decidable (Recognised s h) :=
  inferInstanceAs (Decidable (isWrapper _ _ _))

section Inits

variable (l : Layout) {s : Hooks} {h : Hook}

/-- The originals of `fork_operation_init` as they are fetched. -/
def fetched (s : Hooks) : Hooks :=
  ((s.getOriginal .fork NR_fork).getOriginal .vfork NR_vfork).getOriginal .clone NR_clone

/-- What a check finds when nothing was stored for its hook before. -/
theorem check_spec {t : Hooks} (entry : t.original h = s.table (number h)) (code : t.code = s.code)
    (recognised : Recognised s h) :
    (checkWrapper h (branchIndex h) t).wrapped h = true ∧
      (checkWrapper h (branchIndex h) t).original h
        = s.table (number h) + (s.code (branchAt s h) &&& 0x00ffffff) * 4
          + BitVec.ofNat 32 (4 * branchIndex h + 8) := by
  have wrapper : isWrapper t.code (t.original h) (branchIndex h) := by
    rw [entry, code]
    exact recognised
  refine ⟨checkWrapper_wrapped_of h _ t wrapper, ?_⟩
  rw [checkWrapper_original_self h _ t wrapper, entry, code]
  rfl

/-- The flag and the original after the three checks of `fork_operation_init`. -/
theorem fork_checks (recognised : Recognised s h) (notExec : h ≠ .exec) :
    (checkClone (checkVfork (checkFork (fetched s)))).wrapped h = true ∧
      (checkClone (checkVfork (checkFork (fetched s)))).original h
        = s.table (number h) + (s.code (branchAt s h) &&& 0x00ffffff) * 4
          + BitVec.ofNat 32 (4 * branchIndex h + 8) := by
  unfold checkClone checkVfork checkFork
  cases h with
  | fork =>
    rw [checkWrapper_wrapped_other _ _ _ _ (by decide),
      checkWrapper_wrapped_other _ _ _ _ (by decide),
      checkWrapper_original_other _ _ _ _ (by decide),
      checkWrapper_original_other _ _ _ _ (by decide)]
    exact check_spec rfl rfl recognised
  | vfork =>
    rw [checkWrapper_wrapped_other _ _ _ _ (by decide),
      checkWrapper_original_other _ _ _ _ (by decide)]
    refine check_spec ?_ (checkWrapper_code ..) recognised
    exact checkWrapper_original_other _ _ _ _ (by decide)
  | clone =>
    refine check_spec ?_ ?_ recognised
    · rw [checkWrapper_original_other _ _ _ _ (by decide),
        checkWrapper_original_other _ _ _ _ (by decide)]
      rfl
    · rw [checkWrapper_code, checkWrapper_code]
      rfl
  | exec => exact absurd rfl notExec

/-- What is stored for a wrapper. -/
theorem init_original (recognised : Recognised s h) : (initOf l h s).original h
    = s.table (number h) + (s.code (branchAt s h) &&& 0x00ffffff) * 4
      + BitVec.ofNat 32 (4 * branchIndex h + 8) := by
  have forked : h ≠ .exec → (forkOperationInit l s).original h
      = s.table (number h) + (s.code (branchAt s h) &&& 0x00ffffff) * 4
        + BitVec.ofNat 32 (4 * branchIndex h + 8) := by
    intro notExec
    change (dealClone l (dealVfork l (dealFork l (checkClone (checkVfork (checkFork
      (fetched s))))))).original h = _
    rw [dealClone, replaceEntry_original, dealVfork, replaceEntry_original, dealFork,
      replaceEntry_original]
    exact (fork_checks recognised notExec).2
  cases h with
  | exec =>
    change (dealExec l (checkExec (s.getOriginal .exec NR_execve))).original .exec = _
    rw [dealExec, replaceEntry_original]
    exact (check_spec (t := s.getOriginal .exec NR_execve) rfl rfl recognised).2
  | fork => exact forked (by decide)
  | vfork => exact forked (by decide)
  | clone => exact forked (by decide)

/-- What is written as the branch of the new wrapper. -/
theorem init_branch (recognised : Recognised s h) :
    (initOf l h s).code (wordAt (l.wrapper h) (branchIndex h))
      = 0xea000000 + branchWords l h (branchIndex h) := by
  have wrapped : h ≠ .exec → (checkClone (checkVfork (checkFork (fetched s)))).wrapped h = true :=
    fun notExec => (fork_checks recognised notExec).1
  cases h with
  | fork =>
    change (dealClone l (dealVfork l (dealFork l _))).code _ = _
    rw [dealClone, branch_kept l (by decide) (by decide) (by decide), dealVfork,
      branch_kept l (by decide) (by decide) (by decide)]
    exact replaceEntry_branch l .fork 1 _ _ _ (wrapped (by decide))
  | vfork =>
    change (dealClone l (dealVfork l (dealFork l _))).code _ = _
    rw [dealClone, branch_kept l (by decide) (by decide) (by decide)]
    apply replaceEntry_branch l .vfork 1 _ _ _
    rw [dealFork, replaceEntry_wrapped]
    exact wrapped (by decide)
  | clone =>
    apply replaceEntry_branch l .clone 2 _ _ _
    rw [dealVfork, replaceEntry_wrapped, dealFork, replaceEntry_wrapped]
    exact wrapped (by decide)
  | exec =>
    have flag := (check_spec (t := s.getOriginal .exec NR_execve) rfl rfl recognised).1
    exact replaceEntry_branch l .exec 1 _ _ _ flag

end Inits

/-- For every table, every code and every entry that is taken for a wrapper: what is stored as the
original is the target of the wrapper's branch if and only if that branch goes forward. -/
theorem original_target_iff (l : Layout) {s : Hooks} {h : Hook} (recognised : Recognised s h) :
    branchTarget (branchAt s h) (s.code (branchAt s h)) = some ((initOf l h s).original h) ↔
      field (s.code (branchAt s h)) 0 24 < 2 ^ 23 := by
  have base : branchAt s h + 8 = s.table (number h) + BitVec.ofNat 32 (4 * branchIndex h + 8) := by
    rw [branchAt, wordAt, BitVec.ofNat_add, ← BitVec.add_assoc]
    rfl
  have opcode : 0xff000000 &&& s.code (branchAt s h) = 0xea000000 := recognised.2
  rw [init_original l recognised, branchTarget_of_opcode opcode, Option.some.injEq, base,
    ← branchOffset_eq_iff, BitVec.add_assoc, BitVec.add_assoc, BitVec.add_right_inj,
    BitVec.add_comm, BitVec.add_left_inj]

/-- A kernel whose four entries are one wrapper with this branch. -/
def wrapping (branch : Word) : Hooks :=
  loaded (fun _ => 0xc0008000) fun address => if address = 0xc0008000 then 0xe28d0000 else branch

/-- A branch over 256 words, in the three words of clone. -/
theorem original_target_clone :
    branchTarget (branchAt (wrapping 0xea000100) .clone)
        ((wrapping 0xea000100).code (branchAt (wrapping 0xea000100) .clone))
      = some ((initOf smallLayout .clone (wrapping 0xea000100)).original .clone) ↔
    field ((wrapping 0xea000100).code (branchAt (wrapping 0xea000100) .clone)) 0 24 < 2 ^ 23 :=
  original_target_iff smallLayout (by decide)

/-- A branch back over 256 words: what is stored lies 64 MB behind the function. -/
theorem backward_original : Recognised (wrapping 0xeaffff00) .fork ∧
    branchTarget (branchAt (wrapping 0xeaffff00) .fork)
        ((wrapping 0xeaffff00).code (branchAt (wrapping 0xeaffff00) .fork))
      = some ((initOf smallLayout .fork (wrapping 0xeaffff00)).original .fork - 0x04000000) ∧
    branchTarget (branchAt (wrapping 0xeaffff00) .fork)
        ((wrapping 0xeaffff00).code (branchAt (wrapping 0xeaffff00) .fork))
      ≠ some ((initOf smallLayout .fork (wrapping 0xeaffff00)).original .fork) := by
  decide

/-- From where the branch of the new wrapper counts to the function. -/
def distance (l : Layout) (h : Hook) : Int :=
  (l.fake h - (wordAt (l.wrapper h) (branchIndex h) + 8)).toInt

/-- For all addresses within the reach of a branch and every entry that is taken for a wrapper:
the word that is written is a branch to the function if and only if that lies forward. -/
theorem patched_target_iff (l : Layout) {s : Hooks} {h : Hook} (recognised : Recognised s h)
    (reach : -2 ^ 25 ≤ distance l h ∧ distance l h < 2 ^ 25) :
    (field ((initOf l h s).code (wordAt (l.wrapper h) (branchIndex h))) 24 8 = 0xea ∧
      branchTarget (wordAt (l.wrapper h) (branchIndex h))
        ((initOf l h s).code (wordAt (l.wrapper h) (branchIndex h))) = some (l.fake h)) ↔
      0 ≤ distance l h := by
  have back : l.fake h - l.wrapper h - BitVec.ofNat 32 (4 * branchIndex h + 8)
      = l.fake h - (wordAt (l.wrapper h) (branchIndex h) + 8) := by
    rw [wordAt, BitVec.ofNat_add, BitVec.sub_sub, BitVec.add_assoc]
    rfl
  have forward : InReach l h ↔ 0 ≤ distance l h := by
    rw [InReach, back]
    unfold distance at reach ⊢
    rw [BitVec.toInt_eq_toNat_cond] at reach ⊢
    split at reach <;> omega
  rw [init_branch l recognised, ← forward, ← patched_branch_iff]
  exact and_iff_right_of_imp opcode_of_branchTarget

/-- The wrapper of exec with its function behind it. -/
theorem patched_target_exec :
    (field ((initOf smallLayout .exec (wrapping 0xea000100)).code
        (wordAt (smallLayout.wrapper .exec) 1)) 24 8 = 0xea ∧
      branchTarget (wordAt (smallLayout.wrapper .exec) 1)
        ((initOf smallLayout .exec (wrapping 0xea000100)).code (wordAt (smallLayout.wrapper .exec) 1))
        = some (smallLayout.fake .exec)) ↔
      0 ≤ distance smallLayout .exec :=
  patched_target_iff smallLayout (by decide) (by decide)

/-- A module whose wrappers lie 128 bytes behind their functions. -/
def backwardLayout : Layout where
  fake := smallLayout.wrapper
  wrapper := smallLayout.fake
  fakeAligned := smallLayout.wrapperAligned
  wrapperAligned := smallLayout.fakeAligned
  fakeInjective h h' := by cases h <;> cases h' <;> decide
  fakeApart h h' := by cases h <;> cases h' <;> decide
  wrapperApart h h' := by cases h <;> cases h' <;> decide

/-- The distance is within reach, but what is written there is no branch. -/
theorem backward_patch : Recognised (wrapping 0xea000100) .exec ∧
    (-2 ^ 25 ≤ distance backwardLayout .exec ∧ distance backwardLayout .exec < 2 ^ 25) ∧
    field ((initOf backwardLayout .exec (wrapping 0xea000100)).code
      (wordAt (backwardLayout.wrapper .exec) 1)) 24 8 = 0x29 ∧
    branchTarget (wordAt (backwardLayout.wrapper .exec) 1)
      ((initOf backwardLayout .exec (wrapping 0xea000100)).code
        (wordAt (backwardLayout.wrapper .exec) 1)) = none := by
  decide

end SysMonitor.Guarantees.WrapperBranches
