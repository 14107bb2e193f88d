import SysMonitor.Guarantees.HookInstall
import SysMonitor.Library.Overwrites
import SysMonitor.Source.Main

/-!
# Unloading restores the system call table

Whatever an installation writes, it writes to one of the eleven hooked entries, and for
each of these it has saved what the entry held before, in one of two variables where there
may be a wrapper. The removal writes the eleven saved values back. That the installation
may write the entry of fork twice and the one of vfork never does not matter here.
-/

namespace SysMonitor.Guarantees.HookRemoval
open SysMonitor.Library.Overwrites SysMonitor.Source SysMonitor.Source.SysCallTable
open SysMonitor.Source.Main SysMonitor.Guarantees.HookInstall

def directNumber : DirectHook → Nat
  | .open => NR_open
  | .creat => NR_creat
  | .read => NR_read
  | .write => NR_write
  | .close => NR_close
  | .ioctl => NR_ioctl
  | .exit => NR_exit

/-- What a cleanup function puts back. -/
def saved (s : Hooks) (h : Hook) : Word :=
  if s.wrapped h then s.originalWrapper h else s.original h

/-- The entries in `replaced` may have been overwritten, and for each of them the value it
had before is saved. -/
structure Restorable (table : Nat → Word) (replaced : List Nat) (s : Installation) : Prop where
  same : SameOutside replaced s.hooks.table table
  direct : ∀ d, directNumber d ∈ replaced → s.originalDirect d = table (directNumber d)
  saved : ∀ h, number h ∈ replaced → saved s.hooks h = table (number h)

/-- While the module is installed, no wrapper was found yet for the entries to come. -/
structure Installing (table : Nat → Word) (replaced : List Nat) (s : Installation) : Prop
    extends Restorable table replaced s where
  fresh : ∀ h, number h ∉ replaced → s.hooks.wrapped h = false

theorem directNumber_injective {d d' : DirectHook} (same : directNumber d = directNumber d') :
    d = d' := by
  cases d <;> cases d' <;> first | rfl | exact absurd same (by decide)

theorem number_ne_direct (h : Hook) (d : DirectHook) : number h ≠ directNumber d := by
  cases h <;> cases d <;> decide

section Saved

variable (l : Layout) (h h' : Hook) (branch m n : Nat) (s : Hooks)

theorem getOriginal_saved_self (fresh : s.wrapped h = false) :
    saved (s.getOriginal h n) h = s.table n := by
  simp [saved, Hooks.getOriginal, fresh]

theorem getOriginal_saved_other (other : h' ≠ h) :
    saved (s.getOriginal h n) h' = saved s h' := by
  simp [saved, Hooks.getOriginal, Function.update_of_ne other]

/-- Finding a wrapper moves the saved value to the other variable. -/
theorem checkWrapper_saved (fresh : s.wrapped h = false) :
    saved (checkWrapper h branch s) h' = saved s h' := by
  by_cases here : h' = h
  · subst here
    unfold checkWrapper
    split
    · simp [saved, fresh]
    · rfl
  · unfold checkWrapper
    split
    · simp [saved, Function.update_of_ne here]
    · rfl

@[simp] theorem replaceEntry_saved :
    saved (replaceEntry l h branch m n s) h' = saved s h' := by
  unfold replaceEntry
  split <;> rfl

/-- Either branch overwrites one of its two entries. -/
theorem replaceEntry_same {replaced : List Nat} {table : Nat → Word}
    (same : SameOutside replaced s.table table) (first : m ∈ replaced) (second : n ∈ replaced) :
    SameOutside replaced (replaceEntry l h branch m n s).table table := by
  rw [replaceEntry_table]
  split
  · exact same.overwrite first
  · exact same.overwrite second

end Saved

section Install

variable {table : Nat → Word} {replaced : List Nat} {s : Installation}
variable (l : Layout) (fake : DirectHook → Word)

theorem replaceDirect_installing (rep : Installing table replaced s) (d : DirectHook)
    (new : directNumber d ∉ replaced) :
    Installing table (directNumber d :: replaced) (replaceDirect fake d (directNumber d) s) where
  same := by
    have wider : SameOutside (directNumber d :: replaced) s.hooks.table table :=
      fun i out => rep.same i fun inside => out (List.mem_cons_of_mem _ inside)
    exact wider.overwrite List.mem_cons_self
  direct d' member := by
    dsimp only [replaceDirect]
    by_cases here : d' = d
    · rw [here, Function.update_self]
      exact rep.same _ new
    · rw [Function.update_of_ne here]
      apply rep.direct d'
      apply (List.mem_cons.mp member).resolve_left
      exact fun eq => here (directNumber_injective eq)
  saved h member := by
    apply rep.saved h
    exact (List.mem_cons.mp member).resolve_left (number_ne_direct h d)
  fresh h out := rep.fresh h fun inside => out (List.mem_cons_of_mem _ inside)

/-- `fork_operation_init` saves what its three entries held, in one of two variables each. -/
theorem forkOperationInit_saved (hooks : Hooks)
    (fresh : ∀ h, h ≠ .exec → hooks.wrapped h = false) (h : Hook) :
    saved (forkOperationInit l hooks) h
      = if h = .exec then saved hooks .exec else hooks.table (number h) := by
  obtain ⟨got, got_eq⟩ : ∃ got, got = ((hooks.getOriginal .fork NR_fork).getOriginal .vfork
    NR_vfork).getOriginal .clone NR_clone := ⟨_, rfl⟩
  have wrapped : got.wrapped = hooks.wrapped := by rw [got_eq]; rfl
  have run : forkOperationInit l hooks
      = dealClone l (dealVfork l (dealFork l (checkClone (checkVfork (checkFork got))))) := by
    rw [got_eq]; rfl
  have kept : saved (forkOperationInit l hooks) h = saved got h := by
    rw [run, dealClone, replaceEntry_saved, dealVfork, replaceEntry_saved, dealFork,
      replaceEntry_saved, checkClone, checkWrapper_saved, checkVfork, checkWrapper_saved,
      checkFork, checkWrapper_saved]
    · rw [wrapped, fresh _ (by decide)]
    · rw [checkFork, checkWrapper_wrapped_other _ _ _ _ (by decide), wrapped, fresh _ (by decide)]
    · rw [checkVfork, checkWrapper_wrapped_other _ _ _ _ (by decide), checkFork,
        checkWrapper_wrapped_other _ _ _ _ (by decide), wrapped, fresh _ (by decide)]
  rw [kept, got_eq]
  cases h with
  | fork =>
    rw [getOriginal_saved_other _ _ _ _ (by decide), getOriginal_saved_other _ _ _ _ (by decide)]
    exact getOriginal_saved_self _ _ _ (fresh _ (by decide))
  | vfork =>
    rw [getOriginal_saved_other _ _ _ _ (by decide)]
    exact getOriginal_saved_self _ _ _ (fresh _ (by decide))
  | clone => exact getOriginal_saved_self _ _ _ (fresh _ (by decide))
  | exec =>
    rw [getOriginal_saved_other _ _ _ _ (by decide), getOriginal_saved_other _ _ _ _ (by decide),
      getOriginal_saved_other _ _ _ _ (by decide)]
    rfl

/-- The three hooks of fork.c. -/
theorem forkOperationInit_installing (rep : Installing table replaced s)
    (fork : NR_fork ∉ replaced) (vfork : NR_vfork ∉ replaced) (clone : NR_clone ∉ replaced) :
    Installing table (NR_fork :: NR_vfork :: NR_clone :: replaced)
      { s with hooks := forkOperationInit l s.hooks } := by
  have own : ∀ h, h ≠ .exec → number h ∉ replaced := by
    intro h other
    cases h with
    | fork => exact fork
    | vfork => exact vfork
    | clone => exact clone
    | exec => exact absurd rfl other
  have fresh : ∀ h, h ≠ .exec → s.hooks.wrapped h = false := fun h other => rep.fresh h (own h other)
  have wider : SameOutside (NR_fork :: NR_vfork :: NR_clone :: replaced) s.hooks.table table := by
    intro i out
    apply rep.same i
    intro inside
    exact out (by simp [inside])
  constructor
  · constructor
    · dsimp only [forkOperationInit]
      rw [dealClone, dealVfork, dealFork]
      apply replaceEntry_same
      · apply replaceEntry_same
        · apply replaceEntry_same
          · simpa [checkClone, checkVfork, checkFork, Hooks.getOriginal] using wider
          · simp
          · simp
        · simp
        · simp
      · simp
      · simp
    · intro d member
      apply rep.direct d
      cases d <;> simpa [directNumber, NR_fork, NR_vfork, NR_clone, NR_open, NR_creat, NR_read,
        NR_write, NR_close, NR_ioctl, NR_exit] using member
    · intro h member
      dsimp only
      rw [forkOperationInit_saved l _ fresh]
      split
      · next exec =>
        subst exec
        apply rep.saved .exec
        simpa [number, NR_execve, NR_fork, NR_vfork, NR_clone] using member
      · next other => exact rep.same _ (own h other)
  · intro h out
    dsimp only [forkOperationInit]
    rw [dealClone, replaceEntry_wrapped, dealVfork, replaceEntry_wrapped, dealFork,
      replaceEntry_wrapped]
    cases h with
    | fork => simp [number] at out
    | vfork => simp [number] at out
    | clone => simp [number] at out
    | exec =>
      rw [checkClone, checkWrapper_wrapped_other _ _ _ _ (by decide), checkVfork,
        checkWrapper_wrapped_other _ _ _ _ (by decide), checkFork,
        checkWrapper_wrapped_other _ _ _ _ (by decide)]
      apply rep.fresh .exec
      intro inside
      exact out (by simp [inside])

/-- The hook of exec.c. -/
theorem execOperationInit_installing (rep : Installing table replaced s)
    (new : NR_execve ∉ replaced) :
    Installing table (NR_execve :: replaced)
      { s with hooks := execOperationInit l s.hooks } := by
  have fresh : s.hooks.wrapped .exec = false := rep.fresh .exec new
  have run : execOperationInit l s.hooks
      = dealExec l (checkExec (s.hooks.getOriginal .exec NR_execve)) := rfl
  have kept : ∀ h, saved (execOperationInit l s.hooks) h
      = saved (s.hooks.getOriginal .exec NR_execve) h := by
    intro h
    rw [run, dealExec, replaceEntry_saved, checkExec, checkWrapper_saved]
    exact fresh
  have wider : SameOutside (NR_execve :: replaced) s.hooks.table table :=
    fun i out => rep.same i fun inside => out (List.mem_cons_of_mem _ inside)
  constructor
  · constructor
    · rw [run, dealExec]
      apply replaceEntry_same
      · rw [checkExec, checkWrapper_table]
        exact wider
      · simp
      · simp
    · intro d member
      apply rep.direct d
      cases d <;> simpa [directNumber, NR_execve, NR_open, NR_creat, NR_read, NR_write, NR_close,
        NR_ioctl, NR_exit] using member
    · intro h member
      dsimp only
      rw [kept]
      by_cases here : h = .exec
      · rw [here, getOriginal_saved_self _ _ _ fresh]
        exact rep.same _ new
      · rw [getOriginal_saved_other _ _ _ _ here]
        apply rep.saved h
        apply (List.mem_cons.mp member).resolve_left
        cases h <;> first | decide | exact absurd rfl here
  · intro h out
    have other : h ≠ .exec := by
      rintro rfl
      simp [number] at out
    dsimp only
    rw [run, dealExec, replaceEntry_wrapped, checkExec, checkWrapper_wrapped_other _ _ _ _ other]
    exact rep.fresh h fun inside => out (List.mem_cons_of_mem _ inside)

end Install

section Remove

variable {table : Nat → Word} {replaced : List Nat} {s : Installation}

theorem restoreDirect_restorable (d : DirectHook)
    (rep : Restorable table (directNumber d :: replaced) s) (real : table (directNumber d) ≠ 0) :
    Restorable table replaced (restoreDirect d (directNumber d) s) := by
  have back := rep.direct d List.mem_cons_self
  unfold restoreDirect
  rw [back, if_pos real]
  constructor
  · exact rep.same.restore
  · intro d' inside
    exact rep.direct d' (List.mem_cons_of_mem _ inside)
  · intro h inside
    exact rep.saved h (List.mem_cons_of_mem _ inside)

/-- One of two variables holds the old value, and the flag tells which. -/
theorem restoreEntry_eq (h : Hook) (n : Nat) (s : Hooks) (real : saved s h ≠ 0) :
    restoreEntry h n s = s.setEntry n (saved s h) := by
  unfold restoreEntry
  unfold saved at real ⊢
  split
  · next wrapped =>
    rw [if_pos wrapped] at real
    rw [if_pos real]
  · next direct =>
    rw [if_neg direct] at real
    rw [if_pos real]

theorem restoreEntry_restorable (h : Hook)
    (rep : Restorable table (number h :: replaced) s) (real : table (number h) ≠ 0) :
    Restorable table replaced { s with hooks := restoreEntry h (number h) s.hooks } := by
  have back := rep.saved h List.mem_cons_self
  rw [restoreEntry_eq h _ _ (by rw [back]; exact real), back]
  constructor
  · exact rep.same.restore
  · intro d inside
    exact rep.direct d (List.mem_cons_of_mem _ inside)
  · intro h' inside
    exact rep.saved h' (List.mem_cons_of_mem _ inside)

theorem forkOperationCleanup_restorable
    (rep : Restorable table (NR_fork :: NR_vfork :: NR_clone :: replaced) s)
    (real : ∀ n, table n ≠ 0) :
    Restorable table replaced { s with hooks := forkOperationCleanup s.hooks } := by
  have fork := restoreEntry_restorable .fork rep (real _)
  have vfork := restoreEntry_restorable .vfork fork (real _)
  exact restoreEntry_restorable .clone vfork (real _)

theorem openOperationCleanup_restorable
    (rep : Restorable table (NR_creat :: NR_open :: replaced) s) (real : ∀ n, table n ≠ 0) :
    Restorable table replaced (openOperationCleanup s) := by
  have creat := restoreDirect_restorable .creat rep (real _)
  exact restoreDirect_restorable .open creat (real _)

/-- All restorations, in the order of `sys_monitor_exit`. -/
theorem sysMonitorExit_restorable (rep : Restorable table
      [NR_execve, NR_exit, NR_fork, NR_vfork, NR_clone, NR_ioctl, NR_close, NR_write, NR_read,
        NR_creat, NR_open] s) (real : ∀ n, table n ≠ 0) :
    Restorable table [] (sysMonitorExit s) := by
  unfold sysMonitorExit
  apply openOperationCleanup_restorable _ real
  apply restoreDirect_restorable .read _ (real _)
  apply restoreDirect_restorable .write _ (real _)
  apply restoreDirect_restorable .close _ (real _)
  apply restoreDirect_restorable .ioctl _ (real _)
  apply forkOperationCleanup_restorable _ real
  apply restoreDirect_restorable .exit _ (real _)
  exact restoreEntry_restorable .exec rep (real _)

end Remove

/-- The eleven entries after `sys_monitor_init`. -/
theorem sysMonitorInit_restorable (l : Layout) (fake : DirectHook → Word) (table code) :
    Restorable table [NR_execve, NR_exit, NR_fork, NR_vfork, NR_clone, NR_ioctl, NR_close,
      NR_write, NR_read, NR_creat, NR_open] (sysMonitorInit l fake (justLoaded table code)) := by
  have start : Installing table [] (justLoaded table code) :=
    ⟨⟨.refl _ _, fun _ inside => by simp at inside, fun _ inside => by simp at inside⟩,
      fun _ _ => rfl⟩
  have «open» := replaceDirect_installing fake start .open (by decide)
  have creat := replaceDirect_installing fake «open» .creat (by decide)
  have read := replaceDirect_installing fake creat .read (by decide)
  have write := replaceDirect_installing fake read .write (by decide)
  have close := replaceDirect_installing fake write .close (by decide)
  have ioctl := replaceDirect_installing fake close .ioctl (by decide)
  have fork := forkOperationInit_installing l ioctl (by decide) (by decide) (by decide)
  have exit := replaceDirect_installing fake fork .exit (by decide)
  exact (execOperationInit_installing l exit (by decide)).toRestorable

/-- Whatever the entries point at, a table without NULL entries is back in every entry after
an installation and a removal. -/
theorem unload_restores_table (l : Layout) (fake : DirectHook → Word) (table : Nat → Word)
    (code : Word → Word) (real : ∀ n, table n ≠ 0) :
    (sysMonitorExit (sysMonitorInit l fake (justLoaded table code))).hooks.table = table :=
  (sysMonitorExit_restorable (sysMonitorInit_restorable l fake table code) real).same.eq

/-- The code of a wrapper for fork and vfork at one address; all else is no wrapper. -/
def oneWrapper : Word → Word
  | 0xc0008000 => 0xe28d0008
  | 0xc0008004 => 0xea000010
  | _ => 0

/-- fork and vfork have a wrapper, clone and execve have none. -/
theorem unload_restores_table_mixed :
    (sysMonitorExit (sysMonitorInit smallLayout (fun _ => 0xbf000400) (justLoaded
        (fun n => if n = NR_fork ∨ n = NR_vfork then 0xc0008000 else 0xc0009000)
        oneWrapper))).hooks.table
      = fun n => if n = NR_fork ∨ n = NR_vfork then 0xc0008000 else 0xc0009000 := by
  apply unload_restores_table
  intro n
  split <;> decide

end SysMonitor.Guarantees.HookRemoval
