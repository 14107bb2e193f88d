import SysMonitor.Source.SysCallTable

/-!
# Installing and removing all hooks: driver/main.c and driver/sys_calls

`sys_monitor_init` replaces eleven entries of the system call table and
`sys_monitor_exit` puts them back in the opposite order. Both run only when the table was
found, so `sys_call_table` is not NULL in any of the functions.
-/

namespace SysMonitor.Source.Main
open SysMonitor.Source.SysCallTable

def NR_exit : Nat := 1
def NR_read : Nat := 3
def NR_write : Nat := 4
def NR_open : Nat := 5
def NR_close : Nat := 6
def NR_creat : Nat := 8
def NR_ioctl : Nat := 54

/-- The system calls whose entry is replaced without looking for a wrapper. -/
inductive DirectHook where
  | open
  | creat
  | read
  | write
  | close
  | ioctl
  | exit
  deriving DecidableEq

/-- The table with the globals of fork.c and exec.c, and `original_sys_X` of the others. -/
structure Installation where
  hooks : Hooks
  originalDirect : DirectHook → Word

/-- The module has just been loaded. -/
def justLoaded (table : Nat → Word) (code : Word → Word) : Installation :=
  ⟨loaded table code, fun _ => 0⟩

/-- Save an entry and replace it. -/
def replaceDirect (fake : DirectHook → Word) (d : DirectHook) (number : Nat) (s : Installation) :
    Installation where
  hooks := s.hooks.setEntry number (fake d)
  originalDirect := Function.update s.originalDirect d (s.hooks.table number)

/-- Put an entry back, if one was saved. -/
def restoreDirect (d : DirectHook) (number : Nat) (s : Installation) : Installation :=
  if s.originalDirect d ≠ 0 then
    { s with hooks := s.hooks.setEntry number (s.originalDirect d) }
  else s

/-- Put back the wrapper or the function itself, whichever the entry held. -/
def restoreEntry (h : Hook) (number : Nat) (s : Hooks) : Hooks :=
  if s.wrapped h then
    if s.originalWrapper h ≠ 0 then s.setEntry number (s.originalWrapper h) else s
  else
    if s.original h ≠ 0 then s.setEntry number (s.original h) else s

section Functions

variable (l : Layout) (fake : DirectHook → Word) (s : Installation)

/-- `open_operation_init` -/
def openOperationInit : Installation :=
  replaceDirect fake .creat NR_creat (replaceDirect fake .open NR_open s)

/-- `read_operation_init` -/
def readOperationInit : Installation := replaceDirect fake .read NR_read s

/-- `write_operation_init` -/
def writeOperationInit : Installation := replaceDirect fake .write NR_write s

/-- `close_operation_init` -/
def closeOperationInit : Installation := replaceDirect fake .close NR_close s

/-- `ioctl_operation_init` -/
def ioctlOperationInit : Installation := replaceDirect fake .ioctl NR_ioctl s

/-- `exit_operation_init` -/
def exitOperationInit : Installation := replaceDirect fake .exit NR_exit s

/-- `open_operation_cleanup` -/
def openOperationCleanup : Installation :=
  restoreDirect .open NR_open (restoreDirect .creat NR_creat s)

/-- `read_operation_cleanup` -/
def readOperationCleanup : Installation := restoreDirect .read NR_read s

/-- `write_operation_cleanup` -/
def writeOperationCleanup : Installation := restoreDirect .write NR_write s

/-- `close_operation_cleanup` -/
def closeOperationCleanup : Installation := restoreDirect .close NR_close s

/-- `ioctl_operation_cleanup` -/
def ioctlOperationCleanup : Installation := restoreDirect .ioctl NR_ioctl s

/-- `exit_operation_cleanup` -/
def exitOperationCleanup : Installation := restoreDirect .exit NR_exit s

/-- `fork_operation_cleanup` -/
def forkOperationCleanup (s : Hooks) : Hooks :=
  restoreEntry .clone NR_clone (restoreEntry .vfork NR_vfork (restoreEntry .fork NR_fork s))

/-- `exec_operation_cleanup` -/
def execOperationCleanup (s : Hooks) : Hooks := restoreEntry .exec NR_execve s

/-- The replacements of `sys_monitor_init`, in its order. -/
def sysMonitorInit : Installation :=
  let s := openOperationInit fake s
  let s := readOperationInit fake s
  let s := writeOperationInit fake s
  let s := closeOperationInit fake s
  let s := ioctlOperationInit fake s
  let s := { s with hooks := forkOperationInit l s.hooks }
  let s := exitOperationInit fake s
  { s with hooks := execOperationInit l s.hooks }

/-- The restorations of `sys_monitor_exit`, in its order. -/
def sysMonitorExit : Installation :=
  let s := { s with hooks := execOperationCleanup s.hooks }
  let s := exitOperationCleanup s
  let s := { s with hooks := forkOperationCleanup s.hooks }
  let s := ioctlOperationCleanup s
  let s := closeOperationCleanup s
  let s := writeOperationCleanup s
  let s := readOperationCleanup s
  openOperationCleanup s

end Functions

end SysMonitor.Source.Main
