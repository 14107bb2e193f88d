import SysMonitor.Source.Memory
import SysMonitor.Source.TraceDog

/-!
# The hooked system calls as the log sees them: driver/sys_calls/*.c

Every `fake_sys_*` function is the same few statements in an order of its own: the original
call, one `begin_log_system_call_*`, the `add_*_param` calls and one `end_log_system_call`;
`fake_sys_exec` also prints its file name. So each is written here as the list of these
statements, with the arguments it passes.
-/

namespace SysMonitor.Source.Hooks
open SysMonitor.Source.TraceDog (ApiName)

/-- `operation_name` of share/log_def.h -/
inductive OperationName where
  | null
  | createFile | readFile | writeFile | closeFile | ioControlFile | statFile | renameFile
  | makeDirectory | renameDirectory | syncFile | openPipe | symbolLink | readSymbolLink
  | loadLibrary | exitProc | forkProc | execveProc | killProc
  deriving DecidableEq

/-- Which of the four `begin_log_system_call` functions is called, and where the path of the
record comes from. -/
inductive PathSource where
  | fd (fd : Word)
  | userPath (path : Word)
  /-- The path that `get_current_process_path` returned. -/
  | kernelPath
  | none
  deriving DecidableEq

/-- An `add_*_param` call. A user string is known by its address. -/
inductive Param where
  | void
  | int (name : String) (value : Word)
  | unsignedInt (name : String) (value : Word)
  | string (name : String) (address : Word)
  deriving DecidableEq

/-- `add_pointer_param` -/
def Param.pointer (name : String) (value : Word) : Param := .unsignedInt name value

/-- What `end_log_system_call` is given. -/
inductive Returned where
  | result
  | zero
  deriving DecidableEq

inductive HookStep where
  | original (api : ApiName)
  | begin (oper : OperationName) (api : ApiName) (source : PathSource) (paramCount : Nat)
  /-- Skipped where `log_ok` is false, as `end` is. -/
  | add (param : Param)
  | end (returned : Returned)
  /-- A message of the hook that prints the string at a user's address. -/
  | print (address : Word)
  deriving DecidableEq

def fakeSysOpen (filename flags mode : Word) : List HookStep :=
  [.original .open,
    .begin .createFile .open (.userPath filename) 3,
    .add (.string "filename" filename),
    .add (.unsignedInt "flags" flags),
    .add (.unsignedInt "mode" mode),
    .end .result]

def fakeSysCreat (pathname mode : Word) : List HookStep :=
  [.original .create,
    .begin .createFile .create (.userPath pathname) 2,
    .add (.string "pathname" pathname),
    .add (.unsignedInt "mode" mode),
    .end .result]

def fakeSysRead (fd buf count : Word) : List HookStep :=
  [.begin .readFile .read (.fd fd) 3,
    .add (.unsignedInt "fd" fd),
    .add (.pointer "buf" buf),
    .add (.int "count" count),
    .original .read,
    .end .result]

def fakeSysWrite (fd buf count : Word) : List HookStep :=
  [.begin .writeFile .write (.fd fd) 3,
    .add (.unsignedInt "fd" fd),
    .add (.pointer "buf" buf),
    .add (.unsignedInt "count" count),
    .original .write,
    .end .result]

def fakeSysClose (fd : Word) : List HookStep :=
  [.begin .closeFile .close (.fd fd) 1,
    .add (.unsignedInt "fd" fd),
    .original .close,
    .end .result]

def fakeSysIoctl (fd cmd arg : Word) : List HookStep :=
  [.begin .ioControlFile .ioctl (.fd fd) 3,
    .add (.unsignedInt "fd" fd),
    .add (.unsignedInt "cmd" cmd),
    .add (.unsignedInt "arg" arg),
    .original .ioctl,
    .end .result]

def fakeSysClone (cloneFlags newsp parentTidptr tlsVal childTidptr regs : Word) :
    List HookStep :=
  [.begin .forkProc .clone .kernelPath 6,
    .add (.unsignedInt "clone_flags" cloneFlags),
    .add (.unsignedInt "newsp" newsp),
    .add (.pointer "parent_tidptr" parentTidptr),
    .add (.unsignedInt "tls_val" tlsVal),
    .add (.pointer "child_tidptr" childTidptr),
    .add (.pointer "regs" regs),
    .original .clone,
    .end .result]

def fakeSysVfork (regs : Word) : List HookStep :=
  [.begin .forkProc .vfork .kernelPath 1,
    .add (.pointer "regs" regs),
    .original .vfork,
    .end .result]

def fakeSysFork (regs : Word) : List HookStep :=
  [.begin .forkProc .fork .kernelPath 1,
    .add (.pointer "regs" regs),
    .original .fork,
    .end .result]

/-- The original does not return. -/
def fakeSysExit (errorCode : Word) : List HookStep :=
  [.begin .exitProc .exit .none 1,
    .add (.unsignedInt "error_code" errorCode),
    .end .zero,
    .original .exit]

/-- The original does not return when it succeeds. -/
def fakeSysExec (filenamei argv envp regs : Word) : List HookStep :=
  [.begin .execveProc .execve (.userPath filenamei) 4,
    .add (.string "filenamei" filenamei),
    .add (.pointer "argv" argv),
    .add (.pointer "envp" envp),
    .add (.pointer "regs" regs),
    .end .zero,
    .print filenamei,
    .original .execve]

/-- A hooked call with its arguments. -/
inductive Hook where
  | open (filename flags mode : Word)
  | creat (pathname mode : Word)
  | read (fd buf count : Word)
  | write (fd buf count : Word)
  | close (fd : Word)
  | ioctl (fd cmd arg : Word)
  | clone (cloneFlags newsp parentTidptr tlsVal childTidptr regs : Word)
  | vfork (regs : Word)
  | fork (regs : Word)
  | exit (errorCode : Word)
  | exec (filenamei argv envp regs : Word)
  deriving DecidableEq

def Hook.steps : Hook → List HookStep
  | .open filename flags mode => fakeSysOpen filename flags mode
  | .creat pathname mode => fakeSysCreat pathname mode
  | .read fd buf count => fakeSysRead fd buf count
  | .write fd buf count => fakeSysWrite fd buf count
  | .close fd => fakeSysClose fd
  | .ioctl fd cmd arg => fakeSysIoctl fd cmd arg
  | .clone cloneFlags newsp parentTidptr tlsVal childTidptr regs =>
    fakeSysClone cloneFlags newsp parentTidptr tlsVal childTidptr regs
  | .vfork regs => fakeSysVfork regs
  | .fork regs => fakeSysFork regs
  | .exit errorCode => fakeSysExit errorCode
  | .exec filenamei argv envp regs => fakeSysExec filenamei argv envp regs

end SysMonitor.Source.Hooks
