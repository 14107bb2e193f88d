import SysMonitor.Source.Interface
import SysMonitor.Source.Main

/-!
# Loading and unloading the module: driver/main.c and driver/interface.c

Before `sys_monitor_init` replaces the entries of the system call table it acquires one resource
after the other, and each failure jumps to the label that gives back what was acquired until then.
`sys_monitor_exit` gives back all of it.
-/

namespace SysMonitor.Source.ModuleLife
open SysMonitor.Source.Interface SysMonitor.Source.Main SysMonitor.Source.SysCallTable

inductive Resource where
  /-- `thread_log_cache` -/
  | logCache
  | chrdevRegion
  /-- `process_cache` -/
  | processCache
  | monitorClass
  | device
  | cdev
  /-- The pages at `cycle_buffer`. -/
  | pages
  deriving DecidableEq

inductive LifeFault where
  /-- The resource is given back, but the module does not have it. -/
  | notHeld (r : Resource)
  | access (fault : Fault)

/-- The module's globals, the system call table, and what the kernel holds for the module, the
newest first. The globals are there only while the module is loaded. -/
structure Life where
  loaded : Bool
  device : Device
  installation : Installation
  held : List Resource

def acquire (s : Life) (r : Resource) : Life := { s with held := r :: s.held }

def release (s : Life) (r : Resource) : Except LifeFault Life :=
  if r ∈ s.held then .ok { s with held := s.held.erase r } else .error (.notHeld r)

/-- What `class_create` and `device_create` answer. The source compares with NULL only. -/
inductive Created where
  | created
  | null
  | errorPointer
  deriving DecidableEq

/-- The code behind the comparison with NULL. -/
def create (s : Life) (r : Resource) : Created → Life
  | .created => acquire s r
  | _ => s

def EINVAL : Int := 22

/-- The pages that `__get_free_pages` finds. -/
structure Pages where
  address : Nat
  memory : List Byte
  real : address ≠ 0
  length : memory.length = 2 ^ PAGE_INCREASE <<< PAGE_SHIFT

/-- What `sys_monitor_init` meets. -/
structure LoadAnswers where
  /-- `find_sys_call_table` found one. -/
  tableFound : Bool
  /-- There is memory in `log_init`. -/
  logRoom : Bool
  allocChrdevRegion : Int
  /-- There is memory in `process_monitor_init`. -/
  processRoom : Bool
  classCreate : Created
  deviceCreate : Created
  cdevAdd : Int
  down : Down
  pages : Option Pages

section Interface

/-- `begin_interface`. It returns zero exactly when it has allocated the pages. -/
def beginInterface (s : Life) (a : LoadAnswers) : Life × Int :=
  let (device, result) :=
    Interface.beginInterface s.device (a.pages.map fun p => (p.address, p.memory)) a.down
  (if result = 0 then acquire { s with device } .pages else { s with device }, result)

/-- `end_interface` -/
def endInterface (s : Life) (down : Down) : Except LifeFault Life :=
  let t := { s with device := (Interface.endInterface s.device down).1 }
  if down = .acquired ∧ s.device.cycleBuffer ≠ 0 then release t .pages else .ok t

/-- `cleanup_class_create` -/
def cleanupClassCreate (s : Life) : Except LifeFault Life := release s .monitorClass

/-- `cleanup_device_create` -/
def cleanupDeviceCreate (s : Life) : Except LifeFault Life := do
  let s ← release s .device
  cleanupClassCreate s

/-- `cleanup_dev_add` -/
def cleanupDevAdd (s : Life) : Except LifeFault Life := do
  let s ← release s .cdev
  cleanupDeviceCreate s

/-- Go to a label, with a result that is not zero. -/
def failing (result : Int) (cleanup : Except LifeFault Life) : Except LifeFault (Life × Int) := do
  let s ← cleanup
  return (s, result)

/-- `interface_init`; `sema_init` is part of the initial globals. -/
def interfaceInit (s : Life) (a : LoadAnswers) : Except LifeFault (Life × Int) :=
  if a.classCreate = .null then .ok (s, -EINVAL)
  else
    let s := create s .monitorClass a.classCreate
    if a.deviceCreate = .null then failing (-EINVAL) (cleanupClassCreate s)
    else
      let s := create s .device a.deviceCreate
      if a.cdevAdd ≠ 0 then failing (-EINVAL) (cleanupDeviceCreate s)
      else
        let (s, begun) := beginInterface (acquire s .cdev) a
        if begun ≠ 0 then failing (-EINVAL) (cleanupDevAdd s)
        else .ok (s, 0)

/-- `interface_cleanup` -/
def interfaceCleanup (s : Life) (down : Down) : Except LifeFault Life := do
  let s ← endInterface s down
  let s ← release s .cdev
  let s ← release s .device
  release s .monitorClass

end Interface

section Module

/-- `clean_log` -/
def cleanLog (s : Life) : Except LifeFault Life := release s .logCache

/-- `clean_alloc` -/
def cleanAlloc (s : Life) : Except LifeFault Life := do
  let s ← release s .chrdevRegion
  cleanLog s

/-- `clean_process` -/
def cleanProcess (s : Life) : Except LifeFault Life := do
  let s ← release s .processCache
  cleanAlloc s

/-- `sys_monitor_init`. `trace_dog_initize` returns zero, so `clean_interface` is never reached. -/
def sysMonitorInit (l : Layout) (fake : DirectHook → Word) (s : Life) (a : LoadAnswers) :
    Except LifeFault (Life × Int) :=
  if !a.tableFound then .ok (s, -EINVAL)
  else if !a.logRoom then .ok (s, -EINVAL)
  else
    let s := acquire s .logCache
    if a.allocChrdevRegion < 0 then failing a.allocChrdevRegion (cleanLog s)
    else
      let s := acquire s .chrdevRegion
      if !a.processRoom then failing (-1) (cleanAlloc s)
      else do
        let (s, result) ← interfaceInit (acquire s .processCache) a
        if result < 0 then failing result (cleanProcess s)
        else return ({ s with installation := Main.sysMonitorInit l fake s.installation }, 0)

/-- `sys_monitor_exit`, when `trace_dog_cleanup` has returned. -/
def sysMonitorExit (s : Life) (down : Down) : Except LifeFault Life := do
  let s := { s with installation := Main.sysMonitorExit s.installation }
  let s ← interfaceCleanup s down
  let s ← release s .processCache
  let s ← release s .chrdevRegion
  release s .logCache

/-- The module's globals as the loader sets them. -/
def fresh (s : Life) : Life :=
  { s with
    device := initial
    installation := justLoaded s.installation.hooks.table s.installation.hooks.code }

end Module

end SysMonitor.Source.ModuleLife
