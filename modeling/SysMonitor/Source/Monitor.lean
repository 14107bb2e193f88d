import SysMonitor.Source.LoggingTasks
import SysMonitor.Source.MainLoop

/-!
# The hooks and the reader together

A step is one statement of a task's hook in the driver, or one `read` of the reader. Where the
statement is an `end_log_system_call` with an item, the record goes through `log_item_to_storage`
into the ring that the reader reads.
-/

namespace SysMonitor.Source.Monitor
open SysMonitor.Library SysMonitor.Source.Interface SysMonitor.Source.LogCache
open SysMonitor.Source.MainLoop
open SysMonitor.Source.Filter (World)

/-- The driver's log module and the tasks in it, the device, and the reader. -/
structure MonitorState where
  tasks : LogTasks
  main : MainState

inductive MonitorEvent where
  /-- `garbage` is what `kmalloc` leaves in the buffer of the record, and `down` what the
  semaphore of the ring answers. -/
  | task (pid : Int) (act : TaskAct) (garbage : Nat → Byte) (down : Down)
  | read (outcome : Option (Nat → Byte)) (user : UserCopy) (down : Down)

/-- The call of `log_item_to_storage` for a record, where the task had memory for its buffer. -/
def storageCall (record : Record) (act : TaskAct) (garbage : Nat → Byte) (down : Down) : MainEvent :=
  let room := match act with
    | .step inputs => inputs.answers.recordRoom
    | .call _ => false
  .log record.header record.path record.details (if room then some garbage else none) down

/-- The record that an answer passes on to `log_item_to_storage`. -/
def passedOn : Option LogAnswer → Option Record
  | some (.ended record) => record
  | _ => none

/-- What the rest of the monitor sees of a step of a task. -/
def taskEvents (answer : Option LogAnswer) (act : TaskAct) (garbage : Nat → Byte) (down : Down) :
    List MainEvent :=
  ((passedOn answer).map fun record => storageCall record act garbage down).toList

section Steps

variable (beyond : Memory) (worlds : Nat → Nat → World) (own : Nat → World)

def monitorStep (s : MonitorState) (event : MonitorEvent) (fuel : Nat) :
    Option (Except Fault MonitorState) :=
  match event with
  | .task pid act garbage down =>
    match taskStep beyond s.tasks (pid, act) with
    | .error fault => some (.error fault)
    | .ok (tasks, answer) =>
      (mainRun worlds own s.main (taskEvents answer act garbage down) fuel).map fun next =>
        next.map fun main => ⟨tasks, main⟩
  | .read outcome user down =>
    (mainStep worlds own s.main (.read outcome user down) fuel).map fun next =>
      next.map fun main => { s with main }

def monitorRun (s : MonitorState) : List MonitorEvent → Nat → Option (Except Fault MonitorState)
  | [], _ => some (.ok s)
  | event :: events, fuel =>
    (monitorStep beyond worlds own s event fuel).bind (unlessFault fun s => monitorRun s events fuel)

end Steps

end SysMonitor.Source.Monitor
