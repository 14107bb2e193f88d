import SysMonitor.Library.Interleaving
import SysMonitor.Source.LogCache

/-!
# Tasks that log their hooked calls at the same time

Every task goes through the statements of its hook; those of driver/log.c use the slot of
the task. What a statement finds outside the log module comes with the step: the path that
`get_cache_by_fd` or `get_current_process_path` returned, what is at a user's address, the
result of the original call, what the kernel answers. A task that dies leaves the rest of its
hook, and another one can get its pid.
-/

namespace SysMonitor.Source.LogCache
open SysMonitor.Library SysMonitor.Source.Hooks

structure Inputs where
  path : Option CString
  /-- The user's memory at the address of a string. -/
  str : UserText
  result : Word
  answers : Answers

/-- `left` is what remains of the hook. -/
structure LogTask where
  left : List HookStep
  logOk : Bool
  deriving DecidableEq

inductive TaskAct where
  | call (hook : Hook)
  | step (inputs : Inputs)

/-- The log module and a task for every pid. -/
abbrev LogTasks := Crowd LogModule Int LogTask

def pathArgument (inputs : Inputs) : PathSource → PathArgument
  | .fd _ => .fd inputs.path
  | .kernelPath => .kernelPath inputs.path
  | .userPath address => .userPath (if address = 0 then none else some inputs.str)
  | .none => .none

def paramArgument (inputs : Inputs) : Param → ParamArgument
  | .void => .void
  | .int name value => .int name value
  | .unsignedInt name value => .unsignedInt name value
  | .string name _ => .string name inputs.str

def returnedValue (inputs : Inputs) : Returned → Word
  | .result => inputs.result
  | .zero => 0

/-- The call of the log module in a statement. Only a begin is made without `log_ok`. -/
def statement (logOk : Bool) (inputs : Inputs) : HookStep → Option LogCall
  | .original _ | .print _ => none
  | .begin oper api source paramCount =>
    some (.begin oper api (pathArgument inputs source) paramCount)
  | .add param => if logOk then some (.add (paramArgument inputs param)) else none
  | .end returned => if logOk then some (.end (returnedValue inputs returned)) else none

def LogTask.idle : LogTask := ⟨[], false⟩

/-- The task after a statement and what the log module answered, if it was called. -/
def taskAfter (step : HookStep) (rest : List HookStep) (logOk : Bool) (inputs : Inputs) :
    Option LogAnswer → LogTask
  | some .died => .idle
  | some (.began ok) => ⟨rest, ok⟩
  | some _ => ⟨rest, logOk⟩
  | none =>
    match step with
    | .print _ => if inputs.str.prints then ⟨rest, logOk⟩ else .idle
    | _ => ⟨rest, logOk⟩

/-- One step of a task. A step that does not fit where the task is changes nothing. -/
def taskStep (memory : Memory) (s : LogTasks) (e : Int × TaskAct) :
    Except Fault (LogTasks × Option LogAnswer) :=
  let task := s.tasks e.1
  match task.left, e.2 with
  | [], .call hook => .ok (⟨s.shared, Function.update s.tasks e.1 ⟨hook.steps, false⟩⟩, none)
  | step :: rest, .step inputs =>
    match statement task.logOk inputs step with
    | none =>
      let task := taskAfter step rest task.logOk inputs none
      .ok (⟨s.shared, Function.update s.tasks e.1 task⟩, none)
    | some call => do
      let (shared, answer) ← logStep memory s.shared (e.1, call, inputs.answers)
      let task := taskAfter step rest task.logOk inputs (some answer)
      return (⟨shared, Function.update s.tasks e.1 task⟩, some answer)
  | _, _ => .ok (s, none)

end SysMonitor.Source.LogCache
