import SysMonitor.Source.DeviceTasks
import SysMonitor.Source.Hooks
import SysMonitor.Source.LogStorage

/-!
# Tasks in hooked calls, and the device

Each process id has at most one task, and the tasks run their hooked calls at the same time.
A call goes through the statements of its hook; `log_ok` is what `begin_log_system_call_*`
returned. The device is used at two places: inside an original call, and where
`end_log_system_call` reaches `write_to_interface`.
-/

namespace SysMonitor.Source.Hooks
open SysMonitor.Library SysMonitor.Source.Interface SysMonitor.Source.LogStorage
open SysMonitor.Source.TraceDog (ApiName)

/-- Where a task is inside an original call. The semaphore does not always exclude other
tasks, so `interface_open` and `interface_release` are cut between their check of the owner
and their stores. -/
inductive OriginalPc where
  | device (pc : DevicePc)
  | taking
  | giving
  deriving DecidableEq

/-- Where a task is in the statement it executes. -/
inductive Position where
  | before
  | original (pc : OriginalPc)
  /-- At the entry of `write_to_interface`. -/
  | entry (buffer : List Byte)
  /-- In `write_to_interface`. -/
  | storing (pc : DevicePc)
  deriving DecidableEq

/-- `left` is what remains of the hook, the current statement first. -/
structure HookTask where
  left : List HookStep
  logOk : Bool
  position : Position
  deriving DecidableEq

def HookTask.idle : HookTask := ⟨[], false, .before⟩

inductive HookAct where
  | call (hook : Hook)
  /-- `room`: there is an item in the task's slot and memory for its parameters. -/
  | begin (room : Bool)
  /-- An `add_*_param`, a message, or a statement that is skipped because `log_ok` is false. -/
  | pass
  /-- The task is killed by a message with a string that it cannot read. -/
  | die
  | enterOriginal
  | leaveOriginal
  | device (act : DeviceAct)
  | check
  | store
  /-- `log_item_to_storage`, up to its call of `write_to_interface`. -/
  | log (header : LogHeader) (path details : Option CString) (memory : Option (Nat → Byte))

/-- The originals that open files. -/
def opens : ApiName → Bool
  | .open | .create => true
  | _ => false

/-- What an original call may do at the device: only `sys_open` and `sys_creat` open it. It is
closed in `sys_close`, but nothing depends on that. -/
def permitted (current : Pid) (api : ApiName) : DeviceCall → Bool
  | .open opener _ => opener = current && opens api
  | .release closer => closer = current
  | .read _ _ => true
  | .write _ | .end => false

def take (d : Device) (current : Pid) : Device :=
  { d with ownerPid := current.val, deviceReady := true }

def give (d : Device) : Device := { d with ownerPid := 0, deviceReady := false }

/-- One move of a task inside an original call. -/
def originalMove (current : Pid) (api : ApiName) (d : Device) :
    OriginalPc → HookAct → Option (Device × OriginalPc)
  | .device .outside, .device (.enter call) =>
    if permitted current api call then some (d, .device (.atDown call)) else none
  | .device (.inside (.open _ fMode)), .check =>
    some (d, if 0 ≠ d.ownerPid ∨ FMODE_WRITE &&& fMode ≠ 0 then .device .atUp else .taking)
  | .taking, .store => some (take d current, .device .atUp)
  | .device (.inside (.release _)), .check =>
    some (d, if current.val = d.ownerPid then .giving else .device .atUp)
  | .giving, .store => some (give d, .device .atUp)
  | .device (.atDown call), .device (.down outcome) =>
    (deviceMove d (.atDown call) (.down outcome)).map fun (d, pc) => (d, .device pc)
  | .device (.inside (.read count user)), .device .body =>
    (deviceMove d (.inside (.read count user)) .body).map fun (d, pc) => (d, .device pc)
  | .device .atUp, .device .up => some (up d, .device .outside)
  | .device .strayUp, .device .up => some (up d, .device .outside)
  | _, _ => none

/-- After a statement. -/
def HookTask.proceed (task : HookTask) : HookTask :=
  { task with left := task.left.tail, position := .before }

/-- Begin the next statement, or a new call. None of this changes the device. -/
def statementMove (current : Pid) (d : Device) (task : HookTask) :
    List HookStep → HookAct → Option HookTask
  | [], .call hook => some ⟨hook.steps, false, .before⟩
  | .begin _ _ _ _ :: _, .begin room =>
    some { task.proceed with logOk := !isOurProcess d current && room }
  | .add _ :: _, .pass | .print _ :: _, .pass => some task.proceed
  | .begin _ _ (.userPath _) _ :: _, .die | .print _ :: _, .die => some .idle
  | .add (.string _ _) :: _, .die => if task.logOk then some .idle else none
  | .end _ :: _, .pass => if task.logOk then none else some task.proceed
  | .end _ :: _, .log header path details memory =>
    if !task.logOk then none
    else if !isDeviceReady d then some task.proceed
    else
      match LogStorage.kmalloc (fullSize path details) memory with
      | none => some task.proceed
      | some buff => some { task with position := .entry (fillBuffer buff header path details) }
  | .original _ :: _, .enterOriginal =>
    some { task with position := .original (.device .outside) }
  | _, _ => none

/-- One move of `write_to_interface`. -/
def storingMove (d : Device) (task : HookTask) (pc : DevicePc) (act : DeviceAct) :
    Option (Device × HookTask) :=
  (deviceMove d pc act).map fun (d, pc) =>
    (d, if pc = .outside then task.proceed else { task with position := .storing pc })

/-- One move of the task `current`. -/
def hookMove (current : Pid) (d : Device) (task : HookTask) (act : HookAct) :
    Option (Device × HookTask) :=
  match task.position with
  | .before => (statementMove current d task task.left act).map (d, ·)
  | .original pc =>
    match task.left, act with
    | .original _ :: _, .leaveOriginal =>
      if pc = .device .outside then some (d, task.proceed) else none
    | .original api :: _, act =>
      (originalMove current api d pc act).map
        fun (d, pc) => (d, { task with position := .original pc })
    | _, _ => none
  | .entry buffer =>
    match act with
    | .device (.enter call) =>
      if call = .write buffer then storingMove d task .outside (.enter call) else none
    | _ => none
  | .storing pc =>
    match act with
    | .device act => storingMove d task pc act
    | _ => none

/-- The device and a task for every process id. -/
abbrev HookWorld := Crowd Device Pid HookTask

def hookTasksStep : HookWorld → Pid × HookAct → Except Refused (HookWorld × Unit) :=
  crowdStep hookMove

/-- In `write_to_interface`, from its first statement to its last. -/
def HookTask.writing (task : HookTask) : Prop :=
  match task.position with
  | .entry _ | .storing _ => True
  | _ => False

section Alone

variable {d d' : Device} {current : Pid} {tasks : Pid → HookTask} {rest : List HookStep}
  {returned : Returned}

/-- The check and the stores of an `interface_open` that is not disturbed. -/
theorem check_take (d : Device) (opener : Pid) (fMode : Word) :
    (openLocked d opener fMode).1
      = if 0 ≠ d.ownerPid ∨ FMODE_WRITE &&& fMode ≠ 0 then d else take d opener := by
  unfold openLocked
  split
  · next owned => rw [if_pos (.inl owned)]
  · next free =>
    split
    · next writes => rw [if_pos (.inr writes)]
    · next reads => rw [if_neg (not_or.mpr ⟨free, reads⟩)]; rfl

theorem check_give (d : Device) (closer : Pid) :
    releaseLocked d closer = if closer.val = d.ownerPid then give d else d := rfl

/-- The moves of `write_to_interface`. -/
theorem alone_writes (current : Pid) (tasks : Pid → HookTask) (rest : List HookStep)
    (returned : Returned) (buffer : List Byte) (outcome : Down) (free : 0 < d.sem)
    (ran : writeToInterface d buffer outcome = .ok d') :
    ∃ acts : List HookAct, ∃ answers, run hookTasksStep
        ⟨d, Function.update tasks current ⟨.end returned :: rest, true, .entry buffer⟩⟩
        (acts.map fun act => (current, act))
      = .ok (⟨d', Function.update tasks current ⟨rest, true, .before⟩⟩, answers) := by
  change callAlone d outcome (.write buffer) = _ at ran
  cases skip : skipped d (.write buffer) with
  | true =>
    rw [callAlone_skipped skip] at ran
    cases ran
    refine ⟨[.device (.enter (.write buffer))], [()], ?_⟩
    simp [run, hookTasksStep, crowdStep, hookMove, storingMove, deviceMove, skip,
      HookTask.proceed, bind, Except.bind, pure, Except.pure]
  | false =>
    rw [callAlone_tried skip] at ran
    cases outcome with
    | interrupted =>
      cases ran
      refine ⟨[.device (.enter (.write buffer)), .device (.down .interrupted)], [(), ()], ?_⟩
      simp [run, hookTasksStep, crowdStep, hookMove, storingMove, deviceMove, skip,
        afterInterrupt, DevicePc.stray, HookTask.proceed, bind, Except.bind, pure, Except.pure]
    | acquired =>
      obtain ⟨d₁, body, same⟩ := bind_eq_ok ran
      cases same
      refine ⟨[.device (.enter (.write buffer)), .device (.down .acquired), .device .body,
        .device .up], [(), (), (), ()], ?_⟩
      simp [run, hookTasksStep, crowdStep, hookMove, storingMove, deviceMove, skip, free, body,
        HookTask.proceed, bind, Except.bind, pure, Except.pure]

/-- A task that is alone at the end of its call stores what `log_item_to_storage` stores. -/
theorem alone_logs (header : LogHeader) (path details : Option CString)
    (memory : Option (Nat → Byte)) (outcome : Down) (free : 0 < d.sem)
    (here : tasks current = ⟨.end returned :: rest, true, .before⟩)
    (ran : logItemToStorage d header path details memory outcome = .ok d') :
    ∃ acts : List HookAct, ∃ answers, run hookTasksStep ⟨d, tasks⟩ (acts.map fun act => (current, act))
      = .ok (⟨d', Function.update tasks current ⟨rest, true, .before⟩⟩, answers) := by
  unfold logItemToStorage at ran
  by_cases ready : isDeviceReady d
  · rw [if_neg (by simp [ready])] at ran
    cases allocated : LogStorage.kmalloc (fullSize path details) memory with
    | none =>
      rw [allocated] at ran
      cases ran
      refine ⟨[.log header path details memory], [()], ?_⟩
      simp [run, hookTasksStep, crowdStep, hookMove, statementMove, here, ready, allocated,
        HookTask.proceed, bind, Except.bind, pure, Except.pure]
    | some buff =>
      rw [allocated] at ran
      obtain ⟨acts, answers, stored⟩ := alone_writes current tasks rest returned _ _ free ran
      refine ⟨.log header path details memory :: acts, () :: answers, run_cons_ok ?_ stored⟩
      simp [hookTasksStep, crowdStep, hookMove, statementMove, here, ready, allocated]
  · rw [if_pos (by simp [ready])] at ran
    cases ran
    refine ⟨[.log header path details memory], [()], ?_⟩
    simp [run, hookTasksStep, crowdStep, hookMove, statementMove, here, ready,
      HookTask.proceed, bind, Except.bind, pure, Except.pure]

end Alone

end SysMonitor.Source.Hooks
