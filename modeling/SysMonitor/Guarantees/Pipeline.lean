import SysMonitor.Guarantees.MainOutput
import SysMonitor.Guarantees.SlotIsolation
import SysMonitor.Source.Monitor

/-!
# From the hooks to the output

Any tasks go through the statements of their hooks while the reader reads. Every line that comes
out is that of a record as its task logs it alone, and no record comes out twice or before one
that was handed over earlier.
-/

namespace SysMonitor.Guarantees.Pipeline
open SysMonitor.Library SysMonitor.Library.ResumableSearch SysMonitor.Source
open SysMonitor.Source.Interface SysMonitor.Source.LogCache SysMonitor.Source.MainLoop
open SysMonitor.Source.Monitor SysMonitor.Source.FilterMemory
open SysMonitor.Source.Filter (FilterItem World)
open SysMonitor.Source.ReaderStrings (UserString)
open SysMonitor.Guarantees.FilterMemory SysMonitor.Guarantees.MainOutput
open SysMonitor.Guarantees.RecordDelivery SysMonitor.Guarantees.RingQueue
open SysMonitor.Guarantees.SlotIsolation (Slotted Uncut Tracks Good loaded soloStep taskStep_tracks
  loaded_tracks withString withText)
open SysMonitor.Guarantees.LogBlocks (cleared)

section Split

variable {beyond : Memory} {worlds : Nat → Nat → World} {own : Nat → World}

theorem mainRun_append (s : MainState) (before after : List MainEvent) (fuel : Nat) :
    mainRun worlds own s (before ++ after) fuel
      = (mainRun worlds own s before fuel).bind
          (unlessFault fun s => mainRun worlds own s after fuel) := by
  induction before generalizing s with
  | nil => rfl
  | cons event before ih =>
    rw [List.cons_append, mainRun, mainRun]
    cases mainStep worlds own s event fuel with
    | none => rfl
    | some next =>
      cases next with
      | error fault => rfl
      | ok s => exact ih s

/-- The statements of the tasks. -/
def taskActs (events : List MonitorEvent) : List (Int × TaskAct) :=
  events.filterMap fun
    | .task pid act _ _ => some (pid, act)
    | .read _ _ _ => none

/-- What the ring and the reader see of a run. -/
def mainEvents : List MonitorEvent → List (Option LogAnswer) → List MainEvent
  | .task _ act garbage down :: events, answer :: answers =>
    taskEvents answer act garbage down ++ mainEvents events answers
  | .read outcome user down :: events, answers => .read outcome user down :: mainEvents events answers
  | _, _ => []

/-- The run falls into that of the tasks and that of the reader. -/
theorem monitorRun_eq {s : MonitorState} {events : List MonitorEvent} {t : LogTasks}
    {answers : List (Option LogAnswer)}
    (ran : run (taskStep beyond) s.tasks (taskActs events) = .ok (t, answers)) (fuel : Nat) :
    monitorRun beyond worlds own s events fuel
      = (mainRun worlds own s.main (mainEvents events answers) fuel).map fun next =>
          next.map fun main => ⟨t, main⟩ := by
  induction events generalizing s answers with
  | nil =>
    obtain ⟨rfl, rfl⟩ : s.tasks = t ∧ [] = answers := by simpa [taskActs, run] using ran
    rfl
  | cons event events ih =>
    cases event with
    | task pid act garbage down =>
      have first : taskActs (.task pid act garbage down :: events) = (pid, act) :: taskActs events :=
        rfl
      rw [first, run] at ran
      obtain ⟨⟨tasks, answer⟩, taken, ran⟩ := bind_eq_ok ran
      obtain ⟨⟨last, rest⟩, later, same⟩ := bind_eq_ok ran
      cases same
      rw [monitorRun, monitorStep, taken, mainEvents, mainRun_append]
      dsimp only
      cases mainRun worlds own s.main (taskEvents answer act garbage down) fuel with
      | none => rfl
      | some next =>
        cases next with
        | error fault => rfl
        | ok main => exact ih later
    | read outcome user down =>
      rw [monitorRun, monitorStep, mainEvents, mainRun]
      cases mainStep worlds own s.main (.read outcome user down) fuel with
      | none => rfl
      | some next =>
        cases next with
        | error fault => rfl
        | ok main => exact ih ran

/-- The records that the tasks hand over to `log_item_to_storage`. -/
def handed : List MonitorEvent → List (Option LogAnswer) → List (Int × Record)
  | .task pid _ _ _ :: events, answer :: answers =>
    ((passedOn answer).map fun record => (pid, record)).toList ++ handed events answers
  | .read _ _ _ :: events, answers => handed events answers
  | _, _ => []

/-- The records of one task among them. -/
def recordsOf (pid : Int) (records : List (Int × Record)) : List Record :=
  (records.filter (·.1 = pid)).map (·.2)

theorem recordsOf_handed (pid : Int) {s t : LogTasks} {events : List MonitorEvent}
    {answers : List (Option LogAnswer)}
    (ran : run (taskStep beyond) s (taskActs events) = .ok (t, answers)) :
    recordsOf pid (handed events answers)
      = (answersOf pid (taskActs events) answers).filterMap passedOn := by
  induction events generalizing s answers with
  | nil =>
    cases ran
    rfl
  | cons event events ih =>
    cases event with
    | task other act garbage down =>
      have first : taskActs (.task other act garbage down :: events)
          = (other, act) :: taskActs events := rfl
      rw [first, run] at ran
      obtain ⟨⟨tasks, answer⟩, -, ran⟩ := bind_eq_ok ran
      obtain ⟨⟨last, rest⟩, later, same⟩ := bind_eq_ok ran
      cases same
      have later := ih later
      rw [recordsOf] at later
      rw [first, handed, recordsOf, List.filter_append, List.map_append, later, answersOf]
      by_cases here : other = pid
      · cases passed : passedOn answer <;> simp [here, passed]
      · cases passed : passedOn answer <;> simp [here]
    | read outcome user down => exact ih ran

def asLogged (record : Record) : RecordDelivery.LogRecord :=
  ⟨record.header, record.path, record.details⟩

def loggedRecord : Event → Option RecordDelivery.LogRecord
  | .log r _ => some r
  | .read _ => none

theorem logged_mainEvents {s t : LogTasks} {events : List MonitorEvent}
    {answers : List (Option LogAnswer)}
    (ran : run (taskStep beyond) s (taskActs events) = .ok (t, answers)) :
    ((mainEvents events answers).map sessionEvent).filterMap loggedRecord
      = (handed events answers).map fun e => asLogged e.2 := by
  induction events generalizing s answers with
  | nil =>
    cases ran
    rfl
  | cons event events ih =>
    cases event with
    | task pid act garbage down =>
      have first : taskActs (.task pid act garbage down :: events) = (pid, act) :: taskActs events :=
        rfl
      rw [first, run] at ran
      obtain ⟨⟨tasks, answer⟩, -, ran⟩ := bind_eq_ok ran
      obtain ⟨⟨last, rest⟩, later, same⟩ := bind_eq_ok ran
      cases same
      rw [mainEvents, handed, List.map_append, List.filterMap_append, List.map_append, ih later,
        taskEvents]
      cases passedOn answer <;> rfl
    | read outcome user down =>
      rw [mainEvents, handed, ← ih ran]
      rfl

/-- What the ring accepts is some of what is handed over, in its order. -/
theorem accepted_sublist {s t : Session} {events : List Event}
    (ran : events.foldlM sessionStep s = .ok t) :
    t.accepted.Sublist (s.accepted ++ events.filterMap loggedRecord) := by
  induction events generalizing s with
  | nil =>
    cases ran
    simp
  | cons event events ih =>
    rw [List.foldlM_cons] at ran
    obtain ⟨s', step, ran⟩ := bind_eq_ok ran
    have later := ih ran
    cases event with
    | log r memory =>
      obtain ⟨device, -, same⟩ := bind_eq_ok step
      obtain rfl := Except.ok.inj same
      have more : (Event.log r memory :: events).filterMap loggedRecord
          = r :: events.filterMap loggedRecord := rfl
      rw [more]
      refine later.trans ?_
      dsimp only
      by_cases taken : accepts s.device r memory = true
      · rw [if_pos taken, List.append_assoc, List.singleton_append]
      · rw [if_neg taken]
        exact List.Sublist.append_left (List.sublist_cons_self _ _) _
    | read malloc =>
      obtain ⟨⟨device, phase, got⟩, -, same⟩ := bind_eq_ok step
      obtain rfl := Except.ok.inj same
      rw [List.filterMap_cons_none rfl]
      exact later

end Split

section Monitor

/-- The records that a task hands over when it is alone. They follow from its hooks and from what
its statements find outside the log module. -/
def aloneRecords (pid : Int) (acts : List TaskAct) : List Record :=
  (runSpec (soloStep pid) (⟨[], false⟩, none) acts).2.filterMap passedOn

theorem passedOn_placed (answer : Option LogAnswer) :
    passedOn (answer.map LogAnswer.placed) = (passedOn answer).map Record.placed := by
  rcases answer with _ | answer
  · rfl
  · cases answer <;> rfl

/-- The tasks' half of a run. -/
theorem tasks_run (beyond : Memory) {acts : List (Int × TaskAct)}
    (admitted : Admitted (taskStep beyond) (fun s e => Slotted e ∧ Uncut (s.tasks e.1) e.2) loaded
      acts) :
    ∃ t answers, run (taskStep beyond) loaded acts = .ok (t, answers) ∧ ∀ pid,
      ((answersOf pid acts answers).filterMap passedOn).map Record.placed
        = aloneRecords pid (actsOf pid acts) := by
  have moves : ∀ s solos pid act, Tracks beyond s solos → Slotted (pid, act) ∧
      Uncut (s.tasks pid) act → Good pid (solos pid) act := by
    intro s solos pid act tracks both
    refine ⟨both.1, ?_⟩
    rw [(tracks.2 pid).1]
    exact both.2
  have good := components_good (Tracks beyond) (Option.map LogAnswer.placed) Good moves
    taskStep_tracks acts loaded _ (loaded_tracks beyond) admitted
  obtain ⟨t, answers, ran, outputs⟩ := run_components (Tracks beyond) (Option.map LogAnswer.placed)
    Good taskStep_tracks acts loaded _ (loaded_tracks beyond) good
  refine ⟨t, answers, ran, fun pid => ?_⟩
  rw [aloneRecords, ← outputs pid, List.filterMap_map, List.map_filterMap]
  exact List.filterMap_congr fun answer _ => (passedOn_placed answer).symm

/-- A read is not interrupted, and its `copy_to_user` is complete. -/
def Unhindered : MonitorEvent → Prop
  | .task _ _ _ _ => True
  | .read _ user down => user = .complete ∧ down = .acquired

theorem mainEvents_undisturbed {events : List MonitorEvent} (answers : List (Option LogAnswer))
    (unhindered : ∀ event ∈ events, Unhindered event) :
    ∀ event ∈ mainEvents events answers, Undisturbed event := by
  induction events generalizing answers with
  | nil => exact fun _ inside => (List.not_mem_nil inside).elim
  | cons event events ih =>
    obtain ⟨first, later⟩ := List.forall_mem_cons.mp unhindered
    cases event with
    | task pid act garbage down =>
      cases answers with
      | nil => exact fun _ inside => (List.not_mem_nil inside).elim
      | cons answer answers =>
        intro event inside
        rcases List.mem_append.mp inside with mine | others
        · obtain ⟨record, -, rfl⟩ := Option.map_eq_some_iff.mp (Option.mem_toList.mp mine)
          exact trivial
        · exact ih answers later event others
    | read outcome user down => exact List.forall_mem_cons.mpr ⟨first, ih answers later⟩

/-- The whole monitor. Any tasks in their hooks and the reader may take their steps in any order:
what comes out is what the filters let through of records that were handed over, in their order
and no record twice, and every task handed over the records that it hands over alone. -/
theorem pipeline_prints (beyond : Memory) (worlds : Nat → Nat → World) {device : Device}
    (valid : ValidRing device) (ready : device.deviceReady = true)
    (empty : device.readPtr = device.writePtr) (calls : List (UserString × Mallocs))
    {events : List MonitorEvent}
    (admitted : Admitted (taskStep beyond) (fun s e => Slotted e ∧ Uncut (s.tasks e.1) e.2) loaded
      (taskActs events))
    (unhindered : ∀ event ∈ events, Unhindered event) :
    let rules := calls.filterMap fun call => accepted call.1 call.2
    ∃ filters t answers reached, ∃ shown : List (Int × Record),
      Settles (addFilters .empty calls) (.ok filters) ∧
      run (taskStep beyond) loaded (taskActs events) = .ok (t, answers) ∧
      Settles (monitorRun beyond worlds (fun k => worlds k rules.length)
        ⟨loaded, mainStart device filters⟩ events) reached ∧
      (∀ pid, (recordsOf pid (handed events answers)).map Record.placed
        = aloneRecords pid (actsOf pid (taskActs events))) ∧
      shown.Sublist (handed events answers) ∧
      reached.map (·.main.printed) = printRecords worlds rules 0
        (shown.map fun e => logged (asLogged e.2)) := by
  intro rules
  obtain ⟨t, answers, ran, alone⟩ := tasks_run beyond admitted
  obtain ⟨filters, session, reached, added, went, settled, same⟩ := monitor_run worlds valid ready
    empty calls (mainEvents_undisturbed answers unhindered)
  have some_of := accepted_sublist went
  rw [logged_mainEvents ran] at some_of
  obtain ⟨shown, inside, records⟩ := List.sublist_map_iff.mp
    ((List.take_sublist session.obtained.length _).trans some_of)
  refine ⟨filters, t, answers, reached.map fun main => ⟨t, main⟩, shown, added, ran, ?_,
    fun pid => ?_, inside, ?_⟩
  · have split : monitorRun beyond worlds (fun k => worlds k rules.length)
          ⟨loaded, mainStart device filters⟩ events
        = fun fuel => (mainRun worlds (fun k => worlds k rules.length) (mainStart device filters)
            (mainEvents events answers) fuel).map fun next => next.map fun main => ⟨t, main⟩ :=
      funext fun fuel => monitorRun_eq ran fuel
    rw [split]
    exact settled.map _
  · rw [recordsOf_handed pid ran]
    exact alone pid
  · have output := printed_of_view same fun _ => rfl
    rw [records, List.map_map] at output
    refine Eq.trans ?_ output
    cases reached <;> rfl

/-- A ring of a kilobyte that nothing was written to. -/
def kilobyte : Device where
  sem := 1
  deviceReady := true
  cycleBufferSize := 1024
  readPtr := 4096
  writePtr := 4096
  cycleBuffer := 4096
  ring := List.replicate 1024 0
  ownerPid := 9

theorem kilobyte_valid : ValidRing kilobyte :=
  ⟨by decide, List.length_replicate, by decide, by decide, by decide, by decide⟩

/-- The statement of an open by task 7 or a read by task 8. -/
def statementOf (pid : Int) : Int × TaskAct := (pid, withString (.literal "/a"))

/-- An open and a read at the same time, and then the reader, which gets both records. In between
task 7 makes a close whose record is lost to a signal, and task 8 dies in the open of an address
that cannot be read. -/
def overlapping : List MonitorEvent :=
  ([(7, TaskAct.call (.open 4096 0 0)), (8, .call (.read 3 4096 5))] ++
      [8, 7, 7, 8, 7, 8, 8, 7, 8, 7, 8, 7].map statementOf ++
      [(8, TaskAct.call (.open 5000 0 0)), statementOf 8, (8, withText (.broken .empty false))]).map
    (fun e : Int × TaskAct => .task e.1 e.2 (fun _ => 9) .acquired) ++
  ((7, TaskAct.call (.close 3)) :: List.replicate 4 (statementOf 7)).map
    (fun e : Int × TaskAct => .task e.1 e.2 (fun _ => 9) .interrupted) ++
  List.replicate 4 (.read (some fun _ => 9) .complete .acquired)

theorem overlapping_admitted :
    Admitted (taskStep cleared) (fun s e => Slotted e ∧ Uncut (s.tasks e.1) e.2) loaded
      (taskActs overlapping) := by
  decide +kernel

theorem overlapping_unhindered : ∀ event ∈ overlapping, Unhindered event := by
  intro event inside
  rcases List.mem_append.mp inside with statement | read
  · rcases List.mem_append.mp statement with statement | statement
    · obtain ⟨e, -, rfl⟩ := List.mem_map.mp statement
      exact trivial
    · obtain ⟨e, -, rfl⟩ := List.mem_map.mp statement
      exact trivial
  · rw [List.eq_of_mem_replicate read]
    exact ⟨rfl, rfl⟩

theorem overlapping_prints :
    ∃ filters t answers reached, ∃ shown : List (Int × Record),
      Settles (addFilters .empty mainCalls) (.ok filters) ∧
      run (taskStep cleared) loaded (taskActs overlapping) = .ok (t, answers) ∧
      Settles (monitorRun cleared (fun _ _ => World.empty) (fun _ => World.empty)
        ⟨loaded, mainStart kilobyte filters⟩ overlapping) reached ∧
      (∀ pid, (recordsOf pid (handed overlapping answers)).map Record.placed
        = aloneRecords pid (actsOf pid (taskActs overlapping))) ∧
      shown.Sublist (handed overlapping answers) ∧
      reached.map (·.main.printed) = printRecords (fun _ _ => World.empty)
        (mainCalls.filterMap fun call => accepted call.1 call.2) 0
        (shown.map fun e => logged (asLogged e.2)) :=
  pipeline_prints cleared (fun _ _ => World.empty) kilobyte_valid rfl rfl mainCalls
    overlapping_admitted overlapping_unhindered

end Monitor

end SysMonitor.Guarantees.Pipeline
