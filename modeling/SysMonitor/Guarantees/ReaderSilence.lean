import SysMonitor.Source.HookTasks

/-!
# The reader's own calls are not logged

`is_our_process` is asked at the begin of a record and the ring is written at its end. In
between the task can only lose the device: in every hook that opens files the original call
comes before the begin, and nobody takes the device in the name of another task.
-/

namespace SysMonitor.Guarantees.ReaderSilence
open SysMonitor.Library SysMonitor.Source SysMonitor.Source.Interface SysMonitor.Source.Hooks
open SysMonitor.Source.TraceDog (ApiName)

/-- No task is in `write_to_interface` while it owns the device. -/
def OwnerSilent (_ : HookWorld) (_ : Pid × HookAct) (t : HookWorld) (_ : Unit) : Prop :=
  ∀ pid, (t.tasks pid).writing → t.shared.ownerPid ≠ pid.val

/-- The statement may open the device. -/
def takes : HookStep → Bool
  | .original api => opens api
  | _ => false

/-- Nothing after a begin opens the device. -/
def OpensBeforeBegin : List HookStep → Prop
  | [] => True
  | .begin _ _ _ _ :: rest => (∀ step ∈ rest, takes step = false) ∧ OpensBeforeBegin rest
  | _ :: rest => OpensBeforeBegin rest

/-- In an `interface_open` that has not yet stored the owner. -/
def opening : Position → Bool
  | .original (.device (.atDown (.open _ _))) => true
  | .original (.device (.inside (.open _ _))) => true
  | .original .taking => true
  | _ => false

/-- In `write_to_interface` a task does nothing else at the device. -/
def onlyWrites : Position → Bool
  | .storing (.atDown (.write _)) | .storing (.inside (.write _)) | .storing .atUp => true
  | .storing _ => false
  | _ => true

/-- A task whose record was begun does not own the device and will not take it before the
record is stored. -/
structure Silent (current : Pid) (d : Device) (task : HookTask) : Prop where
  begun : task.logOk = true →
    d.ownerPid ≠ current.val ∧ ∀ step ∈ task.left, takes step = false
  order : OpensBeforeBegin task.left
  writing : task.writing → task.logOk = true
  writes : onlyWrites task.position = true
  opening : opening task.position = true → ∃ step ∈ task.left, takes step = true

/-- It is so in every hook. -/
theorem steps_opensBeforeBegin (hook : Hook) : OpensBeforeBegin hook.steps := by
  cases hook <;>
    simp [Hook.steps, fakeSysOpen, fakeSysCreat, fakeSysRead, fakeSysWrite, fakeSysClose,
      fakeSysIoctl, fakeSysClone, fakeSysVfork, fakeSysFork, fakeSysExit, fakeSysExec,
      OpensBeforeBegin, takes, opens]

theorem OpensBeforeBegin.tail {steps : List HookStep} (order : OpensBeforeBegin steps) :
    OpensBeforeBegin steps.tail := by
  cases steps with
  | nil => trivial
  | cons step rest =>
    cases step with
    | begin oper api source paramCount => exact order.2
    | original api => exact order
    | add param => exact order
    | «end» returned => exact order
    | print address => exact order

/-- A task in no hook has nothing to log. -/
theorem idle_silent (current : Pid) (d : Device) : Silent current d .idle :=
  ⟨nofun, trivial, nofun, rfl, nofun⟩

section Move

variable {current : Pid} {d d' : Device} {task task' : HookTask} {act : HookAct}

/-- Going on to the next statement, on a device that the task did not take. -/
theorem Silent.proceed (silent : Silent current d task)
    (kept : d.ownerPid ≠ current.val → d'.ownerPid ≠ current.val) :
    Silent current d' task.proceed := by
  constructor
  · intro logOk
    obtain ⟨other, quiet⟩ := silent.begun logOk
    refine ⟨kept other, fun step member => quiet step ?_⟩
    exact List.mem_of_mem_tail member
  · exact silent.order.tail
  · exact fun writing => absurd writing id
  · rfl
  · exact fun opening => by cases opening

/-- A new statement, or a new call. -/
theorem statementMove_silent (silent : Silent current d task)
    (moved : statementMove current d task task.left act = some task') :
    Silent current d task' := by
  cases left : task.left with
  | nil =>
    rw [left] at moved
    cases act with
    | call hook =>
      cases moved
      constructor
      · exact fun logOk => absurd logOk (by simp)
      · exact steps_opensBeforeBegin hook
      · exact fun writing => absurd writing id
      · rfl
      · exact fun opening => by cases opening
    | _ => cases moved
  | cons step rest =>
    have next : Silent current d task.proceed := silent.proceed id
    have order := silent.order
    rw [left] at moved order
    cases step with
    | begin oper api source paramCount =>
      cases act with
      | begin room =>
        cases moved
        refine ⟨fun logOk => ?_, next.order, fun writing => absurd writing id, rfl, next.opening⟩
        have other : isOurProcess d current = false := by
          simp only [Bool.and_eq_true, Bool.not_eq_true'] at logOk
          exact logOk.1
        constructor
        · simpa [isOurProcess] using other
        · intro later member
          exact order.1 later (by simpa [HookTask.proceed, left] using member)
      | die =>
        cases source <;> cases moved
        exact idle_silent current d
      | _ => cases moved
    | add param =>
      cases act with
      | pass =>
        cases moved
        exact next
      | die =>
        cases param with
        | string name address =>
          rw [statementMove] at moved
          split at moved
          · cases moved
            exact idle_silent current d
          · cases moved
        | _ => cases moved
      | _ => cases moved
    | print address =>
      cases act with
      | pass =>
        cases moved
        exact next
      | die =>
        cases moved
        exact idle_silent current d
      | _ => cases moved
    | original api =>
      cases act with
      | enterOriginal =>
        cases moved
        exact ⟨silent.begun, silent.order, fun writing => absurd writing id, rfl,
          fun opening => by cases opening⟩
      | _ => cases moved
    | «end» returned =>
      cases act with
      | pass =>
        rw [statementMove] at moved
        split at moved
        · cases moved
        · cases moved
          exact next
      | log header path details memory =>
        rw [statementMove] at moved
        split at moved
        · cases moved
        next logged =>
          have logOk : task.logOk = true := by simpa using logged
          split at moved
          · cases moved
            exact next
          · split at moved
            · cases moved
              exact next
            · cases moved
              exact ⟨silent.begun, silent.order, fun _ => logOk, rfl, fun opening => by cases opening⟩
      | _ => cases moved

/-- What a move inside an original call does to the owner, and where it can lead. -/
theorem originalMove_owner {api : ApiName} {pc pc' : OriginalPc}
    (moved : originalMove current api d pc act = some (d', pc')) :
    (d'.ownerPid = d.ownerPid ∨ d'.ownerPid = 0 ∨
        d'.ownerPid = current.val ∧ opening (.original pc) = true) ∧
      (opening (.original pc') = true → opens api = true ∨ opening (.original pc) = true) := by
  unfold originalMove at moved
  split at moved
  · next call =>
    split at moved
    · next allowed =>
      cases moved
      refine ⟨.inl rfl, fun opens_it => .inl ?_⟩
      cases call with
      | «open» opener fMode =>
        simp only [permitted, Bool.and_eq_true] at allowed
        exact allowed.2
      | _ => cases opens_it
    · cases moved
  · next opener fMode =>
    cases moved
    exact ⟨.inl rfl, fun _ => .inr rfl⟩
  · cases moved
    exact ⟨.inr (.inr ⟨rfl, rfl⟩), fun opens_it => by cases opens_it⟩
  · cases moved
    refine ⟨.inl rfl, fun opens_it => ?_⟩
    split at opens_it <;> cases opens_it
  · cases moved
    exact ⟨.inr (.inl rfl), fun opens_it => by cases opens_it⟩
  · next call outcome =>
    obtain ⟨⟨d₁, pc₁⟩, down, same⟩ := Option.map_eq_some_iff.mp moved
    cases same
    cases outcome with
    | acquired =>
      rw [deviceMove] at down
      split at down
      · cases down
        refine ⟨.inl rfl, fun opens_it => .inr ?_⟩
        cases call <;> first | rfl | cases opens_it
      · cases down
    | interrupted =>
      cases down
      refine ⟨.inl rfl, fun opens_it => ?_⟩
      cases call <;> cases opens_it
  · next count user =>
    obtain ⟨⟨d₁, pc₁⟩, read, same⟩ := Option.map_eq_some_iff.mp moved
    cases same
    rw [deviceMove] at read
    split at read
    · next ran =>
      cases read
      obtain ⟨⟨d₂, answer⟩, body, same⟩ := bind_eq_ok ran
      cases same
      exact ⟨.inl (readLocked_control body).owner, fun opens_it => by cases opens_it⟩
    · cases read
  · cases moved
    exact ⟨.inl rfl, fun opens_it => by cases opens_it⟩
  · cases moved
    exact ⟨.inl rfl, fun opens_it => by cases opens_it⟩
  · cases moved

/-- A move in `write_to_interface` leaves the owner alone. -/
theorem storingMove_owner {pc : DevicePc} {deviceAct : DeviceAct}
    (writes : onlyWrites (.storing pc) = true)
    (moved : storingMove d task pc deviceAct = some (d', task')) :
    d'.ownerPid = d.ownerPid ∧ (task' = task.proceed ∨
      ∃ pc', onlyWrites (.storing pc') = true ∧ task' = { task with position := .storing pc' }) := by
  obtain ⟨⟨d₁, pc₁⟩, stepped, same⟩ := Option.map_eq_some_iff.mp moved
  cases same
  have left_device : ∀ pc', pc' ≠ .outside → onlyWrites (.storing pc') = true →
      (if pc' = .outside then task.proceed else { task with position := .storing pc' })
          = task.proceed ∨
        ∃ pc'', onlyWrites (.storing pc'') = true ∧
          (if pc' = .outside then task.proceed else { task with position := .storing pc' })
            = { task with position := .storing pc'' } := by
    intro pc' inside only
    rw [if_neg inside]
    exact .inr ⟨pc', only, rfl⟩
  cases pc with
  | atDown call =>
    cases call with
    | write buffer =>
      cases deviceAct with
      | down outcome =>
        cases outcome with
        | acquired =>
          rw [deviceMove] at stepped
          split at stepped
          · cases stepped
            exact ⟨rfl, left_device _ (by simp) rfl⟩
          · cases stepped
        | interrupted =>
          cases stepped
          exact ⟨rfl, .inl (if_pos rfl)⟩
      | _ => cases stepped
    | _ => cases writes
  | inside call =>
    cases call with
    | write buffer =>
      cases deviceAct with
      | body =>
        rw [deviceMove] at stepped
        split at stepped
        · next ran =>
          cases stepped
          exact ⟨(writeLocked_control ran).owner, left_device _ (by simp) rfl⟩
        · cases stepped
      | _ => cases stepped
    | _ => cases writes
  | atUp =>
    cases deviceAct with
    | up =>
      cases stepped
      exact ⟨rfl, .inl (if_pos rfl)⟩
    | _ => cases stepped
  | outside => cases writes
  | strayUp => cases writes

/-- So does its first one. -/
theorem entryMove_owner {buffer : List Byte}
    (moved : storingMove d task .outside (.enter (.write buffer)) = some (d', task')) :
    d'.ownerPid = d.ownerPid ∧ (task' = task.proceed ∨
      ∃ pc', onlyWrites (.storing pc') = true ∧ task' = { task with position := .storing pc' }) := by
  cases skip : skipped d (.write buffer) with
  | true =>
    simp only [storingMove, deviceMove, skip] at moved
    cases moved
    exact ⟨rfl, .inl rfl⟩
  | false =>
    simp only [storingMove, deviceMove, skip] at moved
    cases moved
    exact ⟨rfl, .inr ⟨.atDown (.write buffer), rfl, rfl⟩⟩

/-- A task in the middle of its record goes on writing it, or is through with it. -/
theorem Silent.stored (silent : Silent current d task) (logged : task.writing)
    (same : d'.ownerPid = d.ownerPid)
    (led : task' = task.proceed ∨ ∃ pc', onlyWrites (.storing pc') = true ∧
      task' = { task with position := .storing pc' }) : Silent current d' task' := by
  rcases led with rfl | ⟨pc', only, rfl⟩
  · apply silent.proceed
    intro other
    rw [same]
    exact other
  · refine ⟨fun logOk => ?_, silent.order, fun _ => silent.writing logged, only,
      fun opening => by cases opening⟩
    rw [same]
    exact silent.begun logOk

/-- What a whole move does to the owner. -/
theorem hookMove_owner (silent : Silent current d task)
    (moved : hookMove current d task act = some (d', task')) :
    d'.ownerPid = d.ownerPid ∨ d'.ownerPid = 0 ∨
      d'.ownerPid = current.val ∧ opening task.position = true := by
  have writes := silent.writes
  unfold hookMove at moved
  split at moved
  · obtain ⟨task₁, -, same⟩ := Option.map_eq_some_iff.mp moved
    cases same
    exact .inl rfl
  · next pc here =>
    rw [here]
    split at moved
    · split at moved
      · cases moved
        exact .inl rfl
      · cases moved
    · obtain ⟨⟨d₁, pc₁⟩, originally, same⟩ := Option.map_eq_some_iff.mp moved
      cases same
      exact (originalMove_owner originally).1
    · cases moved
  · split at moved
    · split at moved
      · next same =>
        rw [same] at moved
        exact .inl (entryMove_owner moved).1
      · cases moved
    · cases moved
  · next pc here =>
    rw [here] at writes
    split at moved
    · exact .inl (storingMove_owner writes moved).1
    · cases moved

/-- A task keeps its own promise. -/
theorem hookMove_silent (silent : Silent current d task)
    (moved : hookMove current d task act = some (d', task')) : Silent current d' task' := by
  have owner := hookMove_owner silent moved
  have writes := silent.writes
  unfold hookMove at moved
  split at moved
  · obtain ⟨task₁, next, same⟩ := Option.map_eq_some_iff.mp moved
    cases same
    exact statementMove_silent silent next
  · next pc here =>
    rw [here] at owner
    split at moved
    · split at moved
      · cases moved
        exact silent.proceed id
      · cases moved
    · next api rest left _ =>
      obtain ⟨⟨d₁, pc₁⟩, originally, same⟩ := Option.map_eq_some_iff.mp moved
      cases same
      have lets := silent.opening
      rw [here] at lets
      refine ⟨fun logOk => ?_, silent.order, fun writing => absurd writing id, rfl, ?_⟩
      · obtain ⟨other, quiet⟩ := silent.begun logOk
        refine ⟨?_, quiet⟩
        rcases owner with same | free | ⟨-, opened⟩
        · rw [same]
          exact other
        · have pos := current.property
          omega
        · -- the statement that opens the device would still be among those left
          obtain ⟨step, member, took⟩ := lets opened
          exact absurd (quiet step member) (by simp [took])
      · intro opened
        rcases (originalMove_owner originally).2 opened with allowed | before
        · exact ⟨.original api, by simp [left], allowed⟩
        · exact lets before
    · cases moved
  · next buffer here =>
    have logged : task.writing := by simp [HookTask.writing, here]
    split at moved
    · split at moved
      · next same =>
        rw [same] at moved
        obtain ⟨kept, led⟩ := entryMove_owner moved
        exact silent.stored logged kept led
      · cases moved
    · cases moved
  · next pc here =>
    have logged : task.writing := by simp [HookTask.writing, here]
    rw [here] at writes
    split at moved
    · obtain ⟨kept, led⟩ := storingMove_owner writes moved
      exact silent.stored logged kept led
    · cases moved

/-- No task takes the device for another one. -/
theorem Silent.bystander {j : Pid} {other : HookTask} (apart : j ≠ current)
    (silent : Silent current d task) (standing : Silent j d other)
    (moved : hookMove current d task act = some (d', task')) : Silent j d' other := by
  refine ⟨fun logOk => ?_, standing.order, standing.writing, standing.writes, standing.opening⟩
  obtain ⟨owner, quiet⟩ := standing.begun logOk
  refine ⟨?_, quiet⟩
  rcases hookMove_owner silent moved with same | free | ⟨taken, -⟩
  · rw [same]
    exact owner
  · have pos := j.property
    omega
  · intro mine
    exact apart (Subtype.ext (mine.symm.trans taken))

end Move

/-- One step of the system. -/
theorem hookTasksStep_silent {s t : HookWorld} {e : Pid × HookAct} {answer : Unit}
    (silent : ∀ pid, Silent pid s.shared (s.tasks pid))
    (stepped : hookTasksStep s e = .ok (t, answer)) :
    ∀ pid, Silent pid t.shared (t.tasks pid) := by
  apply crowdStep_preserves (fun pid d task => Silent pid d task) _ _ silent stepped
  · intro current d task act d' task' own moved
    exact hookMove_silent own moved
  · intro current j d task act d' task' other apart own standing moved
    exact own.bystander apart standing moved

/-- In every interleaving of hooked calls, from any device, no task is ever in
`write_to_interface` while it owns the device. -/
theorem reader_never_logged (d : Device) (es : List (Pid × HookAct)) :
    EveryStep hookTasksStep OwnerSilent ⟨d, fun _ => .idle⟩ es := by
  apply everyStep_of_invariant (fun s : HookWorld => ∀ pid, Silent pid s.shared (s.tasks pid))
    _ es _ fun pid => idle_silent pid d
  intro s e t answer silent stepped
  have next := hookTasksStep_silent silent stepped
  constructor
  · intro pid writing
    exact ((next pid).begun ((next pid).writing writing)).1
  · exact next

end SysMonitor.Guarantees.ReaderSilence
