import SysMonitor.Guarantees.LogBlocks
import SysMonitor.Source.LoggingTasks

/-!
# Log slots isolate the tasks

Each task logs what it logs alone, in any interleaving, as long as its user strings are
terminated in their buffers: the text of one that is not goes on in whatever lies behind
the buffer, which depends on what the other tasks allocated.
-/

namespace SysMonitor.Guarantees.SlotIsolation
open SysMonitor.Library SysMonitor.Source SysMonitor.Source.LogCache SysMonitor.Source.Hooks
open SysMonitor.Guarantees.LogBlocks

/-- The loaded module, and no task in a hook. -/
def loaded : LogTasks := ⟨logInit .unused, fun _ => ⟨[], false⟩⟩

/-- The record that an answer passes on. -/
def recordOf : Option LogAnswer → Option Record
  | some (.ended record) => record
  | _ => none

/-- The records of one task in a run, as they are laid out. -/
def recordsIn (memory : Memory) (pid : Int) (acts : List (Int × TaskAct)) :
    Except Fault (List Record) :=
  (run (taskStep memory) loaded acts).map fun result =>
    ((answersOf pid acts result.2).map (Option.map LogAnswer.placed)).filterMap recordOf

/-- Every task has the records that it has alone, with the same inputs. -/
def Isolated (memory : Memory) (acts : List (Int × TaskAct)) : Prop :=
  ∀ pid, recordsIn memory pid acts = recordsIn memory pid (acts.filter (·.1 = pid))

/-- An `add_*_param` that is made stores below `param_count`. -/
def StoresInside (s : LogTasks) (e : Int × TaskAct) (_ : LogTasks) (_ : Option LogAnswer) : Prop :=
  ∀ inputs step rest param, e.2 = .step inputs → (s.tasks e.1).left = step :: rest →
    statement (s.tasks e.1).logOk inputs step = some (.add param) →
    ∃ it, s.shared.heap.block (s.shared.slots (getSlotId e.1)) = some (.item it) ∧
      it.paramStrings ≠ NULL ∧ it.currentParam < it.paramCount

/-- The pid has a slot of its own. -/
def Slotted (e : Int × TaskAct) : Prop := 0 ≤ e.1 ∧ e.1 < LogCache.HASH_SLOT_SIZE

/-- A user string that the step copies, or what can be read of it, ends within `STRING_MAX_SIZE`
characters. -/
def Uncut (task : LogTask) (act : TaskAct) : Prop :=
  match task.left, act with
  | step :: _, .step inputs =>
    match statement task.logOk inputs step with
    | some call => ShortCall call
    | none => True
  | _, _ => True

section Solo

/-- A task and the view of its slot. -/
abbrev Solo := LogTask × Option ItemView

/-- A task alone. -/
def soloStep (pid : Int) (solo : Solo) (act : TaskAct) : Solo × Option LogAnswer :=
  match solo.1.left, act with
  | [], .call hook => ((⟨hook.steps, false⟩, solo.2), none)
  | step :: rest, .step inputs =>
    match statement solo.1.logOk inputs step with
    | none => ((taskAfter step rest solo.1.logOk inputs none, solo.2), none)
    | some call =>
      let (view, answer) := slotStep solo.2 pid call inputs.answers
      ((taskAfter step rest solo.1.logOk inputs (some answer), view), some answer)
  | _, _ => (solo, none)

/-- A statement that calls the log module. -/
theorem soloStep_call {pid : Int} {step : HookStep} {rest : List HookStep} {logOk : Bool}
    {view : Option ItemView} {inputs : Inputs} {call : LogCall}
    (made : statement logOk inputs step = some call) :
    let done := slotStep view pid call inputs.answers
    soloStep pid (⟨step :: rest, logOk⟩, view) (.step inputs)
      = ((taskAfter step rest logOk inputs (some done.2), done.1), some done.2) := by
  unfold soloStep
  dsimp only
  rw [made]

/-- The parameters that are still to be added. -/
def adds (steps : List HookStep) : Nat :=
  steps.countP fun
    | .add _ => true
    | _ => false

def begins (steps : List HookStep) : Bool :=
  steps.any fun
    | .begin _ _ _ _ => true
    | _ => false

/-- A begin announces the parameters that are added after it. -/
def Announced : List HookStep → Prop
  | [] => True
  | .begin _ _ _ paramCount :: rest =>
    adds rest ≤ paramCount ∧ paramCount < 2 ^ 30 ∧ begins rest = false ∧ Announced rest
  | _ :: rest => Announced rest

/-- While `log_ok` is set there is an item with a place for every parameter to come. -/
structure InOrder (solo : Solo) : Prop where
  announced : Announced solo.1.left
  logging : solo.1.logOk = true → begins solo.1.left = false ∧
    ∃ view, solo.2 = some view ∧ (0 < adds solo.1.left → view.params ≠ none) ∧
      view.currentParam + adds solo.1.left ≤ view.paramCount

theorem hook_announced (hook : Hook) : Announced hook.steps := by
  cases hook <;> exact ⟨Nat.le_refl _, by decide, rfl, trivial⟩

/-- After a begin that succeeded there is a place for every parameter it announced. -/
theorem beginSlot_inOrder (view : Option ItemView) (pid : Int) (oper : OperationName)
    (api : TraceDog.ApiName) (path : Option CString) (paramCount : Nat) (answers : Answers)
    {rest : List HookStep} (few : adds rest ≤ paramCount) (single : begins rest = false)
    (announced : Announced rest) :
    InOrder (⟨rest, (beginSlot view pid oper api path paramCount answers).2⟩,
      (beginSlot view pid oper api path paramCount answers).1) := by
  refine ⟨announced, fun ok => ⟨single, ?_⟩⟩
  dsimp only at ok ⊢
  unfold beginSlot at ok ⊢
  by_cases early : answers.ours = true ∨ (view = none ∧ answers.itemRoom = false)
  · rw [if_pos early] at ok
    cases ok
  · rw [if_neg early] at ok ⊢
    refine ⟨_, rfl, fun some => ?_, ?_⟩
    · have room := of_decide_eq_true ok (Nat.lt_of_lt_of_le some few)
      dsimp only
      rw [if_pos ⟨Nat.lt_of_lt_of_le some few, room⟩]
      simp
    · dsimp only
      omega

theorem idle_inOrder (view : Option ItemView) : InOrder (.idle, view) :=
  ⟨trivial, fun ok => by cases ok⟩

theorem soloStep_inOrder (pid : Int) (solo : Solo) (act : TaskAct) (order : InOrder solo) :
    InOrder (soloStep pid solo act).1 := by
  obtain ⟨⟨left, logOk⟩, view⟩ := solo
  obtain ⟨announced, logging⟩ := order
  cases left with
  | nil =>
    cases act with
    | call hook => exact ⟨hook_announced hook, fun ok => by cases ok⟩
    | step inputs => exact ⟨announced, logging⟩
  | cons step rest =>
    cases act with
    | call hook => exact ⟨announced, logging⟩
    | step inputs =>
      cases step with
      | original api => exact ⟨announced, logging⟩
      | print address =>
        change InOrder (if inputs.str.prints then ⟨rest, logOk⟩ else .idle, view)
        split
        · exact ⟨announced, logging⟩
        · exact idle_inOrder view
      | begin oper api source paramCount =>
        obtain ⟨few, -, single, announced⟩ := announced
        rw [soloStep_call rfl, slotStep]
        by_cases dies : pathDies (pathArgument inputs source) inputs.answers.pathRoom = true
        · rw [if_pos dies]
          exact idle_inOrder view
        · rw [if_neg dies]
          exact beginSlot_inOrder view pid oper api _ paramCount inputs.answers few single announced
      | add param =>
        cases logOk with
        | false => exact ⟨announced, fun ok => by cases ok⟩
        | true =>
          obtain ⟨single, view, rfl, array, fits⟩ := logging rfl
          have more : adds (.add param :: rest) = adds rest + 1 := List.countP_cons_of_pos rfl
          dsimp only at array fits
          rw [more] at array fits
          rw [soloStep_call rfl, slotStep]
          by_cases dies : paramDies (paramArgument inputs param) inputs.answers = true
          · rw [if_pos dies]
            exact idle_inOrder _
          · rw [if_neg dies]
            refine ⟨announced, fun _ =>
              ⟨single, addSlot view _ inputs.answers.holderRoom, rfl, ?_, ?_⟩⟩
            · intro _
              have there := array (Nat.succ_pos _)
              unfold addSlot
              split
              · simpa using there
              · exact there
            · change _ + adds rest ≤ _
              unfold addSlot
              split
              · dsimp only
                omega
              · omega
      | «end» returned =>
        cases logOk with
        | false => exact ⟨announced, fun ok => by cases ok⟩
        | true => exact ⟨announced, logging⟩

end Solo

section Crowds

variable {memory : Memory} {s : LogTasks} {lost : List Ptr} {pid : Int}

/-- The heap behind a view. -/
theorem item_of_view {h : BlockHeap LogBlock} {p : Ptr} (sound : SlotOk h p) {view : ItemView}
    (found : viewOf memory h p = some view) :
    ∃ it, h.block p = some (.item it) ∧ (view.params ≠ none → it.paramStrings ≠ NULL) ∧
      view.currentParam = it.currentParam ∧ view.paramCount = it.paramCount := by
  rcases sound with rfl | ⟨it, entries, shape⟩
  · rw [viewOf_null] at found
    cases found
  · rw [shape.view, Option.some.injEq] at found
    subst found
    refine ⟨it, shape.item, fun array null => ?_, rfl, rfl⟩
    exact array (if_pos null)

theorem getSlotId_self (valid : 0 ≤ pid ∧ pid < LogCache.HASH_SLOT_SIZE) : getSlotId pid = pid :=
  if_neg (by omega)

/-- An add that is made finds the place for its parameter. -/
theorem place_of_inOrder (rep : Rep s.shared lost) (valid : 0 ≤ pid ∧ pid < LogCache.HASH_SLOT_SIZE)
    (order : InOrder (s.tasks pid, viewOf memory s.shared.heap (s.shared.slots pid)))
    {param : Param} {rest : List HookStep} (here : (s.tasks pid).left = .add param :: rest)
    (ok : (s.tasks pid).logOk = true) :
    ∃ it, s.shared.heap.block (s.shared.slots (getSlotId pid)) = some (.item it) ∧
      it.paramStrings ≠ NULL ∧ it.currentParam < it.paramCount := by
  obtain ⟨-, view, found, array, fits⟩ := order.logging ok
  obtain ⟨it, item, strings, current, count⟩ := item_of_view (rep.sound pid) found
  have more : adds (.add param :: rest) = adds rest + 1 := List.countP_cons_of_pos rfl
  dsimp only at array fits
  rw [here, more] at array fits
  rw [getSlotId_self valid]
  exact ⟨it, item, strings (array (Nat.succ_pos _)), by omega⟩

/-- What a task calls is safe, and its slot is in use. -/
theorem statement_safe (rep : Rep s.shared lost) (valid : 0 ≤ pid ∧ pid < LogCache.HASH_SLOT_SIZE)
    (order : InOrder (s.tasks pid, viewOf memory s.shared.heap (s.shared.slots pid)))
    {step : HookStep} {rest : List HookStep} (here : (s.tasks pid).left = step :: rest)
    {inputs : Inputs} {call : LogCall}
    (made : statement (s.tasks pid).logOk inputs step = some call) :
    Safe s.shared (pid, call, inputs.answers) ∧ Begun s.shared pid call := by
  have inUse : (s.tasks pid).logOk = true → s.shared.slots (getSlotId pid) ≠ NULL := by
    intro ok null
    obtain ⟨-, view, found, -⟩ := order.logging ok
    dsimp only at found
    rw [getSlotId_self valid] at null
    rw [null, viewOf_null] at found
    cases found
  cases step with
  | original api => cases made
  | print address => cases made
  | begin oper api source paramCount =>
    cases made
    have announced := order.announced
    dsimp only at announced
    rw [here] at announced
    exact ⟨.inl announced.2.1, trivial⟩
  | add param =>
    have ok : (s.tasks pid).logOk = true := by
      by_contra off
      rw [statement, if_neg off] at made
      cases made
    rw [statement, if_pos ok] at made
    cases made
    refine ⟨.inr fun _ _ => ?_, inUse ok⟩
    obtain ⟨it, item, place⟩ := place_of_inOrder rep valid order here ok
    rw [item]
    exact place
  | «end» returned =>
    have ok : (s.tasks pid).logOk = true := by
      by_contra off
      rw [statement, if_neg off] at made
      cases made
    rw [statement, if_pos ok] at made
    cases made
    exact ⟨trivial, inUse ok⟩

/-- The tasks and the views of their slots. -/
def Tracks (memory : Memory) (s : LogTasks) (solos : Int → Solo) : Prop :=
  (∃ lost, Rep s.shared lost) ∧ ∀ i,
    solos i = (s.tasks i, viewOf memory s.shared.heap (s.shared.slots i)) ∧ InOrder (solos i)

/-- What a task needs of a step. -/
def Good (pid : Int) (solo : Solo) (act : TaskAct) : Prop :=
  (0 ≤ pid ∧ pid < LogCache.HASH_SLOT_SIZE) ∧ Uncut solo.1 act

theorem taskAfter_placed (step : HookStep) (rest : List HookStep) (logOk : Bool) (inputs : Inputs)
    (answer : LogAnswer) : taskAfter step rest logOk inputs (some answer.placed)
      = taskAfter step rest logOk inputs (some answer) := by
  cases answer <;> rfl

/-- A step of one task, in which its own slot changed or none. -/
theorem Tracks.moved {solos : Int → Solo} (tracks : Tracks memory s solos) {t : LogModule}
    {lost : List Ptr} (rep : Rep t lost) {task : LogTask} {solo : Solo}
    (here : solo = (task, viewOf memory t.heap (t.slots pid))) (order : InOrder solo)
    (others : ∀ i, i ≠ pid →
      viewOf memory t.heap (t.slots i) = viewOf memory s.shared.heap (s.shared.slots i)) :
    Tracks memory ⟨t, Function.update s.tasks pid task⟩ (Function.update solos pid solo) := by
  refine ⟨⟨lost, rep⟩, fun i => ?_⟩
  by_cases same : i = pid
  · subst same
    rw [Function.update_self]
    refine ⟨?_, order⟩
    dsimp only
    rw [Function.update_self]
    exact here
  · obtain ⟨view, order⟩ := tracks.2 i
    rw [Function.update_of_ne same]
    refine ⟨?_, order⟩
    dsimp only
    rw [Function.update_of_ne same, others i same]
    exact view

/-- A step is one of the task's own machine, and leaves those of the others alone. -/
theorem taskStep_tracks (s : LogTasks) (solos : Int → Solo) (pid : Int) (act : TaskAct)
    (tracks : Tracks memory s solos) (good : Good pid (solos pid) act) :
    ∃ t answer, taskStep memory s (pid, act) = .ok (t, answer) ∧
      Tracks memory t (Function.update solos pid (soloStep pid (solos pid) act).1) ∧
      answer.map LogAnswer.placed = (soloStep pid (solos pid) act).2 := by
  obtain ⟨⟨lost, rep⟩, views⟩ := id tracks
  obtain ⟨here, order⟩ := views pid
  obtain ⟨valid, uncut⟩ := good
  have order' := soloStep_inOrder pid (solos pid) act order
  rw [here] at order order' uncut ⊢
  have idle : Tracks memory s (Function.update solos pid (s.tasks pid,
      viewOf memory s.shared.heap (s.shared.slots pid))) := by
    rw [← here, Function.update_eq_self]
    exact tracks
  unfold taskStep
  unfold soloStep at order' ⊢
  dsimp only at order' uncut ⊢
  cases left : (s.tasks pid).left with
  | nil =>
    rw [left] at order'
    cases act with
    | call hook =>
      refine ⟨_, none, rfl, tracks.moved rep rfl order' fun i _ => rfl, rfl⟩
    | step inputs => exact ⟨s, none, rfl, idle, rfl⟩
  | cons step rest =>
    cases act with
    | call hook => exact ⟨s, none, rfl, idle, rfl⟩
    | step inputs =>
      unfold Uncut at uncut
      rw [left] at order' uncut
      dsimp only at order' uncut ⊢
      cases made : statement (s.tasks pid).logOk inputs step with
      | none =>
        rw [made] at order'
        exact ⟨_, none, rfl, tracks.moved rep rfl order' fun i _ => rfl, rfl⟩
      | some call =>
        rw [made] at order' uncut
        dsimp only at order' uncut ⊢
        obtain ⟨safe, begun⟩ := statement_safe rep valid order left made
        obtain ⟨t, answer, gone, ran, effect, -, view⟩ :=
          logStep_spec memory rep pid call inputs.answers safe
        have view := view begun uncut
        have rep' := rep.effect (getSlotId_valid pid) effect
        rw [getSlotId_self valid] at effect view
        rw [← view] at order' ⊢
        rw [ran, ok_bind]
        dsimp only at order' ⊢
        rw [taskAfter_placed] at order' ⊢
        refine ⟨_, some answer, rfl, tracks.moved rep' rfl order' fun i other => ?_, rfl⟩
        rw [effect.slots i other]
        exact (rep.sound i).view memory (rep.untouched effect other)

theorem tracks_storesInside {solos : Int → Solo} (tracks : Tracks memory s solos)
    (e : Int × TaskAct) (slotted : Slotted e) (t : LogTasks) (answer : Option LogAnswer) :
    StoresInside s e t answer := by
  intro inputs step rest param _ left made
  obtain ⟨⟨lost, rep⟩, views⟩ := tracks
  obtain ⟨here, order⟩ := views e.1
  rw [here] at order
  cases step with
  | add param' =>
    have ok : (s.tasks e.1).logOk = true := by
      by_contra off
      rw [statement, if_neg off] at made
      cases made
    exact place_of_inOrder rep slotted order left ok
  | original api => cases made
  | print address => cases made
  | begin oper api source paramCount => cases made
  | «end» returned =>
    by_cases ok : (s.tasks e.1).logOk = true
    · rw [statement, if_pos ok] at made
      cases made
    · rw [statement, if_neg ok] at made
      cases made

theorem loaded_tracks (memory : Memory) : Tracks memory loaded fun _ => (⟨[], false⟩, none) := by
  refine ⟨⟨[], init_rep⟩, fun i => ⟨?_, trivial, fun ok => by cases ok⟩⟩
  rw [show loaded.shared.slots i = NULL from rfl, viewOf_null]
  rfl

end Crowds

instance (str : UserText) : Decidable (Short str) := inferInstanceAs (Decidable (_ < _))

instance : ∀ path, Decidable (ShortPath path)
  | .userPath (some str) => inferInstanceAs (Decidable (Short str))
  | .userPath none | .fd _ | .kernelPath _ | .none => .isTrue trivial

instance : ∀ param, Decidable (ShortParam param)
  | .string _ str => inferInstanceAs (Decidable (Short str))
  | .void | .int _ _ | .unsignedInt _ _ => .isTrue trivial

instance : ∀ call, Decidable (ShortCall call)
  | .begin _ _ path _ => inferInstanceAs (Decidable (ShortPath path))
  | .add param => inferInstanceAs (Decidable (ShortParam param))
  | .end _ => .isTrue trivial

instance (task : LogTask) (act : TaskAct) : Decidable (Uncut task act) := by
  unfold Uncut
  split
  · split <;> infer_instance
  · infer_instance

instance (e : Int × TaskAct) : Decidable (Slotted e) :=
  inferInstanceAs (Decidable (_ ∧ _))

/-- Every interleaving in which no user string is cut goes through, stores inside the arrays and
gives every task the records that it has alone. -/
theorem slots_isolated (memory : Memory) (acts : List (Int × TaskAct))
    (admitted : Admitted (taskStep memory) (fun s e => Slotted e ∧ Uncut (s.tasks e.1) e.2) loaded
      acts) :
    (∃ t answers, run (taskStep memory) loaded acts = .ok (t, answers)) ∧
      EveryStep (taskStep memory) StoresInside loaded acts ∧ Isolated memory acts := by
  have moves : ∀ s solos pid act, Tracks memory s solos → Slotted (pid, act) ∧
      Uncut (s.tasks pid) act → Good pid (solos pid) act := by
    intro s solos pid act tracks both
    refine ⟨both.1, ?_⟩
    rw [(tracks.2 pid).1]
    exact both.2
  obtain ⟨t, answers, ran, alone⟩ := run_alone (Tracks memory) (Option.map LogAnswer.placed) Good
    moves taskStep_tracks acts loaded _ (loaded_tracks memory) admitted
  refine ⟨⟨t, answers, ran⟩, ?_, fun pid => ?_⟩
  · refine (run_of_admitted (fun s => ∃ solos, Tracks memory s solos) ?_ acts loaded
      ⟨_, loaded_tracks memory⟩ admitted).2
    rintro s ⟨pid, act⟩ ⟨solos, tracks⟩ both
    obtain ⟨t, answer, taken, next, -⟩ :=
      taskStep_tracks s solos pid act tracks (moves s solos pid act tracks both)
    exact ⟨t, answer, taken, tracks_storesInside tracks _ both.1 t answer, _, next⟩
  · obtain ⟨u, answers', ran', same⟩ := alone pid
    rw [recordsIn, recordsIn, ran, ran']
    exact congrArg (fun answers => Except.ok (answers.filterMap recordOf)) same

/-- With this text at the user's address, and room for everything. -/
def withText (str : UserText) : TaskAct :=
  .step ⟨some (.literal "/b"), str, 3, roomy⟩

def withString (str : CString) : TaskAct := withText (.whole str)

/-- An open and a read at the same time, then a close and an execve. Last, task 7 opens an
address that cannot be read and dies, and a new task with its pid goes on. -/
theorem slots_isolated_overlapping :
    let act := withString (.literal "/a")
    let acts := [(7, TaskAct.call (.open 4096 0 0)), (8, .call (.read 3 4096 5))] ++
      [8, 7, 7, 8, 7, 8, 8, 7, 8, 7, 8, 7].map (fun pid => ((pid : Int), act)) ++
      [(8, .call (.close 3)), (7, .call (.exec 4096 0 0 0))] ++
      [7, 8, 7, 8, 7, 8, 7, 8, 7, 7, 7, 7].map (fun pid => (pid, act)) ++
      [(8, .call (.read 3 4096 5)), (7, .call (.open 5000 0 0)), (8, act), (7, act),
        (7, withText (.broken .empty false)), (8, act), (7, .call (.close 4))] ++
      [7, 8, 7, 8, 7, 8, 7].map fun pid => (pid, act)
    (∃ t answers, run (taskStep cleared) loaded acts = .ok (t, answers)) ∧
      EveryStep (taskStep cleared) StoresInside loaded acts ∧ Isolated cleared acts :=
  slots_isolated cleared _ (by decide +kernel)

/-- Something lies behind the block at 2, and nothing behind the others. -/
def littered : Memory := { cleared with beyond := fun p => if p = 2 then .literal "x" else .empty }

/-- Task 7 executes a file whose name has 256 characters. Alone it logs the name with an
`x` behind it; where task 8 began its call before, its copy of the name is elsewhere. -/
theorem long_name_depends_on_others :
    let act := withString (.ofBytes (List.replicate 256 65))
    let own := (7, .call (.exec 4096 0 0 0)) :: List.replicate 6 ((7 : Int), act)
    ¬Isolated littered ([(8, .call (.close 3)), (8, act)] ++ own) := by
  intro act own isolated
  exact absurd (isolated 7) (by decide +kernel)

end SysMonitor.Guarantees.SlotIsolation
