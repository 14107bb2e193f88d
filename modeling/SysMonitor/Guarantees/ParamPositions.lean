import SysMonitor.Guarantees.DetailsText
import SysMonitor.Guarantees.SlotIsolation
import SysMonitor.Library.SettledJoin

/-!
# Positions of the parameters in the details

An add that gets no memory leaves `current_param` where it is. The next parameter then takes
its place, and the places that stay empty are the last ones.
-/

namespace SysMonitor.Guarantees.ParamPositions
open SysMonitor.Library SysMonitor.Library.BoundedJoin SysMonitor.Library.SettledJoin
open SysMonitor.Source
open SysMonitor.Source.LogCache SysMonitor.Source.LogText SysMonitor.Source.Hooks
open SysMonitor.Source.DetailsBuffer SysMonitor.Guarantees.DetailsText
open SysMonitor.Guarantees.LogBlocks SysMonitor.Guarantees.SlotIsolation

/-- The parameters that a hook adds. -/
def params (hook : Hook) : List Param :=
  hook.steps.filterMap fun
    | .add param => some param
    | _ => none

/-- The adds of a hook; the i-th of them finds the i-th inputs. -/
def adds (hook : Hook) (inputs : Nat → Inputs) : List (ParamArgument × Answers) :=
  (params hook).mapIdx fun i param => (paramArgument (inputs i) param, (inputs i).answers)

/-- An add, and the parameter that it added, if there was memory for it. -/
def addStep (memory : Memory) (pid : Int) (s : LogModule) (e : ParamArgument × Answers) :
    Except Fault (LogModule × Option CString) := do
  let (t, alive) ← addParam memory s pid e.1 e.2
  return (t, if alive ∧ e.2.holderRoom then some (addedText memory s.heap e.1 e.2) else none)

/-- The task does not die in an add. -/
def Survived (hook : Hook) (inputs : Nat → Inputs) : Prop :=
  ∀ e ∈ adds hook inputs, paramDies e.1 e.2 = false

instance (hook : Hook) (inputs : Nat → Inputs) : Decidable (Survived hook inputs) :=
  inferInstanceAs (Decidable (∀ e ∈ _, _ = false))

/-- The log module when any tasks have gone through any hooks, or are in the middle of one. -/
def Reached (memory : Memory) (s : LogModule) : Prop :=
  ∃ acts t answers, run (taskStep memory) loaded acts = .ok (t, answers) ∧ t.shared = s

/-- No parameter gets memory after one that got none. -/
def FailuresLast (hook : Hook) (inputs : Nat → Inputs) : Prop :=
  ∀ i j, i < j → j < (params hook).length → (inputs i).answers.holderRoom = false →
    (inputs j).answers.holderRoom = false

section Names

/-- The first byte of a name. -/
def firstByte (name : String) : Byte := BitVec.ofNat 8 (name.toList.headD '<').toNat

/-- The name of a parameter as it stands in the details. -/
def nameOf : Param → String
  | .void => "void"
  | .int name _ | .unsignedInt name _ | .string name _ => name

/-- A name that does not begin as `<NULL>` does. -/
def Named (name : String) : Prop := firstByte name ≠ 0 ∧ firstByte name ≠ 60

instance (name : String) : Decidable (Named name) := inferInstanceAs (Decidable (_ ≠ _ ∧ _ ≠ _))

theorem hook_named {hook : Hook} {param : Param} (inside : param ∈ params hook) :
    Named (nameOf param) := by
  have named : ∀ name ∈ (params hook).map nameOf, Named name := by
    cases hook <;>
      · simp only [params, Hook.steps, fakeSysOpen, fakeSysCreat, fakeSysRead, fakeSysWrite,
          fakeSysClose, fakeSysIoctl, fakeSysClone, fakeSysVfork, fakeSysFork, fakeSysExit,
          fakeSysExec, List.filterMap, List.map, nameOf, Param.pointer]
        decide
  exact named _ (List.mem_map_of_mem inside)

theorem ofBytes_begins {first : Byte} (real : first ≠ 0) (rest : List Byte) :
    (CString.ofBytes (first :: rest)).bytes.head? = some first := by
  have kernel : kernelSpace - 1 = (kernelSpace - 2) + 1 := by decide
  have kept : (first :: rest).takeWhile (· ≠ 0) = first :: rest.takeWhile (· ≠ 0) :=
    List.takeWhile_cons_of_pos (decide_eq_true real)
  change (((first :: rest).takeWhile (· ≠ 0)).take (kernelSpace - 1)).head? = _
  rw [kept, kernel, List.take_succ_cons]
  rfl

theorem literal_begins {name : String} (named : Named name) (rest : String) :
    (CString.literal (name ++ rest)).bytes.head? = some (firstByte name) := by
  obtain ⟨real, other⟩ := named
  unfold firstByte at real other ⊢
  rw [CString.literal, String.toList_append]
  cases letters : name.toList with
  | nil =>
    rw [letters] at other
    exact absurd rfl other
  | cons letter letters' =>
    rw [letters] at real
    exact ofBytes_begins real _

/-- No parameter of a hook begins as `<NULL>` does. -/
theorem added_begins (memory : Memory) (h : BlockHeap LogBlock) {hook : Hook} {param : Param}
    (inside : param ∈ params hook) (inputs : Inputs) (answers : Answers) :
    ∃ first, (addedText memory h (paramArgument inputs param) answers).bytes.head? = some first ∧
      first ≠ 60 := by
  have named := hook_named inside
  refine ⟨firstByte (nameOf param), ?_, named.2⟩
  cases param with
  | void => exact (by decide : voidText.bytes.head? = some (firstByte "void"))
  | int name value =>
    change (intText name value).bytes.head? = _
    rw [intText, String.append_assoc]
    exact literal_begins named _
  | unsignedInt name value =>
    change (unsignedIntText name value).bytes.head? = _
    rw [unsignedIntText, String.append_assoc]
    exact literal_begins named _
  | string name address =>
    have begins : (CString.literal (name ++ ": ")).bytes.head? = some (firstByte name) :=
      literal_begins named ": "
    change (stringText name _).bytes.head? = some (firstByte name)
    rw [stringText, CString.append]
    cases bytes : (CString.literal (name ++ ": ")).bytes with
    | nil =>
      rw [bytes] at begins
      cases begins
    | cons first rest =>
      rw [bytes] at begins
      cases begins
      exact ofBytes_begins named.1 _

end Names

section Fields

/-- The parameter that was added, or NULL. -/
def render (field : Option CString) : List Byte := (paramText field).bytes

theorem rendered_eq (fields : List (Option CString)) : rendered fields = fields.map render := by
  rw [rendered, texts, asEntries, List.map_map]
  exact List.map_congr_left fun field _ => (paramText_bytes field).symm

/-- The slot of the task while it adds: these parameters stand in front of the places that
are left. -/
structure Filling (memory : Memory) (s : LogModule) (pid : Int) (path : Option CString)
    (placed : List (Option CString)) (left : Nat) : Prop where
  rep : ∃ lost, Rep s lost
  view : ∃ header, viewOf memory s.heap (s.slots (getSlotId pid)) = some
    ⟨header, path, some (placed ++ List.replicate left none), placed.length + left, placed.length⟩

variable {memory : Memory} {s : LogModule} {pid : Int} {path : Option CString}
  {placed : List (Option CString)} {left : Nat}

theorem Filling.used (filling : Filling memory s pid path placed left) :
    s.slots (getSlotId pid) ≠ NULL := by
  obtain ⟨header, view⟩ := filling.view
  intro null
  rw [null, viewOf_null] at view
  cases view

/-- While places are left, an add finds one. -/
theorem Filling.place (filling : Filling memory s pid path placed (left + 1)) (answers : Answers) :
    HasPlace s pid answers := by
  obtain ⟨lost, rep⟩ := filling.rep
  obtain ⟨header, view⟩ := filling.view
  obtain ⟨it, item, strings, current, count⟩ := item_of_view (rep.sound _) view
  intro _ _
  rw [item]
  dsimp only at current count strings
  exact ⟨strings (by simp), by omega⟩

/-- While places are left, an add goes through. -/
theorem addStep_view (filling : Filling memory s pid path placed (left + 1))
    {e : ParamArgument × Answers} (lives : paramDies e.1 e.2 = false) :
    ∃ t, addStep memory pid s e
        = .ok (t, if e.2.holderRoom then some (addedText memory s.heap e.1 e.2) else none) ∧
      (∃ lost, Rep t lost) ∧ viewOf memory t.heap (t.slots (getSlotId pid))
        = (viewOf memory s.heap (s.slots (getSlotId pid))).map
            (addSlot · (addedText memory s.heap e.1 e.2) e.2.holderRoom) := by
  obtain ⟨lost, rep⟩ := filling.rep
  obtain ⟨t, alive, gone, ran, effect, -, after⟩ :=
    add_spec memory rep pid e.1 (.inr (filling.place e.2))
  have after := after filling.used
  rw [if_neg (by simp [lives])] at after
  obtain ⟨view, rfl⟩ := Prod.mk.inj after
  refine ⟨t, ?_, ⟨_, rep.effect (getSlotId_valid pid) effect⟩, view⟩
  rw [addStep, ran, ok_bind]
  simp [pure, Except.pure]

/-- An add with memory takes the first place that is left. -/
theorem addStep_fills (filling : Filling memory s pid path placed (left + 1))
    {e : ParamArgument × Answers} (lives : paramDies e.1 e.2 = false)
    (room : e.2.holderRoom = true) :
    ∃ t, addStep memory pid s e = .ok (t, some (addedText memory s.heap e.1 e.2)) ∧
      Filling memory t pid path (placed ++ [some (addedText memory s.heap e.1 e.2)]) left := by
  obtain ⟨header, view⟩ := filling.view
  obtain ⟨t, ran, rep, after⟩ := addStep_view filling lives
  refine ⟨t, ?_, rep, header, ?_⟩
  · rw [ran, if_pos room]
  · rw [after, view, Option.map_some, addSlot, if_pos room]
    simp [List.replicate_succ, Nat.add_assoc, Nat.add_comm 1]

/-- An add without memory leaves everything as it is. -/
theorem addStep_skips (filling : Filling memory s pid path placed (left + 1))
    {e : ParamArgument × Answers} (lives : paramDies e.1 e.2 = false)
    (full : e.2.holderRoom = false) :
    ∃ t, addStep memory pid s e = .ok (t, none) ∧ Filling memory t pid path placed (left + 1) := by
  obtain ⟨header, view⟩ := filling.view
  obtain ⟨t, ran, rep, after⟩ := addStep_view filling lives
  refine ⟨t, ?_, rep, header, ?_⟩
  · rw [ran, if_neg (by simp [full])]
  · rw [after, view, Option.map_some, addSlot, if_neg (by simp [full])]

/-- What an add reported about its parameter. -/
def Added (memory : Memory) (e : ParamArgument × Answers) (field : Option CString) : Prop :=
  field.isSome = e.2.holderRoom ∧
    ∀ text, field = some text → ∃ h, text = addedText memory h e.1 e.2

/-- The adds that get memory fill the places from the front. -/
theorem adds_fill (es : List (ParamArgument × Answers)) {placed : List (Option CString)}
    {left : Nat} (filling : Filling memory s pid path placed left) (few : es.length ≤ left)
    (lives : ∀ e ∈ es, paramDies e.1 e.2 = false) :
    ∃ t fields, run (addStep memory pid) s es = .ok (t, fields) ∧
      List.Forall₂ (Added memory) es fields ∧
      Filling memory t pid path (placed ++ fields.filter (·.isSome))
        (left - (fields.filter (·.isSome)).length) := by
  induction es generalizing s placed left with
  | nil => exact ⟨s, [], rfl, .nil, by simpa using filling⟩
  | cons e es ih =>
    obtain ⟨left, rfl⟩ : ∃ n, left = n + 1 := ⟨left - 1, by rw [List.length_cons] at few; omega⟩
    obtain ⟨first, later⟩ := List.forall_mem_cons.mp lives
    cases room : e.2.holderRoom with
    | true =>
      obtain ⟨t, added, filling⟩ := addStep_fills filling first room
      obtain ⟨u, fields, ran, reported, filled⟩ := ih filling (Nat.le_of_succ_le_succ few) later
      refine ⟨u, _, run_cons_ok added ran, .cons ⟨room.symm, fun text same => ?_⟩ reported, ?_⟩
      · cases same
        exact ⟨s.heap, rfl⟩
      · simpa using filled
    | false =>
      obtain ⟨t, added, filling⟩ := addStep_skips filling first room
      obtain ⟨u, fields, ran, reported, filled⟩ := ih filling (Nat.le_of_succ_le few) later
      refine ⟨u, _, run_cons_ok added ran, .cons ⟨room.symm, fun text same => ?_⟩ reported, ?_⟩
      · cases same
      · simpa using filled

end Fields

section Reach

variable {memory : Memory} {s : LogModule}

/-- A begin announces as many parameters as are added. -/
theorem announces {hook : Hook} {oper : OperationName} {api : TraceDog.ApiName}
    {source : PathSource} {paramCount : Nat}
    (called : .begin oper api source paramCount ∈ hook.steps) :
    paramCount = (params hook).length ∧ 0 < paramCount ∧ paramCount < 2 ^ 30 := by
  cases hook <;>
    · simp [Hook.steps, fakeSysOpen, fakeSysCreat, fakeSysRead, fakeSysWrite, fakeSysClose,
        fakeSysIoctl, fakeSysClone, fakeSysVfork, fakeSysFork, fakeSysExit, fakeSysExec] at called
      obtain ⟨rfl, rfl, rfl, rfl⟩ := called
      exact ⟨rfl, by decide, by decide⟩

/-- The log module is in order, and every task is in some hook. -/
def Working (s : LogTasks) : Prop :=
  (∃ lost, Rep s.shared lost) ∧ ∀ i, ∃ hook : Hook, (s.tasks i).left <:+ hook.steps

theorem logStep_keeps {lost : List Ptr} (rep : Rep s lost) {e : Int × LogCall × Answers}
    {t : LogModule} {answer : LogAnswer}
    (wide : ∀ oper api path paramCount, e.2.1 = .begin oper api path paramCount →
      paramCount < 2 ^ 30)
    (went : logStep memory s e = .ok (t, answer)) : ∃ lost, Rep t lost := by
  obtain ⟨pid, call, answers⟩ := e
  have safe : Safe s (pid, call, answers) := by
    cases call with
    | begin oper api path paramCount => exact .inl (wide oper api path paramCount rfl)
    | add param =>
      obtain ⟨⟨t', alive⟩, added, -⟩ := bind_eq_ok went
      exact add_place memory rep pid added
    | «end» ret => trivial
  obtain ⟨t', answer', gone, ran, effect, -⟩ := logStep_spec memory rep pid call answers safe
  rw [ran] at went
  cases went
  exact ⟨_, rep.effect (getSlotId_valid pid) effect⟩

/-- Only a begin of the hook makes a begin. -/
theorem statement_wide {hook : Hook} {step : HookStep} (inside : step ∈ hook.steps) {logOk : Bool}
    {inputs : Inputs} {oper : OperationName} {api : TraceDog.ApiName} {path : PathArgument}
    {paramCount : Nat}
    (made : statement logOk inputs step = some (.begin oper api path paramCount)) :
    paramCount < 2 ^ 30 := by
  cases step with
  | begin oper' api' source paramCount' =>
    cases made
    exact (announces inside).2.2
  | original api' => cases made
  | print address => cases made
  | add param =>
    rw [statement] at made
    split at made <;> cases made
  | «end» returned =>
    rw [statement] at made
    split at made <;> cases made

theorem taskAfter_left (step : HookStep) (rest : List HookStep) (logOk : Bool) (inputs : Inputs)
    (answer : Option LogAnswer) : (taskAfter step rest logOk inputs answer).left <:+ rest := by
  unfold taskAfter
  split
  · exact List.nil_suffix
  · exact List.suffix_refl _
  · exact List.suffix_refl _
  · split
    · split
      · exact List.suffix_refl _
      · exact List.nil_suffix
    · exact List.suffix_refl _

theorem taskStep_working {s t : LogTasks} {e : Int × TaskAct} {answer : Option LogAnswer}
    (working : Working s) (went : taskStep memory s e = .ok (t, answer)) : Working t := by
  obtain ⟨⟨lost, rep⟩, hooks⟩ := working
  have moved : ∀ {shared : LogModule} {task : LogTask}, (∃ lost, Rep shared lost) →
      (∃ hook : Hook, task.left <:+ hook.steps) →
      Working ⟨shared, Function.update s.tasks e.1 task⟩ := by
    intro shared task rep' here
    refine ⟨rep', fun i => ?_⟩
    dsimp only
    by_cases same : i = e.1
    · rw [same, Function.update_self]
      exact here
    · rw [Function.update_of_ne same]
      exact hooks i
  obtain ⟨hook, inside⟩ := hooks e.1
  obtain ⟨pid, act⟩ := e
  unfold taskStep at went
  dsimp only at went inside moved
  cases left : (s.tasks pid).left with
  | nil =>
    rw [left] at went
    cases act with
    | call hook' =>
      cases went
      exact moved ⟨lost, rep⟩ ⟨hook', List.suffix_refl _⟩
    | step inputs =>
      cases went
      exact ⟨⟨lost, rep⟩, hooks⟩
  | cons step rest =>
    rw [left] at went inside
    have rest_inside : rest <:+ hook.steps := (List.suffix_cons step rest).trans inside
    cases act with
    | call hook' =>
      cases went
      exact ⟨⟨lost, rep⟩, hooks⟩
    | step inputs =>
      dsimp only at went
      cases made : statement (s.tasks pid).logOk inputs step with
      | none =>
        rw [made] at went
        cases went
        exact moved ⟨lost, rep⟩ ⟨hook, (taskAfter_left ..).trans rest_inside⟩
      | some call =>
        rw [made] at went
        obtain ⟨⟨shared, answer'⟩, stepped, went⟩ := bind_eq_ok went
        cases went
        refine moved (logStep_keeps rep (fun oper api path paramCount begun => ?_) stepped)
          ⟨hook, (taskAfter_left ..).trans rest_inside⟩
        dsimp only at begun
        subst begun
        exact statement_wide (inside.subset List.mem_cons_self) made

theorem Reached.rep (reached : Reached memory s) : ∃ lost, Rep s lost := by
  obtain ⟨acts, t, answers, ran, rfl⟩ := reached
  have start : Working loaded := ⟨⟨[], init_rep⟩, fun _ => ⟨.close 0, List.nil_suffix⟩⟩
  exact (run_invariant Working (fun _ _ _ _ working went => taskStep_working working went) start
    ran).1

end Reach

section Details

variable {memory : Memory} {s : LogModule} {pid : Int} {path : Option CString}

/-- After a begin that succeeded all places are left. -/
theorem begin_fills (reached : Reached memory s) {hook : Hook} {oper : OperationName}
    {api : TraceDog.ApiName} {source : PathSource} {paramCount : Nat}
    (called : .begin oper api source paramCount ∈ hook.steps) {path : PathArgument}
    {answers : Answers} {t : LogModule}
    (begun : beginLogSystemCall memory s pid oper api path paramCount answers
      = .ok (t, some true)) :
    ∃ text, Filling memory t pid text [] (params hook).length := by
  obtain ⟨lost, rep⟩ := reached.rep
  obtain ⟨same, some, wide⟩ := announces called
  obtain ⟨t', ok, gone, ran, effect, -, view⟩ :=
    begin_spec memory rep pid oper api path paramCount answers (.inl wide)
  rw [begun] at ran
  cases ran
  refine ⟨copiedPath memory s.heap path answers.pathRoom,
    ⟨_, rep.effect (getSlotId_valid pid) effect⟩, ?_⟩
  split at view
  · cases congrArg Prod.snd view
  unfold beginSlot at view
  split at view
  · cases congrArg Prod.snd view
  · obtain ⟨view, ok⟩ := Prod.mk.inj view
    rw [Option.some.injEq] at ok
    have room := of_decide_eq_true ok.symm some
    rw [id_eq, if_pos ⟨some, room⟩, Nat.mod_eq_of_lt wide, same] at view
    rw [view]
    exact ⟨_, by rw [List.nil_append, List.length_nil, Nat.zero_add]⟩

/-- The details are the places joined while they fit. -/
theorem end_joins {placed : List (Option CString)} {left : Nat}
    (filling : Filling memory s pid path placed left) (announced : 0 < placed.length + left)
    (ret : Word) (answers : Answers) :
    ∃ t record, endLogSystemCall memory s pid ret answers = .ok (t, some record) ∧
      record.path = path ∧ ∀ details, record.details = some details →
        details.bytes = fill separator.val (rendered (placed ++ List.replicate left none))
          (detailSize path - 1).toNat := by
  obtain ⟨lost, rep⟩ := filling.rep
  obtain ⟨header, view⟩ := filling.view
  obtain ⟨t, record, ran, -, outcome⟩ := end_spec memory rep pid ret answers
  obtain ⟨-, laid⟩ := outcome filling.used
  rw [view, Option.map_some] at laid
  cases record with
  | none => cases laid
  | some record =>
    have laid := Option.some.inj laid
    have same_path : record.path = path := congrArg Record.path laid
    have same_details := congrArg Record.details laid
    refine ⟨t, record, ran, same_path, fun text written => ?_⟩
    change record.details = details _ answers.detailsRoom at same_details
    rw [written, details] at same_details
    dsimp only at same_details
    split at same_details
    · rename_i enough
      have kernel : detailSize path ≤ 967 := by
        rw [detailSize_eq]
        omega
      have fits : (CString.empty.strlen : Int) + detailSize path ≤ kernelSpace := by
        change ((0 : Nat) : Int) + _ ≤ ((2 ^ 30 : Nat) : Int)
        omega
      rw [Option.some.inj same_details, joinParams_bytes _ enough.2 fits]
      rfl
    · cases same_details

/-- What was added of the hook's parameters, with gaps in their places. -/
theorem missingLast_iff {hook : Hook} {inputs : Nat → Inputs} {fields : List (Option CString)}
    (reported : List.Forall₂ (Added memory) (adds hook inputs) fields) :
    MissingLast fields ↔ FailuresLast hook inputs := by
  have length : fields.length = (params hook).length := by
    rw [← reported.length_eq, adds, List.length_mapIdx]
  have missing : ∀ i (short : i < fields.length),
      fields[i] = none ↔ (inputs i).answers.holderRoom = false := by
    intro i short
    have short' : i < (adds hook inputs).length := reported.length_eq ▸ short
    have same := (List.forall₂_iff_get.mp reported).2 i short' short
    have room : fields[i].isSome = (inputs i).answers.holderRoom := by
      have given := same.1
      simp only [List.get_eq_getElem, adds, List.getElem_mapIdx] at given
      exact given
    rw [← room, ← Option.not_isSome_iff_eq_none, Bool.not_eq_true]
  rw [MissingLast, List.pairwise_iff_getElem, FailuresLast]
  constructor
  · intro last i j before inside
    have short : j < fields.length := length ▸ inside
    rw [← missing i (before.trans short), ← missing j short]
    exact last i j (before.trans short) short before
  · intro last i j short short' before
    rw [missing i short, missing j short']
    exact last i j before (length ▸ short')

/-- Each parameter that a hook adds begins differently from `<NULL>`. -/
theorem fields_begin {hook : Hook} {inputs : Nat → Inputs} {fields : List (Option CString)}
    (reported : List.Forall₂ (Added memory) (adds hook inputs) fields) {text : CString}
    (inside : some text ∈ fields) :
    ∃ first, (render (some text)).head? = some first ∧ first ≠ 60 := by
  obtain ⟨i, short, here⟩ := List.getElem_of_mem inside
  have short' : i < (adds hook inputs).length := reported.length_eq ▸ short
  have same := (List.forall₂_iff_get.mp reported).2 i short' short
  obtain ⟨h, rfl⟩ := same.2 text here
  simp only [List.get_eq_getElem, adds, List.getElem_mapIdx]
  exact added_begins memory h (List.getElem_mem _) _ _

end Details

/-- After every begin of a hook that succeeded, in every state that is reached, whatever the adds
find that the task survives: the adds go through, and where details are written and all
parameters fit, each of them stands in its position, with `<NULL>` for each that got no memory,
if and only if those that got none are the last ones. -/
theorem positions_kept_iff (memory : Memory) {s t : LogModule} (reached : Reached memory s)
    (pid : Int) {hook : Hook} {oper : OperationName} {api : TraceDog.ApiName} {source : PathSource}
    {paramCount : Nat} (called : .begin oper api source paramCount ∈ hook.steps)
    {path : PathArgument} {answers : Answers}
    (begun : beginLogSystemCall memory s pid oper api path paramCount answers
      = .ok (t, some true))
    {inputs : Nat → Inputs} (survived : Survived hook inputs) (ret : Word) (ending : Answers) :
    ∃ u fields v record, run (addStep memory pid) t (adds hook inputs) = .ok (u, fields) ∧
      endLogSystemCall memory u pid ret ending = .ok (v, some record) ∧
      ∀ details, record.details = some details →
        (separator.val.intercalate (rendered fields)).length ≤ detailSize record.path - 1 →
        (details.bytes = separator.val.intercalate (rendered fields) ↔ FailuresLast hook inputs) := by
  obtain ⟨same, announced, -⟩ := announces called
  obtain ⟨text, filling⟩ := begin_fills reached called begun
  have count : (adds hook inputs).length = (params hook).length := List.length_mapIdx
  obtain ⟨u, fields, ran, reported, filled⟩ :=
    adds_fill (adds hook inputs) filling (Nat.le_of_eq count) survived
  have length : fields.length = (params hook).length := reported.length_eq.symm.trans count
  rw [List.nil_append, ← length] at filled
  have front := List.length_filter_le (·.isSome) fields
  obtain ⟨v, record, ended, same_path, joins⟩ := end_joins filled (by omega) ret ending
  refine ⟨u, fields, v, record, ran, ended, fun details written fits => ?_⟩
  have same_length : (separator.val.intercalate ((settle fields).map render)).length
      = (separator.val.intercalate (fields.map render)).length :=
    intercalate_length_perm ((settle_perm fields).map render)
  have joined : details.bytes = separator.val.intercalate ((settle fields).map render) := by
    rw [same_path, rendered_eq, ← same_length] at fits
    rw [joins details written, ← settle_eq, rendered_eq]
    exact fill_of_fits (by omega)
  rw [joined, rendered_eq, ← missingLast_iff reported]
  have missing : (render none).head? = some 60 := by decide
  exact settle_join_iff missing fun text => fields_begin reported

/-- What the adds of `read` find when there is no memory for the k-th text. -/
def withoutMemory (k : Nat) (i : Nat) : Inputs :=
  ⟨none, firstPage, 0, { roomy with holderRoom := i ≠ k }⟩

/-- `read(3, 0x1000, 5)` without memory for the last text. -/
theorem positions_kept_read : ∃ t, beginLogSystemCall cleared (logInit .unused) 7 .readFile .read
      (.fd (some (.literal "/b"))) 3 roomy = .ok (t, some true) ∧
    ∃ u fields v record,
      run (addStep cleared 7) t (adds (.read 3 0x1000 5) (withoutMemory 2)) = .ok (u, fields) ∧
      endLogSystemCall cleared u 7 5 roomy = .ok (v, some record) ∧
      ∀ details, record.details = some details →
        (separator.val.intercalate (rendered fields)).length ≤ detailSize record.path - 1 →
        (details.bytes = separator.val.intercalate (rendered fields) ↔
          FailuresLast (.read 3 0x1000 5) (withoutMemory 2)) := by
  obtain ⟨t, begun⟩ : ∃ t, beginLogSystemCall cleared (logInit .unused) 7 .readFile .read
      (.fd (some (.literal "/b"))) 3 roomy = .ok (t, some true) := ⟨_, rfl⟩
  have called : .begin .readFile .read (.fd 3) 3 ∈ (Hook.read 3 0x1000 5).steps :=
    List.mem_cons_self
  exact ⟨t, begun, positions_kept_iff cleared ⟨[], loaded, [], rfl, rfl⟩ 7 called begun
    (by decide +kernel) 5 roomy⟩

/-- The same call without memory for the first text: the other two parameters move up. -/
theorem later_params_shift : ∃ t u fields v record details,
    beginLogSystemCall cleared (logInit .unused) 7 .readFile .read (.fd (some (.literal "/b"))) 3
      roomy = .ok (t, some true) ∧
    run (addStep cleared 7) t (adds (.read 3 0x1000 5) (withoutMemory 0)) = .ok (u, fields) ∧
    endLogSystemCall cleared u 7 5 roomy = .ok (v, some record) ∧
    fields = [none, some (unsignedIntText "buf" 0x1000), some (intText "count" 5)] ∧
    record.details = some details ∧
    details = .literal "buf: 0x00001000, count: 5, <NULL>" ∧
    (separator.val.intercalate (rendered fields)).length ≤ detailSize record.path - 1 ∧
    details.bytes ≠ separator.val.intercalate (rendered fields) :=
  ⟨_, _, _, _, _, _, rfl, rfl, rfl, rfl, rfl, by decide +kernel, by decide +kernel,
    by decide +kernel⟩

end SysMonitor.Guarantees.ParamPositions
