import SysMonitor.Guarantees.DetailsText
import SysMonitor.Guarantees.Pipeline

/-!
# The records of hooked calls

A hook is statements of driver/log.c around the original call. A call hands over one record if its
begin succeeds and none otherwise, and the record is what its own statements found: nothing is left
over from an earlier call in the same slot.
-/

namespace SysMonitor.Guarantees.HookRecords
open SysMonitor.Library SysMonitor.Library.BoundedJoin SysMonitor.Library.TerminatedStrings
open SysMonitor.Source SysMonitor.Source.LogCache SysMonitor.Source.LogText
open SysMonitor.Source.Hooks SysMonitor.Source.Monitor SysMonitor.Source.DetailsBuffer
open SysMonitor.Source.TraceDog (ApiName)
open SysMonitor.Guarantees.DetailsText (rendered)
open SysMonitor.Guarantees.SlotIsolation (Slotted Uncut adds begins loaded
  soloStep soloStep_call withString)
open SysMonitor.Guarantees.LogBlocks (cleared roomy)
open SysMonitor.Guarantees.Pipeline (tasks_run)

/-- A statement and what it finds. -/
abbrev Supplied := HookStep × Inputs

/-- What the statement finds does not kill its task, whether it is made or skipped. -/
def survives (s : Supplied) : Bool :=
  match s.1 with
  | .original _ | .end _ => true
  | .begin _ _ source _ => !pathDies (pathArgument s.2 source) s.2.answers.pathRoom
  | .add param => !paramDies (paramArgument s.2 param) s.2.answers
  | .print _ => s.2.str.prints

/-- A call that goes through all statements of its hook. -/
structure Call where
  hook : Hook
  supplied : List Supplied
  all : supplied.map (·.1) = hook.steps
  survived : ∀ s ∈ supplied, survives s = true

def acts (supplied : List Supplied) : List TaskAct := supplied.map fun s => .step s.2

def Call.acts (c : Call) : List TaskAct := .call c.hook :: HookRecords.acts c.supplied

/-- What the statements of a call say. `itemRoom`, `stringsRoom` and `detailsRoom` tell whether there
is memory for a new item, for its array and for the details. -/
structure Noted where
  ours : Bool
  itemRoom : Bool
  stringsRoom : Bool
  header : LogHeader
  path : Option CString
  paramCount : Nat
  texts : List CString
  result : Word
  detailsRoom : Bool

def Noted.nothing : Noted :=
  ⟨false, false, false, ⟨0, 0, 0, 0, 0, 0, 0, 0, 0, 0⟩, none, 0, [], 0, false⟩

/-- An add without memory for its text is left out. -/
def note (pid : Int) (n : Noted) (s : Supplied) : Noted :=
  match s.1 with
  | .original _ | .print _ => n
  | .begin oper api source paramCount =>
    { n with
      ours := s.2.answers.ours
      itemRoom := s.2.answers.itemRoom
      stringsRoom := s.2.answers.stringsRoom
      header := beginHeader pid oper api s.2.answers n.header
      path := pathText (pathArgument s.2 source) s.2.answers.pathRoom
      paramCount }
  | .add param =>
    if s.2.answers.holderRoom then
      { n with texts := n.texts ++ [argumentText (paramArgument s.2 param) s.2.answers] }
    else n
  | .end returned =>
    { n with result := returnedValue s.2 returned, detailsRoom := s.2.answers.detailsRoom }

def Call.noted (pid : Int) (c : Call) : Noted := c.supplied.foldl (note pid) .nothing

/-- The parameters of a record; the places that no add reached are NULL. -/
def places (paramCount : Nat) (texts : List CString) : List (Option CString) :=
  texts.map some ++ List.replicate (paramCount - texts.length) none

def Noted.params (n : Noted) : List (Option CString) := places n.paramCount n.texts

/-- The record of a call whose begin succeeds. -/
def Noted.record (n : Noted) : Record :=
  ⟨{ n.header with result := n.result }, n.path,
    if n.detailsRoom ∧ 0 < detailSize n.path then
      some (joinParams n.params (detailSize n.path) .empty)
    else none⟩

/-- The begin fails. `held`: there is an item in the slot. -/
def Noted.refused (held : Bool) (n : Noted) : Bool :=
  n.ours || (!held && !n.itemRoom) || !n.stringsRoom

/-- There is an item in the slot after the call. -/
def Noted.holds (held : Bool) (n : Noted) : Bool := held || (!n.ours && n.itemRoom)

/-- The records of a task's calls. -/
def callRecords (pid : Int) : Bool → List Call → List Record
  | _, [] => []
  | held, c :: calls =>
    let n := c.noted pid
    (if n.refused held then [] else [n.record.placed]) ++ callRecords pid (n.holds held) calls

section Shapes

/-- A statement that has nothing to do with the log. -/
def isOutside : HookStep → Bool
  | .original _ | .print _ => true
  | _ => false

/-- A statement between the begin and the end. -/
def isInside : HookStep → Bool
  | .begin _ _ _ _ | .end _ => false
  | _ => true

/-- The statements of a hook: those outside the log around a begin, as many adds as it announces,
and an end. -/
structure Shape (steps pre mid post : List HookStep) (oper : OperationName) (api : ApiName)
    (source : PathSource) (returned : Returned) : Prop where
  steps : steps = pre ++ .begin oper api source (adds mid) :: (mid ++ .end returned :: post)
  before : pre.all isOutside = true
  between : mid.all isInside = true
  behind : post.all isOutside = true
  some : 0 < adds mid
  few : mid.length.ble 7 = true

theorem hook_shape (hook : Hook) : ∃ pre mid post oper api source returned,
    Shape hook.steps pre mid post oper api source returned := by
  cases hook with
  | «open» filename flags mode =>
    exact ⟨[.original .open], [.add _, .add _, .add _], [], _, _, _, _,
      rfl, rfl, rfl, rfl, Nat.succ_pos _, rfl⟩
  | creat pathname mode =>
    exact ⟨[.original .create], [.add _, .add _], [], _, _, _, _,
      rfl, rfl, rfl, rfl, Nat.succ_pos _, rfl⟩
  | read fd buf count =>
    exact ⟨[], [.add _, .add _, .add _, .original .read], [], _, _, _, _,
      rfl, rfl, rfl, rfl, Nat.succ_pos _, rfl⟩
  | write fd buf count =>
    exact ⟨[], [.add _, .add _, .add _, .original .write], [], _, _, _, _,
      rfl, rfl, rfl, rfl, Nat.succ_pos _, rfl⟩
  | close fd =>
    exact ⟨[], [.add _, .original .close], [], _, _, _, _,
      rfl, rfl, rfl, rfl, Nat.succ_pos _, rfl⟩
  | ioctl fd cmd arg =>
    exact ⟨[], [.add _, .add _, .add _, .original .ioctl], [], _, _, _, _,
      rfl, rfl, rfl, rfl, Nat.succ_pos _, rfl⟩
  | clone cloneFlags newsp parentTidptr tlsVal childTidptr regs =>
    exact ⟨[], [.add _, .add _, .add _, .add _, .add _, .add _, .original .clone], [], _, _, _, _,
      rfl, rfl, rfl, rfl, Nat.succ_pos _, rfl⟩
  | vfork regs =>
    exact ⟨[], [.add _, .original .vfork], [], _, _, _, _,
      rfl, rfl, rfl, rfl, Nat.succ_pos _, rfl⟩
  | fork regs =>
    exact ⟨[], [.add _, .original .fork], [], _, _, _, _,
      rfl, rfl, rfl, rfl, Nat.succ_pos _, rfl⟩
  | exit errorCode =>
    exact ⟨[], [.add _], [.original .exit], _, _, _, _,
      rfl, rfl, rfl, rfl, Nat.succ_pos _, rfl⟩
  | exec filenamei argv envp regs =>
    exact ⟨[], [.add _, .add _, .add _, .add _], [.print _, .original .execve], _, _, _, _,
      rfl, rfl, rfl, rfl, Nat.succ_pos _, rfl⟩

/-- The statements of a call with what they find. -/
structure Parts (supplied pre mid post : List Supplied) (oper : OperationName) (api : ApiName)
    (source : PathSource) (returned : Returned) (atBegin atEnd : Inputs) : Prop where
  lives : ∀ s ∈ supplied, survives s = true
  supplied : supplied = pre ++ (.begin oper api source (adds (mid.map (·.1))), atBegin) ::
    (mid ++ (.end returned, atEnd) :: post)
  before : ∀ s ∈ pre, isOutside s.1 = true
  between : ∀ s ∈ mid, isInside s.1 = true
  behind : ∀ s ∈ post, isOutside s.1 = true
  some : 0 < adds (mid.map (·.1))
  few : adds (mid.map (·.1)) < 2 ^ 30

theorem all_supplied {good : HookStep → Bool} {left : List Supplied}
    (all : (left.map (·.1)).all good = true) : ∀ s ∈ left, good s.1 = true := fun _ inside =>
  List.all_eq_true.mp all _ (List.mem_map_of_mem inside)

theorem Call.parts (c : Call) : ∃ pre mid post oper api source returned atBegin atEnd,
    Parts c.supplied pre mid post oper api source returned atBegin atEnd := by
  obtain ⟨pre, mid, post, oper, api, source, returned, shape⟩ := hook_shape c.hook
  obtain ⟨first, left, split, rfl, fromBegin⟩ :=
    List.map_eq_append_iff.mp (c.all.trans shape.steps)
  obtain ⟨atBegin, left, rfl, begins, inside⟩ := List.map_eq_cons_iff.mp fromBegin
  obtain ⟨between, left, rfl, rfl, fromEnd⟩ := List.map_eq_append_iff.mp inside
  obtain ⟨atEnd, last, rfl, ends, rfl⟩ := List.map_eq_cons_iff.mp fromEnd
  have few := Nat.le_of_ble_eq_true shape.few
  have fewer : adds (between.map (·.1)) ≤ (between.map (·.1)).length := List.countP_le_length
  refine ⟨first, between, last, oper, api, source, returned, atBegin.2, atEnd.2, c.survived, ?_,
    all_supplied shape.before, all_supplied shape.between, all_supplied shape.behind, shape.some,
    by omega⟩
  rw [split, ← begins, ← ends]

end Shapes

section Alone

variable (pid : Int)

/-- The slot after these statements and the records that they hand over, when the task is alone. -/
def outcome (logOk : Bool) (view : Option ItemView) (left : List Supplied) :
    Option ItemView × List Record :=
  let reached := runSpec (soloStep pid) (⟨left.map (·.1), logOk⟩, view) (acts left)
  (reached.1.2, reached.2.filterMap passedOn)

variable {pid} {logOk : Bool} {view : Option ItemView} {left : List Supplied}

/-- After a statement that it survives the task is at the next one. -/
theorem soloStep_survives (pid : Int) (logOk : Bool) (view : Option ItemView) {s : Supplied}
    (lives : survives s = true) (rest : List HookStep) :
    ∃ ok, (soloStep pid (⟨s.1 :: rest, logOk⟩, view) (.step s.2)).1.1 = ⟨rest, ok⟩ := by
  obtain ⟨step, inputs⟩ := s
  cases step with
  | original api => exact ⟨logOk, rfl⟩
  | print address => exact ⟨logOk, if_pos lives⟩
  | begin oper api source paramCount =>
    have lives := Bool.not_eq_true' _ ▸ lives
    rw [soloStep_call rfl, slotStep, if_neg (by simp [lives])]
    exact ⟨_, rfl⟩
  | add param =>
    have lives := Bool.not_eq_true' _ ▸ lives
    cases logOk with
    | false => exact ⟨false, rfl⟩
    | true =>
      rw [soloStep_call rfl, slotStep, if_neg (by simp [lives])]
      exact ⟨true, rfl⟩
  | «end» returned => cases logOk <;> exact ⟨_, rfl⟩

/-- The first statement and those after it. -/
theorem outcome_cons {step : HookStep} {inputs : Inputs} {ok : Bool} {after : Option ItemView}
    {answer : Option LogAnswer}
    (stepped : soloStep pid (⟨step :: left.map (·.1), logOk⟩, view) (.step inputs)
      = ((⟨left.map (·.1), ok⟩, after), answer)) :
    outcome pid logOk view ((step, inputs) :: left)
      = ((outcome pid ok after left).1,
        (passedOn answer).toList ++ (outcome pid ok after left).2) := by
  have run : runSpec (soloStep pid) (⟨((step, inputs) :: left).map (·.1), logOk⟩, view)
        (acts ((step, inputs) :: left))
      = ((runSpec (soloStep pid) (⟨left.map (·.1), ok⟩, after) (acts left)).1,
        answer :: (runSpec (soloStep pid) (⟨left.map (·.1), ok⟩, after) (acts left)).2) := by
    rw [acts, List.map_cons, List.map_cons, runSpec, stepped]
    rfl
  rw [outcome, run, outcome]
  cases passed : passedOn answer <;> simp [passed]

theorem outcome_skip {s : Supplied} (outside : isOutside s.1 = true) (lives : survives s = true)
    (left : List Supplied) : outcome pid logOk view (s :: left) = outcome pid logOk view left := by
  obtain ⟨step, inputs⟩ := s
  cases step with
  | original api => rfl
  | print address =>
    have stepped : soloStep pid (⟨.print address :: left.map (·.1), logOk⟩, view) (.step inputs)
        = ((⟨left.map (·.1), logOk⟩, view), none) := by
      change ((if inputs.str.prints then _ else _, view), none) = _
      rw [if_pos (show inputs.str.prints = true from lives)]
    exact outcome_cons stepped
  | _ => cases outside

theorem outcome_outside {pre : List Supplied} (outside : ∀ s ∈ pre, isOutside s.1 = true)
    (lives : ∀ s ∈ pre, survives s = true) (left : List Supplied) :
    outcome pid logOk view (pre ++ left) = outcome pid logOk view left := by
  induction pre with
  | nil => rfl
  | cons s pre ih =>
    obtain ⟨first, others⟩ := List.forall_mem_cons.mp outside
    obtain ⟨alive, later⟩ := List.forall_mem_cons.mp lives
    rw [List.cons_append, outcome_skip first alive, ih others later]

/-- Without `log_ok` nothing is logged. -/
theorem outcome_refused {left : List Supplied} (single : begins (left.map (·.1)) = false)
    (lives : ∀ s ∈ left, survives s = true) : outcome pid false view left = (view, []) := by
  induction left with
  | nil => rfl
  | cons s left ih =>
    obtain ⟨alive, later⟩ := List.forall_mem_cons.mp lives
    obtain ⟨step, inputs⟩ := s
    cases step with
    | begin oper api source paramCount => cases single
    | original api => exact (outcome_skip rfl alive left).trans (ih single later)
    | print address => exact (outcome_skip rfl alive left).trans (ih single later)
    | add param => exact (outcome_cons rfl).trans (ih single later)
    | «end» returned => exact (outcome_cons rfl).trans (ih single later)

/-- An item with these parameters so far. -/
def filling (header : LogHeader) (path : Option CString) (paramCount : Nat) (texts : List CString) :
    ItemView :=
  ⟨header, path, some (places paramCount texts), paramCount, texts.length⟩

variable {header : LogHeader} {path : Option CString} {paramCount : Nat} {texts : List CString}

theorem addSlot_filling (room : texts.length < paramCount) (text : CString) :
    addSlot (filling header path paramCount texts) text true
      = filling header path paramCount (texts ++ [text]) := by
  have left : paramCount - texts.length = paramCount - (texts ++ [text]).length + 1 := by
    rw [List.length_append, List.length_singleton]
    omega
  have stored : (places paramCount texts).set texts.length (some text)
      = places paramCount (texts ++ [text]) := by
    rw [places, places, left, List.set_append_right _ _ (by simp)]
    simp [List.replicate_succ]
  rw [addSlot, if_pos rfl, filling, filling, Option.map_some, stored, List.length_append]
  rfl

/-- The text that an add puts into the record. -/
def addedBy (s : Supplied) : Option CString :=
  match s.1 with
  | .add param =>
    if s.2.answers.holderRoom then some (argumentText (paramArgument s.2 param) s.2.answers)
    else none
  | _ => none

theorem outcome_adds {mid : List Supplied} (between : ∀ s ∈ mid, isInside s.1 = true)
    (lives : ∀ s ∈ mid, survives s = true)
    (places : texts.length + adds (mid.map (·.1)) ≤ paramCount) (left : List Supplied) :
    outcome pid true (some (filling header path paramCount texts)) (mid ++ left)
      = outcome pid true (some (filling header path paramCount (texts ++ mid.filterMap addedBy)))
          left := by
  induction mid generalizing texts with
  | nil => simp
  | cons s mid ih =>
    obtain ⟨first, others⟩ := List.forall_mem_cons.mp between
    obtain ⟨alive, later⟩ := List.forall_mem_cons.mp lives
    obtain ⟨step, inputs⟩ := s
    cases step with
    | original api => exact (outcome_skip rfl alive _).trans (ih others later places)
    | print address => exact (outcome_skip rfl alive _).trans (ih others later places)
    | begin oper api source paramCount => cases first
    | «end» returned => cases first
    | add param =>
      have one : adds (((HookStep.add param, inputs) :: mid).map (·.1))
          = adds (mid.map (·.1)) + 1 := List.countP_cons_of_pos rfl
      rw [one] at places
      have step : outcome pid true (some (filling header path paramCount texts))
            ((.add param, inputs) :: (mid ++ left))
          = outcome pid true (some (addSlot (filling header path paramCount texts)
              (argumentText (paramArgument inputs param) inputs.answers) inputs.answers.holderRoom))
              (mid ++ left) := by
        have alive := Bool.not_eq_true' _ ▸ alive
        have stepped : soloStep pid
            (⟨.add param :: (mid ++ left).map (·.1), true⟩,
              some (filling header path paramCount texts))
            (.step inputs) = ((⟨(mid ++ left).map (·.1), true⟩, some (addSlot
              (filling header path paramCount texts) (argumentText (paramArgument inputs param)
                inputs.answers) inputs.answers.holderRoom)), some .added) := by
          rw [soloStep_call rfl, slotStep, if_neg (by simp [alive])]
          rfl
        exact outcome_cons stepped
      rw [List.cons_append, step]
      cases room : inputs.answers.holderRoom with
      | true =>
        have text : addedBy (.add param, inputs)
            = some (argumentText (paramArgument inputs param) inputs.answers) := if_pos room
        rw [addSlot_filling (by omega), ih others later, List.filterMap_cons_some text,
          List.append_assoc, List.singleton_append]
        rw [List.length_append, List.length_singleton]
        omega
      | false =>
        have text : addedBy (.add param, inputs) = none := if_neg (by simp [room])
        rw [List.filterMap_cons_none text]
        exact ih others later (by omega)

theorem outcome_end (view : ItemView) (returned : Returned) (inputs : Inputs) {post : List Supplied}
    (outside : ∀ s ∈ post, isOutside s.1 = true) (lives : ∀ s ∈ post, survives s = true) :
    outcome pid true (some view) ((.end returned, inputs) :: post)
      = (some view, [(endSlot view (returnedValue inputs returned) inputs.answers).placed]) := by
  have nothing : outcome pid true (some view) post = (some view, []) := by
    have dropped : outcome pid true (some view) (post ++ []) = outcome pid true (some view) [] :=
      outcome_outside outside lives []
    rw [List.append_nil] at dropped
    exact dropped
  refine (outcome_cons rfl).trans ?_
  rw [nothing]
  rfl

/-- A begin with parameters to come. -/
theorem beginSlot_filling (oper : OperationName) (api : ApiName) (path : Option CString)
    (some_there : 0 < paramCount) (few : paramCount < 2 ^ 30) {answers : Answers}
    (ours : answers.ours = false) (item : (!view.isSome && !answers.itemRoom) = false)
    (strings : answers.stringsRoom = true) :
    beginSlot view pid oper api path paramCount answers
      = (some (filling (beginHeader pid oper api answers ⟨0, 0, 0, 0, 0, 0, 0, 0, 0, 0⟩) path
          paramCount []), true) := by
  have goes : ¬ (answers.ours = true ∨ (view = none ∧ answers.itemRoom = false)) := by
    cases view <;> simp_all
  rw [beginSlot, if_neg goes, if_pos ⟨some_there, strings⟩, Nat.mod_eq_of_lt few]
  simp [filling, places, strings]

theorem beginSlot_refused (oper : OperationName) (api : ApiName) (path : Option CString)
    (some_there : 0 < paramCount) {answers : Answers}
    (refused : (answers.ours || (!view.isSome && !answers.itemRoom) || !answers.stringsRoom) = true) :
    (beginSlot view pid oper api path paramCount answers).2 = false ∧
      (beginSlot view pid oper api path paramCount answers).1.isSome
        = (view.isSome || (!answers.ours && answers.itemRoom)) := by
  by_cases early : answers.ours = true ∨ (view = none ∧ answers.itemRoom = false)
  · rw [beginSlot, if_pos early]
    refine ⟨rfl, ?_⟩
    rcases early with ours | ⟨rfl, full⟩
    · simp [ours]
    · simp [full]
  · have strings : answers.stringsRoom = false := by
      cases view <;> simp_all
    rw [beginSlot, if_neg early]
    refine ⟨by simp [some_there, strings], ?_⟩
    cases view <;> simp_all

/-- The record of an item whose parameters were added. -/
theorem endSlot_filling (some_there : 0 < paramCount) (result : Word) (answers : Answers) :
    endSlot (filling header path paramCount texts) result answers
      = ⟨{ header with result }, path,
          if answers.detailsRoom ∧ 0 < detailSize path then
            some (joinParams (places paramCount texts) (detailSize path) .empty)
          else none⟩ := by
  simp [endSlot, details, filling, some_there]

end Alone

section Notes

variable {pid : Int} {n : Noted}

theorem note_outside {pre : List Supplied} (originals : ∀ s ∈ pre, isOutside s.1 = true) :
    pre.foldl (note pid) n = n := by
  induction pre with
  | nil => rfl
  | cons s pre ih =>
    obtain ⟨first, others⟩ := List.forall_mem_cons.mp originals
    obtain ⟨step, inputs⟩ := s
    cases step with
    | original api => exact ih others
    | print address => exact ih others
    | _ => cases first

theorem note_adds {mid : List Supplied} (between : ∀ s ∈ mid, isInside s.1 = true) :
    mid.foldl (note pid) n = { n with texts := n.texts ++ mid.filterMap addedBy } := by
  induction mid generalizing n with
  | nil => simp
  | cons s mid ih =>
    obtain ⟨first, others⟩ := List.forall_mem_cons.mp between
    obtain ⟨step, inputs⟩ := s
    cases step with
    | original api => exact ih others
    | print address => exact ih others
    | begin oper api source paramCount => cases first
    | «end» returned => cases first
    | add param =>
      rw [List.foldl_cons, ih others]
      cases room : inputs.answers.holderRoom <;> simp [note, addedBy, room]

variable {supplied pre mid post : List Supplied} {oper : OperationName} {api : ApiName}
  {source : PathSource} {returned : Returned} {atBegin atEnd : Inputs}

theorem Parts.noted (parts : Parts supplied pre mid post oper api source returned atBegin atEnd) :
    supplied.foldl (note pid) .nothing
      = ⟨atBegin.answers.ours, atBegin.answers.itemRoom, atBegin.answers.stringsRoom,
          beginHeader pid oper api atBegin.answers ⟨0, 0, 0, 0, 0, 0, 0, 0, 0, 0⟩,
          pathText (pathArgument atBegin source) atBegin.answers.pathRoom,
          adds (mid.map (·.1)), mid.filterMap addedBy, returnedValue atEnd returned,
          atEnd.answers.detailsRoom⟩ := by
  rw [parts.supplied, List.foldl_append, note_outside parts.before, List.foldl_cons,
    List.foldl_append, note_adds parts.between, List.foldl_cons, note_outside parts.behind]
  rfl

/-- Nothing after the begin of a hook is another begin. -/
theorem Parts.single (parts : Parts supplied pre mid post oper api source returned atBegin atEnd) :
    begins ((mid ++ (.end returned, atEnd) :: post).map (·.1)) = false := by
  have inside : ∀ s ∈ mid ++ (.end returned, atEnd) :: post,
      s.1 = .end returned ∨ isInside s.1 = true ∨ isOutside s.1 = true := by
    intro s here
    rcases List.mem_append.mp here with between | here
    · exact .inr (.inl (parts.between s between))
    · rcases List.mem_cons.mp here with rfl | behind
      · exact .inl rfl
      · exact .inr (.inr (parts.behind s behind))
  apply List.any_eq_false.mpr
  intro step here
  obtain ⟨s, member, rfl⟩ := List.mem_map.mp here
  have kind := inside s member
  cases same : s.1 with
  | begin oper api source paramCount => simp [same, isInside, isOutside] at kind
  | _ => simp

end Notes

/-- A call hands over its record if its begin succeeds, whatever an earlier call left in the
slot. -/
theorem outcome_call (pid : Int) (view : Option ItemView) (c : Call) :
    (outcome pid false view c.supplied).1.isSome = (c.noted pid).holds view.isSome ∧
      (outcome pid false view c.supplied).2
        = if (c.noted pid).refused view.isSome then [] else [(c.noted pid).record.placed] := by
  obtain ⟨pre, mid, post, oper, api, source, returned, atBegin, atEnd, parts⟩ := c.parts
  have noted : c.noted pid = _ := parts.noted
  have lives := parts.lives
  rw [parts.supplied] at lives
  obtain ⟨before, lives⟩ := List.forall_mem_append.mp lives
  obtain ⟨begins, lives⟩ := List.forall_mem_cons.mp lives
  obtain ⟨between, behind⟩ := List.forall_mem_append.mp lives
  have begins := Bool.not_eq_true' _ ▸ begins
  have enters : ∀ left, outcome pid false view
        ((.begin oper api source (adds (mid.map (·.1))), atBegin) :: left)
      = outcome pid
          (beginSlot view pid oper api
            (pathText (pathArgument atBegin source) atBegin.answers.pathRoom)
            (adds (mid.map (·.1))) atBegin.answers).2
          (beginSlot view pid oper api
            (pathText (pathArgument atBegin source) atBegin.answers.pathRoom)
            (adds (mid.map (·.1))) atBegin.answers).1 left := by
    intro left
    have stepped : soloStep pid
        (⟨.begin oper api source (adds (mid.map (·.1))) :: left.map (·.1), false⟩, view)
        (.step atBegin)
        = _ := soloStep_call rfl
    rw [slotStep, if_neg (by simp [begins])] at stepped
    exact outcome_cons stepped
  have holding : (c.noted pid).holds view.isSome
      = (view.isSome || (!atBegin.answers.ours && atBegin.answers.itemRoom)) := by rw [noted]; rfl
  have refusing : (c.noted pid).refused view.isSome = (atBegin.answers.ours
      || (!view.isSome && !atBegin.answers.itemRoom) || !atBegin.answers.stringsRoom) := by
    rw [noted]; rfl
  rw [parts.supplied, outcome_outside parts.before before, enters, holding]
  by_cases refused : (c.noted pid).refused view.isSome = true
  · rw [if_pos refused]
    obtain ⟨fails, holds⟩ := beginSlot_refused oper api
      (pathText (pathArgument atBegin source) atBegin.answers.pathRoom) parts.some
      (refusing.symm.trans refused)
    rw [fails, outcome_refused parts.single lives]
    exact ⟨holds, rfl⟩
  · rw [if_neg refused]
    rw [refusing] at refused
    simp only [Bool.or_eq_true, not_or, Bool.not_eq_true, Bool.not_eq_false'] at refused
    obtain ⟨⟨ours, item⟩, strings⟩ := refused
    rw [beginSlot_filling oper api _ parts.some parts.few ours item strings,
      outcome_adds parts.between between (by simp),
      outcome_end _ _ _ parts.behind (List.forall_mem_cons.mp behind).2,
      endSlot_filling parts.some, noted]
    refine ⟨?_, rfl⟩
    cases view <;> simp_all

theorem run_acts (pid : Int) (logOk : Bool) (view : Option ItemView) {left : List Supplied}
    (lives : ∀ s ∈ left, survives s = true) :
    ∃ ended, (runSpec (soloStep pid) (⟨left.map (·.1), logOk⟩, view) (acts left)).1.1
      = ⟨[], ended⟩ := by
  induction left generalizing logOk view with
  | nil => exact ⟨logOk, rfl⟩
  | cons s left ih =>
    obtain ⟨alive, later⟩ := List.forall_mem_cons.mp lives
    obtain ⟨ok, next⟩ := soloStep_survives pid logOk view alive (left.map (·.1))
    obtain ⟨ended, reached⟩ := ih ok
      (soloStep pid (⟨s.1 :: left.map (·.1), logOk⟩, view) (.step s.2)).1.2 later
    rw [← next] at reached
    exact ⟨ended, reached⟩

/-- What a call leaves behind, and what it hands over. -/
theorem run_call (pid : Int) (logOk : Bool) (view : Option ItemView) (c : Call) :
    ∃ ended, (runSpec (soloStep pid) (⟨[], logOk⟩, view) c.acts).1
        = (⟨[], ended⟩, (outcome pid false view c.supplied).1) ∧
      (runSpec (soloStep pid) (⟨[], logOk⟩, view) c.acts).2.filterMap passedOn
        = (outcome pid false view c.supplied).2 := by
  obtain ⟨ended, reached⟩ := run_acts pid false view c.survived
  have enters : runSpec (soloStep pid) (⟨[], logOk⟩, view) c.acts
      = ((runSpec (soloStep pid) (⟨c.hook.steps, false⟩, view) (acts c.supplied)).1,
        none :: (runSpec (soloStep pid) (⟨c.hook.steps, false⟩, view) (acts c.supplied)).2) := rfl
  rw [enters, ← c.all]
  exact ⟨ended, Prod.ext reached rfl, rfl⟩

theorem run_calls (pid : Int) (logOk : Bool) (view : Option ItemView) (calls : List Call) :
    (runSpec (soloStep pid) (⟨[], logOk⟩, view) (calls.flatMap Call.acts)).2.filterMap passedOn
      = callRecords pid view.isSome calls := by
  induction calls generalizing logOk view with
  | nil => rfl
  | cons c calls ih =>
    obtain ⟨ended, reached, records⟩ := run_call pid logOk view c
    obtain ⟨holds, handed⟩ := outcome_call pid view c
    rw [List.flatMap_cons, runSpec_append, List.filterMap_append, records, handed, reached, ih, holds]
    rfl

/-- Where the parameters fit, the details are all of them. -/
theorem details_whole (n : Noted) (room : n.detailsRoom = true)
    (fits : (separator.val.intercalate (rendered n.params)).length < detailSize n.path) :
    ∃ details, n.record.details = some details ∧
      details.bytes = separator.val.intercalate (rendered n.params) := by
  have positive : 0 < detailSize n.path := by omega
  have small : detailSize n.path ≤ kernelSpace := by
    rw [detailSize_eq, kernelSpace]
    omega
  have none : CString.empty.strlen = 0 := rfl
  refine ⟨_, if_pos ⟨room, positive⟩, ?_⟩
  rw [joinParams_bytes _ positive (by rw [none]; omega)]
  change [] ++ fill separator.val (rendered n.params) _ = _
  rw [List.nil_append, fill_of_fits (by omega)]

/-- In every interleaving of tasks in which no user string is cut, a task that makes these calls hands
over the records that they describe. -/
theorem calls_hand_over (memory : Memory) {acts : List (Int × TaskAct)}
    (admitted : Admitted (taskStep memory) (fun s e => Slotted e ∧ Uncut (s.tasks e.1) e.2) loaded
      acts)
    (pid : Int) {calls : List Call} (own : actsOf pid acts = calls.flatMap Call.acts) :
    ∃ t answers, run (taskStep memory) loaded acts = .ok (t, answers) ∧
      ((answersOf pid acts answers).filterMap passedOn).map Record.placed
        = callRecords pid false calls ∧
      ∀ c ∈ calls, (c.noted pid).detailsRoom = true →
        (separator.val.intercalate (rendered (c.noted pid).params)).length
          < detailSize (c.noted pid).path →
        ∃ details, (c.noted pid).record.details = some details ∧
          details.bytes = separator.val.intercalate (rendered (c.noted pid).params) := by
  obtain ⟨t, answers, ran, alone⟩ := tasks_run memory admitted
  refine ⟨t, answers, ran, ?_, fun c _ => details_whole (c.noted pid)⟩
  rw [alone pid, own]
  exact run_calls pid false none calls

/-- An open that goes through. -/
def opened : Call where
  hook := .open 4096 0 0
  supplied := (Hook.steps (.open 4096 0 0)).map fun step =>
    (step, ⟨none, .whole (.literal "/a"), 3, roomy⟩)
  all := rfl
  survived := by decide

/-- Two opens by task 7, and meanwhile a read by task 8. -/
def openedTwice : List (Int × TaskAct) :=
  (8, .call (.read 3 4096 5)) ::
    ([opened, opened].flatMap Call.acts).flatMap fun act => [(7, act), (8, withString (.literal "/b"))]

theorem openedTwice_admitted :
    Admitted (taskStep cleared) (fun s e => Slotted e ∧ Uncut (s.tasks e.1) e.2) loaded
      openedTwice := by
  decide +kernel

theorem openedTwice_own : actsOf 7 openedTwice = [opened, opened].flatMap Call.acts := rfl

theorem opened_hand_over :
    ∃ t answers, run (taskStep cleared) loaded openedTwice = .ok (t, answers) ∧
      ((answersOf 7 openedTwice answers).filterMap passedOn).map Record.placed
        = callRecords 7 false [opened, opened] ∧
      ∃ details, (opened.noted 7).record.details = some details ∧
        details.bytes = separator.val.intercalate (rendered (opened.noted 7).params) := by
  obtain ⟨t, answers, ran, records, details⟩ :=
    calls_hand_over cleared openedTwice_admitted 7 openedTwice_own
  exact ⟨t, answers, ran, records, details opened List.mem_cons_self rfl (by decide +kernel)⟩

end SysMonitor.Guarantees.HookRecords
