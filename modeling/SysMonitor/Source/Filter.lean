import SysMonitor.Source.LogText
import SysMonitor.Source.ReaderInterface

/-!
# Filtering a record by the rules: native/jni/filter.cpp

A rule looks at one column of a record. The columns that are not in the record itself are
looked up anew by every rule, so each rule meets the world as it is at that moment.
-/

namespace SysMonitor.Source.Filter
open SysMonitor.Source.ReaderInterface SysMonitor.Source.ReaderStrings

/-- `column_item` -/
inductive ColumnItem where
  | columnNone
  | columnTime
  | columnPid
  | columnProcess
  | columnOperation
  | columnApi
  | columnPath
  | columnResult
  | columnDetails
  deriving DecidableEq

/-- `operate_type` -/
inductive OperateType where
  | opNone
  | opIs
  | opIsNot
  | opContains
  | opBeginsWith
  | opEndsWith
  | opExcludes
  deriving DecidableEq

/-- `action_item` -/
inductive ActionItem where
  | actionNone
  | actionInclude
  | actionExclude
  deriving DecidableEq

/-- `action_result` -/
inductive ActionResult where
  | resultNone
  | resultInclude
  | resultExclude
  deriving DecidableEq

/-- `filter_item`, without the link to the next. -/
structure FilterItem where
  column : ColumnItem
  operate : OperateType
  value : List Byte
  valueLength : Int
  action : ActionItem
  deriving DecidableEq

/-- An `int` passed as a `size_t`. -/
def sizeT (n : Int) : Nat := (BitVec.ofInt 32 n).toNat

/-- What the `switch` of `FilterValueWithFilter` leaves in `matched`. -/
def matched (value : List Byte) (filter : FilterItem) : Bool :=
  match filter.operate with
  | .opIs => strcasecmp value filter.value = 0
  | .opIsNot => strcasecmp value filter.value ≠ 0
  | .opExcludes => strstr value filter.value = none
  | .opContains => strstr value filter.value ≠ none
  | .opBeginsWith => strncasecmp (sizeT filter.valueLength) value filter.value = 0
  | .opEndsWith =>
    let len := toInt value.length
    len ≥ filter.valueLength ∧
      strncasecmp (sizeT filter.valueLength) (value.drop (len - filter.valueLength).toNat)
        filter.value = 0
  | .opNone => false

/-- What a rule answers when it matches. -/
def actionResult (action : ActionItem) : ActionResult :=
  if action = .actionInclude then .resultInclude else .resultExclude

/-- `FilterValueWithFilter` -/
def filterValueWithFilter (value : List Byte) (filter : FilterItem) : ActionResult :=
  if filter.action = .actionInclude then
    if matched value filter then .resultInclude else .resultNone
  else
    if matched value filter then .resultExclude else .resultNone

/-- What a rule meets besides the record: the time zone, the files that tell the names of
processes, and what its local buffer holds. -/
structure World where
  localtime : Word → Tm
  surroundings : Surroundings
  buffer : List Byte
  bufferSize : buffer.length = 256

/-- The epoch at every time, and no processes. -/
def World.empty : World := ⟨fun _ => ⟨70, 0, 1, 0, 0, 0⟩, noProcesses, cleared 256, cleared_length 256⟩

/-- A record with its two strings, as `ReadContent` leaves them. -/
structure LogRecord where
  header : LogHeader
  path : List Byte
  details : List Byte
  pathNulFree : 0 ∉ path
  detailsNulFree : 0 ∉ details

theorem noDetails_nulFree : (0 : Byte) ∉ ([] : List Byte) := List.not_mem_nil

/-- `"0x%08x"` -/
def resultText (result : Word) : List Byte := literal ("0x" ++ LogText.hex result)

/-- `FilterOneLog` -/
def filterOneLog (w : World) (filter : FilterItem) (r : LogRecord) : Except Fault ActionResult :=
  match filter.column with
  | .columnTime =>
    .ok (filterValueWithFilter (getTime w.localtime r.header.sec r.header.nsec 256) filter)
  | .columnPid =>
    .ok (filterValueWithFilter (snprintf 256 (decimal r.header.pid.toInt)) filter)
  | .columnProcess => do
    let buffer ← processName w.surroundings r.header.pid w.buffer 256
    return filterValueWithFilter buffer filter
  | .columnOperation => .ok (filterValueWithFilter (operationToString r.header.operation) filter)
  | .columnApi => .ok (filterValueWithFilter (apiToString r.header.api) filter)
  | .columnResult =>
    .ok (filterValueWithFilter (snprintf 256 (resultText r.header.result)) filter)
  | .columnPath => .ok (filterValueWithFilter r.path filter)
  | .columnDetails => .ok (filterValueWithFilter r.details filter)
  | .columnNone => .ok .resultNone

/-- The loop of `FilterLog` from a rule on, with `result` as it stands. The worlds are those
that this rule and the ones behind it meet. -/
def filterFrom (worlds : Nat → World) (r : LogRecord) :
    List FilterItem → ActionResult → Except Fault ActionResult
  | [], result => .ok result
  | p :: next, _ => do
    let result ← filterOneLog (worlds 0) p r
    if p.action = .actionInclude ∧ result = .resultInclude then return result
    if p.action = .actionExclude then
      if result = .resultExclude then return result
      else filterFrom (fun k => worlds (k + 1)) r next .resultInclude
    else filterFrom (fun k => worlds (k + 1)) r next result

/-- `FilterLog` -/
def filterLog (worlds : Nat → World) (rules : List FilterItem) (r : LogRecord) :
    Except Fault ActionResult :=
  filterFrom worlds r rules .resultInclude

/-- The rule answers with its action. -/
def RuleMatches (w : World) (p : FilterItem) (r : LogRecord) : Prop :=
  ∃ result, filterOneLog w p r = .ok result ∧ result ≠ .resultNone

/-- The rule answers that it does not match. -/
def RuleMisses (w : World) (p : FilterItem) (r : LogRecord) : Prop :=
  filterOneLog w p r = .ok .resultNone

theorem filterValueWithFilter_eq (value : List Byte) (filter : FilterItem) :
    filterValueWithFilter value filter
      = if matched value filter then actionResult filter.action else .resultNone := by
  by_cases isInclude : filter.action = .actionInclude
  · rw [filterValueWithFilter, if_pos isInclude, actionResult, if_pos isInclude]
  · rw [filterValueWithFilter, if_neg isInclude, actionResult, if_neg isInclude]

theorem actionResult_ne_none (action : ActionItem) : actionResult action ≠ .resultNone := by
  cases action <;> decide

theorem filterValueWithFilter_cases (value : List Byte) (filter : FilterItem) :
    filterValueWithFilter value filter = actionResult filter.action ∨
      filterValueWithFilter value filter = .resultNone := by
  rw [filterValueWithFilter_eq]
  split
  · exact .inl rfl
  · exact .inr rfl

/-- A rule that comes to an answer gives its action or nothing. -/
theorem filterOneLog_cases {w : World} {p : FilterItem} {r : LogRecord} {result : ActionResult}
    (answered : filterOneLog w p r = .ok result) :
    result = actionResult p.action ∨ result = .resultNone := by
  rw [filterOneLog] at answered
  cases column : p.column <;> simp only [column, Except.ok.injEq] at answered
  case columnNone => exact .inr answered.symm
  case columnProcess =>
    cases named : processName w.surroundings r.header.pid w.buffer 256 with
    | error e => rw [named] at answered; cases answered
    | ok buffer =>
      rw [named] at answered
      rw [← Except.ok.inj answered]
      exact filterValueWithFilter_cases buffer p
  all_goals
    rw [← answered]
    exact filterValueWithFilter_cases _ p

theorem ruleMatches_iff {w : World} {p : FilterItem} {r : LogRecord} :
    RuleMatches w p r ↔ filterOneLog w p r = .ok (actionResult p.action) := by
  constructor
  · rintro ⟨result, answered, nonzero⟩
    rw [answered, (filterOneLog_cases answered).resolve_right nonzero]
  · exact fun answered => ⟨_, answered, actionResult_ne_none p.action⟩

section Loop

variable {worlds : Nat → World} {p : FilterItem} {next : List FilterItem} {r : LogRecord}
  {result : ActionResult}

/-- A rule that does not miss ends the loop with its own answer. -/
theorem filterFrom_answer (acts : p.action ≠ .actionNone)
    (answered : ¬ RuleMisses (worlds 0) p r) :
    filterFrom worlds r (p :: next) result = filterOneLog (worlds 0) p r := by
  rw [filterFrom]
  cases answer : filterOneLog (worlds 0) p r with
  | error e => rfl
  | ok verdict =>
    have found : verdict = actionResult p.action := by
      apply (filterOneLog_cases answer).resolve_right
      rintro rfl
      exact answered answer
    subst found
    cases action : p.action with
    | actionNone => exact absurd action acts
    | actionInclude => rfl
    | actionExclude => rfl

/-- A rule that misses leaves the verdict that the record is shown if it is an exclude rule, and
that nothing was found if it is an include rule. -/
theorem filterFrom_miss (missed : RuleMisses (worlds 0) p r) :
    filterFrom worlds r (p :: next) result
      = filterFrom (fun k => worlds (k + 1)) r next
          (if p.action = .actionExclude then .resultInclude else .resultNone) := by
  have answer : filterOneLog (worlds 0) p r = .ok .resultNone := missed
  rw [filterFrom, answer]
  cases action : p.action with
  | actionNone => rfl
  | actionInclude => rfl
  | actionExclude => rfl

end Loop

end SysMonitor.Source.Filter
