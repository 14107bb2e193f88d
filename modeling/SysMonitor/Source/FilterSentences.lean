import SysMonitor.Library.Backtracking
import SysMonitor.Source.Filter

/-!
# Filter sentences: `AddFilter` of native/jni/filter.cpp

A sentence such as `path begins with /data then include` is split by a regular expression,
and its words are looked up one by one. The rules are a linked list with a pointer to its
last item; here they are a list, which a new rule is put at the end of.
-/

namespace SysMonitor.Source.FilterSentences
open SysMonitor.Library.Backtracking
open SysMonitor.Source.Filter SysMonitor.Source.ReaderInterface SysMonitor.Source.ReaderStrings
open SysMonitor.Source.Reader (stringAt)

/-- What `$` accepts. Perl lets a newline follow at the very end of the text; the library that
the reader is built with does not. -/
inductive Dollar where
  | textEnd
  | finalNewline
  deriving DecidableEq

def Dollar.holds : Dollar → List Byte → Nat → Bool
  | .textEnd, text, i => i = text.length
  | .finalNewline, text, i => i = text.length ∨ (i + 1 = text.length ∧ text[i]? = some 10)

/-- `\s` -/
def space : Pattern Byte := .one isSpace

def word (text : String) : Pattern Byte := .word (literal text)

/-- A word that may end in `s`. -/
def verb (stem : String) : Pattern Byte := .seq (word stem) (.optional (word "s"))

def columnWords : List String :=
  ["time", "pid", "process", "operation", "api", "path", "result", "details"]

def actionWords : List String := ["include", "exclude"]

/-- The second group, in the order in which the alternatives are tried. -/
def operators : Pattern Byte :=
  .anyOf [.seq (verb "begin") (.seq space (word "with")),
    .seq (verb "start") (.seq space (word "with")),
    .seq (verb "end") (.seq space (word "with")),
    verb "contain",
    verb "exclude",
    .seq (word "is") (.seq space (word "not")),
    word "is"]

/-- The regular expression of `AddFilter`. -/
def sentence (dollar : Dollar) : Pattern Byte :=
  .seq (.assert fun _ i => i = 0) <|
  .seq (.group 1 (.anyOf ((columnWords.map literal).map .word))) <|
  .seq space <|
  .seq (.group 2 operators) <|
  .seq space <|
  .seq (.group 3 (.many fun c => c ≠ 10)) <|
  .seq space <|
  .seq (word "then") <|
  .seq space <|
  .seq (.group 4 (.anyOf ((actionWords.map literal).map .word))) <|
  .assert dollar.holds

/-- `GetColumnFromString` -/
def getColumnFromString (col : List Byte) : ColumnItem :=
  if strcasecmp col (literal "time") = 0 then .columnTime
  else if strcasecmp col (literal "pid") = 0 then .columnPid
  else if strcasecmp col (literal "process") = 0 then .columnProcess
  else if strcasecmp col (literal "operation") = 0 then .columnOperation
  else if strcasecmp col (literal "api") = 0 then .columnApi
  else if strcasecmp col (literal "path") = 0 then .columnPath
  else if strcasecmp col (literal "result") = 0 then .columnResult
  else if strcasecmp col (literal "details") = 0 then .columnDetails
  else .columnNone

/-- `GetOperateFromString` -/
def getOperateFromString (op : List Byte) : OperateType :=
  if strcasecmp op (literal "is") = 0 then .opIs
  else if strcasecmp op (literal "is not") = 0 then .opIsNot
  else if strcasecmp op (literal "contain") = 0 ∨ strcasecmp op (literal "contains") = 0 then
    .opContains
  else if strcasecmp op (literal "exclude") = 0 ∨ strcasecmp op (literal "excludes") = 0 then
    .opExcludes
  else if strcasecmp op (literal "begin with") = 0 ∨ strcasecmp op (literal "begins with") = 0 ∨
      strcasecmp op (literal "start with") = 0 ∨ strcasecmp op (literal "starts with") = 0 then
    .opBeginsWith
  else if strcasecmp op (literal "end with") = 0 ∨ strcasecmp op (literal "ends with") = 0 then
    .opEndsWith
  else .opNone

/-- `GetActionFromString` -/
def getActionFromString (action : List Byte) : ActionItem :=
  if strcasecmp action (literal "include") = 0 then .actionInclude
  else if strcasecmp action (literal "exclude") = 0 then .actionExclude
  else .actionNone

/-- Which of its three calls of `malloc` succeed. -/
structure Memory where
  tmp : Bool
  item : Bool
  value : Bool
  deriving DecidableEq

def available : Memory := ⟨true, true, true⟩

/-- The pointer to a group in the copy of the sentence, and the copy with the group ended by
a NUL. -/
def endGroup (tmp : List Byte) (result : Captures) (number : Nat) :
    Except Fault (List Byte × Nat) :=
  match result.at number with
  | some (start, stop) => do
    let tmp ← store tmp stop 0
    return (tmp, start)
  | none => throw .outOfBounds

/-- `AddFilter`: the rules afterwards, and the value returned. -/
def addFilter (dollar : Dollar) (rules : List FilterItem) (filter : UserString) (memory : Memory) :
    Except Fault (List FilterItem × Bool) := do
  match search (sentence dollar) filter.bytes with
  | none => return (rules, false)
  | some result =>
    if !memory.tmp then return (rules, false)
    let tmp := filter.bytes ++ [0]
    let (tmp, column) ← endGroup tmp result 1
    let (tmp, op) ← endGroup tmp result 2
    let (tmp, value) ← endGroup tmp result 3
    let (tmp, action) ← endGroup tmp result 4
    if !memory.item then return (rules, false)
    let column ← stringAt (tmp.drop column)
    let op ← stringAt (tmp.drop op)
    let action ← stringAt (tmp.drop action)
    let value ← stringAt (tmp.drop value)
    let valueLength := toInt value.length
    if !memory.value then return (rules, false)
    -- the block for the copy has `valueLength + 1` bytes
    if valueLength < value.length then throw .outOfBounds
    let item : FilterItem :=
      ⟨getColumnFromString column, getOperateFromString op, value, valueLength,
        getActionFromString action⟩
    return (rules ++ [item], true)

/-- The rule lists that calls of `AddFilter` build, with or without memory. -/
inductive Built (dollar : Dollar) : List FilterItem → Prop where
  | empty : Built dollar []
  | add {rules rules' : List FilterItem} {accepted : Bool} (filter : UserString) (memory : Memory)
      (before : Built dollar rules)
      (added : addFilter dollar rules filter memory = .ok (rules', accepted)) : Built dollar rules'

end SysMonitor.Source.FilterSentences
