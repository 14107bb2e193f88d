import SysMonitor.Source.LogOwnership

/-!
# A slot of driver/log.c as a value

A slot read without addresses, and each function as a function of that value. Blocks that
keep their contents keep the value.
-/

namespace SysMonitor.Source.LogCache
open SysMonitor.Library SysMonitor.Library.BlockHeap SysMonitor.Source.LogText
open SysMonitor.Source.Hooks (OperationName)
open SysMonitor.Source.TraceDog (ApiName)

/-- An item in use. `end_log_system_call` sets the result in the header and
`log_item_to_storage` the last three fields. -/
structure ItemView where
  header : LogHeader
  path : Option CString
  params : Option (List (Option CString))
  paramCount : Nat
  currentParam : Nat
  deriving DecidableEq

def textAt (memory : Memory) (h : BlockHeap LogBlock) (p : Ptr) : Option CString :=
  match h.block p with
  | some (.chars chars) => some (chars.read (memory.beyond p))
  | _ => none

def stringsAt (h : BlockHeap LogBlock) (p : Ptr) : Option (List Ptr) :=
  match h.block p with
  | some (.strings entries) => some entries
  | _ => none

/-- The header as far as a begin sets it. -/
def begun (header : LogHeader) : LogHeader :=
  { header with result := 0, pathOffset := 0, detailsOffset := 0, contentSize := 0 }

def viewOf (memory : Memory) (h : BlockHeap LogBlock) (p : Ptr) : Option ItemView :=
  match h.block p with
  | some (.item it) => some ⟨begun it.header, textAt memory h it.path,
      (stringsAt h it.paramStrings).map (·.map (textAt memory h)), it.paramCount, it.currentParam⟩
  | _ => none

section Slots

/-- The task dies in `copy_string_from_user`: the copy fails, and then the message about it. -/
def copyDies (str : UserText) (room : Bool) : Bool :=
  room && (strncpyFromUser str).isNone && !str.prints

/-- The task dies in the copy of its path. -/
def pathDies (path : PathArgument) (room : Bool) : Bool :=
  match path with
  | .userPath (some str) => copyDies str room
  | _ => false

/-- The task dies in the copy of a parameter. -/
def paramDies (param : ParamArgument) (answers : Answers) : Bool :=
  match param with
  | .string _ str => copyDies str answers.userRoom
  | _ => false

/-- There is a copy of the path. -/
def pathCopied (path : PathArgument) (room : Bool) : Bool :=
  match path with
  | .fd path | .kernelPath path => room && path.isSome
  | .userPath (some str) => room && (strncpyFromUser str).isSome
  | _ => false

/-- The path that the item gets, when no string is cut. -/
def pathText (path : PathArgument) (room : Bool) : Option CString :=
  if room then
    match path with
    | .fd path | .kernelPath path => path
    | .userPath (some str) => str.string
    | _ => none
  else none

/-- The text that is added, when no string is cut. -/
def argumentText (param : ParamArgument) (answers : Answers) : CString :=
  match param with
  | .void => voidText
  | .int name value => intText name value
  | .unsignedInt name value => unsignedIntText name value
  | .string name str =>
    stringText name ((if answers.userRoom then str.string else none).getD nullText)

/-- What a reader finds in the copy of a user's string, which is the next block. -/
def copiedText (memory : Memory) (h : BlockHeap LogBlock) (str : UserText) (room : Bool) :
    Option CString :=
  if room then (strncpyFromUser str).map (·.read (memory.beyond h.fresh)) else none

/-- The path that the item gets. -/
def copiedPath (memory : Memory) (h : BlockHeap LogBlock) (path : PathArgument) (room : Bool) :
    Option CString :=
  match path with
  | .userPath (some str) => copiedText memory h str room
  | path => pathText path room

/-- The text that is added. -/
def addedText (memory : Memory) (h : BlockHeap LogBlock) (param : ParamArgument)
    (answers : Answers) : CString :=
  match param with
  | .string name str => stringText name ((copiedText memory h str answers.userRoom).getD nullText)
  | param => argumentText param answers

def beginSlot (view : Option ItemView) (pid : Int) (oper : OperationName) (api : ApiName)
    (path : Option CString) (paramCount : Nat) (answers : Answers) : Option ItemView × Bool :=
  if answers.ours ∨ (view = none ∧ answers.itemRoom = false) then (view, false)
  else
    let params :=
      if 0 < paramCount ∧ answers.stringsRoom then some (List.replicate (paramCount % 2 ^ 30) none)
      else none
    (some ⟨beginHeader pid oper api answers ⟨0, 0, 0, 0, 0, 0, 0, 0, 0, 0⟩, path, params,
        paramCount, 0⟩,
      0 < paramCount → answers.stringsRoom)

def addSlot (view : ItemView) (text : CString) (room : Bool) : ItemView :=
  if room then
    { view with
      params := view.params.map (·.set view.currentParam (some text))
      currentParam := view.currentParam + 1 }
  else view

/-- The details that go into the record. -/
def details (view : ItemView) (room : Bool) : Option CString :=
  let size := detailSize view.path
  if room ∧ size > 0 then
    some (match view.params with
      | some params => if 0 < view.paramCount then joinParams params size .empty else .empty
      | none => .empty)
  else none

def endSlot (view : ItemView) (ret : Word) (answers : Answers) : Record :=
  ⟨{ view.header with result := ret }, view.path, details view answers.detailsRoom⟩

end Slots

/-- What can be read of a user string is not cut. -/
def Short (str : UserText) : Prop := str.text.strlen < STRING_MAX_SIZE

/-- No user string of the path is cut. -/
def ShortPath : PathArgument → Prop
  | .userPath (some str) => Short str
  | _ => True

/-- The user string of a parameter is not cut. -/
def ShortParam : ParamArgument → Prop
  | .string _ str => Short str
  | _ => True

section Uncut

variable (memory : Memory) (h : BlockHeap LogBlock)

theorem copiedText_short {str : UserText} (short : Short str) (room : Bool) :
    copiedText memory h str room = if room then str.string else none := by
  cases str with
  | whole text =>
    rw [copiedText, strncpyFromUser, firstChars, if_pos (show text.strlen < _ from short)]
    rfl
  | broken text printed =>
    rw [copiedText, strncpyFromUser, if_pos (show text.strlen < _ from short)]
    rfl

theorem copiedPath_short {path : PathArgument} (short : ShortPath path) (room : Bool) :
    copiedPath memory h path room = pathText path room := by
  cases path with
  | userPath path =>
    cases path with
    | none => rfl
    | some str => exact copiedText_short memory h short room
  | fd path => rfl
  | kernelPath path => rfl
  | none => rfl

theorem addedText_short {param : ParamArgument} (short : ShortParam param) (answers : Answers) :
    addedText memory h param answers = argumentText param answers := by
  cases param with
  | string name str => rw [addedText, copiedText_short memory h short, argumentText]
  | void => rfl
  | int name value => rfl
  | unsignedInt name value => rfl

theorem copiedText_isSome (str : UserText) (room : Bool) :
    (copiedText memory h str room).isSome = (room && (strncpyFromUser str).isSome) := by
  cases room <;> simp [copiedText]

theorem copiedPath_isSome (path : PathArgument) (room : Bool) :
    (copiedPath memory h path room).isSome = pathCopied path room := by
  cases path with
  | userPath path =>
    cases path with
    | none => cases room <;> rfl
    | some str => exact copiedText_isSome memory h str room
  | fd path => cases room <;> rfl
  | kernelPath path => cases room <;> rfl
  | none => cases room <;> rfl

end Uncut

section Views

variable {memory : Memory} {h h' h₁ : BlockHeap LogBlock} {p q : Ptr} {it : LogItem}
  {entries : List Ptr}

@[simp] theorem textAt_null (memory : Memory) (h : BlockHeap LogBlock) :
    textAt memory h NULL = none := by
  rw [textAt, h.nullDead]

@[simp] theorem viewOf_null (memory : Memory) (h : BlockHeap LogBlock) :
    viewOf memory h NULL = none := by
  rw [viewOf, h.nullDead]

theorem textAt_kept (memory : Memory) (kept : p ≠ NULL → h'.block p = h.block p) :
    textAt memory h' p = textAt memory h p := by
  by_cases null : p = NULL
  · rw [null, textAt_null, textAt_null]
  · rw [textAt, kept null, textAt]

theorem readText_live (memory : Memory)
    (live : p ≠ NULL → ∃ chars, h.block p = some (.chars chars)) :
    readText memory h p = .ok (textAt memory h p) := by
  by_cases null : p = NULL
  · rw [null, readText, if_pos rfl, textAt_null]
    rfl
  · obtain ⟨chars, found⟩ := live null
    rw [readText, if_neg null, readChars, textAt, found]
    rfl

theorem ItemAt.view (shape : ItemAt h p it entries) : viewOf memory h p
    = some ⟨begun it.header, textAt memory h it.path,
        if it.paramStrings = NULL then none else some (entries.map (textAt memory h)),
        it.paramCount, it.currentParam⟩ := by
  rw [viewOf, shape.item]
  dsimp only
  by_cases null : it.paramStrings = NULL
  · rw [if_pos null, null, stringsAt, h.nullDead]
    rfl
  · rw [if_neg null, stringsAt, (shape.strings null).1]
    rfl

theorem SlotOk.view (memory : Memory) (sound : SlotOk h p)
    (kept : ∀ q ∈ blocksOf h p, h'.block q = h.block q) :
    viewOf memory h' p = viewOf memory h p := by
  rcases sound with rfl | ⟨it, entries, shape⟩
  · simp
  · rw [(shape.frame kept).view, shape.view]
    rw [shape.blocks] at kept
    have texts : entries.map (textAt memory h') = entries.map (textAt memory h) := by
      apply List.map_congr_left
      intro q inside
      exact textAt_kept memory fun nonnull => kept q (by simp [mem_real, inside, nonnull])
    have path : textAt memory h' it.path = textAt memory h it.path :=
      textAt_kept memory fun nonnull => kept _ (by simp [mem_real, nonnull])
    rw [texts, path]

/-- Different contents are at different addresses. -/
theorem block_ne {x y : LogBlock} (at_p : h.block p = some x) (at_q : h.block q = some y)
    (apart : x ≠ y) : p ≠ q := by
  rintro rfl
  exact apart (Option.some.inj (at_p.symm.trans at_q))

/-- No string is written. -/
def KeepsTexts (h h' : BlockHeap LogBlock) : Prop :=
  ∀ q chars, h.block q = some (.chars chars) → h'.block q = some (.chars chars)

theorem KeepsTexts.trans (first : KeepsTexts h h₁) (second : KeepsTexts h₁ h') :
    KeepsTexts h h' :=
  fun q chars found => second q chars (first q chars found)

theorem KeepsTexts.store {block : LogBlock} (here : h.block p = some block)
    (noText : ∀ chars, block ≠ .chars chars) (new : LogBlock) : KeepsTexts h (h.store p new) := by
  intro q chars found
  rw [store_other h (block_ne found here (noText chars).symm)]
  exact found

theorem KeepsTexts.live (kept : KeepsTexts h h')
    (live : p ≠ NULL → ∃ chars, h.block p = some (.chars chars)) :
    p ≠ NULL → ∃ chars, h'.block p = some (.chars chars) :=
  fun nonnull => (live nonnull).imp (kept p)

theorem KeepsTexts.text (memory : Memory) (kept : KeepsTexts h h')
    (live : p ≠ NULL → ∃ chars, h.block p = some (.chars chars)) :
    textAt memory h' p = textAt memory h p := by
  apply textAt_kept
  intro nonnull
  obtain ⟨chars, found⟩ := live nonnull
  rw [kept p chars found, found]

theorem KeepsTexts.texts (memory : Memory) (kept : KeepsTexts h h')
    (live : ∀ q ∈ entries, q ≠ NULL → ∃ chars, h.block q = some (.chars chars)) :
    entries.map (textAt memory h') = entries.map (textAt memory h) :=
  List.map_congr_left fun q inside => kept.text memory (live q inside)

end Views

end SysMonitor.Source.LogCache
