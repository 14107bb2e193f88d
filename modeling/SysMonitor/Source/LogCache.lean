import SysMonitor.Library.BlockHeap
import SysMonitor.Source.Heap
import SysMonitor.Source.Hooks
import SysMonitor.Source.LogStorage
import SysMonitor.Source.LogText

/-!
# The log items of calls in progress: driver/log.c

A hooked call keeps its path and its parameters in a slot of `thread_log_cache` from
`begin_log_system_call_*` to the next begin in the same slot. The blocks live on a heap of
their own. `memory` is what the module does not control: what a new item contains and what
follows a block that holds no NUL.
-/

namespace SysMonitor.Source.LogCache
open SysMonitor.Library SysMonitor.Source.LogText
open SysMonitor.Source.Hooks (OperationName)
open SysMonitor.Source.TraceDog (ApiName)

/-- `HASH_SLOT_SIZE` -/
def HASH_SLOT_SIZE : Int := 65535

/-- `log_item`. A `param_count` that is not positive is 0 here: all of them act alike. -/
structure LogItem where
  header : LogHeader
  path : Ptr
  paramCount : Nat
  currentParam : Nat
  paramStrings : Ptr
  deriving DecidableEq

/-- `item->path = NULL; item->param.param_strings = NULL` -/
def LogItem.emptied (item : LogItem) : LogItem := { item with path := NULL, paramStrings := NULL }

/-- The contents of a `char` block; `strncpy_from_user` may leave it without a NUL. -/
structure Chars where
  text : CString
  terminated : Bool
  deriving DecidableEq

/-- A live block. The slots of the table are kept apart from it, and a buffer is only used
inside one call. -/
inductive LogBlock where
  | table
  | item (item : LogItem)
  | chars (chars : Chars)
  | strings (entries : List Ptr)
  | buffer
  deriving DecidableEq

structure Memory where
  garbage : Ptr → LogItem
  beyond : Ptr → CString

structure LogModule where
  heap : BlockHeap LogBlock
  threadLogCache : Ptr
  slots : Int → Ptr

section Accesses

variable (memory : Memory)

def kmalloc (h : BlockHeap LogBlock) (contents : LogBlock) (room : Bool) :
    Ptr × BlockHeap LogBlock :=
  if room then (h.fresh, h.allocate contents) else (NULL, h)

def kfree (h : BlockHeap LogBlock) (p : Ptr) : Except Fault (BlockHeap LogBlock) :=
  if p = NULL then .ok h
  else
    match h.block p with
    | none => .error .doubleFree
    | some _ => .ok (h.release p)

/-- Following a pointer to anything but a live block of its type. -/
def wild (p : Ptr) : Fault := if p = NULL then .nullPointer else .useAfterFree

def readItem (h : BlockHeap LogBlock) (p : Ptr) : Except Fault LogItem :=
  match h.block p with
  | some (.item item) => .ok item
  | _ => .error (wild p)

def writeItem (h : BlockHeap LogBlock) (p : Ptr) (change : LogItem → LogItem) :
    Except Fault (BlockHeap LogBlock) := do
  let item ← readItem h p
  return h.store p (.item (change item))

def readStrings (h : BlockHeap LogBlock) (p : Ptr) : Except Fault (List Ptr) :=
  match h.block p with
  | some (.strings entries) => .ok entries
  | _ => .error (wild p)

/-- `param_strings[i]` -/
def readEntry (h : BlockHeap LogBlock) (p : Ptr) (i : Nat) : Except Fault Ptr := do
  let entries ← readStrings h p
  match entries[i]? with
  | some entry => return entry
  | none => .error .outOfBounds

/-- The string in a block, and on to the next NUL when there is none in it. -/
def Chars.read (chars : Chars) (beyond : CString) : CString :=
  if chars.terminated then chars.text else chars.text.append beyond

def readChars (h : BlockHeap LogBlock) (p : Ptr) : Except Fault CString :=
  match h.block p with
  | some (.chars chars) => .ok (chars.read (memory.beyond p))
  | _ => .error (wild p)

/-- A string, or NULL. -/
def readText (h : BlockHeap LogBlock) (p : Ptr) : Except Fault (Option CString) := do
  if p = NULL then return none
  else
    let text ← readChars memory h p
    return some text

/-- `thread_log_cache[slot]` -/
def readSlot (s : LogModule) (slot : Int) : Except Fault Ptr :=
  if s.heap.block s.threadLogCache ≠ some .table then .error (wild s.threadLogCache)
  else if 0 ≤ slot ∧ slot < HASH_SLOT_SIZE then .ok (s.slots slot)
  else .error .outOfBounds

end Accesses

/-- `log_init` -/
def logInit (h : BlockHeap LogBlock) : LogModule :=
  ⟨h.allocate .table, h.fresh, fun _ => NULL⟩

/-- `get_slot_id` -/
def getSlotId (pid : Int) : Int := if pid < 0 ∨ pid ≥ HASH_SLOT_SIZE then 0 else pid

/-- The loop that frees the parameters. -/
def freeParams (h : BlockHeap LogBlock) (strings : Ptr) : List Nat → Except Fault (BlockHeap LogBlock)
  | [] => .ok h
  | i :: rest => do
    let entry ← readEntry h strings i
    let h ← kfree h entry
    freeParams h strings rest

/-- The blocks of an item, freed by `get_current_cache` and by `log_cleanup`. -/
def freeBlocks (h : BlockHeap LogBlock) (item : LogItem) : Except Fault (BlockHeap LogBlock) := do
  let h ← kfree h item.path
  if item.paramStrings = NULL then return h
  else
    let h ← freeParams h item.paramStrings (List.range item.paramCount)
    kfree h item.paramStrings

/-- The walk of `log_cleanup` over the slots. -/
def cleanupSlots (s : LogModule) : List Int → Except Fault (BlockHeap LogBlock)
  | [] => .ok s.heap
  | i :: rest => do
    let item ← readSlot s i
    if item = NULL then cleanupSlots s rest
    else
      let it ← readItem s.heap item
      let h ← freeBlocks s.heap it
      let h ← kfree h item
      cleanupSlots { s with heap := h } rest

/-- `log_cleanup` -/
def logCleanup (s : LogModule) : Except Fault (BlockHeap LogBlock) := do
  if s.threadLogCache = NULL then return s.heap
  else
    let h ← cleanupSlots s ((List.range HASH_SLOT_SIZE.toNat).map (Int.ofNat ·))
    kfree h s.threadLogCache

/-- What the kernel answers to one of the module's functions, as far as it asks. -/
structure Answers where
  /-- `is_our_process` -/
  ours : Bool
  pathRoom : Bool
  itemRoom : Bool
  stringsRoom : Bool
  userRoom : Bool
  holderRoom : Bool
  detailsRoom : Bool
  /-- The device is ready and there is room for the record. -/
  recordRoom : Bool
  sec : Word
  nsec : Word

section Functions

variable (memory : Memory)

/-- `get_current_cache` -/
def getCurrentCache (s : LogModule) (pid : Int) (getNew room : Bool) :
    Except Fault (LogModule × Ptr) := do
  let item ← readSlot s (getSlotId pid)
  if item = NULL then
    let (item, h) := kmalloc s.heap (.item (memory.garbage s.heap.fresh)) room
    if item = NULL then return ({ s with heap := h }, NULL)
    else
      let h ← writeItem h item LogItem.emptied
      return ({ s with heap := h, slots := Function.update s.slots (getSlotId pid) item }, item)
  else if getNew then
    let it ← readItem s.heap item
    let h ← freeBlocks s.heap it
    let h ← writeItem h item LogItem.emptied
    return ({ s with heap := h }, item)
  else return (s, item)

/-- `copy_string` -/
def copyString (h : BlockHeap LogBlock) (path : CString) (room : Bool) : Ptr × BlockHeap LogBlock :=
  kmalloc h (.chars ⟨path, true⟩) room

/-- The first `STRING_MAX_SIZE` bytes of a string: without a NUL when it has as many
characters or more. -/
def firstChars (str : CString) : Chars :=
  if str.strlen < STRING_MAX_SIZE then ⟨str, true⟩
  else ⟨.ofBytes (str.bytes.take STRING_MAX_SIZE), false⟩

/-- `strncpy_from_user` of `STRING_MAX_SIZE` bytes. It fails where the text breaks off before. -/
def strncpyFromUser : UserText → Option Chars
  | .whole text => some (firstChars text)
  | .broken text _ => if text.strlen < STRING_MAX_SIZE then none else some (firstChars text)

/-- `copy_string_from_user`. When the copy fails its message prints the string: the task dies
there with the holder, which is `none`, unless the string can be printed. -/
def copyStringFromUser (h : BlockHeap LogBlock) (str : UserText) (room : Bool) :
    Except Fault (Option Ptr × BlockHeap LogBlock) :=
  match strncpyFromUser str with
  | some chars =>
    let (holder, h) := kmalloc h (.chars chars) room
    .ok (some holder, h)
  | none => do
    let (holder, h) := kmalloc h .buffer room
    if holder ≠ NULL ∧ str.prints = false then return (none, h)
    else
      let h ← kfree h holder
      return (some NULL, h)

/-- The path that one of the four begin functions is given. -/
inductive PathArgument where
  /-- What `get_cache_by_fd` returned. -/
  | fd (path : Option CString)
  | kernelPath (path : Option CString)
  /-- The address is NULL, or else what is there. -/
  | userPath (path : Option UserText)
  | none

/-- `path_safe`; none when the task died in the copy. -/
def pathSafe (h : BlockHeap LogBlock) (path : PathArgument) (room : Bool) :
    Except Fault (Option Ptr × BlockHeap LogBlock) :=
  match path with
  | .fd (some path) | .kernelPath (some path) =>
    let (copy, h) := copyString h path room
    .ok (some copy, h)
  | .userPath (some path) => copyStringFromUser h path room
  | _ => .ok (some NULL, h)

/-- The fields of the header that a begin sets. -/
def beginHeader (pid : Int) (oper : OperationName) (api : ApiName) (answers : Answers)
    (header : LogHeader) : LogHeader :=
  { header with
    sec := answers.sec
    nsec := answers.nsec
    pid := BitVec.ofInt 32 pid
    tid := 0
    operation := BitVec.ofNat 32 oper.ctorIdx
    api := BitVec.ofNat 32 api.ctorIdx }

/-- The entries of an array whose size in bytes is computed in 32 bits. -/
def newStrings (paramCount : Nat) : List Ptr := List.replicate (paramCount % 2 ^ 30) NULL

/-- The part of `begin_log_system_call_internal` that has an item. -/
def fillItem (h : BlockHeap LogBlock) (item path : Ptr) (header : LogHeader → LogHeader)
    (paramCount : Nat) (room : Bool) : Except Fault (BlockHeap LogBlock × Bool) := do
  let h ← writeItem h item fun it => ⟨header it.header, path, paramCount, 0, NULL⟩
  if 0 < paramCount then
    let (strings, h) := kmalloc h (.strings (newStrings paramCount)) room
    let h ← writeItem h item fun it => { it with paramStrings := strings }
    return (h, strings ≠ NULL)
  else return (h, true)

/-- `begin_log_system_call_internal` -/
def beginLogSystemCallInternal (s : LogModule) (pid : Int) (oper : OperationName) (api : ApiName)
    (path : Ptr) (paramCount : Nat) (answers : Answers) : Except Fault (LogModule × Bool) := do
  if answers.ours then return (s, false)
  else
    let (s, item) ← getCurrentCache memory s pid true answers.itemRoom
    if item = NULL then return (s, false)
    else
      let (h, ok) ← fillItem s.heap item path (beginHeader pid oper api answers) paramCount
        answers.stringsRoom
      return ({ s with heap := h }, ok)

/-- The four `begin_log_system_call` functions; no answer when the task dies in one. -/
def beginLogSystemCall (s : LogModule) (pid : Int) (oper : OperationName) (api : ApiName)
    (path : PathArgument) (paramCount : Nat) (answers : Answers) :
    Except Fault (LogModule × Option Bool) := do
  let (path, h) ← pathSafe s.heap path answers.pathRoom
  let s := { s with heap := h }
  match path with
  | none => return (s, none)
  | some path =>
    let (s, ok) ← beginLogSystemCallInternal memory s pid oper api path paramCount answers
    return (s, some ok)

/-- `item->param.param_strings[item->param.current_param++] = holder` -/
def storeParam (h : BlockHeap LogBlock) (item holder : Ptr) :
    Except Fault (BlockHeap LogBlock) := do
  let it ← readItem h item
  let entries ← readStrings h it.paramStrings
  if it.currentParam < entries.length then
    let h := h.store it.paramStrings (.strings (entries.set it.currentParam holder))
    writeItem h item fun it => { it with currentParam := it.currentParam + 1 }
  else .error .outOfBounds

/-- The part that all `add_*_param` functions have: a string for the text, and its store. -/
def addText (h : BlockHeap LogBlock) (item : Ptr) (text : CString) (room : Bool) :
    Except Fault (BlockHeap LogBlock) := do
  let (holder, h) := kmalloc h (.chars ⟨text, true⟩) room
  if holder = NULL then return h
  else storeParam h item holder

/-- All `add_*_param` functions begin with a look for the item. The answer is whether the task
is still alive. -/
def withItem (s : LogModule) (pid : Int) (answers : Answers)
    (next : BlockHeap LogBlock → Ptr → Except Fault (BlockHeap LogBlock × Bool)) :
    Except Fault (LogModule × Bool) := do
  let (s, item) ← getCurrentCache memory s pid false answers.itemRoom
  if item = NULL then return (s, true)
  else
    let (h, alive) ← next s.heap item
    return ({ s with heap := h }, alive)

def addFormatted (s : LogModule) (pid : Int) (text : CString) (answers : Answers) :
    Except Fault (LogModule × Bool) :=
  withItem memory s pid answers fun h item => do
    let h ← addText h item text answers.holderRoom
    return (h, true)

def addVoidParam (s : LogModule) (pid : Int) (answers : Answers) :
    Except Fault (LogModule × Bool) :=
  addFormatted memory s pid voidText answers

def addIntParam (s : LogModule) (pid : Int) (name : String) (value : Word) (answers : Answers) :
    Except Fault (LogModule × Bool) :=
  addFormatted memory s pid (intText name value) answers

/-- Also `add_pointer_param`. -/
def addUnsignedIntParam (s : LogModule) (pid : Int) (name : String) (value : Word)
    (answers : Answers) : Except Fault (LogModule × Bool) :=
  addFormatted memory s pid (unsignedIntText name value) answers

/-- The part of `add_string_param` that has an item. -/
def addUserText (h : BlockHeap LogBlock) (item : Ptr) (name : String) (str : UserText)
    (answers : Answers) : Except Fault (BlockHeap LogBlock × Bool) := do
  let (copy, h) ← copyStringFromUser h str answers.userRoom
  match copy with
  | none => return (h, false)
  | some copy =>
    let text ← readText memory h copy
    let h ← addText h item (stringText name (text.getD nullText)) answers.holderRoom
    let h ← kfree h copy
    return (h, true)

def addStringParam (s : LogModule) (pid : Int) (name : String) (str : UserText)
    (answers : Answers) : Except Fault (LogModule × Bool) :=
  withItem memory s pid answers fun h item => addUserText memory h item name str answers

/-- The loop over the parameters. -/
def appendParams (h : BlockHeap LogBlock) (strings : Ptr) (paramCount : Nat) :
    List Nat → Int → CString → Except Fault CString
  | [], _, details => .ok details
  | i :: rest, left, details => do
    let entry ← readEntry h strings i
    let param ← readText memory h entry
    let left := left - paramSize param
    if left > 0 then
      let details := details.append (paramText param)
      if paramCount - 1 ≠ i ∧ left > 2 then
        appendParams h strings paramCount rest (left - 2) (details.append (.literal ", "))
      else appendParams h strings paramCount rest left details
    else return details

/-- What `log_item_to_storage` is given. -/
structure Record where
  header : LogHeader
  path : Option CString
  details : Option CString
  deriving DecidableEq

/-- A buffer that is freed again. -/
def borrow (h : BlockHeap LogBlock) (room : Bool) : Except Fault (BlockHeap LogBlock) :=
  let (buff, h) := kmalloc h .buffer room
  kfree h buff

/-- The text in `details`, a buffer of `size` bytes unless it is NULL. -/
def detailsText (h : BlockHeap LogBlock) (it : LogItem) (details : Ptr) (size : Int) :
    Except Fault (Option CString) :=
  if details = NULL then .ok none
  else if 0 < it.paramCount ∧ it.paramStrings ≠ NULL then
    some <$> appendParams memory h it.paramStrings it.paramCount (List.range it.paramCount) size .empty
  else .ok (some .empty)

/-- The part of `end_log_system_call` that has an item. -/
def endItem (h : BlockHeap LogBlock) (item : Ptr) (ret : Word) (answers : Answers) :
    Except Fault (BlockHeap LogBlock × Record) := do
  let it ← readItem h item
  let path ← readText memory h it.path
  let size := detailSize path
  let h ← writeItem h item fun it => { it with header := { it.header with result := ret } }
  let (details, h) := kmalloc h .buffer (answers.detailsRoom && decide (size > 0))
  let text ← detailsText memory h it details size
  -- `log_item_to_storage` has the record in a buffer of its own
  let h ← borrow h answers.recordRoom
  let h ← kfree h details
  return (h, ⟨{ it.header with result := ret }, path, text⟩)

/-- `end_log_system_call` -/
def endLogSystemCall (s : LogModule) (pid : Int) (ret : Word) (answers : Answers) :
    Except Fault (LogModule × Option Record) := do
  let (s, item) ← getCurrentCache memory s pid false answers.itemRoom
  if item = NULL then return (s, none)
  else
    let (h, record) ← endItem memory s.heap item ret answers
    return ({ s with heap := h }, some record)

end Functions

/-- A parameter, with the user's string where there is one. -/
inductive ParamArgument where
  | void
  | int (name : String) (value : Word)
  | unsignedInt (name : String) (value : Word)
  | string (name : String) (str : UserText)

inductive LogCall where
  | begin (oper : OperationName) (api : ApiName) (path : PathArgument) (paramCount : Nat)
  | add (param : ParamArgument)
  | «end» (ret : Word)

/-- What a call returns to its caller or passes on. -/
inductive LogAnswer where
  | began (ok : Bool)
  | added
  | ended (record : Option Record)
  /-- The call does not return: the task died in it. -/
  | died
  deriving DecidableEq

/-- `add_*_param` -/
def addParam (memory : Memory) (s : LogModule) (pid : Int) (param : ParamArgument)
    (answers : Answers) : Except Fault (LogModule × Bool) :=
  match param with
  | .void => addVoidParam memory s pid answers
  | .int name value => addIntParam memory s pid name value answers
  | .unsignedInt name value => addUnsignedIntParam memory s pid name value answers
  | .string name str => addStringParam memory s pid name str answers

/-- One call by the task with this pid. -/
def logStep (memory : Memory) (s : LogModule) (e : Int × LogCall × Answers) :
    Except Fault (LogModule × LogAnswer) :=
  match e with
  | (pid, .begin oper api path paramCount, answers) => do
    let (s, ok) ← beginLogSystemCall memory s pid oper api path paramCount answers
    return (s, ok.elim .died .began)
  | (pid, .add param, answers) => do
    let (s, alive) ← addParam memory s pid param answers
    return (s, if alive then .added else .died)
  | (pid, .end ret, answers) => do
    let (s, record) ← endLogSystemCall memory s pid ret answers
    return (s, .ended record)

end SysMonitor.Source.LogCache
