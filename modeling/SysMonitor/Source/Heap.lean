import Mathlib.Logic.Function.Basic
import SysMonitor.Source.Memory

/-!
# The kernel heap as the process table and the fd cache use it

A block is named by its address, and an address that has been freed is not handed out
again, so a dangling pointer never becomes valid by accident. `kind` is the set of live
blocks with what each was allocated as. A block that `kmalloc` returns holds whatever
was there before.
-/

namespace SysMonitor.Source

abbrev Ptr := Nat

/-- `NULL` -/
abbrev NULL : Ptr := 0

/-- `file_fd_record` -/
structure FileFdRecord where
  prev : Ptr
  next : Ptr
  timePrev : Ptr
  timeNext : Ptr
  fd : Word
  hotIndex : Int
  filename : Ptr
  deriving DecidableEq

/-- What a live block was allocated as. -/
inductive BlockKind where
  | processCache
  | processRecord
  | fileFdRecord
  | chars
  deriving DecidableEq, Repr

structure Heap where
  kind : Ptr → Option BlockKind
  fileFdRecord : Ptr → FileFdRecord
  chars : Ptr → CString
  fresh : Ptr
  nullDead : kind NULL = none
  freshDead : ∀ p, fresh ≤ p → kind p = none
  freshReal : NULL < fresh

namespace Heap

/-- The heap before anything was allocated. -/
def unused : Heap where
  kind _ := none
  fileFdRecord _ := ⟨NULL, NULL, NULL, NULL, 0, 0, NULL⟩
  chars _ := .empty
  fresh := 1
  nullDead := rfl
  freshDead _ _ := rfl
  freshReal := Nat.zero_lt_one

variable {h : Heap} {p q : Ptr} {k : BlockKind}

/-- A live block is not at NULL. -/
theorem live_ne_null (live : h.kind p = some k) : p ≠ NULL := by
  rintro rfl
  simp [h.nullDead] at live

theorem live_lt_fresh (live : h.kind p = some k) : p < h.fresh := by
  by_contra above
  simp [h.freshDead p (Nat.le_of_not_lt above)] at live

/-- Replace the contents of one record. -/
def modify (h : Heap) (p : Ptr) (change : FileFdRecord → FileFdRecord) : Heap :=
  { h with fileFdRecord := Function.update h.fileFdRecord p (change (h.fileFdRecord p)) }

@[simp] theorem modify_kind (h : Heap) (p : Ptr) (change : FileFdRecord → FileFdRecord) :
    (h.modify p change).kind = h.kind := rfl

@[simp] theorem modify_chars (h : Heap) (p : Ptr) (change : FileFdRecord → FileFdRecord) :
    (h.modify p change).chars = h.chars := rfl

@[simp] theorem modify_fresh (h : Heap) (p : Ptr) (change : FileFdRecord → FileFdRecord) :
    (h.modify p change).fresh = h.fresh := rfl

theorem modify_apply (h : Heap) (p q : Ptr) (change : FileFdRecord → FileFdRecord) :
    (h.modify p change).fileFdRecord q
      = if q = p then change (h.fileFdRecord p) else h.fileFdRecord q := by
  simp [modify, Function.update_apply]

/-- Replace the contents of one string. -/
def storeChars (h : Heap) (p : Ptr) (text : CString) : Heap :=
  { h with chars := Function.update h.chars p text }

/-- The next block, live from now on. -/
def allocate (h : Heap) (k : BlockKind) : Heap where
  kind := Function.update h.kind h.fresh (some k)
  fileFdRecord := h.fileFdRecord
  chars := h.chars
  fresh := h.fresh + 1
  nullDead := by
    rw [Function.update_of_ne (Nat.ne_of_lt h.freshReal), h.nullDead]
  freshDead p above := by
    have past : h.fresh < p := above
    rw [Function.update_of_ne (Nat.ne_of_gt past), h.freshDead p (Nat.le_of_lt past)]
  freshReal := Nat.succ_pos _

/-- The block at `p` is not live any more. -/
def release (h : Heap) (p : Ptr) : Heap where
  kind := Function.update h.kind p none
  fileFdRecord := h.fileFdRecord
  chars := h.chars
  fresh := h.fresh
  nullDead := by
    by_cases same : NULL = p
    · rw [← same, Function.update_self]
    · rw [Function.update_of_ne same, h.nullDead]
  freshDead q above := by
    by_cases same : q = p
    · rw [same, Function.update_self]
    · rw [Function.update_of_ne same, h.freshDead q above]
  freshReal := h.freshReal

end Heap

/-- `kmalloc`: a block of this kind, or NULL when there is no room for it. -/
def kmalloc (h : Heap) (k : BlockKind) (room : Bool) : Ptr × Heap :=
  if room then (h.fresh, h.allocate k) else (NULL, h)

/-- `kfree`, which ignores NULL. -/
def kfree (h : Heap) (p : Ptr) : Except Fault Heap :=
  if p = NULL then .ok h
  else
    match h.kind p with
    | none => .error .doubleFree
    | some _ => .ok (h.release p)

/-- Follow `p` to a live block of the kind its type names. -/
def follow (h : Heap) (k : BlockKind) (p : Ptr) : Except Fault Unit :=
  if p = NULL then .error .nullPointer
  else if h.kind p = some k then .ok ()
  else .error .useAfterFree

/-- Read the record at `p`. -/
def readRecord (h : Heap) (p : Ptr) : Except Fault FileFdRecord := do
  follow h .fileFdRecord p
  return h.fileFdRecord p

/-- Store into the record at `p`. -/
def writeRecord (h : Heap) (p : Ptr) (change : FileFdRecord → FileFdRecord) :
    Except Fault Heap := do
  follow h .fileFdRecord p
  return h.modify p change

/-- Read the string at `p`. -/
def readChars (h : Heap) (p : Ptr) : Except Fault CString := do
  follow h .chars p
  return h.chars p

/-- `strcpy` to `p`. -/
def writeChars (h : Heap) (p : Ptr) (text : CString) : Except Fault Heap := do
  follow h .chars p
  return h.storeChars p text

/-- A string argument `%s` of a log message; the kernel's formatter prints NULL as
"(null)". -/
def printChars (h : Heap) (p : Ptr) : Except Fault Unit :=
  if p = NULL then .ok () else follow h .chars p

@[simp] theorem ok_bind {α β : Type} (a : α) (f : α → Except Fault β) :
    (Except.ok a >>= f) = f a := rfl

@[simp] theorem error_bind {α β : Type} (e : Fault) (f : α → Except Fault β) :
    ((Except.error e : Except Fault α) >>= f) = .error e := rfl

section Live

variable {h : Heap} {p : Ptr} {k : BlockKind}

theorem follow_live (live : h.kind p = some k) : follow h k p = .ok () := by
  simp [follow, Heap.live_ne_null live, live]

theorem readRecord_live (live : h.kind p = some .fileFdRecord) :
    readRecord h p = .ok (h.fileFdRecord p) := by
  rw [readRecord, follow_live live]; rfl

theorem writeRecord_live (live : h.kind p = some .fileFdRecord)
    (change : FileFdRecord → FileFdRecord) :
    writeRecord h p change = .ok (h.modify p change) := by
  rw [writeRecord, follow_live live]; rfl

theorem readChars_live (live : h.kind p = some .chars) : readChars h p = .ok (h.chars p) := by
  rw [readChars, follow_live live]; rfl

theorem writeChars_live (live : h.kind p = some .chars) (text : CString) :
    writeChars h p text = .ok (h.storeChars p text) := by
  rw [writeChars, follow_live live]; rfl

theorem kfree_live (live : h.kind p = some k) : kfree h p = .ok (h.release p) := by
  simp [kfree, Heap.live_ne_null live, live]

end Live

end SysMonitor.Source
