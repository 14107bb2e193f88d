import SysMonitor.Source.LogCache

/-!
# Who owns the blocks of driver/log.c

Each slot owns its item, the path copy, the array and the strings in it; the table is a
block of its own. Every function changes the blocks of one slot only.
-/

namespace SysMonitor.Source.LogCache
open SysMonitor.Library SysMonitor.Library.BlockHeap SysMonitor.Source.LogText

/-- The pointers that are not NULL. -/
def real (pointers : List Ptr) : List Ptr := pointers.filter (· ≠ NULL)

@[simp] theorem real_nil : real [] = [] := rfl
@[simp] theorem real_null : real [NULL] = [] := rfl

theorem real_one {p : Ptr} (nonnull : p ≠ NULL) : real [p] = [p] := by simp [real, nonnull]

theorem real_cons (p : Ptr) (rest : List Ptr) : real (p :: rest) = real [p] ++ real rest :=
  List.filter_append (p := (· ≠ NULL)) [p] rest

theorem real_append (first rest : List Ptr) : real (first ++ rest) = real first ++ real rest :=
  List.filter_append ..

theorem real_nulls {pointers : List Ptr} (nulls : ∀ q ∈ pointers, q = NULL) :
    real pointers = [] := by
  rw [real, List.filter_eq_nil_iff]
  intro q inside
  simp [nulls q inside]

theorem mem_real {p : Ptr} {pointers : List Ptr} : p ∈ real pointers ↔ p ∈ pointers ∧ p ≠ NULL := by
  simp [real]

/-- The blocks of a parameter array. -/
def stringsBlocks (h : BlockHeap LogBlock) (p : Ptr) : List Ptr :=
  match h.block p with
  | some (.strings entries) => real entries ++ [p]
  | _ => []

/-- The blocks that a slot with this item references. -/
def blocksOf (h : BlockHeap LogBlock) (p : Ptr) : List Ptr :=
  match h.block p with
  | some (.item item) => real [item.path] ++ (stringsBlocks h item.paramStrings ++ [p])
  | _ => []

/-- An item with everything it points to. -/
structure ItemAt (h : BlockHeap LogBlock) (p : Ptr) (it : LogItem) (entries : List Ptr) :
    Prop where
  item : h.block p = some (.item it)
  path : it.path ≠ NULL → ∃ chars, h.block it.path = some (.chars chars)
  strings : it.paramStrings ≠ NULL → h.block it.paramStrings = some (.strings entries) ∧
    entries.length = it.paramCount
  noStrings : it.paramStrings = NULL → entries = []
  /-- The entries from `current_param` on are still NULL. -/
  unset : ∀ q ∈ entries.drop it.currentParam, q = NULL
  texts : ∀ q ∈ entries, q ≠ NULL → ∃ chars, h.block q = some (.chars chars)

/-- What a slot may hold. -/
def SlotOk (h : BlockHeap LogBlock) (p : Ptr) : Prop := p = NULL ∨ ∃ it entries, ItemAt h p it entries

section Shapes

variable {h h' : BlockHeap LogBlock} {p : Ptr} {it : LogItem} {entries : List Ptr}

@[simp] theorem blocksOf_null (h : BlockHeap LogBlock) : blocksOf h NULL = [] := by
  rw [blocksOf, h.nullDead]

@[simp] theorem stringsBlocks_null (h : BlockHeap LogBlock) : stringsBlocks h NULL = [] := by
  rw [stringsBlocks, h.nullDead]

theorem ItemAt.stringsBlocks (shape : ItemAt h p it entries) :
    stringsBlocks h it.paramStrings = real entries ++ real [it.paramStrings] := by
  by_cases null : it.paramStrings = NULL
  · rw [shape.noStrings null, null]
    simp
  · rw [LogCache.stringsBlocks, (shape.strings null).1, real_one null]

theorem ItemAt.blocks (shape : ItemAt h p it entries) :
    blocksOf h p = real [it.path] ++ (real entries ++ (real [it.paramStrings] ++ [p])) := by
  rw [blocksOf, shape.item]
  dsimp only
  rw [shape.stringsBlocks, List.append_assoc]

theorem ItemAt.nonnull (shape : ItemAt h p it entries) : p ≠ NULL :=
  ne_null (h := h) (by rw [shape.item]; simp)

/-- An item that points to nothing. -/
theorem ItemAt.bare (here : h.block p = some (.item it)) (path : it.path = NULL)
    (strings : it.paramStrings = NULL) : ItemAt h p it [] where
  item := here
  path nonnull := absurd path nonnull
  strings nonnull := absurd strings nonnull
  noStrings _ := rfl
  unset := by simp
  texts := by simp

theorem ItemAt.frame (shape : ItemAt h p it entries)
    (kept : ∀ q ∈ blocksOf h p, h'.block q = h.block q) : ItemAt h' p it entries := by
  rw [shape.blocks] at kept
  simp only [List.mem_append, List.mem_singleton, mem_real] at kept
  refine ⟨?_, fun nonnull => ?_, fun nonnull => ?_, shape.noStrings, shape.unset,
    fun q inside nonnull => ?_⟩
  · rw [kept p (by simp), shape.item]
  · rw [kept _ (.inl ⟨rfl, nonnull⟩)]
    exact shape.path nonnull
  · rw [kept _ (.inr (.inr (.inl ⟨rfl, nonnull⟩)))]
    exact shape.strings nonnull
  · rw [kept q (.inr (.inl ⟨inside, nonnull⟩))]
    exact shape.texts q inside nonnull

theorem SlotOk.frame (sound : SlotOk h p) (kept : ∀ q ∈ blocksOf h p, h'.block q = h.block q) :
    SlotOk h' p ∧ blocksOf h' p = blocksOf h p := by
  rcases sound with rfl | ⟨it, entries, shape⟩
  · exact ⟨.inl rfl, by simp⟩
  · have shape' := shape.frame kept
    exact ⟨.inr ⟨it, entries, shape'⟩, shape'.blocks.trans shape.blocks.symm⟩

end Shapes

/-- The owners: the table, and each slot. -/
def feet (s : LogModule) : Option Int → List Ptr
  | none => [s.threadLogCache]
  | some i => blocksOf s.heap (s.slots i)

/-- The module between two calls; these blocks were lost. -/
structure Rep (s : LogModule) (lost : List Ptr) : Prop where
  parts : Partitioned s.heap (feet s) lost
  table : s.heap.block s.threadLogCache = some .table
  sound : ∀ i, SlotOk s.heap (s.slots i)
  range : ∀ i, s.slots i ≠ NULL → 0 ≤ i ∧ i < HASH_SLOT_SIZE

/-- What a call does in the slot of its task. -/
structure SlotEffect (s s' : LogModule) (i : Int) (gone : List Ptr) : Prop where
  table : s'.threadLogCache = s.threadLogCache
  slots : ∀ j, j ≠ i → s'.slots j = s.slots j
  changes : Changes s.heap s'.heap (blocksOf s.heap (s.slots i))
    (blocksOf s'.heap (s'.slots i) ++ gone)
  sound : SlotOk s'.heap (s'.slots i)

section Effects

variable {s s' : LogModule} {lost gone : List Ptr} {i : Int}

/-- The blocks of another slot are as they were. -/
theorem Rep.untouched (rep : Rep s lost) (effect : SlotEffect s s' i gone) {j : Int}
    (other : j ≠ i) : ∀ q ∈ blocksOf s.heap (s.slots j), s'.heap.block q = s.heap.block q :=
  fun _ inside => rep.parts.untouched (i := some i) (j := some j) effect.changes (by simpa using other)
    inside

theorem Rep.effect (rep : Rep s lost) (valid : 0 ≤ i ∧ i < HASH_SLOT_SIZE)
    (effect : SlotEffect s s' i gone) : Rep s' (lost ++ gone) := by
  refine ⟨?_, ?_, fun j => ?_, fun j nonnull => ?_⟩
  · refine rep.parts.change (i := some i) effect.changes rfl fun j other => ?_
    cases j with
    | none => rw [feet, feet, effect.table]
    | some j =>
      have apart : j ≠ i := fun same => other (congrArg some same)
      rw [feet, feet, effect.slots j apart]
      exact ((rep.sound j).frame (rep.untouched effect apart)).2
  · rw [effect.table, rep.parts.untouched (i := some i) (j := none) effect.changes (by simp) (by
      exact List.mem_singleton.mpr rfl)]
    exact rep.table
  · by_cases here : j = i
    · rw [here]
      exact effect.sound
    · rw [effect.slots j here]
      exact ((rep.sound j).frame (rep.untouched effect here)).1
  · by_cases here : j = i
    · rw [here]
      exact valid
    · rw [effect.slots j here] at nonnull
      exact rep.range j nonnull

theorem Rep.readSlot (rep : Rep s lost) (valid : 0 ≤ i ∧ i < HASH_SLOT_SIZE) :
    readSlot s i = .ok (s.slots i) := by
  rw [LogCache.readSlot, if_neg (by simp [rep.table]), if_pos valid]

theorem Rep.owns (rep : Rep s lost) (i : Int) : Owns s.heap (blocksOf s.heap (s.slots i)) :=
  rep.parts.owns (some i)

end Effects

theorem getSlotId_valid (pid : Int) : 0 ≤ getSlotId pid ∧ getSlotId pid < HASH_SLOT_SIZE := by
  unfold getSlotId
  split
  · decide
  · omega

section Blocks

variable {h : BlockHeap LogBlock} {mine rest : List Ptr} {p : Ptr} {it : LogItem}

theorem kmalloc_spec (owns : Owns h mine) (contents : LogBlock) (room : Bool) :
    ∃ q h', kmalloc h contents room = (q, h') ∧ Changes h h' mine (real [q] ++ mine) ∧
      (∀ r, h.block r ≠ none → h'.block r = h.block r) ∧ h.block q = none ∧
      ((room = false ∧ q = NULL) ∨ (room = true ∧ q ≠ NULL ∧ h'.block q = some contents)) := by
  cases room with
  | false => exact ⟨NULL, h, rfl, .refl owns, fun _ _ => rfl, h.nullDead, .inl ⟨rfl, rfl⟩⟩
  | true =>
    have nonnull : h.fresh ≠ NULL := Nat.ne_of_gt h.freshReal
    refine ⟨h.fresh, h.allocate contents, rfl, ?_, fun r live => allocate_live live contents,
      h.freshDead _ (Nat.le_refl _), .inr ⟨rfl, nonnull, allocate_self h contents⟩⟩
    rw [real_one nonnull]
    exact .allocate owns contents

theorem kfree_spec (owns : Owns h (real [p] ++ rest)) :
    ∃ h', kfree h p = .ok h' ∧ Changes h h' (real [p] ++ rest) rest ∧
      ∀ q, q ≠ p → h'.block q = h.block q := by
  by_cases null : p = NULL
  · rw [null] at owns ⊢
    exact ⟨h, rfl, .refl owns, fun _ _ => rfl⟩
  · rw [real_one null] at owns ⊢
    have live := owns.live p List.mem_cons_self
    refine ⟨h.release p, ?_, ?_, fun q other => release_other h other⟩
    · obtain ⟨b, found⟩ := Option.ne_none_iff_exists'.mp live
      rw [kfree, if_neg null, found]
    · have changes := Changes.release owns (p := p) List.mem_cons_self
      rw [List.singleton_append, List.erase_cons_head] at changes
      exact changes

theorem readItem_live (here : h.block p = some (.item it)) : readItem h p = .ok it := by
  rw [readItem, here]

theorem writeItem_live (here : h.block p = some (.item it)) (change : LogItem → LogItem) :
    writeItem h p change = .ok (h.store p (.item (change it))) := by
  rw [writeItem, readItem_live here]
  rfl

/-- The loop over the entries that are left. -/
theorem freeParams_spec {strings : Ptr} (done left : List Ptr)
    (here : h.block strings = some (.strings (done ++ left))) (inside : strings ∈ rest)
    (owns : Owns h (real left ++ rest)) :
    ∃ h', freeParams h strings (List.range' done.length left.length) = .ok h' ∧
      Changes h h' (real left ++ rest) rest ∧ ∀ q ∈ rest, h'.block q = h.block q := by
  induction left generalizing done h with
  | nil => exact ⟨h, rfl, .refl owns, fun _ _ => rfl⟩
  | cons entry left ih =>
    rw [real_cons, List.append_assoc] at owns ⊢
    obtain ⟨h₁, freed, changes, kept⟩ := kfree_spec owns
    have other : ∀ q ∈ rest, q ≠ entry := by
      rintro q later rfl
      by_cases null : q = NULL
      · exact ne_null (owns.live q (List.mem_append_right _ (List.mem_append_right _ later))) null
      · rw [real_one null] at owns
        exact (List.nodup_append.mp owns.nodup).2.2 q (List.mem_singleton_self q) q
          (List.mem_append_right _ later) rfl
    have here₁ : h₁.block strings = some (.strings (done ++ [entry] ++ left)) := by
      rw [kept strings (other strings inside), here, List.append_assoc, List.singleton_append]
    obtain ⟨h₂, ran, changes₂, kept₂⟩ := ih (done ++ [entry]) here₁ changes.owns
    refine ⟨h₂, ?_, changes.trans changes₂, fun q later => ?_⟩
    · have read : readEntry h strings done.length = .ok entry := by
        rw [readEntry, readStrings, here]
        simp [pure, Except.pure]
      rw [List.length_cons, List.range'_succ, freeParams, read, ok_bind, freed, ok_bind]
      rw [List.length_append] at ran
      exact ran
    · rw [kept₂ q later, kept q (other q later)]

/-- All that is left of an item is its own block. -/
theorem freeBlocks_spec {entries : List Ptr} (shape : ItemAt h p it entries)
    (owns : Owns h (blocksOf h p)) :
    ∃ h', freeBlocks h it = .ok h' ∧ Changes h h' (blocksOf h p) [p] ∧
      h'.block p = some (.item it) := by
  rw [shape.blocks] at owns ⊢
  obtain ⟨h₁, freed, changes, kept⟩ := kfree_spec owns
  have other : ∀ q ∈ real entries ++ (real [it.paramStrings] ++ [p]), q ≠ it.path := by
    rintro q later same
    have live := owns.live q (List.mem_append_right _ later)
    have nonnull : it.path ≠ NULL := same ▸ ne_null live
    rw [real_one nonnull] at owns
    exact (List.nodup_append.mp owns.nodup).2.2 it.path (List.mem_singleton_self _) q later same.symm
  have here₁ : h₁.block p = some (.item it) := by
    rw [kept p (other p (by simp)), shape.item]
  unfold freeBlocks
  rw [freed, ok_bind]
  by_cases null : it.paramStrings = NULL
  · rw [null, shape.noStrings null] at changes
    rw [if_pos null]
    refine ⟨h₁, rfl, ?_, here₁⟩
    rw [null, shape.noStrings null]
    exact changes
  · obtain ⟨strings, count⟩ := shape.strings null
    have inside : it.paramStrings ∈ real [it.paramStrings] ++ [p] := by simp [real_one null]
    have here : h₁.block it.paramStrings = some (.strings ([] ++ entries)) := by
      rw [kept _ (other _ (List.mem_append_right _ inside)), strings]
      rfl
    obtain ⟨h₂, ran, changes₂, kept₂⟩ := freeParams_spec [] entries here inside changes.owns
    obtain ⟨h₃, freed₃, changes₃, kept₃⟩ := kfree_spec changes₂.owns
    have apart : p ≠ it.paramStrings := by
      intro same
      have found := shape.item
      rw [same, strings] at found
      cases found
    refine ⟨h₃, ?_, (changes.trans changes₂).trans changes₃, ?_⟩
    · rw [if_neg null, ← count, List.range_eq_range']
      rw [List.length_nil] at ran
      rw [ran, ok_bind, freed₃]
    · rw [kept₃ p apart, kept₂ p (by simp), here₁]

end Blocks

end SysMonitor.Source.LogCache
