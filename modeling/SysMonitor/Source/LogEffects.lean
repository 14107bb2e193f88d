import SysMonitor.Source.LogParams

/-!
# What each call of driver/log.c does to a slot

After `end_log_system_call`, one specification for every call: its effect on the slot of its
task, the blocks it loses and the record it passes on.
-/

namespace SysMonitor.Source.LogCache
open SysMonitor.Library SysMonitor.Library.BlockHeap SysMonitor.Source.LogText

/-- The record as `log_item_to_storage` lays it out. -/
def Record.placed (record : Record) : Record :=
  { record with header := LogStorage.withOffsets record.header record.path record.details }

section End

variable {h : BlockHeap LogBlock} {mine : List Ptr} {s : LogModule} {lost : List Ptr} {p : Ptr}
  {it : LogItem} {entries : List Ptr}

theorem borrow_spec (owns : Owns h mine) (room : Bool) :
    ∃ h', borrow h room = .ok h' ∧ Changes h h' mine mine ∧
      ∀ r, h.block r ≠ none → h'.block r = h.block r := by
  obtain ⟨q, h₁, ran, changes, kept, new, -⟩ := kmalloc_spec owns .buffer room
  obtain ⟨h', freed, changes', kept'⟩ := kfree_spec changes.owns
  refine ⟨h', ?_, changes.trans changes', fun r live => ?_⟩
  · rw [borrow, ran]
    exact freed
  · have other : r ≠ q := fun same => live (same ▸ new)
    rw [kept' r other, kept r live]

/-- The loop over the entries that are left. -/
theorem appendParams_spec (memory : Memory) {strings : Ptr} (done left : List Ptr)
    (here : h.block strings = some (.strings (done ++ left)))
    (texts : ∀ q ∈ left, q ≠ NULL → ∃ chars, h.block q = some (.chars chars)) {count : Nat}
    (whole : count = done.length + left.length) (size : Int) (details : CString) :
    appendParams memory h strings count (List.range' done.length left.length) size details
      = .ok (joinParams (left.map (textAt memory h)) size details) := by
  induction left generalizing done size details with
  | nil => rfl
  | cons entry left ih =>
    have read : readEntry h strings done.length = .ok entry := by
      rw [readEntry, readStrings, here]
      simp [pure, Except.pure]
    have text := readText_live memory (texts entry List.mem_cons_self)
    have here' : h.block strings = some (.strings (done ++ [entry] ++ left)) := by
      rw [here, List.append_assoc, List.singleton_append]
    have rest := ih (done ++ [entry]) here' (fun q inside => texts q (List.mem_cons_of_mem _ inside))
      (by simp [whole]; omega)
    rw [List.length_append, List.length_singleton] at rest
    have last : count - 1 ≠ done.length ↔ left.map (textAt memory h) ≠ [] := by
      rw [List.length_cons] at whole
      rw [ne_eq, ne_eq, List.map_eq_nil_iff, ← List.length_eq_zero_iff]
      omega
    rw [List.length_cons, List.range'_succ, List.map_cons, appendParams, joinParams, read, ok_bind,
      text, ok_bind]
    dsimp only
    by_cases fits : size - paramSize (textAt memory h entry) > 0
    · rw [if_pos fits, if_pos fits]
      by_cases more : left.map (textAt memory h) ≠ [] ∧ size - paramSize (textAt memory h entry) > 2
      · rw [if_pos more, if_pos ⟨last.mpr more.1, more.2⟩]
        exact rest _ _
      · rw [if_neg more, if_neg fun both => more ⟨last.mp both.1, both.2⟩]
        exact rest _ _
    · rw [if_neg fits, if_neg fits]
      rfl

/-- The details of a view. -/
theorem detailsText_spec (memory : Memory) (shape : ItemAt h p it entries) {d : Ptr}
    {view : ItemView} (seen : viewOf memory h p = some view) {room : Bool}
    (there : d ≠ NULL ↔ room = true ∧ detailSize view.path > 0) :
    detailsText memory h it d (detailSize view.path) = .ok (details view room) := by
  obtain ⟨count, params⟩ : view.paramCount = it.paramCount ∧ view.params
      = if it.paramStrings = NULL then none else some (entries.map (textAt memory h)) := by
    rw [← Option.some.inj (shape.view.symm.trans seen)]
    exact ⟨rfl, rfl⟩
  unfold detailsText details
  by_cases absent : d = NULL
  · have small : ¬(room = true ∧ detailSize view.path > 0) := fun large => there.mpr large absent
    rw [if_pos absent]
    exact (congrArg Except.ok (if_neg small)).symm
  · have large := there.mp absent
    rw [if_neg absent]
    refine Eq.trans ?_ (congrArg Except.ok (if_pos large)).symm
    rw [params, count]
    by_cases null : it.paramStrings = NULL
    · rw [if_pos null, if_neg fun both => both.2 null]
    · obtain ⟨strings, length⟩ := shape.strings null
      rw [if_neg null]
      dsimp only
      by_cases some : 0 < it.paramCount
      · rw [if_pos some, if_pos ⟨some, null⟩, ← length, List.range_eq_range']
        rw [show List.range' 0 entries.length = List.range' [].length entries.length from rfl,
          appendParams_spec memory [] entries strings shape.texts (by simp)]
        rfl
      · rw [if_neg some, if_neg fun both => some both.1]

/-- Only the result in the header of an item changes. -/
theorem result_spec (memory : Memory) (shape : ItemAt h p it entries) (ret : Word) :
    let it' := { it with header := { it.header with result := ret } }
    ItemAt (h.store p (.item it')) p it' entries ∧
      viewOf memory (h.store p (.item it')) p = viewOf memory h p := by
  intro it'
  have texts : KeepsTexts h (h.store p (.item it')) := .store shape.item (by simp) _
  have shape' : ItemAt (h.store p (.item it')) p it' entries := by
    refine ⟨store_self (by simp [shape.item]) _, texts.live shape.path, fun array => ?_,
      shape.noStrings, shape.unset, fun q inside => texts.live (shape.texts q inside)⟩
    exact ⟨(store_other h (shape.apart array).symm _).trans (shape.strings array).1,
      (shape.strings array).2⟩
  refine ⟨shape', ?_⟩
  rw [shape'.view, shape.view, texts.texts memory shape.texts, texts.text memory shape.path]
  rfl

theorem endItem_spec (memory : Memory) (shape : ItemAt h p it entries)
    (owns : Owns h (blocksOf h p)) (ret : Word) (answers : Answers) :
    ∃ h' record, endItem memory h p ret answers = .ok (h', record) ∧
      Changes h h' (blocksOf h p) (blocksOf h' p) ∧ SlotOk h' p ∧
      viewOf memory h' p = viewOf memory h p ∧
      some record.placed = (viewOf memory h p).map fun view => (endSlot view ret answers).placed := by
  obtain ⟨shape₁, view₁⟩ := result_spec memory shape ret
  have inside : p ∈ blocksOf h p := by
    rw [shape.blocks]
    simp
  have changes₁ := Changes.store owns inside
    (.item { it with header := { it.header with result := ret } })
  have written := writeItem_live shape.item
    fun it => { it with header := { it.header with result := ret } }
  have blocks₁ := shape₁.blocks.trans shape.blocks.symm
  dsimp only at shape₁ view₁ written
  generalize h.store p (.item { it with header := { it.header with result := ret } }) = h₁
    at shape₁ view₁ changes₁ written blocks₁
  obtain ⟨view, seen⟩ : ∃ view, viewOf memory h p = some view := ⟨_, shape.view⟩
  obtain ⟨header, path⟩ : begun it.header = view.header ∧ textAt memory h it.path = view.path := by
    rw [← Option.some.inj (shape.view.symm.trans seen)]
    exact ⟨rfl, rfl⟩
  obtain ⟨d, h₂, ran, changes₂, kept₂, new, answer⟩ :=
    kmalloc_spec changes₁.owns .buffer (answers.detailsRoom && decide (detailSize view.path > 0))
  have still₂ : ∀ r ∈ blocksOf h₁ p, h₂.block r = h₁.block r := by
    intro r mine
    rw [blocks₁] at mine
    exact kept₂ r (changes₁.owns.live r mine)
  have shape₂ := shape₁.frame still₂
  have view₂ := (SlotOk.view memory (.inr ⟨_, _, shape₁⟩) still₂).trans view₁
  obtain ⟨h₃, borrowed, changes₃, kept₃⟩ := borrow_spec changes₂.owns answers.recordRoom
  obtain ⟨h₄, freed, changes₄, kept₄⟩ := kfree_spec changes₃.owns
  have still₄ : ∀ r ∈ blocksOf h₂ p, h₄.block r = h₂.block r := by
    intro r mine
    have live₁ : h₁.block r ≠ none := by
      rw [shape₂.blocks, ← shape₁.blocks, blocks₁] at mine
      exact changes₁.owns.live r mine
    have live₂ : h₂.block r ≠ none := by
      rw [kept₂ r live₁]
      exact live₁
    have other : r ≠ d := fun same => live₁ (same ▸ new)
    rw [kept₄ r other, kept₃ r live₂]
  have sound₂ : SlotOk h₂ p := .inr ⟨_, _, shape₂⟩
  obtain ⟨sound₄, blocks₄⟩ := sound₂.frame still₄
  have view₄ := (sound₂.view memory still₄).trans view₂
  have there : d ≠ NULL ↔ answers.detailsRoom = true ∧ detailSize view.path > 0 := by
    rcases answer with ⟨full, rfl⟩ | ⟨room, nonnull, -⟩
    · exact iff_of_false (by simp) (by simpa using full)
    · exact iff_of_true nonnull (by simpa using room)
  have text : detailsText memory h₂ it d (detailSize view.path)
      = .ok (details view answers.detailsRoom) :=
    detailsText_spec memory shape₂ (view₂.trans seen) there
  refine ⟨h₄, ⟨{ it.header with result := ret }, view.path, details view answers.detailsRoom⟩, ?_,
    ?_, sound₄, view₄, ?_⟩
  · unfold endItem
    rw [readItem_live shape.item, ok_bind, readText_live memory shape.path, ok_bind, path]
    dsimp only
    rw [written, ok_bind, ran]
    dsimp only
    rw [text, ok_bind, borrowed, ok_bind, freed, ok_bind]
    rfl
  · rw [blocks₄, shape₂.blocks, ← shape.blocks]
    exact changes₁.trans (changes₂.trans (changes₃.trans changes₄))
  · rw [seen, Option.map_some, endSlot, Record.placed, Record.placed, ← header]
    rfl

theorem end_spec (memory : Memory) (rep : Rep s lost) (pid : Int) (ret : Word) (answers : Answers) :
    ∃ s' record, endLogSystemCall memory s pid ret answers = .ok (s', record) ∧
      SlotEffect s s' (getSlotId pid) [] ∧ (s.slots (getSlotId pid) ≠ NULL →
        viewOf memory s'.heap (s'.slots (getSlotId pid))
          = viewOf memory s.heap (s.slots (getSlotId pid)) ∧
        record.map Record.placed = (viewOf memory s.heap (s.slots (getSlotId pid))).map
          fun view => (endSlot view ret answers).placed) := by
  obtain ⟨s₁, ran, effect₁, same, -⟩ := oldCache_spec memory rep pid answers.itemRoom
  have rep₁ := rep.effect (getSlotId_valid pid) effect₁
  unfold endLogSystemCall
  rw [ran, ok_bind]
  dsimp only
  by_cases null₁ : s₁.slots (getSlotId pid) = NULL
  · rw [if_pos null₁]
    refine ⟨s₁, none, rfl, effect₁, fun real => ?_⟩
    rw [same real] at null₁
    exact absurd null₁ real
  · rw [if_neg null₁]
    obtain ⟨it, entries, shape⟩ := (rep₁.sound (getSlotId pid)).resolve_left null₁
    obtain ⟨h₂, record, ended, changes, sound, view, placed⟩ :=
      endItem_spec memory shape (rep₁.owns _) ret answers
    rw [ended, ok_bind]
    rw [← List.append_nil (blocksOf h₂ _)] at changes
    refine ⟨_, _, rfl, effect₁.trans (.heap changes sound), fun real => ?_⟩
    have before := same real
    subst before
    exact ⟨view, placed⟩

end End

/-- A call in terms of the view of its slot, which is in use unless the call begins. -/
def slotStep (view : Option ItemView) (pid : Int) (call : LogCall) (answers : Answers) :
    Option ItemView × LogAnswer :=
  match call with
  | .begin oper api path paramCount =>
    if pathDies path answers.pathRoom then (view, .died)
    else
      let (view, ok) :=
        beginSlot view pid oper api (pathText path answers.pathRoom) paramCount answers
      (view, .began ok)
  | .add param =>
    if paramDies param answers then (view, .died)
    else (view.map (addSlot · (argumentText param answers) answers.holderRoom), .added)
  | .end ret => (view, .ended (view.map fun view => (endSlot view ret answers).placed))

/-- An answer with its record as it is laid out. -/
def LogAnswer.placed : LogAnswer → LogAnswer
  | .ended record => .ended (record.map Record.placed)
  | answer => answer

/-- The array that a begin allocates has all its entries, and an add that its task survives finds
a place in it. -/
def Safe (s : LogModule) (e : Int × LogCall × Answers) : Prop :=
  match e with
  | (_, .begin _ _ _ paramCount, answers) => paramCount < 2 ^ 30 ∨ answers.stringsRoom = false
  | (pid, .add param, answers) => paramDies param answers = true ∨ HasPlace s pid answers
  | (_, .end _, _) => True

/-- A task dies with the holder of a user string, or a path was copied but there is no item
for it. -/
def Leaks (s : LogModule) (e : Int × LogCall × Answers) : Prop :=
  match e with
  | (pid, .begin _ _ path _, answers) =>
    pathDies path answers.pathRoom ∨ pathCopied path answers.pathRoom ∧
      (answers.ours ∨ (s.slots (getSlotId pid) = NULL ∧ answers.itemRoom = false))
  | (pid, .add param, answers) =>
    paramDies param answers = true ∧ (s.slots (getSlotId pid) ≠ NULL ∨ answers.itemRoom = true)
  | (_, .end _, _) => False

/-- No user string of the call is cut. -/
def ShortCall : LogCall → Prop
  | .begin _ _ path _ => ShortPath path
  | .add param => ShortParam param
  | .end _ => True

/-- The call begins, or its slot has an item. -/
def Begun (s : LogModule) (pid : Int) : LogCall → Prop
  | .begin _ _ _ _ => True
  | _ => s.slots (getSlotId pid) ≠ NULL

/-- A safe call goes through and does in its slot what the view says. -/
theorem logStep_spec (memory : Memory) {s : LogModule} {lost : List Ptr} (rep : Rep s lost)
    (pid : Int) (call : LogCall) (answers : Answers) (safe : Safe s (pid, call, answers)) :
    ∃ t answer gone, logStep memory s (pid, call, answers) = .ok (t, answer) ∧
      SlotEffect s t (getSlotId pid) gone ∧ (gone ≠ [] ↔ Leaks s (pid, call, answers)) ∧
      (Begun s pid call → ShortCall call →
        (viewOf memory t.heap (t.slots (getSlotId pid)), answer.placed)
          = slotStep (viewOf memory s.heap (s.slots (getSlotId pid))) pid call answers) := by
  cases call with
  | begin oper api path paramCount =>
    obtain ⟨t, ok, gone, ran, effect, leaks, view⟩ :=
      begin_spec memory rep pid oper api path paramCount answers safe
    refine ⟨t, ok.elim .died .began, gone, ?_, effect, leaks, fun _ short => ?_⟩
    · rw [logStep, ran]
      rfl
    · rw [slotStep, ← copiedPath_short memory s.heap short]
      by_cases dies : pathDies path answers.pathRoom = true
      · rw [if_pos dies] at view ⊢
        obtain ⟨same, rfl⟩ := Prod.mk.inj view
        rw [same]
        rfl
      · rw [if_neg dies] at view ⊢
        obtain ⟨same, rfl⟩ := Prod.mk.inj view
        rw [same]
        rfl
  | add param =>
    obtain ⟨t, alive, gone, ran, effect, leaks, view⟩ := add_spec memory rep pid param safe
    refine ⟨t, if alive then .added else .died, gone, ?_, effect, leaks, fun there short => ?_⟩
    · rw [logStep, ran]
      rfl
    · have view := view there
      rw [slotStep, ← addedText_short memory s.heap short]
      by_cases dies : paramDies param answers = true
      · rw [if_pos dies] at view ⊢
        obtain ⟨same, rfl⟩ := Prod.mk.inj view
        rw [same]
        rfl
      · rw [if_neg dies] at view ⊢
        obtain ⟨same, rfl⟩ := Prod.mk.inj view
        rw [same]
        rfl
  | «end» ret =>
    obtain ⟨t, record, ran, effect, view⟩ := end_spec memory rep pid ret answers
    refine ⟨t, .ended record, [], ?_, effect, iff_of_false (by simp) (fun leaks => leaks),
      fun there _ => ?_⟩
    · rw [logStep, ran]
      rfl
    · obtain ⟨kept, placed⟩ := view there
      rw [kept, LogAnswer.placed, placed]
      rfl

end SysMonitor.Source.LogCache
