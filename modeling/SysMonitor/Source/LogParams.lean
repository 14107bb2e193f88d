import SysMonitor.Library.Runs
import SysMonitor.Source.LogBegin

/-!
# What add_*_param does to a slot

The specification says that the C function does `addSlot` in the slot of its task and loses
nothing, where there is a place for the parameter; without one it does not go through.
-/

namespace SysMonitor.Source.LogCache
open SysMonitor.Library SysMonitor.Library.BlockHeap SysMonitor.Source.LogText

section Add

variable {h : BlockHeap LogBlock} {s : LogModule} {lost : List Ptr} {p : Ptr} {it : LogItem}
  {entries : List Ptr}

theorem unset_later {n : Nat} (unset : ∀ q ∈ entries.drop n, q = NULL) :
    ∀ q ∈ entries.drop (n + 1), q = NULL := by
  intro q inside
  rw [← List.drop_drop] at inside
  exact unset q (List.mem_of_mem_drop inside)

/-- The first entry that was NULL is set. -/
theorem real_set {n : Nat} {holder : Ptr} (below : n < entries.length) (nonnull : holder ≠ NULL)
    (unset : ∀ q ∈ entries.drop n, q = NULL) :
    real (entries.set n holder) = real entries ++ [holder] := by
  have before : real entries = real (entries.take n) := by
    conv_lhs => rw [← List.take_append_drop n entries]
    rw [real_append, real_nulls unset, List.append_nil]
  rw [before, List.set_eq_take_append_cons_drop, if_pos below, real_append, real_cons,
    real_nulls (unset_later unset), real_one nonnull, List.append_nil]

/-- The heap after the stores of `storeParam`. -/
def withParam (h : BlockHeap LogBlock) (p : Ptr) (it : LogItem) (entries : List Ptr)
    (holder : Ptr) : BlockHeap LogBlock :=
  (h.store it.paramStrings (.strings (entries.set it.currentParam holder))).store p
    (.item { it with currentParam := it.currentParam + 1 })

theorem ItemAt.apart (shape : ItemAt h p it entries) (array : it.paramStrings ≠ NULL) :
    p ≠ it.paramStrings :=
  block_ne shape.item (shape.strings array).1 (by simp)

/-- After the first store the item is still as it was. -/
theorem ItemAt.stored_item (shape : ItemAt h p it entries) (array : it.paramStrings ≠ NULL)
    (block : LogBlock) : (h.store it.paramStrings block).block p = some (.item it) :=
  (store_other h (shape.apart array) _).trans shape.item

theorem withParam_texts (shape : ItemAt h p it entries) (array : it.paramStrings ≠ NULL)
    (holder : Ptr) : KeepsTexts h (withParam h p it entries holder) :=
  (KeepsTexts.store (shape.strings array).1 (by simp) _).trans
    (KeepsTexts.store (shape.stored_item array _) (by simp) _)

theorem withParam_item {holder : Ptr} {chars : Chars} (shape : ItemAt h p it entries)
    (text : h.block holder = some (.chars chars)) (array : it.paramStrings ≠ NULL) :
    ItemAt (withParam h p it entries holder) p { it with currentParam := it.currentParam + 1 }
      (entries.set it.currentParam holder) := by
  obtain ⟨strings, count⟩ := shape.strings array
  have texts := withParam_texts shape array holder
  refine ⟨store_self (by rw [shape.stored_item array]; simp) _, texts.live shape.path,
    fun _ => ⟨?_, ?_⟩, fun null => absurd null array, ?_, ?_⟩
  · exact (store_other _ (shape.apart array).symm _).trans (store_self (by simp [strings]) _)
  · rw [List.length_set]
    exact count
  · intro q inside
    rw [List.drop_set_of_lt (Nat.lt_succ_self _)] at inside
    exact unset_later shape.unset q inside
  · intro q inside
    rcases List.mem_or_eq_of_mem_set inside with old | rfl
    · exact texts.live (shape.texts q old)
    · exact fun _ => ⟨chars, texts q chars text⟩

theorem storeParam_spec (memory : Memory) {holder : Ptr} {chars : Chars}
    (shape : ItemAt h p it entries) (owns : Owns h (holder :: blocksOf h p))
    (text : h.block holder = some (.chars chars)) (array : it.paramStrings ≠ NULL)
    (below : it.currentParam < it.paramCount) :
    ∃ h', storeParam h p holder = .ok h' ∧
      Changes h h' (holder :: blocksOf h p) (blocksOf h' p) ∧ SlotOk h' p ∧
      viewOf memory h' p = (viewOf memory h p).map fun view =>
        { view with
          params := view.params.map (·.set view.currentParam (textAt memory h holder))
          currentParam := view.currentParam + 1 } := by
  obtain ⟨strings, count⟩ := shape.strings array
  have fits : it.currentParam < entries.length := by rw [count]; exact below
  have nonnull : holder ≠ NULL := ne_null (h := h) (by simp [text])
  have shape' := withParam_item shape text array
  have texts := withParam_texts shape array holder
  have inside : it.paramStrings ∈ holder :: blocksOf h p := by
    rw [shape.blocks]
    simp [mem_real, array]
  have inside_p : p ∈ holder :: blocksOf h p := by
    rw [shape.blocks]
    simp
  have changes₁ := Changes.store owns inside (.strings (entries.set it.currentParam holder))
  have changes₂ := Changes.store changes₁.owns inside_p
    (.item { it with currentParam := it.currentParam + 1 })
  refine ⟨withParam h p it entries holder, ?_, ?_, .inr ⟨_, _, shape'⟩, ?_⟩
  · rw [storeParam, readItem_live shape.item, ok_bind, readStrings, strings]
    dsimp only
    rw [ok_bind, if_pos fits]
    exact writeItem_live (shape.stored_item array _) _
  · refine (changes₁.trans changes₂).perm ?_
    rw [shape'.blocks, shape.blocks, real_set fits nonnull shape.unset]
    have order : real [it.path] ++ (real entries ++ [holder] ++ (real [it.paramStrings] ++ [p]))
        = (real [it.path] ++ real entries) ++ holder :: (real [it.paramStrings] ++ [p]) := by simp
    rw [order, ← List.append_assoc]
    exact List.perm_middle.symm
  · rw [shape'.view, shape.view, if_neg array, List.map_set, texts.texts memory shape.texts,
      texts.text memory shape.path, texts.text memory fun _ => ⟨chars, text⟩]
    simp [array]

/-- Where there is room for the text there is a place for it. -/
def Ready (it : LogItem) (answers : Answers) : Prop :=
  answers.holderRoom = true → it.paramStrings ≠ NULL ∧ it.currentParam < it.paramCount

theorem addText_spec (memory : Memory) (shape : ItemAt h p it entries)
    (owns : Owns h (blocksOf h p)) {answers : Answers} (ready : Ready it answers) (text : CString) :
    ∃ h', addText h p text answers.holderRoom = .ok h' ∧
      Changes h h' (blocksOf h p) (blocksOf h' p) ∧ SlotOk h' p ∧
      viewOf memory h' p = (viewOf memory h p).map (addSlot · text answers.holderRoom) := by
  obtain ⟨q, h₁, ran, new, found⟩ := kmalloc_string memory owns ⟨text, true⟩ answers.holderRoom
  have kept : ∀ r ∈ blocksOf h p, h₁.block r = h.block r :=
    fun r inside => new.2.1 r (owns.live r inside)
  have sound : SlotOk h p := .inr ⟨it, entries, shape⟩
  obtain ⟨sound₁, blocks₁⟩ := sound.frame kept
  have view₁ := sound.view memory kept
  unfold addText
  rw [ran]
  dsimp only
  by_cases null : q = NULL
  · have full : answers.holderRoom = false := by
      by_contra room
      rw [null, textAt_null, if_pos (Bool.eq_true_of_not_eq_false room)] at found
      cases found
    have changes := new.1
    rw [null, real_null, List.nil_append] at changes
    rw [if_pos null, full]
    refine ⟨h₁, rfl, ?_, sound₁, ?_⟩
    · rw [blocks₁]
      exact changes
    · rw [view₁]
      exact Option.map_id'.symm
  · obtain ⟨chars, here⟩ := new.2.2.2 null
    have room : answers.holderRoom = true := by
      by_contra full
      rw [textAt, here, if_neg full] at found
      cases found
    have changes := new.1
    rw [real_one null, List.singleton_append] at changes
    have owns₁ := changes.owns
    rw [← blocks₁] at owns₁
    obtain ⟨array, below⟩ := ready room
    obtain ⟨h₂, stored, changes₂, sound₂, view₂⟩ :=
      storeParam_spec memory (shape.frame kept) owns₁ here array below
    rw [blocks₁] at changes₂
    rw [if_neg null, stored]
    refine ⟨h₂, rfl, changes.trans changes₂, sound₂, ?_⟩
    rw [view₂, view₁, found, room]
    rfl

/-- The item of the slot, if there is one or room for one. -/
theorem oldCache_spec (memory : Memory) (rep : Rep s lost) (pid : Int) (room : Bool) :
    ∃ s', getCurrentCache memory s pid false room = .ok (s', s'.slots (getSlotId pid)) ∧
      SlotEffect s s' (getSlotId pid) [] ∧ (s.slots (getSlotId pid) ≠ NULL → s' = s) ∧
      (s'.slots (getSlotId pid) ≠ NULL ↔ s.slots (getSlotId pid) ≠ NULL ∨ room = true) := by
  have still : SlotEffect s s (getSlotId pid) [] := by
    refine ⟨rfl, fun _ _ => rfl, ?_, rep.sound _⟩
    rw [List.append_nil]
    exact .refl (rep.owns _)
  by_cases null : s.slots (getSlotId pid) = NULL
  · obtain ⟨s', p, ran, outcome⟩ := emptySlot_spec memory rep pid false room null
    rcases outcome with ⟨none, same, full⟩ | ⟨some, ⟨it, shape⟩, blocks, table, slots, changes⟩
    · rw [none, same] at ran
      refine ⟨s, ?_, still, fun _ => rfl, ?_⟩
      · rw [ran, null]
      · rw [full]
        exact (or_iff_left (by simp)).symm
    · have at_slot : s'.slots (getSlotId pid) = p := by rw [slots, Function.update_self]
      refine ⟨s', by rw [ran, at_slot], ⟨table, fun j other => ?_, ?_, ?_⟩,
        fun real => absurd null real, iff_of_true ?_ (.inr some)⟩
      · rw [slots, Function.update_of_ne other]
      · rw [at_slot, blocks, null, blocksOf_null]
        exact changes
      · rw [at_slot]
        exact .inr ⟨it, _, shape⟩
      · rw [at_slot]
        exact shape.nonnull
  · unfold getCurrentCache
    rw [rep.readSlot (getSlotId_valid pid), ok_bind, if_neg null, if_neg (by simp)]
    exact ⟨s, rfl, still, fun _ => rfl, iff_of_true null (.inl null)⟩

theorem SlotEffect.trans {s₁ s₂ : LogModule} {i : Int} {gone : List Ptr}
    (first : SlotEffect s s₁ i []) (second : SlotEffect s₁ s₂ i gone) : SlotEffect s s₂ i gone := by
  refine ⟨second.table.trans first.table, fun j other => ?_, ?_, second.sound⟩
  · exact (second.slots j other).trans (first.slots j other)
  · have changes := first.changes
    rw [List.append_nil] at changes
    exact changes.trans second.changes

/-- Only the heap changed. -/
theorem SlotEffect.heap {i : Int} {h' : BlockHeap LogBlock} {gone : List Ptr}
    (changes : Changes s.heap h' (blocksOf s.heap (s.slots i)) (blocksOf h' (s.slots i) ++ gone))
    (sound : SlotOk h' (s.slots i)) : SlotEffect s { s with heap := h' } i gone :=
  ⟨rfl, fun _ _ => rfl, changes, sound⟩

/-- An `add_*_param` that gets an item and memory for its text finds an array with a place
for it. -/
def HasPlace (s : LogModule) (pid : Int) (answers : Answers) : Prop :=
  answers.holderRoom = true → (s.slots (getSlotId pid) ≠ NULL ∨ answers.itemRoom = true) →
    match s.heap.block (s.slots (getSlotId pid)) with
    | some (.item it) => it.paramStrings ≠ NULL ∧ it.currentParam < it.paramCount
    | _ => False

/-- An add to an item makes this change and loses nothing. A task that dies in it makes none and
leaves a block. -/
def Adds (memory : Memory) (h : BlockHeap LogBlock) (p : Ptr) (dies : Bool)
    (change : ItemView → ItemView) (ran : Except Fault (BlockHeap LogBlock × Bool)) : Prop :=
  ∃ h' gone, ran = .ok (h', !dies) ∧ Changes h h' (blocksOf h p) (blocksOf h' p ++ gone) ∧
    SlotOk h' p ∧ (gone ≠ [] ↔ dies = true) ∧
    viewOf memory h' p = if dies then viewOf memory h p else (viewOf memory h p).map change

theorem withItem_spec (memory : Memory) (rep : Rep s lost) (pid : Int) {answers : Answers}
    {dies : Bool} (place : dies = true ∨ HasPlace s pid answers)
    {next : BlockHeap LogBlock → Ptr → Except Fault (BlockHeap LogBlock × Bool)}
    (change : BlockHeap LogBlock → ItemView → ItemView)
    (spec : ∀ h p it entries, ItemAt h p it entries → Owns h (blocksOf h p) →
      dies = true ∨ Ready it answers → Adds memory h p dies (change h) (next h p)) :
    ∃ s' alive gone, withItem memory s pid answers next = .ok (s', alive) ∧
      SlotEffect s s' (getSlotId pid) gone ∧
      (gone ≠ [] ↔ dies = true ∧ (s.slots (getSlotId pid) ≠ NULL ∨ answers.itemRoom = true)) ∧
      (s.slots (getSlotId pid) ≠ NULL → (viewOf memory s'.heap (s'.slots (getSlotId pid)), alive)
        = if dies then (viewOf memory s.heap (s.slots (getSlotId pid)), false)
          else ((viewOf memory s.heap (s.slots (getSlotId pid))).map (change s.heap), true)) := by
  obtain ⟨s₁, ran, effect₁, same, there⟩ := oldCache_spec memory rep pid answers.itemRoom
  have rep₁ := rep.effect (getSlotId_valid pid) effect₁
  unfold withItem
  rw [ran, ok_bind]
  dsimp only
  by_cases null₁ : s₁.slots (getSlotId pid) = NULL
  · have absent := mt there.mpr (not_not.mpr null₁)
    rw [if_pos null₁]
    refine ⟨s₁, true, [], rfl, effect₁, iff_of_false (by simp) fun both => absent both.2,
      fun real => absurd (.inl real) absent⟩
  · rw [if_neg null₁]
    have there := there.mp null₁
    obtain ⟨it, entries, shape⟩ := (rep₁.sound (getSlotId pid)).resolve_left null₁
    have ready : dies = true ∨ Ready it answers := by
      refine place.imp_right fun place room => ?_
      have found := place room there
      by_cases null : s.slots (getSlotId pid) = NULL
      · rw [null, s.heap.nullDead] at found
        exact found.elim
      · rw [same null] at shape
        rw [shape.item] at found
        exact found
    obtain ⟨h₂, gone, stored, changes, sound, leaves, view⟩ :=
      spec s₁.heap _ it entries shape (rep₁.owns _) ready
    rw [stored, ok_bind]
    refine ⟨_, _, gone, rfl, effect₁.trans (.heap changes sound), ?_, fun real => ?_⟩
    · rw [leaves, and_iff_left there]
    · have before := same real
      subst before
      dsimp only
      rw [view]
      cases dies <;> rfl

theorem addText_adds (memory : Memory) (shape : ItemAt h p it entries)
    (owns : Owns h (blocksOf h p)) {answers : Answers} (ready : Ready it answers) (text : CString) :
    Adds memory h p false (addSlot · text answers.holderRoom)
      (do
        let h ← addText h p text answers.holderRoom
        return (h, true)) := by
  obtain ⟨h', stored, changes, sound, view⟩ := addText_spec memory shape owns ready text
  refine ⟨h', [], ?_, ?_, sound, by simp, view⟩
  · rw [stored]
    rfl
  · rw [List.append_nil]
    exact changes

/-- The copy of the user's string is freed after the text was made from it. -/
theorem addUserText_spec (memory : Memory) (shape : ItemAt h p it entries)
    (owns : Owns h (blocksOf h p)) {answers : Answers} (name : String) (str : UserText)
    (ready : copyDies str answers.userRoom = true ∨ Ready it answers) :
    Adds memory h p (copyDies str answers.userRoom)
      (addSlot · (addedText memory h (.string name str) answers) answers.holderRoom)
      (addUserText memory h p name str answers) := by
  have outcome := copyStringFromUser_spec memory owns str answers.userRoom
  have sound : SlotOk h p := .inr ⟨it, entries, shape⟩
  unfold Copies at outcome
  unfold addUserText
  split at outcome
  next dies =>
    obtain ⟨q, h₁, copied, changes, kept, real_q⟩ := outcome
    have still : ∀ r ∈ blocksOf h p, h₁.block r = h.block r :=
      fun r inside => kept r (owns.live r inside)
    obtain ⟨sound₁, blocks₁⟩ := sound.frame still
    rw [dies, copied]
    refine ⟨h₁, [q], rfl, ?_, sound₁, by simp, sound.view memory still⟩
    rw [blocks₁, ← real_one real_q]
    exact changes.perm List.perm_append_comm
  next lives =>
    obtain ⟨q, h₁, copied, new, same⟩ := outcome
    have kept : ∀ r ∈ blocksOf h p, h₁.block r = h.block r :=
      fun r inside => new.2.1 r (owns.live r inside)
    have blocks₁ := (sound.frame kept).2
    have changes₁ := new.1.perm List.perm_append_comm
    rw [← blocks₁] at changes₁
    obtain ⟨h₂, stored, changes₂, sound₂, view₂⟩ :=
      addText_spec memory (shape.frame kept)
        ⟨fun r inside => changes₁.owns.live r (List.mem_append_left _ inside),
          (List.nodup_append.mp changes₁.owns.nodup).1⟩ (ready.resolve_left lives)
        (stringText name ((textAt memory h₁ q).getD nullText))
    have framed := (changes₂.frame changes₁.owns).perm List.perm_append_comm
    obtain ⟨h₃, freed, changes₃, kept₃⟩ := kfree_spec framed.owns
    have others : ∀ r ∈ blocksOf h₂ p, h₃.block r = h₂.block r := by
      rintro r inside
      refine kept₃ r ?_
      rintro rfl
      have live := changes₂.owns.live r inside
      have apart := (List.nodup_append.mp framed.owns.nodup).2.2
      exact apart r (by rw [real_one (ne_null live)]; simp) r inside rfl
    obtain ⟨sound₃, blocks₃⟩ := sound₂.frame others
    rw [Bool.eq_false_of_not_eq_true lives, copied, ok_bind]
    dsimp only
    rw [readText_live memory new.2.2.2, ok_bind, stored, ok_bind, freed]
    refine ⟨h₃, [], rfl, ?_, sound₃, by simp, ?_⟩
    · have total := changes₁.trans (framed.trans changes₃)
      rw [blocks₁] at total
      rw [blocks₃, List.append_nil]
      exact total
    · rw [if_neg (by simp), sound₂.view memory others, view₂, sound.view memory kept, same, addedText]

theorem add_spec (memory : Memory) (rep : Rep s lost) (pid : Int) (param : ParamArgument)
    {answers : Answers} (place : paramDies param answers = true ∨ HasPlace s pid answers) :
    ∃ s' alive gone, addParam memory s pid param answers = .ok (s', alive) ∧
      SlotEffect s s' (getSlotId pid) gone ∧
      (gone ≠ [] ↔ paramDies param answers = true ∧
        (s.slots (getSlotId pid) ≠ NULL ∨ answers.itemRoom = true)) ∧
      (s.slots (getSlotId pid) ≠ NULL → (viewOf memory s'.heap (s'.slots (getSlotId pid)), alive)
        = if paramDies param answers then (viewOf memory s.heap (s.slots (getSlotId pid)), false)
          else ((viewOf memory s.heap (s.slots (getSlotId pid))).map
            (addSlot · (addedText memory s.heap param answers) answers.holderRoom), true)) := by
  have formatted := fun (text : CString) (place : false = true ∨ HasPlace s pid answers) =>
    withItem_spec memory rep pid place (fun _ => (addSlot · text answers.holderRoom))
      fun h p it entries shape owns ready =>
        addText_adds memory shape owns (ready.resolve_left (by simp)) text
  cases param with
  | void => exact formatted voidText place
  | int name value => exact formatted (intText name value) place
  | unsignedInt name value => exact formatted (unsignedIntText name value) place
  | string name str =>
    exact withItem_spec memory rep pid place
      (fun h => (addSlot · (addedText memory h (.string name str) answers) answers.holderRoom))
      fun h p it entries shape owns ready => addUserText_spec memory shape owns name str ready

end Add

section Places

variable {h h' : BlockHeap LogBlock} {s t : LogModule} {lost : List Ptr} {p : Ptr} {it : LogItem}
  {entries : List Ptr} {answers : Answers}

/-- A store that goes through had a place. -/
theorem storeParam_ready (shape : ItemAt h p it entries) {holder : Ptr}
    (stored : storeParam h p holder = .ok h') (answers : Answers) : Ready it answers := by
  intro _
  rw [storeParam, readItem_live shape.item, ok_bind] at stored
  obtain ⟨found, read, stored⟩ := bind_eq_ok stored
  by_cases null : it.paramStrings = NULL
  · rw [readStrings, null, h.nullDead] at read
    cases read
  · obtain ⟨strings, count⟩ := shape.strings null
    rw [readStrings, strings] at read
    cases read
    by_cases below : it.currentParam < entries.length
    · exact ⟨null, count ▸ below⟩
    · rw [if_neg below] at stored
      cases stored

theorem addText_ready (shape : ItemAt h p it entries) (owns : Owns h (blocksOf h p))
    {text : CString} (added : addText h p text answers.holderRoom = .ok h') : Ready it answers := by
  intro room
  obtain ⟨q, h₁, ran, -, kept, -, answer⟩ :=
    kmalloc_spec owns (.chars ⟨text, true⟩) answers.holderRoom
  have nonnull : q ≠ NULL := by
    rcases answer with ⟨full, -⟩ | ⟨-, nonnull, -⟩
    · rw [room] at full
      cases full
    · exact nonnull
  unfold addText at added
  rw [ran] at added
  dsimp only at added
  rw [if_neg nonnull] at added
  exact storeParam_ready (shape.frame fun r inside => kept r (owns.live r inside)) added answers room

theorem addUserText_ready (memory : Memory) (shape : ItemAt h p it entries)
    (owns : Owns h (blocksOf h p)) {name : String} {str : UserText}
    {result : BlockHeap LogBlock × Bool}
    (added : addUserText memory h p name str answers = .ok result) :
    copyDies str answers.userRoom = true ∨ Ready it answers := by
  have outcome := copyStringFromUser_spec memory owns str answers.userRoom
  unfold Copies at outcome
  split at outcome
  next dies => exact .inl dies
  next lives =>
    obtain ⟨q, h₁, copied, new, -⟩ := outcome
    have kept : ∀ r ∈ blocksOf h p, h₁.block r = h.block r :=
      fun r inside => new.2.1 r (owns.live r inside)
    have shape₁ := shape.frame kept
    have owns₁ : Owns h₁ (blocksOf h₁ p) := by
      rw [shape₁.blocks, ← shape.blocks]
      exact ⟨fun r inside => new.1.owns.live r (List.mem_append_right _ inside), owns.nodup⟩
    unfold addUserText at added
    rw [copied, ok_bind] at added
    obtain ⟨text, -, added⟩ := bind_eq_ok added
    obtain ⟨h₂, stored, -⟩ := bind_eq_ok added
    exact .inr (addText_ready shape₁ owns₁ stored)

theorem withItem_place (memory : Memory) (rep : Rep s lost) (pid : Int) {dies : Bool}
    {next : BlockHeap LogBlock → Ptr → Except Fault (BlockHeap LogBlock × Bool)}
    (ready : ∀ h p it entries result, ItemAt h p it entries → Owns h (blocksOf h p) →
      next h p = .ok result → dies = true ∨ Ready it answers) {alive : Bool}
    (went : withItem memory s pid answers next = .ok (t, alive)) :
    dies = true ∨ HasPlace s pid answers := by
  rw [or_iff_not_imp_left]
  intro lives room reached
  have ready := fun h p it entries result shape owns ran =>
    (ready h p it entries result shape owns ran).resolve_left lives
  unfold withItem at went
  by_cases null : s.slots (getSlotId pid) = NULL
  · obtain ⟨s₁, p, ran, outcome⟩ := emptySlot_spec memory rep pid false answers.itemRoom null
    rw [ran, ok_bind] at went
    rcases outcome with ⟨-, -, full⟩ | ⟨-, ⟨it, shape⟩, blocks, -, -, changes⟩
    · rw [full] at reached
      rcases reached with real | wrong
      · exact absurd null real
      · cases wrong
    · -- a new item has no array
      dsimp only at went
      rw [if_neg shape.nonnull] at went
      obtain ⟨result, stored, -⟩ := bind_eq_ok went
      have owns : Owns s₁.heap (blocksOf s₁.heap p) := by
        rw [blocks]
        exact changes.owns
      obtain ⟨array, below⟩ := ready _ p it [] result shape owns stored room
      rw [← (shape.strings array).2] at below
      exact absurd below (Nat.not_lt_zero _)
  · obtain ⟨s₁, ran, -, same, -⟩ := oldCache_spec memory rep pid answers.itemRoom
    rw [ran, ok_bind, same null] at went
    dsimp only at went
    rw [if_neg null] at went
    obtain ⟨result, stored, -⟩ := bind_eq_ok went
    obtain ⟨it, entries, shape⟩ := (rep.sound (getSlotId pid)).resolve_left null
    have place := ready _ _ it entries result shape (rep.owns _) stored room
    rw [shape.item]
    exact place

/-- An add that goes through found a place, unless its task died before it was needed. -/
theorem add_place (memory : Memory) (rep : Rep s lost) (pid : Int) {param : ParamArgument}
    {alive : Bool} (went : addParam memory s pid param answers = .ok (t, alive)) :
    paramDies param answers = true ∨ HasPlace s pid answers := by
  have formatted : ∀ text, addFormatted memory s pid text answers = .ok (t, alive) →
      false = true ∨ HasPlace s pid answers := by
    intro text went
    refine withItem_place memory rep pid (fun h p it entries result shape owns ran => ?_) went
    obtain ⟨h', added, -⟩ := bind_eq_ok ran
    exact .inr (addText_ready shape owns added)
  cases param with
  | void => exact formatted _ went
  | int name value => exact formatted _ went
  | unsignedInt name value => exact formatted _ went
  | string name str =>
    exact withItem_place memory rep pid
      (fun h p it entries result shape owns => addUserText_ready memory shape owns) went

end Places
end SysMonitor.Source.LogCache
