import SysMonitor.Source.LogView

/-!
# What begin_log_system_call_* does to a slot

The specification says that the C function does `beginSlot` in the slot of its task, and that
it loses the copy of the path when it ends early.
-/

namespace SysMonitor.Source.LogCache
open SysMonitor.Library SysMonitor.Library.BlockHeap SysMonitor.Source.LogText
open SysMonitor.Source.Hooks (OperationName)
open SysMonitor.Source.TraceDog (ApiName)

section Begin

variable {memory : Memory} {h : BlockHeap LogBlock} {mine : List Ptr} {s : LogModule}
  {lost : List Ptr} {p : Ptr}

/-- A new string, or NULL: live blocks keep their contents. -/
def NewString (h h' : BlockHeap LogBlock) (mine : List Ptr) (q : Ptr) : Prop :=
  Changes h h' mine (real [q] ++ mine) ∧ (∀ r, h.block r ≠ none → h'.block r = h.block r) ∧
    h.block q = none ∧ (q ≠ NULL → ∃ chars, h'.block q = some (.chars chars))

theorem kmalloc_string (memory : Memory) (owns : Owns h mine) (chars : Chars) (room : Bool) :
    ∃ q h', kmalloc h (.chars chars) room = (q, h') ∧ NewString h h' mine q ∧
      textAt memory h' q = if room then some (chars.read (memory.beyond h.fresh)) else none := by
  obtain ⟨q, h', ran, changes, kept, new, answer⟩ := kmalloc_spec owns (.chars chars) room
  refine ⟨q, h', ran, ⟨changes, kept, new, fun nonnull => ?_⟩, ?_⟩
  · rcases answer with ⟨-, null⟩ | ⟨-, -, found⟩
    · exact absurd null nonnull
    · exact ⟨chars, found⟩
  · rcases answer with ⟨rfl, rfl⟩ | ⟨rfl, -, found⟩
    · simp
    · have next : q = h.fresh := (Prod.mk.inj ran).1.symm
      rw [textAt, found, next]
      rfl

/-- What a dying task leaves: a live block, and everything else as it was. -/
def Stray (h h' : BlockHeap LogBlock) (mine : List Ptr) (q : Ptr) : Prop :=
  Changes h h' mine (real [q] ++ mine) ∧ (∀ r, h.block r ≠ none → h'.block r = h.block r) ∧ q ≠ NULL

/-- A copy of a string gives this text in a new string, unless the task dies in it. -/
def Copies (memory : Memory) (h : BlockHeap LogBlock) (mine : List Ptr) (dies : Bool)
    (text : Option CString) (ran : Except Fault (Option Ptr × BlockHeap LogBlock)) : Prop :=
  if dies then ∃ q h', ran = .ok (none, h') ∧ Stray h h' mine q
  else ∃ q h', ran = .ok (some q, h') ∧ NewString h h' mine q ∧ textAt memory h' q = text

theorem copyStringFromUser_spec (memory : Memory) (owns : Owns h mine) (str : UserText)
    (room : Bool) : Copies memory h mine (copyDies str room) (copiedText memory h str room)
      (copyStringFromUser h str room) := by
  unfold Copies copyDies copiedText copyStringFromUser
  cases copied : strncpyFromUser str with
  | some chars =>
    obtain ⟨q, h', ran, new, text⟩ := kmalloc_string memory owns chars room
    rw [if_neg (by simp)]
    dsimp only
    rw [ran]
    exact ⟨q, h', rfl, new, text⟩
  | none =>
    obtain ⟨q, h₁, ran, changes, kept, new, answer⟩ := kmalloc_spec owns .buffer room
    dsimp only
    rw [ran]
    dsimp only
    by_cases dies : q ≠ NULL ∧ str.prints = false
    · have room : room = true := (answer.resolve_left fun full => dies.1 full.2).1
      rw [if_pos dies, if_pos (by simp [room, dies.2])]
      exact ⟨q, h₁, rfl, changes, kept, dies.1⟩
    · have lives : ¬(room && (none : Option Chars).isNone && !str.prints) = true := by
        intro both
        simp only [Option.isNone_none, Bool.and_true, Bool.and_eq_true, Bool.not_eq_true'] at both
        refine dies ⟨?_, both.2⟩
        rcases answer with ⟨full, -⟩ | ⟨-, nonnull, -⟩
        · exact absurd both.1 (by simp [full])
        · exact nonnull
      obtain ⟨h', freed, changes', kept'⟩ := kfree_spec changes.owns
      rw [if_neg dies, if_neg lives, freed]
      refine ⟨NULL, h', rfl, ⟨changes.trans changes', fun r live => ?_, h.nullDead, by simp⟩, ?_⟩
      · have other : r ≠ q := fun same => live (same ▸ new)
        rw [kept' r other, kept r live]
      · cases room <;> simp

theorem pathSafe_spec (memory : Memory) (owns : Owns h mine) (path : PathArgument) (room : Bool) :
    Copies memory h mine (pathDies path room) (copiedPath memory h path room)
      (pathSafe h path room) := by
  have nothing : copiedPath memory h path room = none → pathSafe h path room = .ok (some NULL, h) →
      Copies memory h mine false (copiedPath memory h path room) (pathSafe h path room) := by
    intro none run
    refine ⟨NULL, h, run, ⟨.refl owns, fun _ _ => rfl, h.nullDead, by simp⟩, ?_⟩
    simp [none]
  have copied : ∀ text, copiedPath memory h path room = (if room then some text else none) →
      pathSafe h path room = .ok (some (copyString h text room).1, (copyString h text room).2) →
      Copies memory h mine false (copiedPath memory h path room) (pathSafe h path room) := by
    intro text same run
    obtain ⟨q, h', ran, new, found⟩ := kmalloc_string memory owns ⟨text, true⟩ room
    rw [copyString, ran] at run
    exact ⟨q, h', run, new, found.trans same.symm⟩
  cases path with
  | fd path =>
    cases path with
    | none => exact nothing (by simp [copiedPath, pathText]) rfl
    | some text => exact copied text rfl rfl
  | kernelPath path =>
    cases path with
    | none => exact nothing (by simp [copiedPath, pathText]) rfl
    | some text => exact copied text rfl rfl
  | userPath path =>
    cases path with
    | none => exact nothing (by simp [copiedPath, pathText]) rfl
    | some str => exact copyStringFromUser_spec memory owns str room
  | none => exact nothing (by simp [copiedPath, pathText]) rfl

/-- An empty slot gets a new item that owns nothing, if there is room for it. -/
theorem emptySlot_spec (memory : Memory) (rep : Rep s lost) (pid : Int) (getNew room : Bool)
    (null : s.slots (getSlotId pid) = NULL) :
    ∃ s' p, getCurrentCache memory s pid getNew room = .ok (s', p) ∧
      ((p = NULL ∧ s' = s ∧ room = false) ∨
        (room = true ∧ (∃ it, ItemAt s'.heap p it []) ∧ blocksOf s'.heap p = [p] ∧
          s'.threadLogCache = s.threadLogCache ∧
          s'.slots = Function.update s.slots (getSlotId pid) p ∧
          Changes s.heap s'.heap [] [p])) := by
  have owns := rep.owns (getSlotId pid)
  rw [null, blocksOf_null] at owns
  unfold getCurrentCache
  rw [rep.readSlot (getSlotId_valid pid), ok_bind, if_pos null]
  obtain ⟨p, h, ran, changes, -, -, answer⟩ :=
    kmalloc_spec owns (.item (memory.garbage s.heap.fresh)) room
  rw [ran]
  dsimp only
  rcases answer with ⟨rfl, rfl⟩ | ⟨rfl, nonnull, found⟩
  · have same : h = s.heap := (congrArg Prod.snd ran).symm
    rw [if_pos rfl, same]
    exact ⟨s, NULL, rfl, .inl ⟨rfl, rfl, rfl⟩⟩
  · rw [if_neg nonnull, writeItem_live found, ok_bind]
    rw [real_one nonnull] at changes
    have stored := Changes.store changes.owns List.mem_cons_self
      (.item (memory.garbage s.heap.fresh).emptied)
    have shape := ItemAt.bare (store_self (h := h) (p := p) (by simp [found])
      (.item (memory.garbage s.heap.fresh).emptied)) rfl rfl
    exact ⟨_, p, rfl, .inr ⟨rfl, ⟨_, shape⟩, shape.blocks, rfl, rfl, changes.trans stored⟩⟩

/-- A slot that is begun anew has an item that owns nothing, or there is no room for one. -/
theorem newCache_spec (memory : Memory) (rep : Rep s lost) (pid : Int) (room : Bool) :
    ∃ s' p, getCurrentCache memory s pid true room = .ok (s', p) ∧
      ((p = NULL ∧ s' = s ∧ s.slots (getSlotId pid) = NULL ∧ room = false) ∨
        (¬(s.slots (getSlotId pid) = NULL ∧ room = false) ∧
          (∃ it, s'.heap.block p = some (.item it)) ∧ s'.threadLogCache = s.threadLogCache ∧
          s'.slots = Function.update s.slots (getSlotId pid) p ∧
          Changes s.heap s'.heap (blocksOf s.heap (s.slots (getSlotId pid))) [p])) := by
  by_cases null : s.slots (getSlotId pid) = NULL
  · obtain ⟨s', p, ran, outcome⟩ := emptySlot_spec memory rep pid true room null
    refine ⟨s', p, ran, ?_⟩
    rcases outcome with ⟨none, same, full⟩ | ⟨some, ⟨it, shape⟩, -, table, slots, changes⟩
    · exact .inl ⟨none, same, null, full⟩
    · rw [null, blocksOf_null]
      exact .inr ⟨by simp [some], ⟨it, shape.item⟩, table, slots, changes⟩
  · obtain ⟨it, entries, shape⟩ := (rep.sound (getSlotId pid)).resolve_left null
    obtain ⟨h₁, freed, changes, here⟩ := freeBlocks_spec shape (rep.owns (getSlotId pid))
    have stored := Changes.store changes.owns (List.mem_singleton_self _)
      (.item it.emptied)
    unfold getCurrentCache
    rw [rep.readSlot (getSlotId_valid pid), ok_bind, if_neg null, if_pos rfl,
      readItem_live shape.item, ok_bind, freed, ok_bind, writeItem_live here, ok_bind]
    refine ⟨_, s.slots (getSlotId pid), rfl, .inr ⟨fun both => null both.1,
      ⟨_, store_self (by simp [here]) _⟩, rfl, ?_, changes.trans stored⟩⟩
    exact (Function.update_eq_self ..).symm

theorem newStrings_null {n : Nat} {q : Ptr} (inside : q ∈ newStrings n) : q = NULL :=
  List.eq_of_mem_replicate inside

/-- An item whose entries are all NULL. -/
theorem new_item (memory : Memory) {h' : BlockHeap LogBlock} {header : LogHeader} {q strings : Ptr}
    {paramCount : Nat} {entries : List Ptr}
    (changes : Changes h h' (p :: real [q]) (real [strings] ++ p :: real [q]))
    (here : h'.block p = some (.item ⟨header, q, paramCount, 0, strings⟩))
    (text : q ≠ NULL → ∃ chars, h.block q = some (.chars chars))
    (kept : q ≠ NULL → h'.block q = h.block q)
    (array : strings ≠ NULL → h'.block strings = some (.strings entries) ∧
      entries.length = paramCount)
    (noArray : strings = NULL → entries = []) (nulls : ∀ r ∈ entries, r = NULL) :
    Changes h h' (p :: real [q]) (blocksOf h' p) ∧ SlotOk h' p ∧
      viewOf memory h' p = some ⟨begun header, textAt memory h q,
        if strings = NULL then none else some (List.replicate entries.length none),
        paramCount, 0⟩ := by
  have shape : ItemAt h' p ⟨header, q, paramCount, 0, strings⟩ entries :=
    { item := here
      path := fun nonnull => by
        obtain ⟨chars, found⟩ := text nonnull
        exact ⟨chars, (kept nonnull).trans found⟩
      strings := array
      noStrings := noArray
      unset := nulls
      texts := fun r inside nonnull => absurd (nulls r inside) nonnull }
  refine ⟨changes.perm ?_, .inr ⟨_, entries, shape⟩, ?_⟩
  · have order : real [strings] ++ p :: real [q] = (real [strings] ++ [p]) ++ real [q] := by simp
    rw [shape.blocks, real_nulls nulls, order]
    exact List.perm_append_comm
  · have texts : entries.map (textAt memory h') = List.replicate entries.length none := by
      rw [List.eq_replicate_iff]
      refine ⟨List.length_map .., fun b inside => ?_⟩
      obtain ⟨r, member, rfl⟩ := List.mem_map.mp inside
      rw [nulls r member, textAt_null]
    rw [shape.view, texts, textAt_kept memory kept]

/-- A new item with its path and an empty array, if there is room for one. -/
theorem fillItem_spec (memory : Memory) {q : Ptr} {it : LogItem} (owns : Owns h (p :: real [q]))
    (here : h.block p = some (.item it))
    (text : q ≠ NULL → ∃ chars, h.block q = some (.chars chars))
    (header : LogHeader → LogHeader) (paramCount : Nat) (room : Bool)
    (wide : paramCount < 2 ^ 30 ∨ room = false) :
    ∃ h', fillItem h p q header paramCount room = .ok (h', decide (0 < paramCount → room)) ∧
      Changes h h' (p :: real [q]) (blocksOf h' p) ∧ SlotOk h' p ∧
      viewOf memory h' p = some ⟨begun (header it.header), textAt memory h q,
        if 0 < paramCount ∧ room then some (List.replicate (paramCount % 2 ^ 30) none) else none,
        paramCount, 0⟩ := by
  have live : h.block p ≠ none := by simp [here]
  have changes₁ := Changes.store owns (p := p) List.mem_cons_self
    (.item ⟨header it.header, q, paramCount, 0, NULL⟩)
  have here₁ := store_self live (LogBlock.item ⟨header it.header, q, paramCount, 0, NULL⟩)
  have apart : q ≠ NULL → q ≠ p := by
    rintro nonnull rfl
    obtain ⟨chars, found⟩ := text nonnull
    rw [here] at found
    cases found
  have kept₁ : q ≠ NULL → _ := fun nonnull => store_other h (apart nonnull)
    (LogBlock.item ⟨header it.header, q, paramCount, 0, NULL⟩)
  unfold fillItem
  rw [writeItem_live here, ok_bind]
  by_cases some : 0 < paramCount
  · obtain ⟨strings, h₂, ran, changes₂, kept₂, new, answer⟩ :=
      kmalloc_spec changes₁.owns (.strings (newStrings paramCount)) room
    have here₂ := (kept₂ p (by rw [here₁]; simp)).trans here₁
    have live₂ : h₂.block p ≠ none := by simp [here₂]
    have changes₃ := Changes.store changes₂.owns (p := p) (by simp)
      (.item ⟨header it.header, q, paramCount, 0, strings⟩)
    have kept : q ≠ NULL → (h₂.store p (.item ⟨header it.header, q, paramCount, 0, strings⟩)).block q
        = h.block q := by
      intro nonnull
      obtain ⟨chars, found⟩ := text nonnull
      rw [store_other h₂ (apart nonnull), kept₂ q (by rw [kept₁ nonnull, found]; simp), kept₁ nonnull]
    rw [if_pos some, ran]
    dsimp only
    rw [writeItem_live here₂, ok_bind]
    have total := changes₁.trans (changes₂.trans changes₃)
    rcases answer with ⟨rfl, rfl⟩ | ⟨rfl, nonnull, found⟩
    · have spec := new_item memory total (store_self live₂ _) text kept (by simp) (fun _ => rfl)
        (by simp)
      rw [if_pos rfl] at spec
      rw [if_neg (by simp)]
      exact ⟨_, by simp [some]; rfl, spec⟩
    · have other : strings ≠ p := by
        rintro rfl
        rw [here₁] at new
        cases new
      have length : (newStrings paramCount).length = paramCount % 2 ^ 30 := List.length_replicate ..
      have whole : paramCount % 2 ^ 30 = paramCount := Nat.mod_eq_of_lt (wide.resolve_right (by simp))
      have spec := new_item memory total (store_self live₂ _) text kept
        (fun _ => ⟨(store_other h₂ other _).trans found, length.trans whole⟩)
        (fun null => absurd null nonnull) fun r inside => newStrings_null inside
      rw [if_neg nonnull, length] at spec
      rw [if_pos ⟨some, rfl⟩]
      exact ⟨_, by simp [nonnull]; rfl, spec⟩
  · have zero : paramCount = 0 := Nat.eq_zero_of_not_pos some
    have spec := new_item memory changes₁ here₁ text kept₁ (by simp) (fun _ => rfl) (by simp)
    rw [if_pos rfl] at spec
    rw [if_neg some, if_neg (fun both => some both.1)]
    exact ⟨_, by simp [some]; rfl, spec⟩

theorem SlotOk.view_none (memory : Memory) (sound : SlotOk h p) :
    viewOf memory h p = none ↔ p = NULL := by
  rcases sound with rfl | ⟨it, entries, shape⟩
  · simp
  · rw [shape.view]
    exact iff_of_false (by simp) shape.nonnull

theorem real_isSome (memory : Memory) {h' : BlockHeap LogBlock} {q : Ptr}
    (new : NewString h h' mine q) :
    real [q] ≠ [] ↔ (textAt memory h' q).isSome := by
  by_cases null : q = NULL
  · rw [null]
    simp
  · obtain ⟨chars, found⟩ := new.2.2.2 null
    rw [real_one null, textAt, found]
    simp

/-- The blocks that a begin with this copy of its path loses: the copy, when there is no item. -/
theorem beginInternal_spec (memory : Memory) {h₁ : BlockHeap LogBlock} {q : Ptr}
    (rep : Rep s lost) (pid : Int) (oper : OperationName) (api : ApiName) (paramCount : Nat)
    (answers : Answers) (wide : paramCount < 2 ^ 30 ∨ answers.stringsRoom = false)
    (new : NewString s.heap h₁ (blocksOf s.heap (s.slots (getSlotId pid))) q) :
    ∃ s' ok gone, beginLogSystemCallInternal memory { s with heap := h₁ } pid oper api q paramCount
        answers = .ok (s', ok) ∧
      SlotEffect s s' (getSlotId pid) gone ∧
      (gone ≠ [] ↔ (textAt memory h₁ q).isSome ∧
        (answers.ours ∨ (s.slots (getSlotId pid) = NULL ∧ answers.itemRoom = false))) ∧
      (viewOf memory s'.heap (s'.slots (getSlotId pid)), ok)
        = beginSlot (viewOf memory s.heap (s.slots (getSlotId pid))) pid oper api
            (textAt memory h₁ q) paramCount answers := by
  have owns := rep.owns (getSlotId pid)
  have sound := rep.sound (getSlotId pid)
  have kept : ∀ r ∈ blocksOf s.heap (s.slots (getSlotId pid)), h₁.block r = s.heap.block r :=
    fun r inside => new.2.1 r (owns.live r inside)
  obtain ⟨sound₁, blocks₁⟩ := sound.frame kept
  have effect₁ : SlotEffect s { s with heap := h₁ } (getSlotId pid) (real [q]) := by
    refine ⟨rfl, fun _ _ => rfl, ?_, sound₁⟩
    rw [blocks₁]
    exact new.1.perm List.perm_append_comm
  have rep₁ := rep.effect (getSlotId_valid pid) effect₁
  have view₁ : viewOf memory h₁ (s.slots (getSlotId pid))
      = viewOf memory s.heap (s.slots (getSlotId pid)) := sound.view memory kept
  have absent := sound.view_none memory
  unfold beginLogSystemCallInternal beginSlot
  by_cases ours : answers.ours = true
  · rw [if_pos ours, if_pos (.inl ours)]
    refine ⟨_, false, real [q], rfl, effect₁, ?_, by rw [view₁]⟩
    rw [real_isSome memory new, and_iff_left (.inl ours)]
  · rw [if_neg ours]
    obtain ⟨s₂, p, ran, outcome⟩ := newCache_spec memory rep₁ pid answers.itemRoom
    rw [ran, ok_bind]
    dsimp only at outcome ⊢
    rcases outcome with ⟨rfl, rfl, null, full⟩ | ⟨able, ⟨it, here⟩, table, slots, changes⟩
    · rw [if_pos rfl, if_pos (.inr ⟨absent.mpr null, full⟩)]
      refine ⟨_, false, real [q], rfl, effect₁, ?_, by rw [view₁]⟩
      rw [real_isSome memory new, and_iff_left (.inr ⟨null, full⟩)]
    · have nonnull : p ≠ NULL := ne_null (h := s₂.heap) (by rw [here]; simp)
      have begins : ¬(answers.ours = true ∨ (viewOf memory s.heap (s.slots (getSlotId pid)) = none ∧
          answers.itemRoom = false)) := by
        rintro (mine | ⟨none, full⟩)
        · exact ours mine
        · exact able ⟨absent.mp none, full⟩
      rw [if_neg nonnull, if_neg begins]
      have framed := changes.frame effect₁.changes.owns
      have text : q ≠ NULL → s₂.heap.block q = h₁.block q := by
        intro real_q
        obtain ⟨chars, found⟩ := new.2.2.2 real_q
        refine changes.others q (lt_fresh (by rw [found]; simp)) fun inside => ?_
        have disjoint := (List.nodup_append.mp effect₁.changes.owns.nodup).2.2
        exact disjoint q inside q (by simp [real_one real_q]) rfl
      obtain ⟨h₃, filled, changes₃, sound₃, view₃⟩ := fillItem_spec memory (q := q) framed.owns here
        (fun real_q => by rw [text real_q]; exact new.2.2.2 real_q) (beginHeader pid oper api answers)
        paramCount answers.stringsRoom wide
      rw [filled, ok_bind]
      have at_slot : s₂.slots (getSlotId pid) = p := by rw [slots, Function.update_self]
      refine ⟨{ s₂ with heap := h₃ }, _, [], rfl, ⟨table, fun j other => ?_, ?_, ?_⟩, ?_, ?_⟩
      · dsimp only
        rw [slots, Function.update_of_ne other]
      · dsimp only
        rw [List.append_nil, at_slot]
        exact effect₁.changes.trans (framed.trans changes₃)
      · dsimp only
        rw [at_slot]
        exact sound₃
      · exact iff_of_false (by simp) fun both => (not_or.mpr ⟨ours, able⟩) both.2
      · dsimp only
        rw [at_slot, view₃, textAt_kept memory text]
        rfl

/-- A slot that another block was allocated beside. -/
theorem SlotEffect.stray (memory : Memory) {h₁ : BlockHeap LogBlock} {q : Ptr} (rep : Rep s lost)
    (i : Int) (stray : Stray s.heap h₁ (blocksOf s.heap (s.slots i)) q) :
    SlotEffect s { s with heap := h₁ } i [q] ∧
      viewOf memory h₁ (s.slots i) = viewOf memory s.heap (s.slots i) := by
  obtain ⟨changes, kept, real_q⟩ := stray
  have still : ∀ r ∈ blocksOf s.heap (s.slots i), h₁.block r = s.heap.block r :=
    fun r inside => kept r ((rep.owns i).live r inside)
  obtain ⟨sound₁, blocks₁⟩ := (rep.sound i).frame still
  refine ⟨⟨rfl, fun _ _ => rfl, ?_, sound₁⟩, (rep.sound i).view memory still⟩
  rw [blocks₁, ← real_one real_q]
  exact changes.perm List.perm_append_comm

/-- A path that was copied is lost when the begin ends early, and so is the holder of a task that
dies in the copy. -/
theorem begin_spec (memory : Memory) (rep : Rep s lost) (pid : Int) (oper : OperationName)
    (api : ApiName) (path : PathArgument) (paramCount : Nat) (answers : Answers)
    (wide : paramCount < 2 ^ 30 ∨ answers.stringsRoom = false) :
    ∃ s' ok gone, beginLogSystemCall memory s pid oper api path paramCount answers = .ok (s', ok) ∧
      SlotEffect s s' (getSlotId pid) gone ∧
      (gone ≠ [] ↔ pathDies path answers.pathRoom ∨ pathCopied path answers.pathRoom ∧
        (answers.ours ∨ (s.slots (getSlotId pid) = NULL ∧ answers.itemRoom = false))) ∧
      (viewOf memory s'.heap (s'.slots (getSlotId pid)), ok)
        = if pathDies path answers.pathRoom then
            (viewOf memory s.heap (s.slots (getSlotId pid)), none)
          else
            (beginSlot (viewOf memory s.heap (s.slots (getSlotId pid))) pid oper api
              (copiedPath memory s.heap path answers.pathRoom) paramCount answers).map id some := by
  have outcome := pathSafe_spec memory (rep.owns (getSlotId pid)) path answers.pathRoom
  unfold beginLogSystemCall
  unfold Copies at outcome
  split at outcome
  next dies =>
    obtain ⟨q, h₁, copied, stray⟩ := outcome
    obtain ⟨effect, view⟩ := SlotEffect.stray memory rep _ stray
    rw [copied, ok_bind]
    refine ⟨_, none, [q], rfl, effect, ?_, ?_⟩
    · exact iff_of_true (by simp) (.inl dies)
    · rw [if_pos dies]
      exact congrArg (·, none) view
  next lives =>
    obtain ⟨q, h₁, copied, new, same⟩ := outcome
    obtain ⟨s', ok, gone, ran, effect, leaks, view⟩ :=
      beginInternal_spec memory rep pid oper api paramCount answers wide new
    rw [copied, ok_bind]
    dsimp only
    rw [ran, ok_bind]
    refine ⟨s', some ok, gone, rfl, effect, ?_, ?_⟩
    · rw [leaks, same, copiedPath_isSome, or_iff_right lives]
    · rw [if_neg lives, ← same, ← view]
      rfl

end Begin

end SysMonitor.Source.LogCache
