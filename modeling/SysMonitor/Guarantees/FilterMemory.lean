import SysMonitor.Guarantees.FilterSentences
import SysMonitor.Guarantees.RegexBuilding
import SysMonitor.Library.TailList
import SysMonitor.Source.FilterMemory

/-!
# The filters in memory are the list of the sentences that were accepted

Whatever sentences `AddFilter` is called with and whichever of its allocations fail, the linked
list holds the rules of the sentences it accepted, in their order, and every live block is part of
one of its items. `FilterLog` decides by walking along it as by going through that list.
-/

namespace SysMonitor.Guarantees.FilterMemory
open SysMonitor.Library SysMonitor.Library.TailList
open SysMonitor.Library.BlockHeap (Owns Changes Rewrites Borrows ne_null release_other
  allocate_self allocate_live)
open SysMonitor.Library.Backtracking SysMonitor.Library.CyclicBuffer
open SysMonitor.Library.ResumableSearch (Settles Follows settles_of_eq follows_of_succ)
open SysMonitor.Source SysMonitor.Source.FilterMemory SysMonitor.Source.Deelx
open SysMonitor.Source.ReaderStrings SysMonitor.Source.ReaderInterface
open SysMonitor.Source.Filter (FilterItem LogRecord World ActionResult filterOneLog sizeT)
open SysMonitor.Source.Reader (stringAt)
open SysMonitor.Guarantees.RegexMatching SysMonitor.Guarantees.RegexBuilding
open SysMonitor.Guarantees.FilterSentences (Parsed ended ruleOf)

section Accesses

variable {h : ReaderHeap} {p : Ptr} {mine extra : List Nat} {bytes : List Byte}
  {item : FilterItemRecord}

theorem readBytes_live (here : h.block p = some (.chars bytes)) : readBytes h p = .ok bytes := by
  rw [readBytes, here]

theorem readItem_live (here : h.block p = some (.filterItem item)) : readItem h p = .ok item := by
  rw [readItem, here]

theorem stringIn_live (here : h.block p = some (.chars bytes)) (start : Nat) :
    stringIn h p start = stringAt (bytes.drop start) := by
  rw [stringIn, readBytes_live here]
  rfl

theorem writeItem_spec (here : h.block p = some (.filterItem item))
    (change : FilterItemRecord → FilterItemRecord) :
    ∃ h', writeItem h p change = .ok h' ∧ Rewrites h h' p (.filterItem (change item)) := by
  refine ⟨h.store p (.filterItem (change item)), ?_, Rewrites.store (by simp [here]) _⟩
  rw [writeItem, readItem_live here]
  rfl

/-- A block with just enough room holds the string and its terminator. -/
theorem strcpy_spec {text : List Byte} (here : h.block p = some (.chars bytes))
    (fits : bytes.length = text.length + 1) :
    ∃ h', strcpy h p text = .ok h' ∧ Rewrites h h' p (.chars (text ++ [0])) := by
  have whole : splice bytes 0 (text ++ [0]) = text ++ [0] := by
    simp [splice, fits]
  refine ⟨h.store p (.chars (text ++ [0])), ?_, Rewrites.store (by simp [here]) _⟩
  rw [strcpy, readBytes_live here]
  show (if text.length < bytes.length then _ else _) = _
  rw [if_pos (by omega), whole]
  rfl

theorem endGroup_spec (result : MatchResult) (n : Nat) {start stop : Nat}
    (here : h.block p = some (.chars bytes)) (begins : result.getGroupStart n = start)
    (ends : result.getGroupEnd n = stop) (below : stop < bytes.length) :
    ∃ h', endGroup h p result n = .ok (h', start) ∧ Rewrites h h' p (.chars (bytes.set stop 0)) := by
  refine ⟨h.store p (.chars (bytes.set stop 0)), ?_, Rewrites.store (by simp [here]) _⟩
  have inside : ¬ ((start : Int) < 0 ∨ (stop : Int) < 0) := by omega
  have stored : store bytes stop 0 = .ok (bytes.set stop 0) := if_pos below
  simp only [endGroup, begins, ends, if_neg inside, readBytes_live here, Int.toNat_natCast]
  show (store bytes stop 0 >>= _) = _
  rw [stored]
  rfl

theorem malloc_spec {h₀ : ReaderHeap} (borrows : Borrows h₀ h mine extra) (contents : ReaderBlock) :
    ∃ p h', malloc h (some contents) = (p, h') ∧ p ≠ NULL ∧ h'.block p = some contents ∧
      Borrows h₀ h' mine (p :: extra) ∧ ∀ q, h.block q ≠ none → h'.block q = h.block q :=
  ⟨h.fresh, h.allocate contents, rfl, Nat.ne_of_gt h.freshReal, allocate_self h contents,
    borrows.allocate contents, fun _ live => allocate_live live contents⟩

theorem free_live (live : h.block p ≠ none) : free h p = .ok (h.release p) := by
  obtain ⟨contents, here⟩ := Option.ne_none_iff_exists'.mp live
  have real : p ≠ NULL := ne_null live
  rw [free, if_neg real, here]

end Accesses

section Sentence

variable {text : List Byte} {groups : Captures} {e₁ s₂ e₂ s₃ e₃ s₄ e₄ : Nat}

theorem match_parsed {start stop : Nat}
    (found : firstMatch FilterRegex.sentenceBranches.pattern text = some (start, stop, groups)) :
    ∃ e₁ s₂ e₂ s₃ e₃ s₄ e₄, Parsed text groups e₁ s₂ e₂ s₃ e₃ s₄ e₄ := by
  obtain ⟨i, below, way⟩ := List.mem_flatMap.mp (List.mem_of_head? found)
  have inside := Nat.le_of_lt_succ (List.mem_range.mp below)
  obtain ⟨⟨j, c⟩, taken, same⟩ := List.mem_map.mp way
  obtain ⟨rfl, rfl, rfl⟩ : i = start ∧ j = stop ∧ c = groups := by simpa using same
  exact FilterSentences.way_parsed inside (FilterRegex.within_sentence text i inside taken)

/-- The four strings of a sentence, cut in its copy. -/
structure Cut (h h' : ReaderHeap) (tmp : Ptr) (result : MatchResult) (text : List Byte)
    (e₁ s₂ e₂ s₃ e₃ s₄ e₄ : Nat) : Prop where
  calls : ∃ h₁ h₂ h₃, endGroup h tmp result 1 = .ok (h₁, 0) ∧ endGroup h₁ tmp result 2 = .ok (h₂, s₂) ∧
    endGroup h₂ tmp result 3 = .ok (h₃, s₃) ∧ endGroup h₃ tmp result 4 = .ok (h', s₄)
  rewrites : Rewrites h h' tmp (.chars (ended (text ++ [0]) [e₁, e₂, e₃, e₄]))

theorem cut_spec {h : ReaderHeap} {tmp : Ptr} (parsed : Parsed text groups e₁ s₂ e₂ s₃ e₃ s₄ e₄)
    (start stop : Nat) (here : h.block tmp = some (.chars (text ++ [0]))) :
    ∃ h', Cut h h' tmp (reported 4 start stop groups) text e₁ s₂ e₂ s₃ e₃ s₄ e₄ := by
  obtain ⟨o₁, o₂, o₃, o₄, o₅, o₆, o₇⟩ := parsed.order
  let result := reported 4 start stop groups
  have group₁ : result.getGroupStart 1 = (0 : Nat) ∧ result.getGroupEnd 1 = e₁ := by
    simp only [result, parsed.captures]
    exact ⟨rfl, rfl⟩
  have group₂ : result.getGroupStart 2 = s₂ ∧ result.getGroupEnd 2 = e₂ := by
    simp only [result, parsed.captures]
    exact ⟨rfl, rfl⟩
  have group₃ : result.getGroupStart 3 = s₃ ∧ result.getGroupEnd 3 = e₃ := by
    simp only [result, parsed.captures]
    exact ⟨rfl, rfl⟩
  have group₄ : result.getGroupStart 4 = s₄ ∧ result.getGroupEnd 4 = e₄ := by
    simp only [result, parsed.captures]
    exact ⟨rfl, rfl⟩
  have length : (text ++ [0]).length = text.length + 1 := List.length_append
  obtain ⟨h₁, cut₁, rewrites₁⟩ := endGroup_spec result 1 here group₁.1 group₁.2 (by omega)
  obtain ⟨h₂, cut₂, rewrites₂⟩ := endGroup_spec result 2 rewrites₁.here group₂.1 group₂.2
    (by rw [List.length_set]; omega)
  obtain ⟨h₃, cut₃, rewrites₃⟩ := endGroup_spec result 3 rewrites₂.here group₃.1 group₃.2
    (by simp only [List.length_set]; omega)
  obtain ⟨h₄, cut₄, rewrites₄⟩ := endGroup_spec result 4 rewrites₃.here group₄.1 group₄.2
    (by simp only [List.length_set]; omega)
  exact ⟨h₄, ⟨h₁, h₂, h₃, cut₁, cut₂, cut₃, cut₄⟩,
    ((rewrites₁.trans rewrites₂).trans rewrites₃).trans rewrites₄⟩

end Sentence

section Representation

/-- The next item, where there is one. -/
def nextOf (h : ReaderHeap) (p : Ptr) : Option Ptr :=
  match h.block p with
  | some (.filterItem item) => some item.next
  | _ => none

/-- The item of a rule and the string of its value. -/
structure RuleAt (h : ReaderHeap) (item : Ptr × Ptr) (rule : FilterItem) : Prop where
  record : ∃ next, h.block item.1 = some (.filterItem
    ⟨next, rule.column, rule.operate, item.2, rule.valueLength, rule.action⟩)
  value : h.block item.2 = some (.chars (rule.value ++ [0]))
  free : 0 ∉ rule.value

/-- The blocks of the items. -/
def blocks (items : List (Ptr × Ptr)) : List Ptr := items.flatMap fun item => [item.1, item.2]

/-- The linked list holds the rules. -/
structure Holds (s : Filters) (items : List (Ptr × Ptr)) (rules : List FilterItem) : Prop where
  linked : Linked (nextOf s.heap) NULL s.filterHeader s.filterTail (items.map (·.1))
  each : List.Forall₂ (RuleAt s.heap) items rules
  owns : Owns s.heap (blocks items)

variable {h h' : ReaderHeap} {s : Filters} {items : List (Ptr × Ptr)} {rules : List FilterItem}
  {item : Ptr × Ptr} {rule : FilterItem}

theorem mem_blocks (inside : item ∈ items) : item.1 ∈ blocks items ∧ item.2 ∈ blocks items :=
  ⟨List.mem_flatMap.mpr ⟨item, inside, by simp⟩, List.mem_flatMap.mpr ⟨item, inside, by simp⟩⟩

theorem blocks_append (items : List (Ptr × Ptr)) (item : Ptr × Ptr) :
    blocks (items ++ [item]) = blocks items ++ [item.1, item.2] := by
  rw [blocks, List.flatMap_append, List.flatMap_singleton]
  rfl

theorem heads_sublist (items : List (Ptr × Ptr)) : (items.map (·.1)).Sublist (blocks items) := by
  induction items with
  | nil => exact .slnil
  | cons item items ih =>
    exact (ih.cons item.2).cons_cons item.1

theorem forall₂_keep {α β : Type} {R S : α → β → Prop} {l : List α} {m : List β}
    (each : List.Forall₂ R l m) (keep : ∀ a ∈ l, ∀ b, R a b → S a b) : List.Forall₂ S l m := by
  induction each with
  | nil => exact .nil
  | cons here _ ih =>
    exact .cons (keep _ List.mem_cons_self _ here) (ih fun a inside => keep a (List.mem_cons_of_mem _ inside))

theorem nextOf_congr {p : Ptr} (kept : h'.block p = h.block p) : nextOf h' p = nextOf h p := by
  rw [nextOf, nextOf, kept]

theorem RuleAt.congr (here : RuleAt h item rule) (kept : h'.block item.1 = h.block item.1)
    (kept' : h'.block item.2 = h.block item.2) : RuleAt h' item rule :=
  ⟨by rw [kept]; exact here.record, by rw [kept']; exact here.value, here.free⟩

/-- An item that only points elsewhere is an item of the same rule. -/
theorem RuleAt.link (here : RuleAt h item rule) {record : FilterItemRecord} {node : Ptr}
    (stands : h.block item.1 = some (.filterItem record))
    (rewrites : Rewrites h h' item.1 (.filterItem { record with next := node }))
    (apart : item.2 ≠ item.1) : RuleAt h' item rule := by
  obtain ⟨next, read⟩ := here.record
  obtain rfl : record = _ := by simpa using stands.symm.trans read
  exact ⟨⟨node, rewrites.here⟩, by rw [rewrites.others _ apart]; exact here.value, here.free⟩

/-- The list is untouched where its blocks are. -/
theorem Holds.congr {s' : Filters} (holds : Holds s items rules)
    (header : s'.filterHeader = s.filterHeader) (tail : s'.filterTail = s.filterTail)
    (kept : ∀ p ∈ blocks items, s'.heap.block p = s.heap.block p) : Holds s' items rules := by
  refine ⟨?_, ?_, ?_⟩
  · rw [header, tail]
    refine holds.linked.congr fun node inside => nextOf_congr (kept node ?_)
    exact (heads_sublist items).subset inside
  · refine forall₂_keep holds.each fun item inside rule here => ?_
    exact here.congr (kept _ (mem_blocks inside).1) (kept _ (mem_blocks inside).2)
  · exact ⟨fun p inside => by rw [kept p inside]; exact holds.owns.live p inside, holds.owns.nodup⟩

/-- Items and values are blocks of different kinds. -/
theorem RuleAt.apart {other : Ptr × Ptr} {rule' : FilterItem} (here : RuleAt h item rule)
    (there : RuleAt h other rule') : item.2 ≠ other.1 := by
  obtain ⟨next, record⟩ := there.record
  intro same
  have value := here.value
  rw [same, record] at value
  cases value

theorem exists_rule {a : Ptr × Ptr} (each : List.Forall₂ (RuleAt h) items rules)
    (inside : a ∈ items) : ∃ rule, RuleAt h a rule := by
  induction each with
  | nil => cases inside
  | cons here _ ih =>
    rcases List.mem_cons.mp inside with rfl | later
    · exact ⟨_, here⟩
    · exact ih later

/-- The new item is put behind the items of the list, and no other block is touched. -/
theorem linkItem_spec (item : Ptr × Ptr) (holds : Holds s items rules)
    (fresh : item.1 ∉ blocks items) (real : item.1 ≠ NULL) (here : RuleAt s.heap item rule)
    (ends : nextOf s.heap item.1 = some NULL) :
    ∃ s', linkItem s item.1 = .ok s' ∧
      Linked (nextOf s'.heap) NULL s'.filterHeader s'.filterTail ((items ++ [item]).map (·.1)) ∧
      List.Forall₂ (RuleAt s'.heap) (items ++ [item]) (rules ++ [rule]) ∧
      (∀ mine, Owns s.heap mine → blocks items ⊆ mine → Changes s.heap s'.heap mine mine) := by
  by_cases empty : s.filterHeader = NULL
  · have none_there : items = [] := List.map_eq_nil_iff.mp (holds.linked.header_eq_null.mp empty)
    subst none_there
    have no_rules := List.forall₂_nil_left_iff.mp holds.each
    subst no_rules
    refine ⟨{ s with filterHeader := item.1, filterTail := item.1 }, ?_, linked_singleton real ends,
      .cons here .nil, fun mine owns _ => Changes.refl owns⟩
    rw [linkItem, if_pos empty]
    rfl
  · have some_there : items.map (·.1) ≠ [] := fun none_there =>
      empty (holds.linked.header_eq_null.mpr none_there)
    obtain ⟨last, last_in, tail⟩ := List.mem_map.mp (holds.linked.tail_mem some_there)
    obtain ⟨lastRule, there⟩ := exists_rule holds.each last_in
    obtain ⟨next, record⟩ := there.record
    rw [tail] at record
    obtain ⟨heap, written, rewrites⟩ := writeItem_spec record fun last => { last with next := item.1 }
    have new : item.1 ≠ s.filterTail := by
      rw [← tail]
      exact fun same => fresh (same ▸ (mem_blocks last_in).1)
    have heads := holds.owns.nodup.sublist (heads_sublist items)
    refine ⟨{ s with heap, filterTail := item.1 }, ?_, ?_, ?_, ?_⟩
    · rw [linkItem, if_neg empty, written]
      rfl
    · rw [List.map_append]
      refine holds.linked.append some_there heads real
        (fun other _ elsewhere => nextOf_congr (rewrites.others other elsewhere)) ?_ ?_
      · show nextOf heap s.filterTail = _
        rw [nextOf, rewrites.here]
      · show nextOf heap item.1 = _
        rw [nextOf_congr (rewrites.others item.1 new), ends]
    · have kept : List.Forall₂ (RuleAt heap) items rules := by
        refine forall₂_keep holds.each fun a inside rule' old => ?_
        have apart : a.2 ≠ s.filterTail := tail ▸ old.apart there
        by_cases same : a.1 = s.filterTail
        · rw [← same] at record rewrites
          exact old.link record rewrites (old.apart old)
        · exact old.congr (rewrites.others a.1 same) (rewrites.others a.2 apart)
      have value : item.2 ≠ s.filterTail := tail ▸ here.apart there
      have added := here.congr (rewrites.others item.1 new) (rewrites.others item.2 value)
      exact List.rel_append kept (.cons added .nil)
    · intro mine owns inside
      refine rewrites.changes owns (inside ?_)
      rw [← tail]
      exact (mem_blocks last_in).1

end Representation

section Adding

theorem sizeT_small {n : Nat} (small : n < 2 ^ 31) : sizeT ((n : Int) + 1) = n + 1 := by
  rw [sizeT, BitVec.toNat_ofInt]
  omega

theorem garbage_length (size : Nat) (garbage : Nat → Byte) :
    ((List.range size).map garbage).length = size := by
  rw [List.length_map, List.length_range]

variable {h₀ h : ReaderHeap} {mine : List Nat} {item tmp : Ptr} {filter : UserString}
  {groups : Captures} {e₁ s₂ e₂ s₃ e₃ s₄ e₄ : Nat} {record : FilterItemRecord}

/-- The strings that the four pointers into the copy point to. -/
theorem strings_spec (parsed : Parsed filter.bytes groups e₁ s₂ e₂ s₃ e₃ s₄ e₄)
    (copied : h.block tmp = some (.chars (ended (filter.bytes ++ [0]) [e₁, e₂, e₃, e₄]))) :
    stringIn h tmp 0 = .ok (captured filter.bytes groups 1) ∧
      stringIn h tmp s₂ = .ok (captured filter.bytes groups 2) ∧
      stringIn h tmp s₃ = .ok (captured filter.bytes groups 3) ∧
      stringIn h tmp s₄ = .ok (captured filter.bytes groups 4) := by
  obtain ⟨o₁, o₂, o₃, o₄, o₅, o₆, o₇⟩ := parsed.order
  rw [parsed.captured₁, parsed.captured₂, parsed.captured₃, parsed.captured₄]
  refine ⟨?_, ?_, ?_, ?_⟩ <;> rw [stringIn_live copied]
  · exact FilterSentences.stringAt_ended filter (Nat.zero_le e₁) (by omega) (by simp) (by simp; omega)
  · exact FilterSentences.stringAt_ended filter o₂ (by omega) (by simp) (by simp; omega)
  · exact FilterSentences.stringAt_ended filter (Nat.le_of_lt o₄) (by omega) (by simp)
      (by simp; omega)
  · exact FilterSentences.stringAt_ended filter o₆ o₇ (by simp) (by simp; omega)

/-- The value of a rule is part of the sentence. -/
theorem value_facts (parsed : Parsed filter.bytes groups e₁ s₂ e₂ s₃ e₃ s₄ e₄) :
    (captured filter.bytes groups 3).length < 2 ^ 31 ∧ 0 ∉ captured filter.bytes groups 3 := by
  obtain ⟨o₁, o₂, o₃, o₄, o₅, o₆, o₇⟩ := parsed.order
  have fits := filter.fits
  rw [parsed.captured₃]
  refine ⟨?_, fun nul => filter.nulFree (List.mem_of_mem_drop (List.mem_of_mem_take nul))⟩
  rw [part_length filter.bytes (by omega)]
  omega

/-- The item is filled in, and has a string of its own if there is memory for it. -/
theorem fillItem_spec (borrows : Borrows h₀ h mine [item, tmp])
    (parsed : Parsed filter.bytes groups e₁ s₂ e₂ s₃ e₃ s₄ e₄)
    (blank : h.block item = some (.filterItem record))
    (copied : h.block tmp = some (.chars (ended (filter.bytes ++ [0]) [e₁, e₂, e₃, e₄])))
    (outcome : Option (Nat → Byte)) :
    ∃ h' copy, fillItem h item tmp 0 s₂ s₃ s₄ outcome = .ok (h', copy) ∧
      match outcome with
      | none => copy = NULL ∧ Borrows h₀ h' mine [item, tmp]
      | some _ => copy ≠ NULL ∧ Borrows h₀ h' mine [copy, item, tmp] ∧
          RuleAt h' (item, copy) (ruleOf filter.bytes groups) ∧ nextOf h' item = some NULL := by
  obtain ⟨column, op, value, action⟩ := strings_spec parsed copied
  obtain ⟨short, free⟩ := value_facts parsed
  have size := sizeT_small short
  rw [← toInt_small short] at size
  cases outcome with
  | none =>
    obtain ⟨h', written, rewrites⟩ := writeItem_spec blank fun _ =>
      ⟨NULL, FilterSentences.getColumnFromString (captured filter.bytes groups 1),
        FilterSentences.getOperateFromString (captured filter.bytes groups 2), NULL,
        toInt (captured filter.bytes groups 3).length,
        FilterSentences.getActionFromString (captured filter.bytes groups 4)⟩
    refine ⟨h', NULL, ?_, rfl, borrows.rewrite List.mem_cons_self rewrites⟩
    simp only [fillItem, column, op, value, action, mallocChars, malloc, Option.map_none, written,
      bind, Except.bind, if_pos]
    rfl
  | some garbage =>
    obtain ⟨copy, h₁, given, real, room, borrows₁, kept⟩ := malloc_spec borrows
      (.chars ((List.range ((captured filter.bytes groups 3).length + 1)).map garbage))
    have blank₁ : h₁.block item = some (.filterItem record) := by rw [kept item (by simp [blank]), blank]
    obtain ⟨h₂, written, rewrites⟩ := writeItem_spec blank₁ fun _ =>
      ⟨NULL, FilterSentences.getColumnFromString (captured filter.bytes groups 1),
        FilterSentences.getOperateFromString (captured filter.bytes groups 2), copy,
        toInt (captured filter.bytes groups 3).length,
        FilterSentences.getActionFromString (captured filter.bytes groups 4)⟩
    have apart : copy ≠ item := by
      rintro rfl
      rw [room] at blank₁
      cases blank₁
    have room₂ := (rewrites.others copy apart).trans room
    obtain ⟨h₃, stored, rewrites₃⟩ := strcpy_spec room₂ (garbage_length _ garbage)
    have record₃ := (rewrites₃.others item apart.symm).trans rewrites.here
    refine ⟨h₃, copy, ?_, real, ?_, ⟨⟨NULL, ?_⟩, rewrites₃.here, free⟩, ?_⟩
    · simp only [fillItem, column, op, value, action, mallocChars, size, Option.map_some, given,
        written, stored, bind, Except.bind, if_neg real]
      rfl
    · exact (borrows₁.rewrite (by simp) rewrites).rewrite (by simp) rewrites₃
    · rw [record₃, toInt_small short]
      rfl
    · rw [nextOf, record₃]

variable {s : Filters} {items : List (Ptr × Ptr)} {rules : List FilterItem}

/-- A list whose own blocks are as they were. -/
theorem Holds.borrowed {heap : ReaderHeap} {extra : List Nat} (holds : Holds s items rules)
    (borrows : Borrows s.heap heap (blocks items) extra) : Holds { s with heap } items rules :=
  holds.congr rfl rfl borrows.kept

/-- The last steps for a new item: it is put into the list, and the copy of the sentence is freed. -/
theorem linkItem_freed {copy : Ptr} {rule : FilterItem} (holds : Holds s items rules)
    (borrows : Borrows s.heap h (blocks items) [copy, item, tmp]) (real : item ≠ NULL)
    (here : RuleAt h (item, copy) rule) (ends : nextOf h item = some NULL) :
    ∃ s' heap, linkItem { s with heap := h } item = .ok s' ∧ free s'.heap tmp = .ok heap ∧
      Holds { s' with heap } (items ++ [(item, copy)]) (rules ++ [rule]) ∧
      Changes s.heap heap (blocks items) (blocks (items ++ [(item, copy)])) := by
  have owns := borrows.changes.owns
  have fresh : item ∉ blocks items := fun inside =>
    (List.nodup_append.mp owns.nodup).2.2 item (by simp) item inside rfl
  obtain ⟨s', linked, list, each, changes⟩ :=
    linkItem_spec (item, copy) (holds.borrowed borrows) fresh real here ends
  have whole := borrows.changes.trans (changes _ owns (List.subset_append_right _ _))
  have freed := free_live (whole.owns.live tmp (by simp))
  have without := Changes.release whole.owns (by simp : tmp ∈ _)
  have left : List.Perm (([copy, item, tmp] ++ blocks items).erase tmp)
      (blocks (items ++ [(item, copy)])) := by
    have first : List.Perm ([copy, item, tmp] ++ blocks items)
        (tmp :: (blocks items ++ [item, copy])) := by
      refine List.perm_iff_count.mpr fun p => ?_
      simp only [List.count_append, List.count_cons, List.count_nil]
      omega
    have erased := first.erase tmp
    rw [List.erase_cons_head] at erased
    rw [blocks_append]
    exact erased
  have total := whole.trans (without.perm left)
  have apart : tmp ∉ blocks (items ++ [(item, copy)]) := by
    intro inside
    exact total.owns.live tmp inside (BlockHeap.release_self s'.heap tmp)
  have kept : ∀ p ∈ blocks (items ++ [(item, copy)]),
      (s'.heap.release tmp).block p = s'.heap.block p := fun p inside =>
    release_other s'.heap fun same : p = tmp => apart (same ▸ inside)
  have before : Holds s' (items ++ [(item, copy)]) (rules ++ [rule]) := by
    refine ⟨list, each, fun p inside => ?_, total.owns.nodup⟩
    rw [← kept p inside]
    exact total.owns.live p inside
  exact ⟨s', s'.heap.release tmp, linked, freed, before.congr rfl rfl kept, total⟩

/-- A sentence that matches becomes a rule where there is memory for it. Where there is none, the
list stays as it is, and what was allocated is freed. -/
theorem addMatched_spec (holds : Holds s items rules)
    (parsed : Parsed filter.bytes groups e₁ s₂ e₂ s₃ e₃ s₄ e₄) (start stop : Nat)
    (mallocs : Mallocs) :
    ∃ s' items', addMatched s filter.bytes (reported 4 start stop groups) mallocs
        = .ok (s', mallocs.given) ∧
      Holds s' items' (rules ++ if mallocs.given then [ruleOf filter.bytes groups] else []) ∧
      Changes s.heap s'.heap (blocks items) (blocks items') := by
  have borrows := Borrows.refl holds.owns
  rcases mallocs with ⟨tmp, item, value⟩
  cases tmp with
  | none =>
    refine ⟨s, items, rfl, ?_, borrows.changes⟩
    rw [Mallocs.given]
    simpa using holds
  | some garbage =>
    obtain ⟨tmp, h₁, given₁, real₁, room₁, borrows₁, -⟩ := malloc_spec borrows
      (.chars ((List.range (filter.bytes.length + 1)).map garbage))
    obtain ⟨h₂, stored, rewrites₂⟩ := strcpy_spec room₁ (garbage_length _ garbage)
    have borrows₂ := borrows₁.rewrite List.mem_cons_self rewrites₂
    obtain ⟨h₃, cut⟩ := cut_spec parsed start stop rewrites₂.here
    obtain ⟨ha, hb, hc, cut₁, cut₂, cut₃, cut₄⟩ := cut.calls
    have borrows₃ := borrows₂.rewrite List.mem_cons_self cut.rewrites
    cases item with
    | none =>
      have freed := free_live (borrows₃.changes.owns.live tmp (by simp))
      have borrows₄ := borrows₃.release
      have refused : malloc h₃ none = (NULL, h₃) := rfl
      refine ⟨{ s with heap := h₃.release tmp }, items, ?_, ?_, borrows₄.changes⟩
      · simp only [addMatched, mallocChars, Option.map_some, given₁, if_neg real₁, stored, cut₁, cut₂,
          cut₃, cut₄, Option.map_none, refused, freed, bind, Except.bind, if_pos]
        rfl
      · simpa [Mallocs.given] using holds.borrowed borrows₄
    | some record =>
      obtain ⟨item, h₄, given₄, real₄, blank, borrows₄, kept₄⟩ := malloc_spec borrows₃
        (.filterItem record)
      have copied : h₄.block tmp = _ := (kept₄ tmp (by simp [cut.rewrites.here])).trans cut.rewrites.here
      obtain ⟨h₅, copy, filled, rest⟩ := fillItem_spec borrows₄ parsed blank copied value
      cases value with
      | none =>
        obtain ⟨rfl, borrows₅⟩ := rest
        have freed₆ := free_live (borrows₅.changes.owns.live item (by simp))
        have borrows₆ := borrows₅.release
        have freed₇ := free_live (borrows₆.changes.owns.live tmp (by simp))
        have borrows₇ := borrows₆.release
        refine ⟨{ s with heap := (h₅.release item).release tmp }, items, ?_, ?_, borrows₇.changes⟩
        · simp only [addMatched, mallocChars, Option.map_some, given₁, if_neg real₁, stored, cut₁,
            cut₂, cut₃, cut₄, given₄, if_neg real₄, filled, freed₆, freed₇, bind, Except.bind, if_pos]
          rfl
        · simpa [Mallocs.given] using holds.borrowed borrows₇
      | some garbage' =>
        obtain ⟨real₅, borrows₅, rule, ends⟩ := rest
        obtain ⟨s₆, h₇, linked₆, freed₇, holds₇, changes₇⟩ :=
          linkItem_freed holds borrows₅ real₄ rule ends
        refine ⟨{ s₆ with heap := h₇ }, items ++ [(item, copy)], ?_, ?_, changes₇⟩
        · simp only [addMatched, mallocChars, Option.map_some, given₁, if_neg real₁, stored, cut₁,
            cut₂, cut₃, cut₄, given₄, if_neg real₄, filled, if_neg real₅, linked₆, freed₇, bind,
            Except.bind]
          rfl
        · simpa [Mallocs.given] using holds₇

end Adding

section Calls

/-- The rule that a call of `AddFilter` adds. -/
def accepted (filter : UserString) (mallocs : Mallocs) : Option FilterItem :=
  if mallocs.given then
    (firstMatch FilterRegex.sentenceBranches.pattern filter.bytes).map fun found =>
      ruleOf filter.bytes found.2.2
  else none

variable {s : Filters} {items : List (Ptr × Ptr)} {rules : List FilterItem}

/-- The regular expression that is built of the literal in the source. -/
theorem match_settles (filter : UserString) :
    Settles (compileAndMatch (FilterRegex.regexp ++ [0]) filter.bytes)
      ((firstMatch FilterRegex.sentenceBranches.pattern filter.bytes).map fun found =>
        reported 4 found.1 found.2.1 found.2.2) := by
  have short : filter.bytes.length ≤ intMax := Nat.le_of_lt_succ filter.fits
  have settled := compileAndMatch_settles FilterRegex.sentenceBranches
    FilterRegex.sentenceBranches_wellFormed [] short
  rwa [FilterRegex.sentenceBranches_text, FilterRegex.sentenceBranches_groups] at settled

theorem addFilter_spec (holds : Holds s items rules) (filter : UserString) (mallocs : Mallocs) :
    ∃ s' items', Settles (addFilter s filter mallocs) (.ok (s', (accepted filter mallocs).isSome)) ∧
      Holds s' items' (rules ++ (accepted filter mallocs).toList) ∧
      Changes s.heap s'.heap (blocks items) (blocks items') := by
  have settled := (match_settles filter).map (addFound s filter.bytes mallocs)
  cases found : firstMatch FilterRegex.sentenceBranches.pattern filter.bytes with
  | none =>
    rw [found] at settled
    have refused : accepted filter mallocs = none := by
      rw [accepted, found]
      split <;> rfl
    rw [refused]
    exact ⟨s, items, settled, by simpa using holds, Changes.refl holds.owns⟩
  | some groups =>
    obtain ⟨start, stop, groups⟩ := groups
    obtain ⟨e₁, s₂, e₂, s₃, e₃, s₄, e₄, parsed⟩ := match_parsed found
    obtain ⟨s', items', added, holds', changes⟩ := addMatched_spec holds parsed start stop mallocs
    have verdict : accepted filter mallocs
        = if mallocs.given then some (ruleOf filter.bytes groups) else none := by
      rw [accepted, found]
      rfl
    rw [found] at settled
    refine ⟨s', items', ?_, ?_, changes⟩
    · have returned : (accepted filter mallocs).isSome = mallocs.given := by
        rw [verdict]
        cases mallocs.given <;> rfl
      rw [returned, ← added]
      exact settled
    · have same : (accepted filter mallocs).toList
          = if mallocs.given then [ruleOf filter.bytes groups] else [] := by
        rw [verdict]
        cases mallocs.given <;> rfl
      rwa [same]

/-- One call after the other. -/
theorem addFilters_spec (holds : Holds s items rules) (calls : List (UserString × Mallocs)) :
    ∃ s' items', Settles (addFilters s calls) (.ok s') ∧
      Holds s' items' (rules ++ calls.filterMap fun call => accepted call.1 call.2) ∧
      Changes s.heap s'.heap (blocks items) (blocks items') := by
  induction calls generalizing s items rules with
  | nil => exact ⟨s, items, settles_of_eq fun _ => rfl, by simpa using holds, Changes.refl holds.owns⟩
  | cons call calls ih =>
    obtain ⟨filter, mallocs⟩ := call
    obtain ⟨s₁, items₁, added, holds₁, changes₁⟩ := addFilter_spec holds filter mallocs
    obtain ⟨s₂, items₂, rest, holds₂, changes₂⟩ := ih holds₁
    refine ⟨s₂, items₂, ?_, ?_, changes₁.trans changes₂⟩
    · exact ResumableSearch.Settles.bind added rest
    · have rules_eq : rules ++ ((filter, mallocs) :: calls).filterMap (fun call => accepted call.1 call.2)
          = rules ++ (accepted filter mallocs).toList
            ++ calls.filterMap fun call => accepted call.1 call.2 := by
        cases verdict : accepted filter mallocs with
        | none => simp [List.filterMap_cons_none, verdict]
        | some rule => simp [List.filterMap_cons_some, verdict]
      rw [rules_eq]
      exact holds₂

/-- On a sentence without the two spaces that the engine does not know, `AddFilter` in memory adds
the rule that it adds to a list. -/
theorem accepted_eq_addFilter {filter : UserString} (known : ∀ c ∈ filter.bytes, c ≠ 11 ∧ c ≠ 12)
    (rules : List FilterItem) (mallocs : Mallocs) :
    FilterSentences.addFilter .textEnd rules filter
        ⟨mallocs.tmp.isSome, mallocs.item.isSome, mallocs.value.isSome⟩
      = .ok (rules ++ (accepted filter mallocs).toList, (accepted filter mallocs).isSome) := by
  have same := (FilterRegex.agrees_sentence known).search_eq
  rw [search_eq_firstMatch] at same
  cases found : firstMatch FilterRegex.sentenceBranches.pattern filter.bytes with
  | none =>
    rw [found] at same
    have refused : accepted filter mallocs = none := by
      rw [accepted, found]
      split <;> rfl
    rw [FilterSentences.addFilter, ← same, refused]
    simp [pure, Except.pure]
  | some groups =>
    rw [found] at same
    rw [FilterSentences.addFilter_matched rules _ same.symm, accepted, found]
    rcases mallocs with ⟨_ | _, _ | _, _ | _⟩
    all_goals simp [Mallocs.given, FilterSentences.available]

theorem adbd_nulFree : 0 ∉ literal "process is /sbin/adbd then exclude" := by decide

theorem adbd_fits : (literal "process is /sbin/adbd then exclude").length < 2 ^ 31 := by decide

/-- The sentence that `main` adds. -/
def adbd : UserString := ⟨_, adbd_nulFree, adbd_fits⟩

example (mallocs : Mallocs) (given : mallocs.given) :
    accepted adbd mallocs
      = some ⟨.columnProcess, .opIs, literal "/sbin/adbd", 10, .actionExclude⟩ := by
  have found : firstMatch FilterRegex.sentenceBranches.pattern adbd.bytes
      = some (0, 34, [(1, 0, 7), (2, 8, 10), (3, 11, 21), (4, 27, 34)]) := by
    decide +kernel
  rw [accepted, if_pos given, found]
  decide

/-- Memory for all three blocks. -/
def roomForAll : Mallocs :=
  ⟨some fun _ => 9, some ⟨9, .columnNone, .opNone, 9, 9, .actionNone⟩, some fun _ => 9⟩

theorem empty_holds : Holds .empty [] [] :=
  ⟨linked_nil _ _ _, .nil, ⟨fun _ inside => (List.not_mem_nil inside).elim, List.nodup_nil⟩⟩

/-- On a sentence without the two spaces that the engine does not know, `AddFilter` with the compiled
pattern and the heap adds to a linked list the rule that the list-level one adds to its list, and
answers the same, whichever of its allocations fail. -/
theorem addFilter_refines (holds : Holds s items rules) {filter : UserString}
    (known : ∀ c ∈ filter.bytes, c ≠ 11 ∧ c ≠ 12) (mallocs : Mallocs) :
    ∃ s' items' rules' added, Settles (addFilter s filter mallocs) (.ok (s', added)) ∧
      FilterSentences.addFilter .textEnd rules filter
          ⟨mallocs.tmp.isSome, mallocs.item.isSome, mallocs.value.isSome⟩ = .ok (rules', added) ∧
      Holds s' items' rules' ∧ Changes s.heap s'.heap (blocks items) (blocks items') := by
  obtain ⟨s', items', settled, holds', changes⟩ := addFilter_spec holds filter mallocs
  exact ⟨s', items', _, _, settled, accepted_eq_addFilter known rules mallocs, holds', changes⟩

theorem adbd_refines : ∃ s' items' rules' added,
    Settles (addFilter .empty adbd roomForAll) (.ok (s', added)) ∧
    FilterSentences.addFilter .textEnd [] adbd ⟨true, true, true⟩ = .ok (rules', added) ∧
    Holds s' items' rules' ∧ Changes Filters.empty.heap s'.heap (blocks []) (blocks items') :=
  addFilter_refines empty_holds (by decide) roomForAll

end Calls

section Walk

variable {h : ReaderHeap} {items : List (Ptr × Ptr)} {rules : List FilterItem} {r : LogRecord}

theorem RuleAt.reads {item : Ptr × Ptr} {rule : FilterItem} (here : RuleAt h item rule) :
    ruleAt h item.1 = .ok rule ∧
      ∃ record, readItem h item.1 = .ok record ∧ nextOf h item.1 = some record.next ∧
        record.action = rule.action := by
  obtain ⟨next, record⟩ := here.record
  have read := readItem_live record
  have value : stringIn h item.2 0 = .ok rule.value := by
    rw [stringIn_live here.value]
    exact stringAt_terminated here.free []
  refine ⟨?_, _, read, by rw [nextOf, record], rfl⟩
  simp only [ruleAt, read, value, bind, Except.bind]
  rfl

/-- The loop of `FilterLog` goes along the list as through its rules. -/
theorem filterFrom_spec (each : List.Forall₂ (RuleAt h) items rules) {p : Ptr}
    (path : Path (nextOf h) p (items.map (·.1)) NULL) (real : NULL ∉ items.map (·.1))
    (worlds : Nat → World) (result : ActionResult) :
    Settles (fun fuel => filterFrom h r fuel worlds p result)
      (Filter.filterFrom worlds r rules result) := by
  induction each generalizing p worlds result with
  | nil =>
    cases path
    exact follows_of_succ (fun _ => if_pos rfl) _ (settles_of_eq fun _ => rfl)
  | @cons item rule items rules here _ ih =>
    rw [List.map_cons] at path real
    cases path with
    | @step _ next _ _ link rest =>
      obtain ⟨rule_read, record, read, next_read, action⟩ := here.reads
      obtain rfl : record.next = next := by simpa using next_read.symm.trans link
      have real' : NULL ∉ items.map (·.1) := List.not_mem_of_not_mem_cons real
      have later := fun result => ih rest real' (fun k => worlds (k + 1)) result
      have going : item.1 ≠ NULL := fun same => real (same ▸ List.mem_cons_self)
      have round : ∀ fuel, filterFrom h r (fuel + 1) worlds item.1 result
          = match filterOneLog (worlds 0) rule r with
            | .error fault => some (.error fault)
            | .ok result =>
              if rule.action = .actionInclude ∧ result = .resultInclude then some (.ok result)
              else if rule.action = .actionExclude then
                if result = .resultExclude then some (.ok result)
                else filterFrom h r fuel (fun k => worlds (k + 1)) record.next .resultInclude
              else filterFrom h r fuel (fun k => worlds (k + 1)) record.next result := by
        intro fuel
        rw [filterFrom, if_neg going]
        simp only [rule_read, read, bind, Except.bind, ← action]
        cases filterOneLog (worlds 0) rule r <;> rfl
      refine follows_of_succ round _ ?_
      rw [Filter.filterFrom]
      cases filterOneLog (worlds 0) rule r with
      | error fault => exact settles_of_eq fun _ => rfl
      | ok result =>
        simp only [bind, Except.bind]
        by_cases shown : rule.action = .actionInclude ∧ result = .resultInclude
        · simp only [if_pos shown]
          exact settles_of_eq fun _ => rfl
        by_cases hides : rule.action = .actionExclude
        · by_cases hidden : result = .resultExclude
          · simp only [if_neg shown, if_pos hides, if_pos hidden]
            exact settles_of_eq fun _ => rfl
          · simp only [if_neg shown, if_pos hides, if_neg hidden]
            exact later .resultInclude
        · simp only [if_neg shown, if_neg hides]
          exact later result

/-- Whatever sentences `AddFilter` was called with and whichever of its allocations failed, nothing
goes wrong in memory, the linked list holds the rules that were accepted, the live blocks are an
item and a string for each of them, and `FilterLog` decides as the list of these rules. -/
theorem filters_decide (calls : List (UserString × Mallocs)) :
    ∃ s items, Settles (addFilters .empty calls) (.ok s) ∧
      Holds s items (calls.filterMap fun call => accepted call.1 call.2) ∧
      items.length = (calls.filterMap fun call => accepted call.1 call.2).length ∧
      (blocks items).Nodup ∧ (∀ p, s.heap.block p ≠ none ↔ p ∈ blocks items) ∧
      ∀ worlds r, Settles (filterLog worlds s r)
        (Filter.filterLog worlds (calls.filterMap fun call => accepted call.1 call.2) r) := by
  obtain ⟨s, items, settled, holds, changes⟩ := addFilters_spec empty_holds calls
  rw [List.nil_append] at holds
  refine ⟨s, items, settled, holds, holds.each.length_eq, holds.owns.nodup,
    fun p => ⟨fun live => ?_, holds.owns.live p⟩,
    fun worlds r => filterFrom_spec holds.each holds.linked.path holds.linked.nonnull worlds _⟩
  exact changes.tight p (Or.inr (Nat.pos_of_ne_zero (ne_null live))) live

end Walk

end SysMonitor.Guarantees.FilterMemory
