import Mathlib.Data.List.Infix
import Mathlib.Data.List.TakeWhile

/-!
# Regular expressions as a backtracking search

A pattern is tried at a position of a text and has an ordered list of ways to match there:
the earlier alternative first, the longer repetition first. A search takes the first way at
the leftmost position that has one. Groups capture where they begin and end.
-/

namespace SysMonitor.Library.Backtracking

variable {α : Type*}

inductive Pattern (α : Type*) where
  | word (w : List α)
  | one (accepts : α → Bool)
  | many (accepts : α → Bool)
  | optional (p : Pattern α)
  | seq (p q : Pattern α)
  | alt (p q : Pattern α)
  | group (number : Nat) (p : Pattern α)
  | assert (holds : List α → Nat → Bool)

/-- Alternatives, the first tried first. -/
def Pattern.anyOf : List (Pattern α) → Pattern α
  | [] => .assert fun _ _ => false
  | [p] => p
  | p :: q :: rest => .alt p (anyOf (q :: rest))

/-- The number of a group with the positions where it begins and ends. -/
abbrev Captures := List (Nat × Nat × Nat)

/-- What stands between two positions. -/
def part (text : List α) (i j : Nat) : List α := (text.drop i).take (j - i)

/-- The repetitions of one cell or more, the longest first. -/
def repetitions (accepts : α → Bool) (rest : List α) (i : Nat) : List (Nat × Captures) :=
  (List.range (rest.takeWhile accepts).length).reverse.map fun k => (i + k + 1, [])

/-- The ways to match a pattern from a position on, each with the position behind it. -/
def ways [DecidableEq α] (text : List α) : Pattern α → Nat → List (Nat × Captures)
  | .word w, i => if w <+: text.drop i then [(i + w.length, [])] else []
  | .one accepts, i => if (text[i]?).any accepts then [(i + 1, [])] else []
  | .many accepts, i => repetitions accepts (text.drop i) i
  | .optional p, i => ways text p i ++ [(i, [])]
  | .seq p q, i =>
    (ways text p i).flatMap fun first =>
      (ways text q first.1).map fun second => (second.1, first.2 ++ second.2)
  | .alt p q, i => ways text p i ++ ways text q i
  | .group number p, i =>
    (ways text p i).map fun way => (way.1, (number, i, way.1) :: way.2)
  | .assert holds, i => if holds text i then [(i, [])] else []

/-- The captures of the first way at the leftmost position where there is one. -/
def search [DecidableEq α] (p : Pattern α) (text : List α) : Option Captures :=
  (((List.range (text.length + 1)).flatMap (ways text p)).head?).map (·.2)

/-- Where a group begins and ends. -/
def Captures.at (captures : Captures) (number : Nat) : Option (Nat × Nat) := captures.lookup number

/-- What a group captured, nothing where it took no part. -/
def captured (text : List α) (captures : Captures) (number : Nat) : List α :=
  match captures.at number with
  | some (i, j) => part text i j
  | none => []

/-- The texts that a pattern stands for, whatever surrounds them. -/
def Denotes : Pattern α → List α → Prop
  | .word w, s => s = w
  | .one accepts, s => ∃ x, accepts x ∧ s = [x]
  | .many accepts, s => s ≠ [] ∧ ∀ x ∈ s, accepts x
  | .optional p, s => Denotes p s ∨ s = []
  | .seq p q, s => ∃ u v, Denotes p u ∧ Denotes q v ∧ s = u ++ v
  | .alt p q, s => Denotes p s ∨ Denotes q s
  | .group _ p, s => Denotes p s
  | .assert _, s => s = []

/-- A pattern that captures nothing. -/
def Pattern.groupFree : Pattern α → Bool
  | .word _ | .one _ | .many _ | .assert _ => true
  | .optional p => p.groupFree
  | .seq p q | .alt p q => p.groupFree && q.groupFree
  | .group _ _ => false

/-- The numbers of the groups of a pattern, as their brackets open. -/
def Pattern.groups : Pattern α → List Nat
  | .word _ | .one _ | .many _ | .assert _ => []
  | .optional p => p.groups
  | .seq p q | .alt p q => p.groups ++ q.groups
  | .group number p => number :: p.groups

theorem groups_anyOf (patterns : List (Pattern α)) :
    (Pattern.anyOf patterns).groups = patterns.flatMap Pattern.groups := by
  induction patterns with
  | nil => rfl
  | cons p rest ih =>
    cases rest with
    | nil => exact (List.append_nil _).symm
    | cons q rest =>
      rw [Pattern.anyOf, Pattern.groups, ih]
      rfl

theorem denotes_anyOf (p : Pattern α) (rest : List (Pattern α)) (s : List α) :
    Denotes (.anyOf (p :: rest)) s ↔ ∃ q ∈ p :: rest, Denotes q s := by
  induction rest generalizing p with
  | nil => simp [Pattern.anyOf]
  | cons q rest ih =>
    rw [Pattern.anyOf, Denotes, ih q]
    simp only [List.mem_cons, exists_eq_or_imp]

section Parts

variable (text : List α) {i j k : Nat}

theorem part_length (inside : j ≤ text.length) : (part text i j).length = j - i := by
  rw [part, List.length_take, List.length_drop]
  omega

theorem part_append (first : i ≤ j) (second : j ≤ k) :
    part text i j ++ part text j k = part text i k := by
  have whole : (text.drop i).drop (j - i) = text.drop j := by
    rw [List.drop_drop]
    congr 1
    omega
  rw [part, part, part, ← whole, ← List.take_add]
  congr 1
  omega

theorem part_singleton {x : α} (stands : text[i]? = some x) : part text i (i + 1) = [x] := by
  obtain ⟨inside, rfl⟩ := List.getElem?_eq_some_iff.mp stands
  rw [part, List.drop_eq_getElem_cons inside, Nat.add_sub_cancel_left]
  rfl

@[simp] theorem part_self : part text i i = [] := by
  rw [part, Nat.sub_self, List.take_zero]

theorem part_word {w : List α} (begins : w <+: text.drop i) : part text i (i + w.length) = w := by
  rw [part, Nat.add_sub_cancel_left]
  exact (List.prefix_iff_eq_take.mp begins).symm

/-- How far a run of accepted cells goes. -/
theorem le_length_takeWhile (accepts : α → Bool) (rest : List α) (n : Nat) :
    n ≤ (rest.takeWhile accepts).length ↔ n ≤ rest.length ∧ ∀ x ∈ rest.take n, accepts x := by
  induction rest generalizing n with
  | nil => simp
  | cons x rest ih =>
    cases n with
    | zero => simp
    | succ n =>
      by_cases accepted : accepts x
      · simp [accepted, ih n]
      · simp [accepted]

end Parts

section Ways

variable [DecidableEq α] {text : List α} {i j : Nat} {c : Captures}

theorem mem_ways_word {w : List α} :
    (j, c) ∈ ways text (.word w) i ↔ w <+: text.drop i ∧ j = i + w.length ∧ c = [] := by
  show (j, c) ∈ (if w <+: text.drop i then [(i + w.length, [])] else []) ↔ _
  split <;> simp [*]

theorem mem_ways_one {accepts : α → Bool} :
    (j, c) ∈ ways text (.one accepts) i ↔
      ∃ x, text[i]? = some x ∧ accepts x ∧ j = i + 1 ∧ c = [] := by
  show (j, c) ∈ (if (text[i]?).any accepts then [(i + 1, [])] else []) ↔ _
  cases text[i]? with
  | none => simp
  | some x => by_cases accepted : accepts x <;> simp [accepted]

/-- Every repetition that stays with accepted cells is a way, whatever its length. -/
theorem mem_ways_many {accepts : α → Bool} :
    (j, c) ∈ ways text (.many accepts) i ↔
      i < j ∧ j ≤ text.length ∧ (∀ x ∈ part text i j, accepts x) ∧ c = [] := by
  have run := le_length_takeWhile accepts (text.drop i)
  show (j, c) ∈ repetitions accepts (text.drop i) i ↔ _
  simp only [repetitions, List.mem_map, List.mem_reverse, List.mem_range, Prod.mk.injEq]
  constructor
  · rintro ⟨k, within, rfl, rfl⟩
    obtain ⟨short, accepted⟩ := (run (k + 1)).mp within
    rw [List.length_drop] at short
    refine ⟨by omega, by omega, ?_, rfl⟩
    rwa [part, Nat.add_assoc, Nat.add_sub_cancel_left]
  · rintro ⟨before, inside, accepted, rfl⟩
    refine ⟨j - i - 1, ?_, by omega, rfl⟩
    have length : j - i - 1 + 1 = j - i := by omega
    rw [Nat.lt_iff_add_one_le, length, run, List.length_drop]
    exact ⟨by omega, accepted⟩

theorem mem_ways_optional {p : Pattern α} :
    (j, c) ∈ ways text (.optional p) i ↔ (j, c) ∈ ways text p i ∨ (j = i ∧ c = []) := by
  show (j, c) ∈ ways text p i ++ [(i, [])] ↔ _
  simp

theorem mem_ways_seq {p q : Pattern α} :
    (j, c) ∈ ways text (.seq p q) i ↔
      ∃ m first second, (m, first) ∈ ways text p i ∧ (j, second) ∈ ways text q m ∧
        c = first ++ second := by
  show (j, c) ∈ ((ways text p i).flatMap fun first =>
    (ways text q first.1).map fun second => (second.1, first.2 ++ second.2)) ↔ _
  simp only [List.mem_flatMap, List.mem_map, Prod.exists, Prod.mk.injEq]
  constructor
  · rintro ⟨m, first, way, k, second, rest, rfl, rfl⟩
    exact ⟨m, first, second, way, rest, rfl⟩
  · rintro ⟨m, first, second, way, rest, rfl⟩
    exact ⟨m, first, way, j, second, rest, rfl, rfl⟩

theorem mem_ways_alt {p q : Pattern α} :
    (j, c) ∈ ways text (.alt p q) i ↔ (j, c) ∈ ways text p i ∨ (j, c) ∈ ways text q i :=
  List.mem_append

theorem mem_ways_group {p : Pattern α} {number : Nat} :
    (j, c) ∈ ways text (.group number p) i ↔
      ∃ inner, (j, inner) ∈ ways text p i ∧ c = (number, i, j) :: inner := by
  show (j, c) ∈ (ways text p i).map (fun way => (way.1, (number, i, way.1) :: way.2)) ↔ _
  simp only [List.mem_map, Prod.exists, Prod.mk.injEq]
  constructor
  · rintro ⟨k, inner, way, rfl, rfl⟩
    exact ⟨inner, way, rfl⟩
  · rintro ⟨inner, way, rfl⟩
    exact ⟨j, inner, way, rfl, rfl⟩

theorem mem_ways_assert {holds : List α → Nat → Bool} :
    (j, c) ∈ ways text (.assert holds) i ↔ holds text i ∧ j = i ∧ c = [] := by
  show (j, c) ∈ (if holds text i then [(i, [])] else []) ↔ _
  split <;> simp [*]

/-- A way does not go back, and it does not leave the text. -/
theorem ways_bounds {p : Pattern α} (way : (j, c) ∈ ways text p i) (inside : i ≤ text.length) :
    i ≤ j ∧ j ≤ text.length := by
  induction p generalizing i j c with
  | word w =>
    obtain ⟨begins, rfl, rfl⟩ := mem_ways_word.mp way
    have short := begins.length_le
    rw [List.length_drop] at short
    omega
  | one accepts =>
    obtain ⟨x, stands, -, rfl, rfl⟩ := mem_ways_one.mp way
    have below := (List.getElem?_eq_some_iff.mp stands).1
    omega
  | many accepts =>
    obtain ⟨before, within, -⟩ := mem_ways_many.mp way
    exact ⟨Nat.le_of_lt before, within⟩
  | optional p ih =>
    rcases mem_ways_optional.mp way with taken | ⟨rfl, rfl⟩
    · exact ih taken inside
    · exact ⟨Nat.le_refl _, inside⟩
  | seq p q ihp ihq =>
    obtain ⟨m, first, second, front, rest, rfl⟩ := mem_ways_seq.mp way
    obtain ⟨before, within⟩ := ihp front inside
    obtain ⟨before', within'⟩ := ihq rest within
    exact ⟨Nat.le_trans before before', within'⟩
  | alt p q ihp ihq =>
    rcases mem_ways_alt.mp way with left | right
    · exact ihp left inside
    · exact ihq right inside
  | group number p ih =>
    obtain ⟨inner, taken, rfl⟩ := mem_ways_group.mp way
    exact ih taken inside
  | assert holds =>
    obtain ⟨-, rfl, rfl⟩ := mem_ways_assert.mp way
    exact ⟨Nat.le_refl _, inside⟩

/-- What a way matches is one of the texts that the pattern stands for. -/
theorem denotes_part {p : Pattern α} (way : (j, c) ∈ ways text p i) (inside : i ≤ text.length) :
    Denotes p (part text i j) := by
  induction p generalizing i j c with
  | word w =>
    obtain ⟨begins, rfl, rfl⟩ := mem_ways_word.mp way
    exact part_word text begins
  | one accepts =>
    obtain ⟨x, stands, accepted, rfl, rfl⟩ := mem_ways_one.mp way
    exact ⟨x, accepted, part_singleton text stands⟩
  | many accepts =>
    obtain ⟨before, within, accepted, rfl⟩ := mem_ways_many.mp way
    refine ⟨List.ne_nil_of_length_pos ?_, accepted⟩
    rw [part_length text within]
    omega
  | optional p ih =>
    rcases mem_ways_optional.mp way with taken | ⟨rfl, rfl⟩
    · exact .inl (ih taken inside)
    · exact .inr (part_self text)
  | seq p q ihp ihq =>
    obtain ⟨m, first, second, front, rest, rfl⟩ := mem_ways_seq.mp way
    obtain ⟨before, within⟩ := ways_bounds front inside
    obtain ⟨before', -⟩ := ways_bounds rest within
    exact ⟨part text i m, part text m j, ihp front inside, ihq rest within,
      (part_append text before before').symm⟩
  | alt p q ihp ihq =>
    rcases mem_ways_alt.mp way with left | right
    · exact .inl (ihp left inside)
    · exact .inr (ihq right inside)
  | group number p ih =>
    obtain ⟨inner, taken, rfl⟩ := mem_ways_group.mp way
    exact ih taken inside
  | assert holds =>
    obtain ⟨-, rfl, rfl⟩ := mem_ways_assert.mp way
    exact part_self text

theorem captures_nil {p : Pattern α} (free : p.groupFree = true) (way : (j, c) ∈ ways text p i) :
    c = [] := by
  induction p generalizing i j c with
  | word w => exact (mem_ways_word.mp way).2.2
  | one accepts =>
    obtain ⟨x, -, -, -, rfl⟩ := mem_ways_one.mp way
    rfl
  | many accepts => exact (mem_ways_many.mp way).2.2.2
  | optional p ih =>
    rcases mem_ways_optional.mp way with taken | ⟨-, rfl⟩
    · exact ih free taken
    · rfl
  | seq p q ihp ihq =>
    obtain ⟨freep, freeq⟩ := Bool.and_eq_true_iff.mp free
    obtain ⟨m, first, second, front, rest, rfl⟩ := mem_ways_seq.mp way
    rw [ihp freep front, ihq freeq rest, List.append_nil]
  | alt p q ihp ihq =>
    obtain ⟨freep, freeq⟩ := Bool.and_eq_true_iff.mp free
    rcases mem_ways_alt.mp way with left | right
    · exact ihp freep left
    · exact ihq freeq right
  | group number p => cases free
  | assert holds => exact (mem_ways_assert.mp way).2.2

/-- A group and what follows it. -/
theorem way_group_seq {p q : Pattern α} {number : Nat}
    (way : (j, c) ∈ ways text (.seq (.group number p) q) i) (inside : i ≤ text.length)
    (free : p.groupFree = true) :
    ∃ m captures, i ≤ m ∧ m ≤ text.length ∧ Denotes p (part text i m) ∧
      (j, captures) ∈ ways text q m ∧ c = (number, i, m) :: captures := by
  obtain ⟨m, first, second, front, rest, rfl⟩ := mem_ways_seq.mp way
  obtain ⟨before, within⟩ := ways_bounds front inside
  obtain ⟨inner, taken, rfl⟩ := mem_ways_group.mp front
  rw [captures_nil free taken]
  exact ⟨m, second, before, within, denotes_part taken inside, rest, rfl⟩

/-- The captures of a search are those of a way from a position of the text. -/
theorem search_way {p : Pattern α} (found : search p text = some c) :
    ∃ start stop, start ≤ text.length ∧ (stop, c) ∈ ways text p start := by
  obtain ⟨⟨stop, captures⟩, first, rfl⟩ := Option.map_eq_some_iff.mp found
  obtain ⟨start, below, way⟩ := List.mem_flatMap.mp (List.mem_of_head? first)
  exact ⟨start, stop, Nat.le_of_lt_succ (List.mem_range.mp below), way⟩

/-- The ways of alternatives, in their order. -/
theorem ways_anyOf (patterns : List (Pattern α)) :
    ways text (.anyOf patterns) i = patterns.flatMap fun p => ways text p i := by
  induction patterns with
  | nil => rfl
  | cons p rest ih =>
    cases rest with
    | nil => exact (List.append_nil _).symm
    | cons q rest =>
      rw [Pattern.anyOf, ways, ih]
      rfl

/-- Two patterns have the same ways from every position of the text. -/
def Agrees (text : List α) (p q : Pattern α) : Prop :=
  ∀ i, i ≤ text.length → ways text p i = ways text q i

/-- Every way of the one pattern is a way of the other. -/
def Within (text : List α) (p q : Pattern α) : Prop :=
  ∀ i, i ≤ text.length → ways text p i ⊆ ways text q i

/-- A relation that patterns inherit from their parts. -/
structure Congruence (text : List α) (R : Pattern α → Pattern α → Prop) : Prop where
  agrees {p q : Pattern α} : Agrees text p q → R p q
  trans {p q r : Pattern α} : R p q → R q r → R p r
  seq {p p' q q' : Pattern α} : R p p' → R q q' → R (.seq p q) (.seq p' q')
  group {p q : Pattern α} (number : Nat) : R p q → R (.group number p) (.group number q)
  anyOf {patterns patterns' : List (Pattern α)} :
    List.Forall₂ R patterns patterns' → R (.anyOf patterns) (.anyOf patterns')

theorem agrees_refl (p : Pattern α) : Agrees text p p := fun _ _ => rfl

theorem agrees_seq_assoc (p q r : Pattern α) :
    Agrees text (.seq p (.seq q r)) (.seq (.seq p q) r) := by
  intro i _
  simp only [ways, List.flatMap_assoc, List.flatMap_map, List.map_flatMap, List.map_map,
    Function.comp_def, List.append_assoc]

theorem agrees_assert {holds holds' : List α → Nat → Bool}
    (same : ∀ i, i ≤ text.length → holds text i = holds' text i) :
    Agrees text (.assert holds) (.assert holds') := by
  intro i inside
  rw [ways, ways, same i inside]

theorem agrees_one {accepts accepts' : α → Bool} (same : ∀ x ∈ text, accepts x = accepts' x) :
    Agrees text (.one accepts) (.one accepts') := by
  intro i _
  rw [ways, ways]
  cases here : text[i]? with
  | none => rfl
  | some x => simp only [Option.any_some, same x (List.mem_of_getElem? here)]

theorem within_one {accepts accepts' : α → Bool} (more : ∀ x, accepts x → accepts' x) :
    Within text (.one accepts) (.one accepts') := by
  intro i _ way taken
  obtain ⟨x, stands, accepted, there⟩ := mem_ways_one.mp taken
  exact mem_ways_one.mpr ⟨x, stands, more x accepted, there⟩

theorem agrees_congruence (text : List α) : Congruence text (Agrees text) where
  agrees same := same
  trans one other i inside := (one i inside).trans (other i inside)
  seq {p p' q q'} first rest i inside := by
    rw [ways, ways, first i inside]
    refine List.flatMap_congr fun way found => ?_
    have within := (ways_bounds (j := way.1) (c := way.2) (first i inside ▸ found) inside).2
    rw [rest way.1 within]
  group {p q} number inner i inside := by
    rw [ways, ways, inner i inside]
  anyOf {patterns patterns'} each i inside := by
    rw [ways_anyOf, ways_anyOf]
    induction each with
    | nil => rfl
    | cons here _ ih => rw [List.flatMap_cons, List.flatMap_cons, here i inside, ih]

theorem within_congruence (text : List α) : Congruence text (Within text) where
  agrees same i inside way taken := same i inside ▸ taken
  trans one other i inside way taken := other i inside (one i inside taken)
  seq {p p' q q'} first rest i inside way taken := by
    obtain ⟨m, c, c', front, behind, captured⟩ := mem_ways_seq.mp taken
    have below := (ways_bounds front inside).2
    exact mem_ways_seq.mpr ⟨m, c, c', first i inside front, rest m below behind, captured⟩
  group {p q} number inner i inside way taken := by
    obtain ⟨c, front, captured⟩ := mem_ways_group.mp taken
    exact mem_ways_group.mpr ⟨c, inner i inside front, captured⟩
  anyOf {patterns patterns'} each i inside way taken := by
    rw [ways_anyOf] at taken ⊢
    induction each with
    | nil => exact taken
    | cons here _ ih =>
      rcases List.mem_append.mp taken with first | later
      · exact List.mem_append_left _ (here i inside first)
      · exact List.mem_append_right _ (ih later)

theorem Agrees.search_eq {p q : Pattern α} (agrees : Agrees text p q) :
    search p text = search q text := by
  rw [search, search]
  congr 2
  refine List.flatMap_congr fun i inside => ?_
  exact agrees i (Nat.le_of_lt_succ (List.mem_range.mp inside))

/-- A way captures groups of its pattern. -/
theorem capture_mem_groups {p : Pattern α} (way : (j, c) ∈ ways text p i) {number : Nat}
    {positions : Nat × Nat} (captured : (number, positions) ∈ c) : number ∈ p.groups := by
  induction p generalizing i j c with
  | word w => simp [(mem_ways_word.mp way).2.2] at captured
  | one accepts =>
    obtain ⟨x, -, -, -, rfl⟩ := mem_ways_one.mp way
    cases captured
  | many accepts => simp [(mem_ways_many.mp way).2.2.2] at captured
  | optional p ih =>
    rcases mem_ways_optional.mp way with taken | ⟨-, rfl⟩
    · exact ih taken captured
    · cases captured
  | seq p q ihp ihq =>
    obtain ⟨m, first, second, front, rest, rfl⟩ := mem_ways_seq.mp way
    rcases List.mem_append.mp captured with left | right
    · exact List.mem_append_left _ (ihp front left)
    · exact List.mem_append_right _ (ihq rest right)
  | alt p q ihp ihq =>
    rcases mem_ways_alt.mp way with left | right
    · exact List.mem_append_left _ (ihp left captured)
    · exact List.mem_append_right _ (ihq right captured)
  | group n p ih =>
    obtain ⟨inner, taken, rfl⟩ := mem_ways_group.mp way
    rcases List.mem_cons.mp captured with here | inside
    · rw [(Prod.mk.inj here).1]
      exact List.mem_cons_self
    · exact List.mem_cons_of_mem _ (ih taken inside)
  | assert holds => simp [(mem_ways_assert.mp way).2.2] at captured

/-- A group lies within the way that captures it. -/
theorem capture_bounds {p : Pattern α} (way : (j, c) ∈ ways text p i) (inside : i ≤ text.length)
    {number start stop : Nat} (captured : (number, start, stop) ∈ c) :
    i ≤ start ∧ start ≤ stop ∧ stop ≤ j := by
  induction p generalizing i j c with
  | word w => simp [(mem_ways_word.mp way).2.2] at captured
  | one accepts =>
    obtain ⟨x, -, -, -, rfl⟩ := mem_ways_one.mp way
    cases captured
  | many accepts => simp [(mem_ways_many.mp way).2.2.2] at captured
  | optional p ih =>
    rcases mem_ways_optional.mp way with taken | ⟨-, rfl⟩
    · exact ih taken inside captured
    · cases captured
  | seq p q ihp ihq =>
    obtain ⟨m, first, second, front, rest, rfl⟩ := mem_ways_seq.mp way
    obtain ⟨before, within⟩ := ways_bounds front inside
    obtain ⟨before', -⟩ := ways_bounds rest within
    rcases List.mem_append.mp captured with left | right
    · obtain ⟨above, ordered, below⟩ := ihp front inside left
      exact ⟨above, ordered, Nat.le_trans below before'⟩
    · obtain ⟨above, ordered, below⟩ := ihq rest within right
      exact ⟨Nat.le_trans before above, ordered, below⟩
  | alt p q ihp ihq =>
    rcases mem_ways_alt.mp way with left | right
    · exact ihp left inside captured
    · exact ihq right inside captured
  | group n p ih =>
    obtain ⟨inner, taken, rfl⟩ := mem_ways_group.mp way
    rcases List.mem_cons.mp captured with here | deeper
    · obtain ⟨-, rfl, rfl⟩ : number = n ∧ start = i ∧ stop = j := by simpa using here
      exact ⟨Nat.le_refl _, (ways_bounds taken inside).1, Nat.le_refl _⟩
    · exact ih taken inside deeper
  | assert holds => simp [(mem_ways_assert.mp way).2.2] at captured

/-- Where the groups of a pattern have different numbers, a way captures none of them twice. -/
theorem captures_nodup {p : Pattern α} (apart : p.groups.Nodup) (way : (j, c) ∈ ways text p i) :
    (c.map (·.1)).Nodup := by
  induction p generalizing i j c with
  | word w => simp [(mem_ways_word.mp way).2.2]
  | one accepts =>
    obtain ⟨x, -, -, -, rfl⟩ := mem_ways_one.mp way
    exact List.nodup_nil
  | many accepts => simp [(mem_ways_many.mp way).2.2.2]
  | optional p ih =>
    rcases mem_ways_optional.mp way with taken | ⟨-, rfl⟩
    · exact ih apart taken
    · exact List.nodup_nil
  | seq p q ihp ihq =>
    obtain ⟨apartp, apartq, disjoint⟩ := List.nodup_append.mp apart
    obtain ⟨m, first, second, front, rest, rfl⟩ := mem_ways_seq.mp way
    rw [List.map_append]
    refine List.nodup_append.mpr ⟨ihp apartp front, ihq apartq rest, ?_⟩
    intro number left other right
    obtain ⟨⟨n, positions⟩, inside, rfl⟩ := List.mem_map.mp left
    obtain ⟨⟨m, positions'⟩, inside', rfl⟩ := List.mem_map.mp right
    exact disjoint _ (capture_mem_groups front inside) _ (capture_mem_groups rest inside')
  | alt p q ihp ihq =>
    obtain ⟨apartp, apartq, -⟩ := List.nodup_append.mp apart
    rcases mem_ways_alt.mp way with left | right
    · exact ihp apartp left
    · exact ihq apartq right
  | group n p ih =>
    obtain ⟨free, apart⟩ := List.nodup_cons.mp apart
    obtain ⟨inner, taken, rfl⟩ := mem_ways_group.mp way
    refine List.nodup_cons.mpr ⟨?_, ih apart taken⟩
    intro inside
    obtain ⟨⟨m, positions⟩, captured, rfl⟩ := List.mem_map.mp inside
    exact free (capture_mem_groups taken captured)
  | assert holds => simp [(mem_ways_assert.mp way).2.2]

end Ways

end SysMonitor.Library.Backtracking
