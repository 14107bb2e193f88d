import SysMonitor.Source.Filter

/-!
# When the operators of a rule agree

`is`, `begins with` and `ends with` do not distinguish capital letters from small ones, but
`contains` and `excludes` do. So a value can begin with a text that it does not contain.
-/

namespace SysMonitor.Guarantees.FilterOperators
open SysMonitor.Source SysMonitor.Source.Filter SysMonitor.Source.ReaderStrings

/-- A rule for a text, with the length that `AddFilter` gives it. -/
def ruleFor (column : ColumnItem) (action : ActionItem) (text : UserString)
    (operate : OperateType) : FilterItem :=
  ⟨column, operate, text.bytes, text.bytes.length, action⟩

/-- `FilterValueWithFilter` says that the value matches. -/
def Matches (column : ColumnItem) (action : ActionItem) (value text : UserString)
    (operate : OperateType) : Prop :=
  filterValueWithFilter value.bytes (ruleFor column action text operate) ≠ .resultNone

structure Consistent (fits : OperateType → Prop) : Prop where
  isBegins : fits .opIs → fits .opBeginsWith
  isEnds : fits .opIs → fits .opEndsWith
  beginsContains : fits .opBeginsWith → fits .opContains
  endsContains : fits .opEndsWith → fits .opContains
  isNot : fits .opIsNot ↔ ¬ fits .opIs
  excludes : fits .opExcludes ↔ ¬ fits .opContains

/-- In small letters. -/
def lowered (s : UserString) : List Byte := s.bytes.map toLower

/-- The value begins or ends with the text, capital letters taken for small ones. -/
def AtAnEnd (value text : UserString) : Prop :=
  lowered text <+: lowered value ∨ lowered text <:+ lowered value

section Operators

variable {column : ColumnItem} {action : ActionItem} {value text : UserString}
  {operate : OperateType}

theorem matches_iff : Matches column action value text operate ↔
    matched value.bytes (ruleFor column action text operate) = true := by
  rw [Matches, filterValueWithFilter_eq]
  split
  · rename_i found
    exact iff_of_true (actionResult_ne_none action) found
  · rename_i missed
    exact iff_of_false (fun differs => differs rfl) missed

/-- The text's length as the number of characters to compare. -/
theorem sizeT_length : sizeT text.bytes.length = text.bytes.length := by
  have short := text.fits
  rw [sizeT, BitVec.ofInt_natCast, BitVec.toNat_ofNat, Nat.mod_eq_of_lt (by omega)]

theorem matches_is : Matches column action value text .opIs ↔ lowered value = lowered text := by
  rw [matches_iff]
  exact decide_eq_true_iff.trans (strcasecmp_eq_zero value.nulFree text.nulFree)

theorem matches_isNot :
    Matches column action value text .opIsNot ↔ ¬ lowered value = lowered text := by
  rw [matches_iff]
  exact decide_eq_true_iff.trans (not_congr (strcasecmp_eq_zero value.nulFree text.nulFree))

theorem matches_contains :
    Matches column action value text .opContains ↔ text.bytes <:+: value.bytes := by
  rw [matches_iff, ← strstr_isSome, Option.isSome_iff_ne_none]
  exact decide_eq_true_iff

theorem matches_excludes :
    Matches column action value text .opExcludes ↔ ¬ text.bytes <:+: value.bytes := by
  rw [matches_iff, ← strstr_isSome, Option.isSome_iff_ne_none, not_not]
  exact decide_eq_true_iff

theorem matches_begins :
    Matches column action value text .opBeginsWith ↔ lowered text <+: lowered value := by
  rw [matches_iff]
  refine decide_eq_true_iff.trans ?_
  show strncasecmp (sizeT text.bytes.length) value.bytes text.bytes = 0 ↔ _
  rw [sizeT_length, strncasecmp_eq_zero _ value.nulFree text.nulFree, List.take_length,
    List.prefix_iff_eq_take, lowered, lowered, List.length_map, List.map_take]
  exact eq_comm

theorem matches_ends :
    Matches column action value text .opEndsWith ↔ lowered text <:+ lowered value := by
  rw [matches_iff]
  refine decide_eq_true_iff.trans ?_
  show toInt value.bytes.length ≥ text.bytes.length ∧
    strncasecmp (sizeT text.bytes.length)
      (value.bytes.drop (toInt value.bytes.length - text.bytes.length).toNat) text.bytes = 0 ↔ _
  have start : ((value.bytes.length : Int) - text.bytes.length).toNat
      = value.bytes.length - text.bytes.length := by omega
  have free : 0 ∉ value.bytes.drop (value.bytes.length - text.bytes.length) :=
    fun inside => value.nulFree (List.mem_of_mem_drop inside)
  rw [toInt_small value.fits, start, sizeT_length, strncasecmp_eq_zero _ free text.nulFree,
    List.take_length]
  constructor
  · rintro ⟨long, same⟩
    have whole : (value.bytes.drop (value.bytes.length - text.bytes.length)).length
        ≤ text.bytes.length := by
      rw [List.length_drop]
      omega
    rw [List.take_of_length_le whole, List.map_drop] at same
    rw [lowered, lowered, ← same]
    exact List.drop_suffix _ _
  · intro ends
    have long := ends.length_le
    rw [lowered, lowered, List.length_map, List.length_map] at long
    have last := List.suffix_iff_eq_drop.mp ends
    rw [lowered, lowered, List.length_map, List.length_map, ← List.map_drop] at last
    have whole : (value.bytes.drop (value.bytes.length - text.bytes.length)).length
        ≤ text.bytes.length := by
      rw [List.length_drop]
      omega
    exact ⟨by omega, by rw [List.take_of_length_le whole, last]⟩

/-- Of the consistency laws only one can fail. -/
theorem consistent_iff : Consistent (Matches column action value text) ↔
    (AtAnEnd value text → text.bytes <:+: value.bytes) := by
  constructor
  · intro consistent atAnEnd
    rcases atAnEnd with begins | ends
    · exact matches_contains.mp (consistent.beginsContains (matches_begins.mpr begins))
    · exact matches_contains.mp (consistent.endsContains (matches_ends.mpr ends))
  · intro contained
    constructor
    case isBegins =>
      intro isText
      rw [matches_is] at isText
      rw [matches_begins, isText]
    case isEnds =>
      intro isText
      rw [matches_is] at isText
      rw [matches_ends, isText]
    case beginsContains =>
      exact fun begins => matches_contains.mpr (contained (.inl (matches_begins.mp begins)))
    case endsContains =>
      exact fun ends => matches_contains.mpr (contained (.inr (matches_ends.mp ends)))
    case isNot => rw [matches_isNot, matches_is]
    case excludes => rw [matches_excludes, matches_contains]

end Operators

section Letters

/-- The other letter case. -/
def swapCase (c : Byte) : Byte := if IsLetter c then c ^^^ 32#8 else c

theorem toLower_swapCase (c : Byte) : toLower (swapCase c) = toLower c := by
  revert c
  decide

theorem swapCase_eq_zero (c : Byte) : swapCase c = 0 ↔ c = 0 := by
  revert c
  decide

theorem swapCase_ne {c : Byte} (letter : IsLetter c) : swapCase c ≠ c := by
  revert c
  decide

/-- Only a character itself is lowered to one that is no letter. -/
theorem eq_of_toLower_eq {c d : Byte} (noLetter : ¬ IsLetter c) (same : toLower d = toLower c) :
    d = c := by
  have kept : ∀ c : Byte, ¬ IsLetter c → toLower c = c := by decide
  have lowers : ∀ d : Byte, toLower d = d ∨ IsLetter (toLower d) := by decide
  rw [kept c noLetter] at same
  rcases lowers d with itself | letter
  · rw [← itself, same]
  · rw [same] at letter
    exact absurd letter noLetter

theorem eq_of_map_toLower_eq {s t : List Byte} (noLetter : ∀ c ∈ t, ¬ IsLetter c)
    (same : s.map toLower = t.map toLower) : s = t := by
  induction t generalizing s with
  | nil => exact List.map_eq_nil_iff.mp same
  | cons c t ih =>
    obtain ⟨d, s, rfl, first, rest⟩ := List.map_eq_cons_iff.mp same
    rw [eq_of_toLower_eq (noLetter c List.mem_cons_self) first,
      ih (fun c inside => noLetter c (List.mem_cons_of_mem _ inside)) rest]

variable {value text : UserString}

/-- Without letters, letter case makes no difference. -/
theorem contained_of_noLetter (noLetter : ∀ c ∈ text.bytes, ¬ IsLetter c)
    (atAnEnd : AtAnEnd value text) : text.bytes <:+: value.bytes := by
  rcases atAnEnd with begins | ends
  · have first := List.prefix_iff_eq_take.mp begins
    rw [lowered, lowered, List.length_map, ← List.map_take] at first
    rw [← eq_of_map_toLower_eq noLetter first.symm]
    exact (List.take_prefix _ _).isInfix
  · have last := List.suffix_iff_eq_drop.mp ends
    rw [lowered, lowered, List.length_map, List.length_map, ← List.map_drop] at last
    rw [← eq_of_map_toLower_eq noLetter last.symm]
    exact (List.drop_suffix _ _).isInfix

theorem swapped_nulFree (text : UserString) : 0 ∉ text.bytes.map swapCase := by
  intro inside
  obtain ⟨c, member, zero⟩ := List.mem_map.mp inside
  rw [swapCase_eq_zero] at zero
  rw [zero] at member
  exact text.nulFree member

theorem swapped_fits (text : UserString) : (text.bytes.map swapCase).length < 2 ^ 31 := by
  rw [List.length_map]
  exact text.fits

/-- The text in the other letter case. -/
def swapped (text : UserString) : UserString :=
  ⟨text.bytes.map swapCase, swapped_nulFree text, swapped_fits text⟩

theorem lowered_swapped : lowered (swapped text) = lowered text := by
  rw [lowered, lowered, swapped, List.map_map]
  exact List.map_congr_left fun c _ => toLower_swapCase c

/-- A text with a letter is not contained in the text in the other letter case. -/
theorem swapped_free {c : Byte} (inside : c ∈ text.bytes) (letter : IsLetter c) :
    ¬ text.bytes <:+: (swapped text).bytes := by
  intro contained
  have same : text.bytes = text.bytes.map swapCase :=
    contained.eq_of_length (List.length_map _).symm
  obtain ⟨i, below, rfl⟩ := List.getElem_of_mem inside
  have cell := List.getElem_of_eq same below
  rw [List.getElem_map] at cell
  exact swapCase_ne letter cell.symm

end Letters

/-- For one value the operators agree unless it begins or ends with the text in another letter
case and does not contain it. For every value they agree exactly when the text has no letters. -/
theorem operators_consistent_iff (column : ColumnItem) (action : ActionItem) (text : UserString) :
    (∀ value, Consistent (Matches column action value text) ↔
      (AtAnEnd value text → text.bytes <:+: value.bytes)) ∧
    ((∀ value, Consistent (Matches column action value text)) ↔ ∀ c ∈ text.bytes, ¬ IsLetter c) := by
  refine ⟨fun value => consistent_iff, ?_⟩
  constructor
  · intro consistent c inside letter
    have contained := consistent_iff.mp (consistent (swapped text))
    have begins : lowered text <+: lowered (swapped text) := by rw [lowered_swapped]
    exact swapped_free inside letter (contained (.inl begins))
  · exact fun noLetter value => consistent_iff.mpr (contained_of_noLetter noLetter)

theorem small_nulFree : 0 ∉ literal "abc" := by decide

theorem small_fits : (literal "abc").length < 2 ^ 31 := by decide

def small : UserString := ⟨_, small_nulFree, small_fits⟩

theorem capital_nulFree : 0 ∉ literal "ABC" := by decide

theorem capital_fits : (literal "ABC").length < 2 ^ 31 := by decide

def capital : UserString := ⟨_, capital_nulFree, capital_fits⟩

/-- `ABC` begins with `abc` and does not contain it. -/
theorem operators_inconsistent :
    Matches .columnPath .actionInclude capital small .opBeginsWith ∧
      ¬ Matches .columnPath .actionInclude capital small .opContains := by
  constructor
  · rw [Matches]
    decide
  · rw [Matches]
    decide

end SysMonitor.Guarantees.FilterOperators
