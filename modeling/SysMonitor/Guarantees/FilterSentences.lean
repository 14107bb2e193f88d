import SysMonitor.Source.FilterSentences

/-!
# Which filter sentences become working rules

Two recognisers read a sentence: the regular expression that accepts it, and the string
comparisons that turn its words into the fields of a rule. They disagree about the white space
inside an operator of two words.
-/

namespace SysMonitor.Guarantees.FilterSentences
open SysMonitor.Library.Backtracking
open SysMonitor.Source SysMonitor.Source.Filter SysMonitor.Source.FilterSentences
open SysMonitor.Source.ReaderInterface SysMonitor.Source.ReaderStrings
open SysMonitor.Source.Reader (stringAt)

section Meaning

def columnTable : List (String × ColumnItem) :=
  [("time", .columnTime), ("pid", .columnPid), ("process", .columnProcess),
    ("operation", .columnOperation), ("api", .columnApi), ("path", .columnPath),
    ("result", .columnResult), ("details", .columnDetails)]

def operatorTable : List (String × OperateType) :=
  [("is", .opIs), ("is not", .opIsNot), ("contain", .opContains), ("contains", .opContains),
    ("exclude", .opExcludes), ("excludes", .opExcludes), ("begin with", .opBeginsWith),
    ("begins with", .opBeginsWith), ("start with", .opBeginsWith), ("starts with", .opBeginsWith),
    ("end with", .opEndsWith), ("ends with", .opEndsWith)]

def actionTable : List (String × ActionItem) :=
  [("include", .actionInclude), ("exclude", .actionExclude)]

/-- What a word of the sentence names. -/
def named {β : Type} (table : List (String × β)) (text : List Byte) : Option β :=
  (table.find? fun entry => literal entry.1 = text).map (·.2)

/-- The words of an operator, apart from the white space that separates them. -/
def blanked (operator : List Byte) : List Byte := operator.map fun c => if isSpace c then 32 else c

/-- The rule is the one that the words of the sentence name. -/
structure Names (sentence : List Byte) (groups : Captures) (item : FilterItem) : Prop where
  column : named columnTable (captured sentence groups 1) = some item.column
  operator : named operatorTable (blanked (captured sentence groups 2)) = some item.operate
  value : item.value = captured sentence groups 3
  length : item.valueLength = item.value.length
  nonEmpty : 0 < item.valueLength
  action : named actionTable (captured sentence groups 4) = some item.action
  known : item.column ≠ .columnNone ∧ item.operate ≠ .opNone ∧ item.action ≠ .actionNone

/-- With memory available, the sentence is rejected and the rules stay as they are, or it is
accepted and the rule that it names is put behind them. -/
def BecomesWorkingRule (dollar : Dollar) (rules : List FilterItem) (filter : UserString) : Prop :=
  match search (sentence dollar) filter.bytes with
  | none => addFilter dollar rules filter available = .ok (rules, false)
  | some groups => ∃ item,
    addFilter dollar rules filter available = .ok (rules ++ [item], true) ∧
      Names filter.bytes groups item

/-- The words of the operator are separated by a blank. -/
def OperatorBlank (dollar : Dollar) (filter : UserString) : Prop :=
  ∀ groups, search (sentence dollar) filter.bytes = some groups →
    ∀ c ∈ captured filter.bytes groups 2, isSpace c → c = 32

end Meaning

section Operators

/-- The operators, with a character between two words. -/
def spelled (between : Byte) : List (List Byte) :=
  [literal "begin" ++ between :: literal "with", literal "begins" ++ between :: literal "with",
    literal "start" ++ between :: literal "with", literal "starts" ++ between :: literal "with",
    literal "end" ++ between :: literal "with", literal "ends" ++ between :: literal "with",
    literal "contain", literal "contains", literal "exclude", literal "excludes",
    literal "is" ++ between :: literal "not", literal "is"]

theorem denotes_verb {stem : String} {s : List Byte} (denoted : Denotes (verb stem) s) :
    s = literal stem ∨ s = literal (stem ++ "s") := by
  obtain ⟨u, v, rfl, taken | rfl, rfl⟩ := denoted
  · rw [literal_append, show v = literal "s" from taken]
    exact .inr rfl
  · exact .inl (List.append_nil _)

/-- A phrase of two words has any white space between them. -/
theorem denotes_phrase {p : Pattern Byte} {second : String} {s : List Byte}
    (denoted : Denotes (.seq p (.seq space (word second))) s) :
    ∃ first between, Denotes p first ∧ isSpace between ∧
      s = first ++ between :: literal second := by
  obtain ⟨first, rest, firsts, ⟨u, v, ⟨between, white, rfl⟩, rfl, rfl⟩, rfl⟩ := denoted
  exact ⟨first, between, firsts, white, rfl⟩

theorem denotes_operators {s : List Byte} (denoted : Denotes operators s) :
    ∃ between, isSpace between ∧ s ∈ spelled between := by
  obtain ⟨p, listed, denoted⟩ := (denotes_anyOf _ _ s).mp denoted
  simp only [List.mem_cons, List.not_mem_nil, or_false] at listed
  rcases listed with rfl | rfl | rfl | rfl | rfl | rfl | rfl
  case inl | inr.inl | inr.inr.inl =>
    obtain ⟨first, between, verbs, white, rfl⟩ := denotes_phrase denoted
    rcases denotes_verb verbs with rfl | rfl
    all_goals exact ⟨between, white, by simp [spelled]⟩
  case inr.inr.inr.inl | inr.inr.inr.inr.inl =>
    rcases denotes_verb denoted with rfl | rfl
    all_goals exact ⟨32, by decide, by simp [spelled]⟩
  case inr.inr.inr.inr.inr.inl =>
    obtain ⟨first, between, rfl, white, rfl⟩ := denotes_phrase denoted
    exact ⟨between, white, by simp [spelled]⟩
  case inr.inr.inr.inr.inr.inr =>
    rw [show s = literal "is" from denoted]
    exact ⟨32, by decide, by simp [spelled]⟩

theorem isSpace_iff (c : Byte) : isSpace c ↔ c ∈ ([32, 9, 10, 11, 12, 13] : List Byte) := by
  revert c
  decide

/-- A spelling has no NUL, and it is one with a blank unless its two words are apart otherwise. -/
theorem spelled_cases {between : Byte} {op : List Byte} (white : isSpace between)
    (spelling : op ∈ spelled between) : 0 ∉ op ∧ (op ∈ spelled 32 ∨ between ∈ op) := by
  have cases : ∀ b ∈ ([32, 9, 10, 11, 12, 13] : List Byte), ∀ op ∈ spelled b,
      0 ∉ op ∧ (op ∈ spelled 32 ∨ b ∈ op) := by
    decide +kernel
  exact cases between ((isSpace_iff between).mp white) op spelling

/-- The comparisons know small letters and blanks. -/
theorem operatorTable_letters {w : String} (listed : w ∈ operatorTable.map (·.1)) :
    ∀ d ∈ literal w, d = 32 ∨ 97 ≤ d.toNat := by
  -- with `all` the words are searched, not all bytes
  have cases : ∀ w ∈ operatorTable.map (·.1), (literal w).all fun d => d = 32 ∨ 97 ≤ d.toNat := by
    decide +kernel
  intro d inside
  exact of_decide_eq_true (List.all_eq_true.mp (cases w listed) d inside)

theorem getOperateFromString_known {op : List Byte} (known : getOperateFromString op ≠ .opNone) :
    ∃ w ∈ operatorTable.map (·.1), strcasecmp op (literal w) = 0 := by
  by_contra none
  simp only [operatorTable, List.map_cons, List.map_nil, List.mem_cons, List.not_mem_nil, or_false,
    exists_eq_or_imp, exists_eq_left, not_or] at none
  simp [getOperateFromString, none] at known

theorem toLower_white {c : Byte} (white : isSpace c) : toLower c = c := by
  revert c
  decide

/-- What the comparisons find has nothing but blanks between its words. -/
theorem operator_blank {op : List Byte} (free : 0 ∉ op) (known : getOperateFromString op ≠ .opNone) :
    ∀ c ∈ op, isSpace c → c = 32 := by
  obtain ⟨w, listed, same⟩ := getOperateFromString_known known
  have letters := operatorTable_letters listed
  have free' : 0 ∉ literal w := fun nul => absurd (letters 0 nul) (by decide)
  have lowered := (strcasecmp_eq_zero free free').mp same
  intro c inside white
  have there : c ∈ (literal w).map toLower :=
    lowered ▸ List.mem_map.mpr ⟨c, inside, toLower_white white⟩
  obtain ⟨d, listed', rfl⟩ := List.mem_map.mp there
  rcases letters d listed' with rfl | small
  · decide
  · have unchanged : toLower d = d := if_neg (by omega)
    rw [unchanged] at white
    rcases of_decide_eq_true white with blank | ⟨-, control⟩
    · rw [unchanged, blank]
    · omega

/-- With a blank, the comparisons find the operator that the words name, otherwise none. -/
theorem operator_found {between : Byte} {op : List Byte} (white : isSpace between)
    (spelling : op ∈ spelled between) :
    if ∀ c ∈ op, isSpace c → c = 32 then
      named operatorTable (blanked op) = some (getOperateFromString op) ∧
        getOperateFromString op ≠ .opNone
    else getOperateFromString op = .opNone := by
  obtain ⟨free, place⟩ := spelled_cases white spelling
  by_cases blank : ∀ c ∈ op, isSpace c → c = 32
  · have cases : ∀ op ∈ spelled 32,
        named operatorTable (blanked op) = some (getOperateFromString op) ∧
          getOperateFromString op ≠ .opNone := by
      decide +kernel
    rw [if_pos blank]
    rcases place with plain | inside
    · exact cases op plain
    · exact cases op (blank between inside white ▸ spelling)
  · rw [if_neg blank]
    by_contra known
    exact blank (operator_blank free known)

theorem column_found {w : String} (listed : w ∈ columnWords) :
    named columnTable (literal w) = some (getColumnFromString (literal w)) ∧
      getColumnFromString (literal w) ≠ .columnNone := by
  revert w
  decide

theorem action_found {w : String} (listed : w ∈ actionWords) :
    named actionTable (literal w) = some (getActionFromString (literal w)) ∧
      getActionFromString (literal w) ≠ .actionNone := by
  revert w
  decide

end Operators

section Groups

/-- How the groups of a sentence lie in it: at least one character apart. -/
structure Parsed (text : List Byte) (groups : Captures) (e₁ s₂ e₂ s₃ e₃ s₄ e₄ : Nat) : Prop where
  captures : groups = [(1, 0, e₁), (2, s₂, e₂), (3, s₃, e₃), (4, s₄, e₄)]
  order : e₁ < s₂ ∧ s₂ ≤ e₂ ∧ e₂ < s₃ ∧ s₃ < e₃ ∧ e₃ < s₄ ∧ s₄ ≤ e₄ ∧ e₄ ≤ text.length
  column : ∃ w ∈ columnWords, part text 0 e₁ = literal w
  operator : Denotes operators (part text s₂ e₂)
  action : ∃ w ∈ actionWords, part text s₄ e₄ = literal w

variable {dollar : Dollar} {text : List Byte} {groups : Captures} {i j : Nat} {c : Captures}
  {e₁ s₂ e₂ s₃ e₃ s₄ e₄ : Nat}

namespace Parsed

theorem captured₁ (parsed : Parsed text groups e₁ s₂ e₂ s₃ e₃ s₄ e₄) :
    captured text groups 1 = part text 0 e₁ := by
  rw [parsed.captures]
  rfl

theorem captured₂ (parsed : Parsed text groups e₁ s₂ e₂ s₃ e₃ s₄ e₄) :
    captured text groups 2 = part text s₂ e₂ := by
  rw [parsed.captures]
  rfl

theorem captured₃ (parsed : Parsed text groups e₁ s₂ e₂ s₃ e₃ s₄ e₄) :
    captured text groups 3 = part text s₃ e₃ := by
  rw [parsed.captures]
  rfl

theorem captured₄ (parsed : Parsed text groups e₁ s₂ e₂ s₃ e₃ s₄ e₄) :
    captured text groups 4 = part text s₄ e₄ := by
  rw [parsed.captures]
  rfl

end Parsed

theorem way_space {q : Pattern Byte} (way : (j, c) ∈ ways text (.seq space q) i) :
    i < text.length ∧ (j, c) ∈ ways text q (i + 1) := by
  obtain ⟨m, first, second, front, rest, rfl⟩ := mem_ways_seq.mp way
  obtain ⟨x, stands, -, rfl, rfl⟩ := mem_ways_one.mp front
  exact ⟨(List.getElem?_eq_some_iff.mp stands).1, rest⟩

theorem way_word {w : String} {q : Pattern Byte} (way : (j, c) ∈ ways text (.seq (word w) q) i) :
    (j, c) ∈ ways text q (i + (literal w).length) := by
  obtain ⟨m, first, second, front, rest, rfl⟩ := mem_ways_seq.mp way
  obtain ⟨-, rfl, rfl⟩ := mem_ways_word.mp front
  exact rest

theorem denotes_words {w : String} {words : List String} {s : List Byte}
    (denoted : Denotes (.anyOf (((w :: words).map literal).map .word)) s) :
    ∃ w' ∈ w :: words, s = literal w' := by
  obtain ⟨p, listed, denoted⟩ := (denotes_anyOf _ _ s).mp denoted
  rw [← List.map_cons, ← List.map_cons, List.map_map] at listed
  obtain ⟨w', member, rfl⟩ := List.mem_map.mp listed
  exact ⟨w', member, denoted⟩

theorem way_parsed {start stop : Nat} (inside : start ≤ text.length)
    (way : (stop, groups) ∈ ways text (sentence dollar) start) :
    ∃ e₁ s₂ e₂ s₃ e₃ s₄ e₄, Parsed text groups e₁ s₂ e₂ s₃ e₃ s₄ e₄ := by
  obtain ⟨m, first, second, front, rest, rfl⟩ := mem_ways_seq.mp way
  obtain ⟨begins, rfl, rfl⟩ := mem_ways_assert.mp front
  obtain rfl : m = 0 := by simpa using begins
  obtain ⟨e₁, c₁, -, inside₁, column, rest₁, rfl⟩ := way_group_seq rest inside (by decide)
  obtain ⟨below₁, rest₁⟩ := way_space rest₁
  obtain ⟨e₂, c₂, order₂, inside₂, operator, rest₂, rfl⟩ :=
    way_group_seq rest₁ below₁ (by decide)
  obtain ⟨below₂, rest₂⟩ := way_space rest₂
  obtain ⟨e₃, c₃, order₃, inside₃, value, rest₃, rfl⟩ := way_group_seq rest₂ below₂ (by decide)
  obtain ⟨below₃, rest₃⟩ := way_space rest₃
  obtain ⟨below₄, rest₄⟩ := way_space (way_word rest₃)
  obtain ⟨e₄, c₄, order₄, inside₄, action, ends, rfl⟩ := way_group_seq rest₄ below₄ (by decide)
  obtain ⟨-, -, rfl⟩ := mem_ways_assert.mp ends
  refine ⟨e₁, _, e₂, _, e₃, _, e₄, ⟨rfl, ?_, denotes_words column, operator,
    denotes_words action⟩⟩
  have nonEmpty := List.length_pos_of_ne_nil value.1
  rw [part_length text inside₃] at nonEmpty
  omega

theorem sentence_parsed (found : search (sentence dollar) text = some groups) :
    ∃ e₁ s₂ e₂ s₃ e₃ s₄ e₄, Parsed text groups e₁ s₂ e₂ s₃ e₃ s₄ e₄ := by
  obtain ⟨start, stop, inside, way⟩ := search_way found
  exact way_parsed inside way

/-- A string of the copy, which ends where a group was ended. -/
theorem stringAt_group {tmp : List Byte} {s e : Nat} (nulFree : 0 ∉ text) (order : s ≤ e)
    (same : ∀ k, s ≤ k → k < e → tmp[k]? = text[k]?)
    (ended : tmp[e]? = some 0) : stringAt (tmp.drop s) = .ok (part text s e) := by
  obtain ⟨below, zero⟩ := List.getElem?_eq_some_iff.mp ended
  have front : (tmp.drop s).take (e - s) = part text s e := by
    apply List.ext_getElem?
    intro k
    rw [part, List.getElem?_take, List.getElem?_take, List.getElem?_drop, List.getElem?_drop]
    split
    · exact same (s + k) (by omega) (by omega)
    · rfl
  have behind : (tmp.drop s).drop (e - s) = 0 :: tmp.drop (e + 1) := by
    rw [List.drop_drop, Nat.add_sub_cancel' order, List.drop_eq_getElem_cons below, zero]
  have free : 0 ∉ part text s e := fun nul => nulFree (List.mem_of_mem_drop (List.mem_of_mem_take nul))
  rw [← List.take_append_drop (e - s) (tmp.drop s), front, behind]
  exact stringAt_terminated free _

/-- The copy of a sentence after its groups were ended. -/
def ended (tmp : List Byte) (stops : List Nat) : List Byte :=
  stops.foldl (fun tmp stop => tmp.set stop 0) tmp

theorem ended_length (tmp : List Byte) (stops : List Nat) :
    (ended tmp stops).length = tmp.length := by
  induction stops generalizing tmp with
  | nil => rfl
  | cons stop stops ih => exact (ih (tmp.set stop 0)).trans List.length_set

theorem ended_kept {tmp : List Byte} {stops : List Nat} {k : Nat} (other : k ∉ stops) :
    (ended tmp stops)[k]? = tmp[k]? := by
  induction stops generalizing tmp with
  | nil => rfl
  | cons stop stops ih =>
    rw [List.mem_cons, not_or] at other
    exact (ih other.2).trans (List.getElem?_set_ne (Ne.symm other.1))

theorem ended_stop {tmp : List Byte} {stops : List Nat} {stop : Nat} (listed : stop ∈ stops)
    (below : stop < tmp.length) : (ended tmp stops)[stop]? = some 0 := by
  induction stops generalizing tmp with
  | nil => cases listed
  | cons first stops ih =>
    by_cases later : stop ∈ stops
    · exact ih later (by rwa [List.length_set])
    · obtain rfl := (List.mem_cons.mp listed).resolve_right later
      exact (ended_kept later).trans (List.getElem?_set_self below)

/-- The next group is ended in the copy. -/
theorem endGroup_ended {tmp : List Byte} {number s e : Nat} (stops : List Nat)
    (place : groups.at number = some (s, e)) (below : e < tmp.length) :
    endGroup (ended tmp stops) groups number = .ok (ended tmp (stops ++ [e]), s) := by
  have set : (ended tmp stops).set e 0 = ended tmp (stops ++ [e]) := by
    rw [ended, ended, List.foldl_append]
    rfl
  rw [endGroup, place]
  show (store (ended tmp stops) e 0 >>= _) = _
  rw [store, if_pos (by rwa [ended_length]), set]
  rfl

/-- The string of a group, where no other group was ended inside it. -/
theorem stringAt_ended (filter : UserString) {stops : List Nat} {s e : Nat} (order : s ≤ e)
    (inside : e ≤ filter.bytes.length) (listed : e ∈ stops) (first : ∀ k ∈ stops, s ≤ k → e ≤ k) :
    stringAt ((ended (filter.bytes ++ [0]) stops).drop s) = .ok (part filter.bytes s e) := by
  have length : (filter.bytes ++ [0]).length = filter.bytes.length + 1 := List.length_append
  apply stringAt_group filter.nulFree order
  · intro k from_ upTo
    have other : k ∉ stops := fun listed => absurd (first k listed from_) (Nat.not_le.mpr upTo)
    rw [ended_kept other, List.getElem?_append_left (by omega)]
  · exact ended_stop listed (by omega)

/-- The rule that the code makes of the groups of a sentence. -/
def ruleOf (text : List Byte) (groups : Captures) : FilterItem :=
  ⟨getColumnFromString (captured text groups 1), getOperateFromString (captured text groups 2),
    captured text groups 3, (captured text groups 3).length,
    getActionFromString (captured text groups 4)⟩

/-- What `AddFilter` does with a sentence that matches. -/
theorem addFilter_matched (rules : List FilterItem) {filter : UserString} (memory : Memory)
    (found : search (sentence dollar) filter.bytes = some groups) :
    addFilter dollar rules filter memory
      = .ok (if memory = available then (rules ++ [ruleOf filter.bytes groups], true)
          else (rules, false)) := by
  obtain ⟨e₁, s₂, e₂, s₃, e₃, s₄, e₄, parsed⟩ := sentence_parsed found
  obtain ⟨o₁, o₂, o₃, o₄, o₅, o₆, o₇⟩ := parsed.order
  have length : (filter.bytes ++ [0]).length = filter.bytes.length + 1 := List.length_append
  let stops := [e₁, e₂, e₃, e₄]
  have cut₁ : endGroup (filter.bytes ++ [0]) groups 1 = .ok (ended (filter.bytes ++ [0]) [e₁], 0) :=
    endGroup_ended [] (by rw [parsed.captures]; rfl) (by omega)
  have cut₂ : endGroup (ended (filter.bytes ++ [0]) [e₁]) groups 2
      = .ok (ended (filter.bytes ++ [0]) [e₁, e₂], s₂) :=
    endGroup_ended [e₁] (by rw [parsed.captures]; rfl) (by omega)
  have cut₃ : endGroup (ended (filter.bytes ++ [0]) [e₁, e₂]) groups 3
      = .ok (ended (filter.bytes ++ [0]) [e₁, e₂, e₃], s₃) :=
    endGroup_ended [e₁, e₂] (by rw [parsed.captures]; rfl) (by omega)
  have cut₄ : endGroup (ended (filter.bytes ++ [0]) [e₁, e₂, e₃]) groups 4
      = .ok (ended (filter.bytes ++ [0]) stops, s₄) :=
    endGroup_ended [e₁, e₂, e₃] (by rw [parsed.captures]; rfl) (by omega)
  have column := stringAt_ended filter (Nat.zero_le e₁) (by omega) (by simp [stops] : e₁ ∈ stops)
    (by simp [stops]; omega)
  have op := stringAt_ended filter o₂ (by omega) (by simp [stops] : e₂ ∈ stops)
    (by simp [stops]; omega)
  have value := stringAt_ended filter (Nat.le_of_lt o₄) (by omega) (by simp [stops] : e₃ ∈ stops)
    (by simp [stops]; omega)
  have action := stringAt_ended filter o₆ o₇ (by simp [stops] : e₄ ∈ stops)
    (by simp [stops]; omega)
  have short : toInt (part filter.bytes s₃ e₃).length = (part filter.bytes s₃ e₃).length := by
    apply toInt_small
    have whole := filter.fits
    rw [part_length filter.bytes (by omega)]
    omega
  rw [addFilter, found, ruleOf, parsed.captured₁, parsed.captured₂, parsed.captured₃,
    parsed.captured₄]
  simp only [cut₁, cut₂, cut₃, cut₄, column, op, value, action, short, bind, Except.bind]
  rcases memory with ⟨_ | _, _ | _, _ | _⟩
  all_goals simp [available, pure, Except.pure]

/-- The rule that the code makes is the one that the words name exactly when the words of the
operator are separated by a blank. -/
theorem ruleOf_names_iff (found : search (sentence dollar) text = some groups) :
    Names text groups (ruleOf text groups) ↔
      ∀ c ∈ captured text groups 2, isSpace c → c = 32 := by
  obtain ⟨e₁, s₂, e₂, s₃, e₃, s₄, e₄, parsed⟩ := sentence_parsed found
  obtain ⟨between, white, spelling⟩ := denotes_operators parsed.operator
  rw [← parsed.captured₂] at spelling
  have operator := operator_found white spelling
  constructor
  · intro names
    by_contra other
    rw [if_neg other] at operator
    exact names.known.2.1 operator
  · intro blank
    rw [if_pos blank] at operator
    obtain ⟨column, listed, columnText⟩ := parsed.column
    obtain ⟨action, listed', actionText⟩ := parsed.action
    rw [← parsed.captured₁] at columnText
    rw [← parsed.captured₄] at actionText
    obtain ⟨columnNamed, columnKnown⟩ := column_found listed
    obtain ⟨actionNamed, actionKnown⟩ := action_found listed'
    rw [← columnText] at columnNamed columnKnown
    rw [← actionText] at actionNamed actionKnown
    have nonEmpty : 0 < (captured text groups 3).length := by
      obtain ⟨o₁, o₂, o₃, o₄, o₅, o₆, o₇⟩ := parsed.order
      rw [parsed.captured₃, part_length text (by omega)]
      omega
    exact ⟨columnNamed, operator.1, rfl, rfl, Int.natCast_pos.mpr nonEmpty, actionNamed,
      columnKnown, operator.2, actionKnown⟩

theorem ruleOf_acts (found : search (sentence dollar) text = some groups) :
    (ruleOf text groups).action ≠ .actionNone := by
  obtain ⟨e₁, s₂, e₂, s₃, e₃, s₄, e₄, parsed⟩ := sentence_parsed found
  obtain ⟨action, listed, actionText⟩ := parsed.action
  have known := (action_found listed).2
  rw [← actionText, ← parsed.captured₄] at known
  exact known

/-- A sentence that matches is accepted with the rule that the code makes of it. -/
theorem becomesWorkingRule_matched {rules : List FilterItem} {filter : UserString}
    (found : search (sentence dollar) filter.bytes = some groups) :
    BecomesWorkingRule dollar rules filter ↔
      Names filter.bytes groups (ruleOf filter.bytes groups) := by
  have added := addFilter_matched rules available found
  rw [BecomesWorkingRule, found]
  constructor
  · rintro ⟨item, accepted, names⟩
    have same := Except.ok.inj (added.symm.trans accepted)
    rw [if_pos rfl, Prod.mk.injEq, List.append_cancel_left_eq, List.cons.injEq] at same
    rwa [same.1.1]
  · exact fun names => ⟨_, added, names⟩

end Groups

/-- A sentence becomes a working rule, or is rejected without a trace, exactly when it does not
match or has nothing but a blank inside its operator. -/
theorem becomesWorkingRule_iff (dollar : Dollar) (rules : List FilterItem) (filter : UserString) :
    BecomesWorkingRule dollar rules filter ↔ OperatorBlank dollar filter := by
  cases found : search (sentence dollar) filter.bytes with
  | none =>
    rw [BecomesWorkingRule, OperatorBlank, found]
    refine iff_of_true ?_ (fun groups matched => nomatch matched)
    rw [addFilter, found]
    rfl
  | some groups =>
    rw [becomesWorkingRule_matched found, ruleOf_names_iff found, OperatorBlank, found]
    constructor
    · intro blank groups' same
      rwa [← Option.some.inj same]
    · exact fun blank => blank groups rfl

theorem tabbed_nulFree : 0 ∉ literal "path begins\twith /data then include" := by decide

theorem tabbed_fits : (literal "path begins\twith /data then include").length < 2 ^ 31 := by decide

/-- A tab between `begins` and `with`. -/
def tabbed : UserString := ⟨_, tabbed_nulFree, tabbed_fits⟩

theorem becomesWorkingRule_fails :
    ¬ BecomesWorkingRule .textEnd [] tabbed ∧ ¬ BecomesWorkingRule .finalNewline [] tabbed := by
  have found : ∀ dollar, search (sentence dollar) tabbed.bytes
      = some [(1, 0, 4), (2, 5, 16), (3, 17, 22), (4, 28, 35)] := by
    intro dollar
    cases dollar
    all_goals decide +kernel
  have tab : ¬ ∀ c ∈ captured tabbed.bytes [(1, 0, 4), (2, 5, 16), (3, 17, 22), (4, 28, 35)] 2,
      isSpace c → c = 32 := by
    decide +kernel
  constructor
  · rwa [becomesWorkingRule_matched (found .textEnd), ruleOf_names_iff (found .textEnd)]
  · rwa [becomesWorkingRule_matched (found .finalNewline), ruleOf_names_iff (found .finalNewline)]

end SysMonitor.Guarantees.FilterSentences
