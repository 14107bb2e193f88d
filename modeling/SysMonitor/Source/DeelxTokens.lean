import Mathlib.Data.List.Chain
import SysMonitor.Library.ResumableSearch
import SysMonitor.Source.DeelxSyntax

/-!
# What the builder of the regular expression engine sees of a pattern

Three tokens ahead of the text that is still to be read.
-/

namespace SysMonitor.Source.Deelx

/-- A token that has a spelling. -/
def Legible (info : CharInfo) : Prop :=
  info.type = 0 ∨ info.type = 1 ∧ (among "AZzwWsSBbdD" info.ch ∨ among ".^$?+*()|" info.ch)

/-- No bracket opens one of the constructs that begin with `(?`. -/
structure Readable (toks : List CharInfo) : Prop where
  legible : ∀ t ∈ toks, Legible t
  plain : toks.IsChain fun t u => t = special '(' → u ≠ special '?'

/-- What stands first, or the end of the pattern. -/
def ahead (toks : List CharInfo) : CharInfo := toks.headD patternEnd

/-- The builder stands before the tokens, with so many groups counted. -/
structure Sees (b : Builder) (toks : List CharInfo) (n : Nat) : Prop where
  flat : b.charsetDepth = 0
  curr : b.curr = ahead toks
  next : b.next = ahead (toks.drop 1)
  nex2 : b.nex2 = ahead (toks.drop 2)
  text : b.pattern.drop b.nextPos = (toks.drop 3).flatMap spell
  readable : Readable toks
  counted : b.maxNumber = n

theorem Readable.tail {toks : List CharInfo} (readable : Readable toks) (k : Nat) :
    Readable (toks.drop k) :=
  ⟨fun t inside => readable.legible t (List.mem_of_mem_drop inside), readable.plain.drop k⟩

section Lexing

theorem pattern_at {pattern rest : List Byte} {pos : Nat} (text : pattern.drop pos = rest)
    (k : Nat) :
    pattern[pos + k]? = rest[k]? := by
  rw [← text, List.getElem?_drop]

theorem drop_pattern {pattern first rest : List Byte} {pos : Nat}
    (text : pattern.drop pos = first ++ rest) : pattern.drop (pos + first.length) = rest := by
  rw [← List.drop_drop, text, List.drop_left]

/-- The characters of a literal, spelled out. -/
theorem among_iff {chars : String} {codes : List Byte} (spelled : ReaderStrings.literal chars = codes)
    (ch : Byte) : among chars ch = true ↔ ch ∈ codes := by
  rw [among, spelled, List.contains_iff_mem]

theorem among_raw (ch : Byte) : among "\\*+?.{}()|$^[]:" ch = true ↔
    ch ∈ [92, 42, 43, 63, 46, 123, 125, 40, 41, 124, 36, 94, 91, 93, (58 : Byte)] :=
  among_iff (by decide) ch

theorem among_outside (ch : Byte) : among "*+?.{})|$" ch = true ↔
    ch ∈ [42, 43, 63, 46, 123, 125, 41, 124, (36 : Byte)] :=
  among_iff (by decide) ch

theorem among_special (ch : Byte) : among ".^$?+*()|" ch = true ↔
    ch ∈ [46, 94, 36, 63, 43, 42, 40, 41, (124 : Byte)] :=
  among_iff (by decide) ch

theorem among_class (ch : Byte) : among "AZzwWsSBbdD" ch = true ↔
    ch ∈ [65, 90, 122, 119, 87, 115, 83, 66, 98, 100, (68 : Byte)] :=
  among_iff (by decide) ch

variable {b : Builder} {ch : Byte} {rest : List Byte}

/-- A character that stands for itself. -/
theorem getNext2_plain (flat : b.charsetDepth = 0)
    (text : b.pattern.drop b.nextPos = ch :: rest) (plain : ¬ among "\\*+?.{}()|$^[]:" ch) :
    b.getNext2 = some { b with nex2 := ⟨ch, 0⟩, nextPos := b.nextPos + 1 } := by
  have here : b.pattern[b.nextPos]? = some ch := pattern_at text 0
  simp [among_raw] at plain
  simp [Builder.getNext2, here, among_outside, flat, plain]

/-- A character with a meaning of its own. -/
theorem getNext2_special (flat : b.charsetDepth = 0)
    (text : b.pattern.drop b.nextPos = ch :: rest) (meant : among ".^$?+*()|" ch)
    (group : ch = 40 → rest.head? ≠ some 63) :
    b.getNext2 = some { b with nex2 := ⟨ch, 1⟩, nextPos := b.nextPos + 1 } := by
  have here : b.pattern[b.nextPos]? = some ch := pattern_at text 0
  have numbered : ch = 40 → b.pattern.getD (b.nextPos + 1) 0 ≠ 63 := by
    intro opened
    have behind := group opened
    rw [List.getD_eq_getElem?_getD, pattern_at text 1]
    cases rest with
    | nil => simp
    | cons second rest => simpa using behind
  rw [among_special] at meant
  simp only [List.mem_cons, List.not_mem_nil, or_false] at meant
  rcases meant with rfl | rfl | rfl | rfl | rfl | rfl | rfl | rfl | rfl
  all_goals simp_all [Builder.getNext2, among_outside]

/-- A character behind a backslash that stands for itself. -/
theorem getNext2_escaped (text : b.pattern.drop b.nextPos = 92 :: ch :: rest)
    (raw : among "\\*+?.{}()|$^[]:" ch) :
    b.getNext2 = some { b with nex2 := ⟨ch, 0⟩, nextPos := b.nextPos + 2 } := by
  have here : b.pattern[b.nextPos]? = some 92 := pattern_at text 0
  have behind : b.pattern[b.nextPos + 1]? = some ch := pattern_at text 1
  simp only [among_raw, List.mem_cons, List.not_mem_nil, or_false] at raw
  have named : escaped b = some (⟨ch, 0⟩, 2) := by
    rw [escaped, List.getD_eq_getElem?_getD, behind, Option.getD_some]
    rcases raw with rfl | rfl | rfl | rfl | rfl | rfl | rfl | rfl | rfl | rfl | rfl | rfl | rfl | rfl | rfl
    all_goals rfl
  simp [Builder.getNext2, here, named]

/-- A character behind a backslash that has a meaning of its own. -/
theorem getNext2_class (flat : b.charsetDepth = 0)
    (text : b.pattern.drop b.nextPos = 92 :: ch :: rest) (meant : among "AZzwWsSBbdD" ch) :
    b.getNext2 = some { b with nex2 := ⟨ch, 1⟩, nextPos := b.nextPos + 2 } := by
  have here : b.pattern[b.nextPos]? = some 92 := pattern_at text 0
  have behind : b.pattern[b.nextPos + 1]? = some ch := pattern_at text 1
  simp only [among_class, List.mem_cons, List.not_mem_nil, or_false] at meant
  have named : escaped b = some (⟨ch, 1⟩, 2) := by
    rw [escaped, List.getD_eq_getElem?_getD, behind, Option.getD_some, flat]
    rcases meant with rfl | rfl | rfl | rfl | rfl | rfl | rfl | rfl | rfl | rfl | rfl
    all_goals rfl
  simp [Builder.getNext2, here, named]

end Lexing

/-- Only the question mark is spelled with a question mark in front. -/
theorem spell_head {t : CharInfo} (legible : Legible t) (other : t ≠ special '?') (rest : List Byte) :
    (spell t ++ rest).head? ≠ some 63 := by
  obtain ⟨ch, type⟩ := t
  have elsewhere : type = 0 → ch = 63 → among "\\*+?.{}()|$^[]:" ch := by
    rintro - rfl
    decide
  rw [spell]
  split_ifs with plain raw letter
  · simp
  · simpa using fun same => raw (elsewhere plain same)
  · simp
  · obtain rfl : type = 1 := (legible.resolve_left plain).1
    simpa [special] using other

/-- Nothing behind a bracket is spelled with a question mark in front. -/
theorem Readable.numbered {toks : List CharInfo} (readable : Readable (special '(' :: toks)) :
    (toks.flatMap spell).head? ≠ some 63 := by
  cases toks with
  | nil => simp
  | cons t toks =>
    have other : t ≠ special '?' := (List.isChain_cons_cons.mp readable.plain).1 rfl
    have legible : Legible t := readable.legible t (by simp)
    exact spell_head legible other _

/-- The next token is read from the text. -/
theorem getNext2_sees {b : Builder} {toks : List CharInfo} (flat : b.charsetDepth = 0)
    (text : b.pattern.drop b.nextPos = toks.flatMap spell) (readable : Readable toks) :
    ∃ nextPos, b.getNext2 = some { b with nex2 := ahead toks, nextPos } ∧
      b.pattern.drop nextPos = (toks.drop 1).flatMap spell := by
  cases toks with
  | nil =>
    have past : b.pattern[b.nextPos]? = ([] : List Byte)[0]? := pattern_at text 0
    exact ⟨b.nextPos, by rw [Builder.getNext2, past]; rfl, text⟩
  | cons t toks =>
    obtain ⟨ch, type⟩ := t
    have behind : b.pattern.drop (b.nextPos + (spell ⟨ch, type⟩).length) = toks.flatMap spell :=
      drop_pattern text
    rw [List.flatMap_cons] at text
    rcases readable.legible _ List.mem_cons_self with plain | ⟨meant, known⟩
    · obtain rfl : type = 0 := plain
      by_cases raw : among "\\*+?.{}()|$^[]:" ch
      · rw [spell, if_pos rfl, if_pos raw] at text behind
        exact ⟨_, getNext2_escaped text raw, behind⟩
      · rw [spell, if_pos rfl, if_neg raw] at text behind
        exact ⟨_, getNext2_plain flat text raw, behind⟩
    · obtain rfl : type = 1 := meant
      by_cases letter : among "AZzwWsSBbdD" ch
      · rw [spell, if_neg Nat.one_ne_zero, if_pos letter] at text behind
        exact ⟨_, getNext2_class flat text letter, behind⟩
      · rw [spell, if_neg Nat.one_ne_zero, if_neg letter] at text behind
        refine ⟨_, getNext2_special flat text ?_ ?_, behind⟩
        · exact known.resolve_left letter
        · rintro rfl
          exact readable.numbered

/-- What is ahead moves up by one. -/
theorem moveNext_sees {b : Builder} {toks : List CharInfo} {n : Nat} (sees : Sees b toks n) :
    ∃ b', b.moveNext = some b' ∧ Sees b' (toks.drop 1) n := by
  obtain ⟨nextPos, moved, text⟩ := getNext2_sees
    (b := { b with curr := b.next, next := b.nex2 }) sees.flat sees.text (sees.readable.tail 3)
  refine ⟨_, moved, sees.flat, sees.next, ?_, ?_, ?_, sees.readable.tail 1, sees.counted⟩
  · rw [List.drop_drop]
    exact sees.nex2
  · rw [List.drop_drop]
  · rw [List.drop_drop] at text ⊢
    exact text


section Items

theorem ordinary_unquantified (ch : Byte) : (⟨ch, 0⟩ : CharInfo) ∉ quantifiers := by
  simp [quantifiers, special]

/-- A token that an item can begin with. -/
structure Opens (info : CharInfo) : Prop where
  unquantified : info ∉ quantifiers
  goes : ¬ listEnds info
  unquestioned : info ≠ special '?'

theorem opens_ordinary (ch : Byte) : Opens ⟨ch, 0⟩ :=
  ⟨ordinary_unquantified ch, by simp [listEnds, patternEnd, special], by simp [special]⟩

theorem CharClass.opens (k : CharClass) : Opens k.token := by
  cases k <;> exact ⟨by decide, by decide, by decide⟩

theorem Anchor.opens (a : Anchor) : Opens a.token := by
  cases a <;> exact ⟨by decide, by decide, by decide⟩

theorem opens_bracket : Opens (special '(') := ⟨by decide, by decide, by decide⟩

theorem Item.opens (i : Item) (rest : List CharInfo) : Opens (ahead (i.tokens ++ rest)) := by
  cases i with
  | word first more => exact opens_ordinary first
  | one k => exact k.opens
  | repeatedChar ch q => exact opens_ordinary ch
  | repeatedClass k q => exact k.opens
  | anchor a => exact a.opens
  | group branches => exact opens_bracket

theorem CharClass.meant (k : CharClass) : k.token.type ≠ 0 := by
  cases k <;> exact Nat.one_ne_zero

theorem Anchor.meant (a : Anchor) : a.token.type ≠ 0 := by
  cases a <;> exact Nat.one_ne_zero

theorem Quantifier.known (q : Quantifier) : q.token ∈ quantifiers := by
  cases q <;> decide

/-- A word does not go on into an item that is none. -/
theorem Item.apart {i : Item} (other : ¬ i.isWord) (rest : List CharInfo) :
    (ahead (i.tokens ++ rest)).type ≠ 0 ∨ ahead ((i.tokens ++ rest).drop 1) ∈ quantifiers := by
  cases i with
  | word first more => exact absurd rfl other
  | one k => exact Or.inl k.meant
  | repeatedChar ch q => exact Or.inr q.known
  | repeatedClass k q => exact Or.inl k.meant
  | anchor a => exact Or.inl a.meant
  | group branches => exact Or.inl Nat.one_ne_zero

theorem ends_unquantified {info : CharInfo} (ends : listEnds info) :
    info ∉ quantifiers ∧ info.type ≠ 0 := by
  simp only [listEnds, decide_eq_true_eq] at ends
  rcases ends with rfl | rfl | rfl <;> decide

theorem Branch.opens (b : Branch) (rest : List CharInfo) : Opens (ahead (b.tokens ++ rest)) := by
  cases b with
  | last i => exact i.opens rest
  | cons i later =>
    rw [Branch.tokens, List.append_assoc]
    exact i.opens _

theorem Branches.opens (branches : Branches) (rest : List CharInfo) :
    Opens (ahead (branches.tokens ++ rest)) := by
  cases branches with
  | last b => exact b.opens rest
  | cons b later =>
    rw [Branches.tokens, List.append_assoc]
    exact b.opens _

end Items

section Readable

theorem Readable.cons {t : CharInfo} {toks : List CharInfo} (legible : Legible t)
    (numbered : t = special '(' → ahead toks ≠ special '?') (readable : Readable toks) :
    Readable (t :: toks) := by
  refine ⟨List.forall_mem_cons.mpr ⟨legible, readable.legible⟩, ?_⟩
  cases toks with
  | nil => exact .singleton t
  | cons u toks => exact List.isChain_cons_cons.mpr ⟨numbered, readable.plain⟩

theorem Readable.word {rest : List CharInfo} (readable : Readable rest) (chars : List Byte) :
    Readable (chars.map (⟨·, 0⟩) ++ rest) := by
  induction chars with
  | nil => exact readable
  | cons ch chars ih => exact ih.cons (Or.inl rfl) (by simp [special])

theorem CharClass.legible (k : CharClass) : Legible k.token ∧ k.token ≠ special '(' := by
  cases k <;> exact ⟨Or.inr (by decide), by decide⟩

theorem Anchor.legible (a : Anchor) : Legible a.token ∧ a.token ≠ special '(' := by
  cases a <;> exact ⟨Or.inr (by decide), by decide⟩

theorem Quantifier.legible (q : Quantifier) : Legible q.token ∧ q.token ≠ special '(' := by
  cases q <;> exact ⟨Or.inr (by decide), by decide⟩

theorem Readable.other {t : CharInfo} {toks : List CharInfo} (readable : Readable toks)
    (legible : Legible t ∧ t ≠ special '(') : Readable (t :: toks) :=
  readable.cons legible.1 fun same => absurd same legible.2

mutual

theorem Item.readable (i : Item) {rest : List CharInfo} (readable : Readable rest) :
    Readable (i.tokens ++ rest) := by
  cases i with
  | word first more => exact readable.word _
  | one k => exact readable.other k.legible
  | repeatedChar ch q => exact (readable.other q.legible).word [ch]
  | repeatedClass k q => exact (readable.other q.legible).other k.legible
  | anchor a => exact readable.other a.legible
  | group branches =>
    have closed : Readable (special ')' :: rest) := readable.other ⟨Or.inr (by decide), by decide⟩
    have inner := branches.readable closed
    rw [Item.tokens, List.cons_append, List.append_assoc, List.singleton_append]
    exact inner.cons (Or.inr (by decide)) fun _ => (branches.opens _).unquestioned

theorem Branch.readable (b : Branch) {rest : List CharInfo} (readable : Readable rest) :
    Readable (b.tokens ++ rest) := by
  cases b with
  | last i => exact i.readable readable
  | cons i later =>
    rw [Branch.tokens, List.append_assoc]
    exact i.readable (later.readable readable)

theorem Branches.readable (branches : Branches) {rest : List CharInfo} (readable : Readable rest) :
    Readable (branches.tokens ++ rest) := by
  cases branches with
  | last b => exact b.readable readable
  | cons b later =>
    have behind : Readable (special '|' :: (later.tokens ++ rest)) :=
      (later.readable readable).other ⟨Or.inr (by decide), by decide⟩
    rw [Branches.tokens, List.append_assoc, List.cons_append]
    exact b.readable behind

end

end Readable

end SysMonitor.Source.Deelx
