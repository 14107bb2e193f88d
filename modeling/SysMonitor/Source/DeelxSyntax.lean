import SysMonitor.Source.DeelxBuilder
import SysMonitor.Source.DeelxPatterns

/-!
# The syntax of patterns

A pattern is made of branches, a branch of items, and the groups among the items hold branches
again. Each has a spelling, an element tree that is meant by it, and a pattern of which the
element tree finds the ways. Groups are numbered in the order of their left brackets; `n` is the
number of groups before.
-/

namespace SysMonitor.Source.Deelx
open SysMonitor.Library.Backtracking

/-- Classes of characters: `.`, `\w`, `\W`, `\s`, `\S`, `\d` and `\D`. -/
inductive CharClass where
  | dot
  | word
  | notWord
  | space
  | notSpace
  | digit
  | notDigit

/-- Places: `^`, `$`, `\b`, `\B`, `\A`, `\Z` and `\z`. -/
inductive Anchor where
  | caret
  | dollar
  | edge
  | notEdge
  | textBegin
  | lastLine
  | textEnd

/-- `?`, `+` and `*`. -/
inductive Quantifier where
  | optional
  | many
  | star

mutual

inductive Item where
  | word (first : Byte) (more : List Byte)
  | one (k : CharClass)
  | repeatedChar (ch : Byte) (q : Quantifier)
  | repeatedClass (k : CharClass) (q : Quantifier)
  | anchor (a : Anchor)
  | group (branches : Branches)

inductive Branch where
  | last (i : Item)
  | cons (i : Item) (rest : Branch)

inductive Branches where
  | last (b : Branch)
  | cons (b : Branch) (rest : Branches)

end

section Spelling

def CharClass.token : CharClass → CharInfo
  | .dot => special '.'
  | .word => special 'w'
  | .notWord => special 'W'
  | .space => special 's'
  | .notSpace => special 'S'
  | .digit => special 'd'
  | .notDigit => special 'D'

def Anchor.token : Anchor → CharInfo
  | .caret => special '^'
  | .dollar => special '$'
  | .edge => special 'b'
  | .notEdge => special 'B'
  | .textBegin => special 'A'
  | .lastLine => special 'Z'
  | .textEnd => special 'z'

def Quantifier.token : Quantifier → CharInfo
  | .optional => special '?'
  | .many => special '+'
  | .star => special '*'

mutual

def Item.tokens : Item → List CharInfo
  | .word first more => (first :: more).map (⟨·, 0⟩)
  | .one k => [k.token]
  | .repeatedChar ch q => [⟨ch, 0⟩, q.token]
  | .repeatedClass k q => [k.token, q.token]
  | .anchor a => [a.token]
  | .group branches => special '(' :: (branches.tokens ++ [special ')'])

def Branch.tokens : Branch → List CharInfo
  | .last i => i.tokens
  | .cons i rest => i.tokens ++ rest.tokens

def Branches.tokens : Branches → List CharInfo
  | .last b => b.tokens
  | .cons b rest => b.tokens ++ special '|' :: rest.tokens

end

/-- A backslash takes its meaning from one character, and gives one to another. -/
def spell (info : CharInfo) : List Byte :=
  if info.type = 0 then
    if among "\\*+?.{}()|$^[]:" info.ch then [92, info.ch] else [info.ch]
  else if among "AZzwWsSBbdD" info.ch then [92, info.ch] else [info.ch]

/-- The text of a pattern. -/
def Branches.text (branches : Branches) : List Byte := branches.tokens.flatMap spell

end Spelling

section Meaning

def CharClass.elx : CharClass → Elx
  | .dot => .range false [] [10]
  | .word => .range true [(65, 90), (97, 122), (48, 57)] [95]
  | .notWord => .range false [(65, 90), (97, 122), (48, 57)] [95]
  | .space => .range true [] [32, 9, 13, 10]
  | .notSpace => .range false [] [32, 9, 13, 10]
  | .digit => .range true [(48, 57)] []
  | .notDigit => .range false [(48, 57)] []

def CharClass.accepts : CharClass → Byte → Bool
  | .dot => inRange false [] [10]
  | .word => inRange true [(65, 90), (97, 122), (48, 57)] [95]
  | .notWord => inRange false [(65, 90), (97, 122), (48, 57)] [95]
  | .space => inRange true [] [32, 9, 13, 10]
  | .notSpace => inRange false [] [32, 9, 13, 10]
  | .digit => inRange true [(48, 57)] []
  | .notDigit => inRange false [(48, 57)] []

def Anchor.ntype : Anchor → BoundaryType
  | .caret | .textBegin => .fileBegin
  | .dollar | .textEnd => .fileEnd
  | .edge | .notEdge => .wordEdge
  | .lastLine => .fileEndN

def Anchor.byes : Anchor → Bool
  | .notEdge => false
  | _ => true

def Quantifier.nmin : Quantifier → Nat
  | .many => 1
  | _ => 0

def Quantifier.nmax : Quantifier → Nat
  | .optional => 1
  | _ => intMax

/-- A repetition of the characters of a kind, given with the pattern of one of them. -/
def Quantifier.pattern (once : Pattern Byte) (accepts : Byte → Bool) : Quantifier → Pattern Byte
  | .optional => .optional once
  | .many => .many accepts
  | .star => .optional (.many accepts)

mutual

/-- How many groups there are. -/
def Item.groups : Item → Nat
  | .group branches => branches.groups + 1
  | _ => 0

def Branch.groups : Branch → Nat
  | .last i => i.groups
  | .cons i rest => i.groups + rest.groups

def Branches.groups : Branches → Nat
  | .last b => b.groups
  | .cons b rest => b.groups + rest.groups

end

/-- One element stands for itself. -/
def listOf : List Elx → Elx
  | [e] => e
  | es => .list es

def alternativeOf : List Elx → Elx
  | [e] => e
  | es => .alternative es

mutual

def Item.elx : Item → Nat → Elx
  | .word first more, _ => .string (first :: more)
  | .one k, _ => k.elx
  | .repeatedChar ch q, _ => .greedy (.string [ch]) q.nmin q.nmax
  | .repeatedClass k q, _ => .greedy k.elx q.nmin q.nmax
  | .anchor a, _ => .boundary a.ntype a.byes
  | .group branches, n =>
    .list [.left (n + 1), alternativeOf (branches.elxs (n + 1)), .right (n + 1)]

def Branch.elxs : Branch → Nat → List Elx
  | .last i, n => [i.elx n]
  | .cons i rest, n => i.elx n :: rest.elxs (n + i.groups)

def Branches.elxs : Branches → Nat → List Elx
  | .last b, n => [listOf (b.elxs n)]
  | .cons b rest, n => listOf (b.elxs n) :: rest.elxs (n + b.groups)

end

mutual

def Item.pattern : Item → Nat → Pattern Byte
  | .word first more, _ => .word (first :: more)
  | .one k, _ => .one k.accepts
  | .repeatedChar ch q, _ => q.pattern (.word [ch]) fun here => here = ch
  | .repeatedClass k q, _ => q.pattern (.one k.accepts) k.accepts
  | .anchor a, _ => .assert fun text i => boundary text a.ntype i == a.byes
  | .group branches, n => .group (n + 1) (.anyOf (branches.patterns (n + 1)))

def Branch.pattern : Branch → Nat → Pattern Byte
  | .last i, n => i.pattern n
  | .cons i rest, n => .seq (i.pattern n) (rest.pattern (n + i.groups))

def Branches.patterns : Branches → Nat → List (Pattern Byte)
  | .last b, n => [b.pattern n]
  | .cons b rest, n => b.pattern n :: rest.patterns (n + b.groups)

end

/-- The pattern that the branches stand for. -/
def Branches.pattern (branches : Branches) : Pattern Byte := .anyOf (branches.patterns 0)

/-- The element that the branches are to be built into. -/
def Branches.elx (branches : Branches) : Elx := alternativeOf (branches.elxs 0)

end Meaning

section WellFormed

def Item.isWord : Item → Bool
  | .word _ _ => true
  | _ => false

def Branch.startsWithWord : Branch → Bool
  | .last i | .cons i _ => i.isWord

mutual

/-- No character is a NUL, and no word follows a word: two of them are one. -/
def Item.wellFormed : Item → Bool
  | .word first more => (first :: more).all (· ≠ 0)
  | .repeatedChar ch _ => ch ≠ 0
  | .group branches => branches.wellFormed
  | _ => true

def Branch.wellFormed : Branch → Bool
  | .last i => i.wellFormed
  | .cons i rest => i.wellFormed && rest.wellFormed && !(i.isWord && rest.startsWithWord)

def Branches.wellFormed : Branches → Bool
  | .last b => b.wellFormed
  | .cons b rest => b.wellFormed && rest.wellFormed

end

end WellFormed

section Compiled

theorem CharClass.single (k : CharClass) : Single k.elx (.one k.accepts) k.accepts := by
  cases k <;> exact .range _ _ _

theorem CharClass.compiles (k : CharClass) : Compiles k.elx (.one k.accepts) := by
  cases k <;> exact .range _ _ _

theorem Quantifier.compiles {e : Elx} {p : Pattern Byte} {accepts : Byte → Bool}
    (single : Single e p accepts) (q : Quantifier) :
    Compiles (.greedy e q.nmin q.nmax) (q.pattern p accepts) := by
  cases q with
  | optional => exact .optional single
  | many => exact .many single
  | star => exact .star single

theorem Quantifier.groups_nil {p : Pattern Byte} {accepts : Byte → Bool} (q : Quantifier)
    (single : p.groups = []) : (q.pattern p accepts).groups = [] := by
  cases q <;> simp [Quantifier.pattern, Pattern.groups, single]

mutual

/-- The groups of an item are those behind the ones that were counted before. -/
theorem Item.groups_eq (i : Item) (n : Nat) :
    (i.pattern n).groups = List.range' (n + 1) i.groups := by
  cases i with
  | word first more => rfl
  | one k => rfl
  | repeatedChar ch q => exact q.groups_nil rfl
  | repeatedClass k q => exact q.groups_nil rfl
  | anchor a => rfl
  | group branches =>
    rw [Item.pattern, Pattern.groups, groups_anyOf, branches.groups_eq (n + 1), Item.groups,
      List.range'_succ]

theorem Branch.groups_eq (b : Branch) (n : Nat) :
    (b.pattern n).groups = List.range' (n + 1) b.groups := by
  cases b with
  | last i => exact i.groups_eq n
  | cons i rest =>
    rw [Branch.pattern, Pattern.groups, i.groups_eq n, rest.groups_eq, Branch.groups,
      ← List.range'_append_1, Nat.add_right_comm]

theorem Branches.groups_eq (branches : Branches) (n : Nat) :
    (branches.patterns n).flatMap Pattern.groups = List.range' (n + 1) branches.groups := by
  cases branches with
  | last b =>
    rw [Branches.patterns, List.flatMap_singleton, b.groups_eq n]
    rfl
  | cons b rest =>
    rw [Branches.patterns, List.flatMap_cons, b.groups_eq n, rest.groups_eq, Branches.groups,
      ← List.range'_append_1, Nat.add_right_comm]

end

theorem Branches.fresh (branches : Branches) (n : Nat) :
    n ∉ (Pattern.anyOf (branches.patterns n)).groups := by
  rw [groups_anyOf, branches.groups_eq n, List.mem_range'_1]
  omega

/-- The members of an alternative, one for each branch. -/
def Branches.parts : Branches → Nat → List (Elx × Pattern Byte)
  | .last b, n => [(listOf (b.elxs n), b.pattern n)]
  | .cons b rest, n => (listOf (b.elxs n), b.pattern n) :: rest.parts (n + b.groups)

theorem Branches.elxs_eq_parts : ∀ (branches : Branches) (n : Nat),
    branches.elxs n = (branches.parts n).map (·.1)
  | .last b, n => rfl
  | .cons b rest, n => by rw [elxs, parts, List.map_cons, rest.elxs_eq_parts]

theorem Branches.patterns_eq_parts : ∀ (branches : Branches) (n : Nat),
    branches.patterns n = (branches.parts n).map (·.2)
  | .last b, n => rfl
  | .cons b rest, n => by rw [patterns, parts, List.map_cons, rest.patterns_eq_parts]

theorem compiles_listOf {es : List Elx} {p : Pattern Byte} (compiles : Compiles (.list es) p) :
    Compiles (listOf es) p := by
  cases compiles with
  | last only => exact only
  | group positive inner free => exact .group positive inner free
  | cons first rest apart => exact .cons first rest apart

theorem compiles_alternativeOf {parts : List (Elx × Pattern Byte)} (some_there : parts ≠ [])
    (each : ∀ part ∈ parts, Compiles part.1 part.2) :
    Compiles (alternativeOf (parts.map (·.1))) (.anyOf (parts.map (·.2))) := by
  match parts with
  | [] => exact absurd rfl some_there
  | [part] => exact each part List.mem_cons_self
  | (e, p) :: second :: rest => exact .alternative e p (second :: rest) each

theorem Branches.parts_ne_nil (branches : Branches) (n : Nat) : branches.parts n ≠ [] := by
  cases branches <;> exact List.cons_ne_nil _ _

theorem Branch.elxs_eq_cons (b : Branch) (n : Nat) : ∃ e es, b.elxs n = e :: es := by
  cases b <;> exact ⟨_, _, rfl⟩

theorem Branches.elxs_eq_cons (branches : Branches) (n : Nat) :
    ∃ e es, branches.elxs n = e :: es := by
  cases branches <;> exact ⟨_, _, rfl⟩

mutual

/-- The element of an item stands for its pattern. -/
theorem Item.compiles (i : Item) (n : Nat) : Compiles (i.elx n) (i.pattern n) := by
  cases i with
  | word first more => exact .string _
  | one k => exact k.compiles
  | repeatedChar ch q => exact q.compiles (.string ch)
  | repeatedClass k q => exact q.compiles k.single
  | anchor a => exact .boundary _ _
  | group branches =>
    have each := branches.compiles_each (n + 1)
    have inner := compiles_alternativeOf (branches.parts_ne_nil (n + 1)) each
    rw [← branches.elxs_eq_parts, ← branches.patterns_eq_parts] at inner
    exact .group (Nat.succ_ne_zero n) inner (branches.fresh (n + 1))

theorem Branch.compiles (b : Branch) (n : Nat) : Compiles (.list (b.elxs n)) (b.pattern n) := by
  cases b with
  | last i => exact .last (i.compiles n)
  | cons i rest =>
    have later := rest.compiles (n + i.groups)
    obtain ⟨e, es, shape⟩ := rest.elxs_eq_cons (n + i.groups)
    rw [shape] at later
    rw [Branch.elxs, Branch.pattern, shape]
    refine .cons (i.compiles n) later fun number here there => ?_
    -- groups that are counted one after the other are apart
    rw [i.groups_eq n, List.mem_range'_1] at here
    rw [rest.groups_eq, List.mem_range'_1] at there
    omega

theorem Branches.compiles_each (branches : Branches) (n : Nat) :
    ∀ part ∈ branches.parts n, Compiles part.1 part.2 := by
  cases branches with
  | last b =>
    intro part inside
    rw [List.mem_singleton.mp inside]
    exact compiles_listOf (b.compiles n)
  | cons b rest =>
    intro part inside
    rcases List.mem_cons.mp inside with rfl | later
    · exact compiles_listOf (b.compiles n)
    · exact rest.compiles_each (n + b.groups) part later

end

/-- The element of a pattern stands for it. -/
theorem Branches.compiles (branches : Branches) : Compiles branches.elx branches.pattern := by
  rw [Branches.elx, Branches.pattern, branches.elxs_eq_parts, branches.patterns_eq_parts]
  exact compiles_alternativeOf (branches.parts_ne_nil 0) (branches.compiles_each 0)

theorem Branches.pattern_groups (branches : Branches) :
    branches.pattern.groups = List.range' 1 branches.groups := by
  rw [Branches.pattern, groups_anyOf, branches.groups_eq 0]

end Compiled

end SysMonitor.Source.Deelx
