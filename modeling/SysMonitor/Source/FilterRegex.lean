import SysMonitor.Source.DeelxSyntax
import SysMonitor.Source.FilterSentences

/-!
# The regular expression of `AddFilter`, as it is written in native/jni/filter.cpp
-/

namespace SysMonitor.Source.FilterRegex
open SysMonitor.Library.Backtracking SysMonitor.Source.Deelx SysMonitor.Source.ReaderStrings
open SysMonitor.Source.FilterSentences (Dollar columnWords actionWords sentence)

/-- A word that is not empty. -/
def wordItem (text : String) : Item := .word ((literal text).headD 0) (literal text).tail

/-- One word a branch. -/
def wordBranches : List String → Branches
  | [] => .last (.last (wordItem ""))
  | [text] => .last (.last (wordItem text))
  | text :: rest => .cons (.last (wordItem text)) (wordBranches rest)

def letterS : Byte := 115

/-- `…s?\swith` -/
def withBranch (stem : String) : Branch :=
  .cons (wordItem stem) <| .cons (.repeatedChar letterS .optional) <|
    .cons (.one .space) <| .last (wordItem "with")

/-- `…s?` -/
def verbBranch (stem : String) : Branch :=
  .cons (wordItem stem) <| .last (.repeatedChar letterS .optional)

def operatorBranches : Branches :=
  .cons (withBranch "begin") <| .cons (withBranch "start") <| .cons (withBranch "end") <|
  .cons (verbBranch "contain") <| .cons (verbBranch "exclude") <|
  .cons (.cons (wordItem "is") <| .cons (.one .space) <| .last (wordItem "not")) <|
  .last (.last (wordItem "is"))

def sentenceBranches : Branches :=
  .last <| .cons (.anchor .caret) <| .cons (.group (wordBranches columnWords)) <|
    .cons (.one .space) <| .cons (.group operatorBranches) <| .cons (.one .space) <|
    .cons (.group (.last (.last (.repeatedClass .dot .many)))) <| .cons (.one .space) <|
    .cons (wordItem "then") <| .cons (.one .space) <| .cons (.group (wordBranches actionWords)) <|
    .last (.anchor .dollar)

/-- The literal in the source. -/
def regexp : List Byte := literal
  ("^(time|pid|process|operation|api|path|result|details)\\s(begins?\\swith|starts?\\swith|" ++
    "ends?\\swith|contains?|excludes?|is\\snot|is)\\s(.+)\\sthen\\s(include|exclude)$")

theorem sentenceBranches_text : sentenceBranches.text = regexp := by
  decide +kernel

theorem sentenceBranches_wellFormed : sentenceBranches.wellFormed := by
  decide

theorem sentenceBranches_groups : sentenceBranches.groups = 4 := by
  decide

section Meaning

theorem wordItem_pattern {word : String} (some_there : literal word ≠ []) (n : Nat) :
    (wordItem word).pattern n = FilterSentences.word word := by
  obtain ⟨first, more, spelled⟩ := List.exists_cons_of_ne_nil some_there
  rw [wordItem, FilterSentences.word, spelled]
  rfl

theorem dot_accepts : CharClass.dot.accepts = fun c => decide (c ≠ 10) := by
  have each : ∀ c : Byte, inRange false [] [10] c = decide (c ≠ 10) := by decide +kernel
  exact funext each

/-- The engine's spaces are four of the six of the C library. -/
theorem isSpace_iff (c : Byte) :
    inRange true [] [32, 9, 13, 10] c = true ↔ isSpace c = true ∧ c ≠ 11 ∧ c ≠ 12 := by
  revert c
  decide +kernel

section Parts

variable {text : List Byte} {R : Pattern Byte → Pattern Byte → Prop} (congr : Congruence text R)

include congr

theorem related_verb {stem : String} (some_there : literal stem ≠ []) (n : Nat) :
    R ((verbBranch stem).pattern n) (FilterSentences.verb stem) := by
  have word := wordItem_pattern some_there n
  rw [verbBranch, Branch.pattern, word]
  exact congr.agrees (agrees_refl _)

variable (space : R (.one CharClass.space.accepts) FilterSentences.space)

include space

theorem related_with {stem : String} (some_there : literal stem ≠ []) (n : Nat) :
    R ((withBranch stem).pattern n)
      (.seq (FilterSentences.verb stem) (.seq FilterSentences.space (FilterSentences.word "with"))) := by
  have word := wordItem_pattern some_there n
  have same {p : Pattern Byte} : R p p := congr.agrees (agrees_refl p)
  have parts : R ((withBranch stem).pattern n) (.seq (FilterSentences.word stem)
      (.seq (.optional (FilterSentences.word "s")) (.seq FilterSentences.space
        (FilterSentences.word "with")))) := by
    rw [withBranch, Branch.pattern, word]
    exact congr.seq same (congr.seq same (congr.seq space same))
  exact congr.trans parts (congr.agrees (agrees_seq_assoc _ _ _))

theorem related_operators (n : Nat) :
    R (.anyOf (operatorBranches.patterns n)) FilterSentences.operators := by
  have same {p : Pattern Byte} : R p p := congr.agrees (agrees_refl p)
  refine congr.anyOf (.cons ?_ (.cons ?_ (.cons ?_ (.cons ?_ (.cons ?_ (.cons ?_ (.cons ?_ .nil)))))))
  · exact related_with congr space (by decide) _
  · exact related_with congr space (by decide) _
  · exact related_with congr space (by decide) _
  · exact related_verb congr (by decide) _
  · exact related_verb congr (by decide) _
  · exact congr.seq same (congr.seq space same)
  · exact same

/-- The regular expression is to the sentence as the spaces of the one are to those of the other. -/
theorem related_sentence : R sentenceBranches.pattern (sentence .textEnd) := by
  have same {p : Pattern Byte} : R p p := congr.agrees (agrees_refl p)
  have value : R (.group 3 (.many CharClass.dot.accepts)) (.group 3 (.many fun c => c ≠ 10)) := by
    rw [dot_accepts]
    exact same
  have begins : R ((Item.anchor .caret).pattern 0) (.assert fun _ i => i = 0) :=
    congr.agrees <| agrees_assert fun i _ => by simp [boundary, Anchor.ntype, Anchor.byes]
  have ends : R ((Item.anchor .dollar).pattern 4) (.assert (Dollar.holds .textEnd)) :=
    congr.agrees <| agrees_assert fun i inside => by
      have last : text.length ≤ i ↔ i = text.length := by omega
      simp [boundary, Anchor.ntype, Anchor.byes, Dollar.holds, last]
  have operators := congr.group 2 (related_operators congr space 2)
  exact congr.seq begins <| congr.seq same <| congr.seq space <| congr.seq operators <|
    congr.seq space <| congr.seq value <| congr.seq space <| congr.seq same <|
    congr.seq space <| congr.seq same ends

end Parts

variable {text : List Byte}

/-- On texts without the two spaces that the engine does not know, the regular expression is the
sentence. -/
theorem agrees_sentence (known : ∀ c ∈ text, c ≠ 11 ∧ c ≠ 12) :
    Agrees text sentenceBranches.pattern (sentence .textEnd) := by
  refine related_sentence (agrees_congruence text) (agrees_one fun c inside => ?_)
  exact Bool.eq_iff_iff.mpr ((isSpace_iff c).trans (and_iff_left (known c inside)))

/-- What the regular expression finds, the sentence finds too. -/
theorem within_sentence (text : List Byte) :
    Within text sentenceBranches.pattern (sentence .textEnd) :=
  related_sentence (within_congruence text) (within_one fun c found => ((isSpace_iff c).mp found).1)

end Meaning

end SysMonitor.Source.FilterRegex
