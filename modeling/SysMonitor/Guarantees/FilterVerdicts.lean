import SysMonitor.Guarantees.FilterSentences

/-!
# The verdict of a rule list

The first rule that matches a record decides. When none does, the last rule of the list does:
the record is shown if it is an exclude rule, or if there is no rule at all.
-/

namespace SysMonitor.Guarantees.FilterVerdicts
open SysMonitor.Library.Backtracking
open SysMonitor.Source SysMonitor.Source.Filter SysMonitor.Source.FilterSentences
open SysMonitor.Source.ReaderStrings
open SysMonitor.Guarantees.FilterSentences

/-- No rule matches the record, each in the world that it meets. -/
def AllMiss (worlds : Nat → World) (rules : List FilterItem) (r : LogRecord) : Prop :=
  ∀ k p, rules[k]? = some p → RuleMisses (worlds k) p r

/-- The verdict when no rule matches. -/
def afterMisses (rules : List FilterItem) (result : ActionResult) : ActionResult :=
  match rules.getLast? with
  | none => result
  | some p => if p.action = .actionExclude then .resultInclude else .resultNone

section Loop

variable {worlds : Nat → World} {r : LogRecord} {p : FilterItem} {rules rest : List FilterItem}
  {result : ActionResult}

theorem allMiss_nil : AllMiss worlds [] r := fun _ _ found => nomatch found

theorem allMiss_cons :
    AllMiss worlds (p :: rules) r ↔
      RuleMisses (worlds 0) p r ∧ AllMiss (fun k => worlds (k + 1)) rules r := by
  constructor
  · exact fun missed => ⟨missed 0 p rfl, fun k q found => missed (k + 1) q found⟩
  · rintro ⟨first, later⟩ k q found
    cases k with
    | zero =>
      obtain rfl := Option.some.inj found
      exact first
    | succ k => exact later k q found

theorem allMiss_append :
    AllMiss worlds (rules ++ rest) r ↔
      AllMiss worlds rules r ∧ AllMiss (fun k => worlds (rules.length + k)) rest r := by
  induction rules generalizing worlds with
  | nil => simp [allMiss_nil]
  | cons p rules ih =>
    rw [List.cons_append, allMiss_cons, allMiss_cons, ih, and_assoc]
    simp [Nat.add_right_comm]

theorem afterMisses_cons :
    afterMisses (p :: rules) result
      = afterMisses rules (if p.action = .actionExclude then .resultInclude else .resultNone) := by
  cases rules with
  | nil => rfl
  | cons q rules =>
    rw [afterMisses, afterMisses, List.getLast?_cons_cons]
    cases last : (q :: rules).getLast? with
    | none => simp at last
    | some _ => rfl

/-- The loop goes past the rules that do not match, whatever follows them. -/
theorem filterFrom_misses (missed : AllMiss worlds rules r) :
    filterFrom worlds r (rules ++ rest) result
      = filterFrom (fun k => worlds (rules.length + k)) r rest (afterMisses rules result) := by
  induction rules generalizing worlds result with
  | nil => simp [afterMisses]
  | cons p rules ih =>
    obtain ⟨first, later⟩ := allMiss_cons.mp missed
    rw [List.cons_append, filterFrom_miss first, ih later, afterMisses_cons]
    simp [Nat.add_right_comm]

/-- Either no rule matches, or there is a first one that does not miss. -/
theorem allMiss_or_first (worlds : Nat → World) (rules : List FilterItem) (r : LogRecord) :
    AllMiss worlds rules r ∨ ∃ before p after, rules = before ++ p :: after ∧
      AllMiss worlds before r ∧ ¬ RuleMisses (worlds before.length) p r := by
  induction rules generalizing worlds with
  | nil => exact .inl allMiss_nil
  | cons p rules ih =>
    by_cases first : RuleMisses (worlds 0) p r
    · rcases ih (fun k => worlds (k + 1)) with missed | ⟨before, q, after, rfl, missed, answered⟩
      · exact .inl (allMiss_cons.mpr ⟨first, missed⟩)
      · exact .inr ⟨p :: before, q, after, rfl, allMiss_cons.mpr ⟨first, missed⟩, answered⟩
    · exact .inr ⟨[], p, rules, rfl, allMiss_nil, first⟩

/-- The first rule that does not miss gives the verdict. -/
theorem filterLog_first (acts : p.action ≠ .actionNone) (missed : AllMiss worlds rules r)
    (answered : ¬ RuleMisses (worlds rules.length) p r) :
    filterLog worlds (rules ++ p :: rest) r = filterOneLog (worlds rules.length) p r := by
  rw [filterLog, filterFrom_misses missed]
  exact filterFrom_answer acts answered

theorem filterLog_misses (missed : AllMiss worlds rules r) :
    filterLog worlds rules r = .ok (afterMisses rules .resultInclude) := by
  have whole : filterFrom worlds r (rules ++ []) .resultInclude = _ := filterFrom_misses missed
  rw [List.append_nil] at whole
  rw [filterLog, whole, filterFrom]

end Loop

/-- Every rule that `AddFilter` makes includes or excludes. -/
theorem built_acts {dollar : Dollar} {rules : List FilterItem} (built : Built dollar rules) :
    ∀ p ∈ rules, p.action ≠ .actionNone := by
  induction built with
  | empty => exact fun p listed => nomatch listed
  | @add rules rules' accepted filter memory before added ih =>
    cases found : search (sentence dollar) filter.bytes with
    | none =>
      rw [addFilter, found] at added
      obtain ⟨rfl, -⟩ := Prod.mk.inj (Except.ok.inj added)
      exact ih
    | some groups =>
      rw [addFilter_matched rules memory found] at added
      have same := Except.ok.inj added
      split at same
      · obtain ⟨rfl, -⟩ := Prod.mk.inj same
        intro p listed
        rcases List.mem_append.mp listed with earlier | added
        · exact ih p earlier
        · rw [List.mem_singleton.mp added]
          exact ruleOf_acts found
      · obtain ⟨rfl, -⟩ := Prod.mk.inj same
        exact ih

/-- The list is empty, or an exclude rule is its last. -/
def ShowsByDefault (rules : List FilterItem) : Prop :=
  ∀ p, rules.getLast? = some p → p.action = .actionExclude

theorem afterMisses_shows {rules : List FilterItem} (shows' : ShowsByDefault rules) :
    afterMisses rules .resultInclude = .resultInclude := by
  rw [afterMisses]
  cases last : rules.getLast? with
  | none => rfl
  | some p => exact if_pos (shows' p last)

theorem afterMisses_hides {rules : List FilterItem} (hides : ¬ ShowsByDefault rules) :
    afterMisses rules .resultInclude = .resultNone := by
  rw [afterMisses]
  cases last : rules.getLast? with
  | none => exact absurd (fun p found => by rw [last] at found; cases found) hides
  | some p =>
    apply if_neg
    intro excludes
    apply hides
    intro q found
    rw [last] at found
    rwa [← Option.some.inj found]

/-- The verdict is the action of this rule. -/
def Decides (p : FilterItem) (verdict : Except Fault ActionResult) : Prop :=
  (p.action = .actionInclude ∧ verdict = .ok .resultInclude) ∨
    (p.action = .actionExclude ∧ verdict = .ok .resultExclude)

theorem ruleMatches_decides {w : World} {p : FilterItem} {r : LogRecord}
    (acts : p.action ≠ .actionNone) (found : RuleMatches w p r) :
    Decides p (filterOneLog w p r) := by
  rw [ruleMatches_iff.mp found]
  cases action : p.action with
  | actionNone => exact absurd action acts
  | actionInclude => exact .inl ⟨action, rfl⟩
  | actionExclude => exact .inr ⟨action, rfl⟩

/-- Ordered first-match filtering: the first rule that matches decides, whatever follows it, and
without one the record is shown if the list is empty or ends with an exclude rule. -/
theorem filterLog_firstMatch {dollar : Dollar} {rules : List FilterItem}
    (built : Built dollar rules) (worlds : Nat → World) (r : LogRecord) :
    (∀ before p after, rules = before ++ p :: after → AllMiss worlds before r →
      RuleMatches (worlds before.length) p r → Decides p (filterLog worlds rules r)) ∧
    (AllMiss worlds rules r →
      (ShowsByDefault rules → filterLog worlds rules r = .ok .resultInclude) ∧
      (¬ ShowsByDefault rules → filterLog worlds rules r = .ok .resultNone)) := by
  constructor
  · rintro before p after rfl missed found
    have acts := built_acts built p (List.mem_append_right _ List.mem_cons_self)
    have answered : ¬ RuleMisses (worlds before.length) p r := by
      obtain ⟨result, answer, nonzero⟩ := found
      intro missed
      exact nonzero (Except.ok.inj (answer.symm.trans missed))
    rw [filterLog_first acts missed answered]
    exact ruleMatches_decides acts found
  · intro missed
    rw [filterLog_misses missed]
    exact ⟨fun shows' => by rw [afterMisses_shows shows'],
      fun hides => by rw [afterMisses_hides hides]⟩

/-- A record that a list does not show is shown with an exclude rule behind the list exactly
when no rule matches it, and not the new one. -/
theorem filterLog_excludeAdded (worlds : Nat → World) (rules : List FilterItem) (r : LogRecord)
    (exclude : FilterItem) (acts : ∀ p ∈ rules, p.action ≠ .actionNone)
    (excludes : exclude.action = .actionExclude)
    (hidden : filterLog worlds rules r ≠ .ok .resultInclude) :
    filterLog worlds (rules ++ [exclude]) r = .ok .resultInclude ↔
      AllMiss worlds rules r ∧ RuleMisses (worlds rules.length) exclude r := by
  constructor
  · intro shown
    rcases allMiss_or_first worlds rules r with missed | ⟨before, p, after, rfl, missed, answered⟩
    · refine ⟨missed, ?_⟩
      by_contra answered
      have acts' : exclude.action ≠ .actionNone := by
        rw [excludes]
        decide
      rw [filterLog_first acts' missed answered] at shown
      rcases filterOneLog_cases shown with found | none
      · rw [excludes] at found
        exact absurd found (by decide)
      · exact absurd none (by decide)
    · have first := acts p (List.mem_append_right _ List.mem_cons_self)
      rw [filterLog_first first missed answered] at hidden
      rw [List.append_assoc, List.cons_append, filterLog_first first missed answered] at shown
      exact absurd shown hidden
  · rintro ⟨missed, last⟩
    have all : AllMiss worlds (rules ++ [exclude]) r :=
      allMiss_append.mpr ⟨missed, allMiss_cons.mpr ⟨last, allMiss_nil⟩⟩
    have shows' : ShowsByDefault (rules ++ [exclude]) := by
      intro p found
      rw [List.getLast?_concat] at found
      rwa [← Option.some.inj found]
    rw [filterLog_misses all, afterMisses_shows shows']

/-- `path is /a then include` -/
def includeA : FilterItem := ⟨.columnPath, .opIs, literal "/a", 2, .actionInclude⟩

/-- `path is /c then exclude` -/
def excludeC : FilterItem := ⟨.columnPath, .opIs, literal "/c", 2, .actionExclude⟩

theorem pathB_nulFree : 0 ∉ literal "/b" := by decide

/-- A record with the path `/b`. -/
def recordB : LogRecord :=
  ⟨⟨0, 0, 0, 0, 0, 0, 0, 0, 0, 0⟩, literal "/b", [], pathB_nulFree, noDetails_nulFree⟩

/-- The record is not shown, and with the exclude rule it is. -/
theorem excludeAdded_shows :
    filterLog (fun _ => World.empty) [includeA] recordB = .ok .resultNone ∧
      filterLog (fun _ => World.empty) ([includeA] ++ [excludeC]) recordB = .ok .resultInclude := by
  decide

theorem filterLog_excludeAdded_recordB :
    filterLog (fun _ => World.empty) ([includeA] ++ [excludeC]) recordB = .ok .resultInclude ↔
      AllMiss (fun _ => World.empty) [includeA] recordB ∧ RuleMisses World.empty excludeC recordB :=
  filterLog_excludeAdded (fun _ => World.empty) [includeA] recordB excludeC (by decide) rfl
    (by decide)

/-- `path is /b then exclude` -/
def excludeB : FilterItem := ⟨.columnPath, .opIs, literal "/b", 2, .actionExclude⟩

theorem pathD_nulFree : 0 ∉ literal "/d" := by decide

/-- A record with the path `/d`. -/
def recordD : LogRecord :=
  ⟨⟨0, 0, 0, 0, 0, 0, 0, 0, 0, 0⟩, literal "/d", [], pathD_nulFree, noDetails_nulFree⟩

theorem sentenceA_nulFree : 0 ∉ literal "path is /a then include" := by decide

theorem sentenceA_fits : (literal "path is /a then include").length < 2 ^ 31 := by decide

theorem sentenceB_nulFree : 0 ∉ literal "path is /b then exclude" := by decide

theorem sentenceB_fits : (literal "path is /b then exclude").length < 2 ^ 31 := by decide

theorem sentenceC_nulFree : 0 ∉ literal "path is /c then exclude" := by decide

theorem sentenceC_fits : (literal "path is /c then exclude").length < 2 ^ 31 := by decide

/-- The sentences of `includeA`, `excludeB` and `excludeC`. -/
def sentenceA : UserString := ⟨_, sentenceA_nulFree, sentenceA_fits⟩
def sentenceB : UserString := ⟨_, sentenceB_nulFree, sentenceB_fits⟩
def sentenceC : UserString := ⟨_, sentenceC_nulFree, sentenceC_fits⟩

theorem sentences_added :
    addFilter .textEnd [] sentenceA available = .ok ([includeA], true) ∧
    addFilter .textEnd [includeA] sentenceB available = .ok ([includeA, excludeB], true) ∧
    addFilter .textEnd [includeA, excludeB] sentenceC available
      = .ok ([includeA, excludeB, excludeC], true) := by
  decide +kernel

/-- The second of three rules decides about `/b`, and none about `/d`. -/
theorem filterLog_firstMatch_rules :
    Decides excludeB
      (filterLog (fun _ => World.empty) ([includeA] ++ excludeB :: [excludeC]) recordB) ∧
    filterLog (fun _ => World.empty) [includeA, excludeB, excludeC] recordD = .ok .resultInclude := by
  obtain ⟨first, second, third⟩ := sentences_added
  have built : Built .textEnd [includeA, excludeB, excludeC] :=
    .add sentenceC available (.add sentenceB available (.add sentenceA available .empty first) second)
      third
  constructor
  · refine (filterLog_firstMatch built (fun _ => World.empty) recordB).1 [includeA] excludeB [excludeC]
      rfl (allMiss_cons.mpr ⟨rfl, allMiss_nil⟩) ⟨_, rfl, by decide⟩
  · refine ((filterLog_firstMatch built (fun _ => World.empty) recordD).2 ?_).1 ?_
    · exact allMiss_cons.mpr ⟨rfl, allMiss_cons.mpr ⟨rfl, allMiss_cons.mpr ⟨rfl, allMiss_nil⟩⟩⟩
    · rintro p ⟨⟩
      rfl

end SysMonitor.Guarantees.FilterVerdicts
