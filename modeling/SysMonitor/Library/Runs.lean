import Mathlib.Logic.Basic
import Mathlib.Data.List.Basic

/-!
# Runs of stepping systems

A machine is a function that consumes an event and either faults or yields the next
state and what the event answered; its runs fold it over a list of events. The rules
carry what one step does to every run: a simulation, an invariant, a property of every
step taken, an exact condition for the absence of faults.
-/

namespace SysMonitor.Library

universe u v w x y

section Machines

variable {σ : Type u} {ε : Type v} {ω : Type u} {φ : Type w} {α : Type x}

/-- Run a machine over the events, collecting the answers; the first fault stops it. -/
def run (step : σ → ε → Except φ (σ × ω)) : σ → List ε → Except φ (σ × List ω)
  | s, [] => .ok (s, [])
  | s, e :: es => do
    let (t, answer) ← step s e
    let (u, answers) ← run step t es
    return (u, answer :: answers)

/-- Run a total machine that cannot fault. -/
def runSpec (step : α → ε → α × ω) : α → List ε → α × List ω
  | a, [] => (a, [])
  | a, e :: es =>
    let (b, answer) := step a e
    let (c, answers) := runSpec step b es
    (c, answer :: answers)

/-- The events of a total machine's run all meet `cond` in the state they find. -/
def AllSteps (step : α → ε → α × ω) (cond : α → ε → Prop) : α → List ε → Prop
  | _, [] => True
  | a, e :: es => cond a e ∧ AllSteps step cond (step a e).1 es

/-- The events of a machine's run all meet `cond` in the state they find. -/
def Admitted (step : σ → ε → Except φ (σ × ω)) (cond : σ → ε → Prop) : σ → List ε → Prop
  | _, [] => True
  | s, e :: es => cond s e ∧
    match step s e with
    | .ok (t, _) => Admitted step cond t es
    | .error _ => True

/-- Every step that the machine's run takes meets `post`; a fault ends the run. -/
def EveryStep (step : σ → ε → Except φ (σ × ω)) (post : σ → ε → σ → ω → Prop) :
    σ → List ε → Prop
  | _, [] => True
  | s, e :: es =>
    match step s e with
    | .ok (t, answer) => post s e t answer ∧ EveryStep step post t es
    | .error _ => True

instance Admitted.decidable (step : σ → ε → Except φ (σ × ω)) (cond : σ → ε → Prop)
    [∀ s e, Decidable (cond s e)] : ∀ s es, Decidable (Admitted step cond s es)
  | _, [] => .isTrue trivial
  | s, e :: es =>
    match same : step s e with
    | .ok (t, _) =>
      have := Admitted.decidable step cond t es
      decidable_of_iff (cond s e ∧ Admitted step cond t es) (by simp [Admitted, same])
    | .error _ => decidable_of_iff (cond s e) (by simp [Admitted, same])

instance EveryStep.decidable (step : σ → ε → Except φ (σ × ω)) (post : σ → ε → σ → ω → Prop)
    [∀ s e t answer, Decidable (post s e t answer)] : ∀ s es, Decidable (EveryStep step post s es)
  | _, [] => .isTrue trivial
  | s, e :: es =>
    match same : step s e with
    | .ok (t, answer) =>
      have := EveryStep.decidable step post t es
      decidable_of_iff (post s e t answer ∧ EveryStep step post t es) (by simp [EveryStep, same])
    | .error _ => .isTrue (by simp [EveryStep, same])

/-- What a computation in two parts went through. -/
theorem bind_eq_ok {β : Type x} {m : Except φ α} {f : α → Except φ β} {b : β}
    (same : (m >>= f) = .ok b) : ∃ a, m = .ok a ∧ f a = .ok b := by
  cases m with
  | error fault => cases same
  | ok a => exact ⟨a, rfl, same⟩

theorem run_cons_ok {step : σ → ε → Except φ (σ × ω)} {s t u : σ} {e : ε} {es : List ε}
    {answer : ω} {answers : List ω} (first : step s e = .ok (t, answer))
    (rest : run step t es = .ok (u, answers)) :
    run step s (e :: es) = .ok (u, answer :: answers) := by
  simp [run, first, rest, bind, Except.bind, pure, Except.pure]

theorem runSpec_append (step : α → ε → α × ω) (a : α) (before after : List ε) :
    runSpec step a (before ++ after)
      = ((runSpec step (runSpec step a before).1 after).1,
        (runSpec step a before).2 ++ (runSpec step (runSpec step a before).1 after).2) := by
  induction before generalizing a with
  | nil => rfl
  | cons e before ih => simp [runSpec, ih]

/-- The rest of a run whose first step is known. -/
theorem run_rest {step : σ → ε → Except φ (σ × ω)} {s t u : σ} {e : ε} {es : List ε}
    {answer : ω} {answers : List ω} (first : step s e = .ok (t, answer))
    (ran : run step s (e :: es) = .ok (u, answers)) :
    ∃ rest, run step t es = .ok (u, rest) := by
  rw [run] at ran
  obtain ⟨⟨t', answer'⟩, first', ran⟩ := bind_eq_ok ran
  rw [first] at first'
  cases first'
  obtain ⟨⟨u', rest⟩, ran', same⟩ := bind_eq_ok ran
  cases same
  exact ⟨rest, ran'⟩

/-- What every step that is taken keeps holds where a run went through. -/
theorem run_invariant {step : σ → ε → Except φ (σ × ω)} (I : σ → Prop)
    (keeps : ∀ s e t answer, I s → step s e = .ok (t, answer) → I t) {es : List ε} {s t : σ}
    {answers : List ω} (start : I s) (ran : run step s es = .ok (t, answers)) : I t := by
  induction es generalizing s answers with
  | nil =>
    cases ran
    exact start
  | cons e es ih =>
    rw [run] at ran
    obtain ⟨⟨s', answer⟩, first, -⟩ := bind_eq_ok ran
    obtain ⟨rest, ran⟩ := run_rest first ran
    exact ih (keeps s e s' answer start first) ran

/-- A step simulation carries over to runs: no fault, the same answers, related final
states. The relation may also speak of the events still to come. -/
theorem run_simulates {step : σ → ε → Except φ (σ × ω)} {spec : α → ε → α × ω}
    (R : σ → α → List ε → Prop)
    (simulate : ∀ s a e es, R s a (e :: es) →
      ∃ t, step s e = .ok (t, (spec a e).2) ∧ R t (spec a e).1 es)
    (es : List ε) (s : σ) (a : α) (related : R s a es) :
    ∃ t, run step s es = .ok (t, (runSpec spec a es).2) ∧ R t (runSpec spec a es).1 [] := by
  induction es generalizing s a with
  | nil => exact ⟨s, rfl, related⟩
  | cons e es ih =>
    obtain ⟨t, first, next⟩ := simulate s a e es related
    obtain ⟨u, rest, last⟩ := ih t (spec a e).1 next
    exact ⟨u, run_cons_ok first rest, last⟩

/-- What every step preserves holds after every run, and no run faults. -/
theorem run_preserves {step : σ → ε → Except φ (σ × ω)} (I : σ → Prop)
    (preserve : ∀ s e, I s → ∃ t answer, step s e = .ok (t, answer) ∧ I t)
    (es : List ε) (s : σ) (start : I s) :
    ∃ t answers, run step s es = .ok (t, answers) ∧ I t := by
  induction es generalizing s with
  | nil => exact ⟨s, [], rfl, start⟩
  | cons e es ih =>
    obtain ⟨t, answer, first, next⟩ := preserve s e start
    obtain ⟨u, answers, rest, last⟩ := ih t next
    exact ⟨u, answer :: answers, run_cons_ok first rest, last⟩

/-- From an invariant that admitted steps preserve, a property of every step of an
admitted run. -/
theorem everyStep_of_admitted {step : σ → ε → Except φ (σ × ω)} {cond : σ → ε → Prop}
    {post : σ → ε → σ → ω → Prop} (I : σ → Prop)
    (preserve : ∀ s e t answer, I s → cond s e → step s e = .ok (t, answer) →
      post s e t answer ∧ I t)
    (es : List ε) (s : σ) (start : I s) (admitted : Admitted step cond s es) :
    EveryStep step post s es := by
  induction es generalizing s with
  | nil => trivial
  | cons e es ih =>
    obtain ⟨good, rest⟩ := admitted
    unfold EveryStep
    cases taken : step s e with
    | error fault => trivial
    | ok r =>
      obtain ⟨t, answer⟩ := r
      rw [taken] at rest
      obtain ⟨holds, next⟩ := preserve s e t answer start good taken
      exact ⟨holds, ih t next rest⟩

/-- A property that every step has which starts in an invariant. -/
theorem everyStep_of_invariant {step : σ → ε → Except φ (σ × ω)}
    {post : σ → ε → σ → ω → Prop} (I : σ → Prop)
    (preserve : ∀ s e t answer, I s → step s e = .ok (t, answer) → post s e t answer ∧ I t)
    (es : List ε) (s : σ) (start : I s) : EveryStep step post s es := by
  induction es generalizing s with
  | nil => trivial
  | cons e es ih =>
    unfold EveryStep
    cases taken : step s e with
    | error fault => trivial
    | ok r =>
      obtain ⟨t, answer⟩ := r
      obtain ⟨holds, next⟩ := preserve s e t answer start taken
      exact ⟨holds, ih t next⟩

/-- Where admitted steps do not fault and keep an invariant, an admitted run goes through and
its steps have the property. -/
theorem run_of_admitted {step : σ → ε → Except φ (σ × ω)} {cond : σ → ε → Prop}
    {post : σ → ε → σ → ω → Prop} (I : σ → Prop)
    (progress : ∀ s e, I s → cond s e →
      ∃ t answer, step s e = .ok (t, answer) ∧ post s e t answer ∧ I t)
    (es : List ε) (s : σ) (start : I s) (admitted : Admitted step cond s es) :
    (∃ t answers, run step s es = .ok (t, answers) ∧ I t) ∧ EveryStep step post s es := by
  induction es generalizing s with
  | nil => exact ⟨⟨s, [], rfl, start⟩, trivial⟩
  | cons e es ih =>
    obtain ⟨good, rest⟩ := admitted
    obtain ⟨t, answer, taken, holds, next⟩ := progress s e start good
    rw [taken] at rest
    obtain ⟨⟨u, answers, ran, last⟩, every⟩ := ih t next rest
    constructor
    · exact ⟨u, answer :: answers, run_cons_ok taken ran, last⟩
    · unfold EveryStep
      rw [taken]
      exact ⟨holds, every⟩

/-- Where steps of the environment keep an invariant under a condition and fault without it,
a run of the environment goes through, with the property at every step, exactly under the
condition. -/
theorem run_iff_admitted {step : σ → ε → Except φ (σ × ω)} {env cond : σ → ε → Prop}
    {post : σ → ε → σ → ω → Prop} (I : σ → Prop)
    (progress : ∀ s e, I s → env s e → cond s e →
      ∃ t answer, step s e = .ok (t, answer) ∧ post s e t answer ∧ I t)
    (stuck : ∀ s e, I s → env s e → ¬cond s e → ∃ fault, step s e = .error fault)
    (es : List ε) (s : σ) (start : I s) (allowed : Admitted step env s es) :
    ((∃ t answers, run step s es = .ok (t, answers)) ∧ EveryStep step post s es) ↔
      Admitted step cond s es := by
  induction es generalizing s with
  | nil => exact ⟨fun _ => trivial, fun _ => ⟨⟨s, [], rfl⟩, trivial⟩⟩
  | cons e es ih =>
    obtain ⟨good, rest⟩ := allowed
    by_cases holds : cond s e
    · obtain ⟨t, answer, taken, first, next⟩ := progress s e start good holds
      rw [taken] at rest
      have ih := ih t next rest
      constructor
      · rintro ⟨⟨u, answers, ran⟩, every⟩
        refine ⟨holds, ?_⟩
        rw [EveryStep, taken] at every
        obtain ⟨rest, ran⟩ := run_rest taken ran
        rw [taken]
        exact ih.mp ⟨⟨u, rest, ran⟩, every.2⟩
      · rintro ⟨-, admitted⟩
        rw [taken] at admitted
        obtain ⟨⟨u, answers, ran⟩, every⟩ := ih.mpr admitted
        refine ⟨⟨u, answer :: answers, run_cons_ok taken ran⟩, ?_⟩
        rw [EveryStep, taken]
        exact ⟨first, every⟩
    · obtain ⟨fault, failed⟩ := stuck s e start good holds
      refine iff_of_false ?_ fun admitted => holds admitted.1
      rintro ⟨⟨u, answers, ran⟩, -⟩
      rw [run, failed] at ran
      cases ran

/-- The last step of a run that goes through has the property. -/
theorem EveryStep.last {step : σ → ε → Except φ (σ × ω)} {post : σ → ε → σ → ω → Prop}
    {es : List ε} {s t u : σ} {e : ε} {answers : List ω} {answer : ω}
    (every : EveryStep step post s (es ++ [e])) (ran : run step s es = .ok (t, answers))
    (taken : step t e = .ok (u, answer)) : post t e u answer := by
  induction es generalizing s answers with
  | nil =>
    cases ran
    rw [List.nil_append, EveryStep, taken] at every
    exact every.1
  | cons first es ih =>
    rw [List.cons_append, EveryStep] at every
    cases here : step s first with
    | error fault =>
      rw [run, here] at ran
      cases ran
    | ok r =>
      obtain ⟨rest, ran⟩ := run_rest here ran
      rw [here] at every
      exact ih every.2 ran

/-- Where a step that does not meet the condition is possible and breaks the property, the
condition is exact. -/
theorem everyStep_iff_admitted {step : σ → ε → Except φ (σ × ω)} {cond : σ → ε → Prop}
    {post : σ → ε → σ → ω → Prop} (I : σ → Prop)
    (preserve : ∀ s e t answer, I s → cond s e → step s e = .ok (t, answer) →
      post s e t answer ∧ I t)
    (breaks : ∀ s e, I s → ¬cond s e → ∃ t answer, step s e = .ok (t, answer) ∧ ¬post s e t answer)
    (es : List ε) (s : σ) (start : I s) :
    EveryStep step post s es ↔ Admitted step cond s es := by
  refine ⟨?_, everyStep_of_admitted I preserve es s start⟩
  induction es generalizing s with
  | nil => exact fun _ => trivial
  | cons e es ih =>
    intro all
    unfold EveryStep at all
    by_cases good : cond s e
    · refine ⟨good, ?_⟩
      cases taken : step s e with
      | error fault => trivial
      | ok r =>
        obtain ⟨t, answer⟩ := r
        rw [taken] at all
        exact ih t (preserve s e t answer start good taken).2 all.2
    · obtain ⟨t, answer, taken, broken⟩ := breaks s e start good
      rw [taken] at all
      exact absurd all.1 broken

/-- A computation succeeds exactly under `good`, and then `post` holds of its result. -/
def SucceedsIff (good : Prop) (post : α → Prop) : Except φ α → Prop
  | .ok a => good ∧ post a
  | .error _ => ¬good

theorem SucceedsIff.bind {β : Type x} {first second : Prop} {mid : α → Prop} {post : β → Prop}
    {m : Except φ α} {f : α → Except φ β} (head : SucceedsIff first mid m)
    (tail : ∀ a, mid a → SucceedsIff second post (f a)) :
    SucceedsIff (first ∧ second) post (m >>= f) := by
  cases m with
  | error fault => exact fun both => head both.1
  | ok a =>
    obtain ⟨good, holds⟩ := head
    have rest := tail a holds
    change SucceedsIff (first ∧ second) post (f a)
    revert rest
    cases f a with
    | error fault => exact fun bad both => bad both.2
    | ok b => exact fun ⟨good', holds'⟩ => ⟨⟨good, good'⟩, holds'⟩

theorem SucceedsIff.mono {good : Prop} {post post' : α → Prop} {m : Except φ α}
    (spec : SucceedsIff good post m) (weaker : ∀ a, post a → post' a) :
    SucceedsIff good post' m := by
  cases m with
  | error fault => exact spec
  | ok a => exact ⟨spec.1, weaker a spec.2⟩

theorem SucceedsIff.congr {good good' : Prop} {post : α → Prop} {m : Except φ α}
    (spec : SucceedsIff good post m) (same : good ↔ good') : SucceedsIff good' post m := by
  rw [same] at spec
  exact spec

theorem SucceedsIff.iff {good : Prop} {post : α → Prop} {m : Except φ α}
    (spec : SucceedsIff good post m) : (∃ a, m = .ok a) ↔ good := by
  cases m with
  | error fault => exact ⟨fun ⟨a, same⟩ => by simp at same, fun holds => absurd holds spec⟩
  | ok a => exact ⟨fun _ => spec.1, fun _ => ⟨a, rfl⟩⟩

/-- Where every step succeeds exactly under a condition, a run succeeds exactly when all
its steps meet it. -/
theorem run_succeedsIff {step : σ → ε → Except φ (σ × ω)} {cond : σ → ε → Prop} (I : σ → Prop)
    (spec : ∀ s e, I s → SucceedsIff (cond s e) (fun r => I r.1) (step s e))
    (es : List ε) (s : σ) (start : I s) :
    SucceedsIff (Admitted step cond s es) (fun r => I r.1) (run step s es) := by
  induction es generalizing s with
  | nil => exact ⟨trivial, start⟩
  | cons e es ih =>
    have first := spec s e start
    unfold run Admitted
    revert first
    cases step s e with
    | error fault => exact fun bad both => bad both.1
    | ok r =>
      rintro ⟨good, next⟩
      have rest := ih r.1 next
      dsimp only [bind, Except.bind]
      revert rest
      cases run step r.1 es with
      | error fault => exact fun bad both => bad both.2
      | ok r' => exact fun ⟨good', last⟩ => ⟨⟨good, good'⟩, last⟩

end Machines

end SysMonitor.Library
