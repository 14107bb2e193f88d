import Mathlib.Logic.Function.Basic
import SysMonitor.Library.Runs

/-!
# Tasks that interleave over a shared state

Any number of tasks, each with a control state of its own, take turns at a shared state.
A step names the task and what it does; a step that is not possible now is refused. The
counting rule says how the number of tasks in some region changes when one task moves.

Where the tasks have names that matter to the program, such as process ids, a crowd has one
control state for each name, and an invariant of the shared state and one task holds for
every task if each task keeps its own and does not disturb that of another.

Where a step of one name is a step of a machine of its own and changes the machine of no
other name, each name gets the answers that it gets alone.
-/

namespace SysMonitor.Library

universe u v w x

/-- The step that was asked for is not possible now. -/
inductive Refused where
  | refused
  deriving DecidableEq

/-- A shared state and the control states of all tasks. -/
structure World (σ : Type u) (τ : Type v) where
  shared : σ
  tasks : List τ
  deriving DecidableEq

section Moves

variable {σ : Type u} {τ : Type v} {α : Type w}

/-- One task moves. -/
def interleave (move : σ → τ → α → Option (σ × τ)) (s : World σ τ) (e : Nat × α) :
    Except Refused (World σ τ × Unit) :=
  match s.tasks[e.1]? with
  | none => .error .refused
  | some task =>
    match move s.shared task e.2 with
    | none => .error .refused
    | some (shared, task) => .ok (⟨shared, s.tasks.set e.1 task⟩, ())

/-- What a step that was possible did. -/
theorem interleave_ok {move : σ → τ → α → Option (σ × τ)} {s t : World σ τ} {e : Nat × α}
    {answer : Unit} (stepped : interleave move s e = .ok (t, answer)) :
    ∃ task task', s.tasks[e.1]? = some task ∧
      move s.shared task e.2 = some (t.shared, task') ∧ t.tasks = s.tasks.set e.1 task' := by
  unfold interleave at stepped
  cases found : s.tasks[e.1]? with
  | none => simp [found] at stepped
  | some task =>
    cases moved : move s.shared task e.2 with
    | none => simp [found, moved] at stepped
    | some result =>
      obtain ⟨shared, task'⟩ := result
      simp only [found, moved, Except.ok.injEq, Prod.mk.injEq] at stepped
      obtain ⟨rfl, -⟩ := stepped
      exact ⟨task, task', rfl, moved, rfl⟩

variable (region : τ → Bool)

theorem countP_pos {tasks : List τ} {i : Nat} {task : τ} (found : tasks[i]? = some task)
    (inside : region task = true) : 0 < tasks.countP region :=
  List.countP_pos_iff.mpr ⟨task, List.mem_of_getElem? found, inside⟩

/-- A task that moves takes its own contribution along, the others keep theirs. -/
theorem countP_move {tasks : List τ} {i : Nat} {task : τ} (found : tasks[i]? = some task)
    (task' : τ) :
    (tasks.set i task').countP region + (region task).toNat
      = tasks.countP region + (region task').toNat := by
  have counted := countP_pos region found
  obtain ⟨short, at_i⟩ := List.getElem?_eq_some_iff.mp found
  rw [List.countP_set short, at_i]
  cases before : region task with
  | false =>
    cases region task' <;> simp
  | true =>
    have pos := counted before
    cases region task' <;> simp <;> omega

/-- Two tasks in a region. -/
theorem two_le_countP {tasks : List τ} {i j : Nat} {a b : τ} (apart : i ≠ j)
    (at_i : tasks[i]? = some a) (at_j : tasks[j]? = some b) (inside_a : region a = true)
    (inside_b : region b = true) : 2 ≤ tasks.countP region := by
  induction tasks generalizing i j with
  | nil => simp at at_i
  | cons head rest ih =>
    cases i with
    | zero =>
      cases j with
      | zero => exact absurd rfl apart
      | succ j =>
        rw [List.getElem?_cons_zero, Option.some.injEq] at at_i
        have below := countP_pos region (List.getElem?_cons_succ ▸ at_j) inside_b
        rw [List.countP_cons, at_i, if_pos inside_a]
        omega
    | succ i =>
      cases j with
      | zero =>
        rw [List.getElem?_cons_zero, Option.some.injEq] at at_j
        have below := countP_pos region (List.getElem?_cons_succ ▸ at_i) inside_a
        rw [List.countP_cons, at_j, if_pos inside_b]
        omega
      | succ j =>
        rw [List.getElem?_cons_succ] at at_i at_j
        have below := ih (fun same => apart (congrArg _ same)) at_i at_j
        rw [List.countP_cons]
        omega

/-- Every task after a move is the one that moved or one from another place. -/
theorem mem_set_cases {tasks : List τ} {i : Nat} {task' x : τ} (member : x ∈ tasks.set i task') :
    x = task' ∨ ∃ j, j ≠ i ∧ tasks[j]? = some x := by
  obtain ⟨j, short, at_j⟩ := List.mem_iff_getElem.mp member
  by_cases here : j = i
  · left
    rw [← at_j, List.getElem_set, if_pos here.symm]
  · right
    refine ⟨j, here, ?_⟩
    rw [List.getElem_set, if_neg (Ne.symm here)] at at_j
    rw [List.length_set] at short
    exact List.getElem?_eq_some_iff.mpr ⟨short, at_j⟩

end Moves

/-- A shared state and a control state for each name. -/
structure Crowd (σ : Type u) (κ : Type w) (τ : Type v) where
  shared : σ
  tasks : κ → τ

section Crowds

variable {σ : Type u} {τ : Type v} {κ : Type w} {α : Type x} [DecidableEq κ]

/-- The named task moves. -/
def crowdStep (move : κ → σ → τ → α → Option (σ × τ)) (s : Crowd σ κ τ) (e : κ × α) :
    Except Refused (Crowd σ κ τ × PUnit) :=
  match move e.1 s.shared (s.tasks e.1) e.2 with
  | none => .error .refused
  | some (shared, task) => .ok (⟨shared, Function.update s.tasks e.1 task⟩, ⟨⟩)

theorem crowdStep_ok {move : κ → σ → τ → α → Option (σ × τ)} {s t : Crowd σ κ τ} {e : κ × α}
    {answer : PUnit} (stepped : crowdStep move s e = .ok (t, answer)) :
    ∃ task, move e.1 s.shared (s.tasks e.1) e.2 = some (t.shared, task) ∧
      t.tasks = Function.update s.tasks e.1 task := by
  unfold crowdStep at stepped
  cases moved : move e.1 s.shared (s.tasks e.1) e.2 with
  | none => simp [moved] at stepped
  | some result =>
    obtain ⟨shared, task⟩ := result
    simp only [moved, Except.ok.injEq, Prod.mk.injEq] at stepped
    obtain ⟨rfl, -⟩ := stepped
    exact ⟨task, rfl, rfl⟩

/-- A task keeps its own invariant when it moves, and no move disturbs that of another. -/
theorem crowdStep_preserves {move : κ → σ → τ → α → Option (σ × τ)} (I : κ → σ → τ → Prop)
    (own : ∀ k shared task act shared' task', I k shared task →
      move k shared task act = some (shared', task') → I k shared' task')
    (other : ∀ k j shared task act shared' task' bystander, j ≠ k → I k shared task →
      I j shared bystander → move k shared task act = some (shared', task') →
      I j shared' bystander)
    {s t : Crowd σ κ τ} {e : κ × α} {answer : PUnit} (all : ∀ k, I k s.shared (s.tasks k))
    (stepped : crowdStep move s e = .ok (t, answer)) : ∀ k, I k t.shared (t.tasks k) := by
  obtain ⟨task, moved, tasks⟩ := crowdStep_ok stepped
  intro j
  rw [tasks]
  by_cases mover : j = e.1
  · subst mover
    rw [Function.update_self]
    exact own _ _ _ _ _ _ (all e.1) moved
  · rw [Function.update_of_ne mover]
    exact other _ _ _ _ _ _ _ _ mover (all e.1) (all j) moved

end Crowds

section Components

variable {σ : Type u} {τ : Type v} {κ : Type w} {α : Type x} {ω : Type u} {φ ω' : Type*} [DecidableEq κ]

/-- What a name does. -/
def actsOf (k : κ) (es : List (κ × α)) : List α := (es.filter (·.1 = k)).map (·.2)

/-- What a name is answered. -/
def answersOf (k : κ) : List (κ × α) → List ω → List ω
  | e :: es, a :: as => if e.1 = k then a :: answersOf k es as else answersOf k es as
  | _, _ => []

theorem actsOf_cons (k : κ) (e : κ × α) (es : List (κ × α)) :
    actsOf k (e :: es) = if e.1 = k then e.2 :: actsOf k es else actsOf k es := by
  by_cases here : e.1 = k <;> simp [actsOf, here]

theorem actsOf_filter (k j : κ) (es : List (κ × α)) :
    actsOf j (es.filter (·.1 = k)) = if j = k then actsOf k es else [] := by
  by_cases here : j = k
  · rw [here, if_pos rfl, actsOf, List.filter_filter, actsOf]
    simp
  · rw [if_neg here, actsOf, List.map_eq_nil_iff, List.filter_eq_nil_iff]
    intro e inside at_j
    have at_k := (List.mem_filter.mp inside).2
    exact here ((of_decide_eq_true at_j).symm.trans (of_decide_eq_true at_k))

variable {step : σ → κ × α → Except φ (σ × ω)} {solo : κ → τ → α → τ × ω'}
  (R : σ → (κ → τ) → Prop) (out : ω → ω') (good : κ → τ → α → Prop)

/-- A run in which every name's machine meets its condition gives every name the answers of
its machine. -/
theorem run_components
    (progress : ∀ s V k a, R s V → good k (V k) a → ∃ t answer, step s (k, a) = .ok (t, answer) ∧
      R t (Function.update V k (solo k (V k) a).1) ∧ out answer = (solo k (V k) a).2)
    (es : List (κ × α)) (s : σ) (V : κ → τ) (start : R s V)
    (all : ∀ k, AllSteps (solo k) (good k) (V k) (actsOf k es)) :
    ∃ t answers, run step s es = .ok (t, answers) ∧
      ∀ k, (answersOf k es answers).map out = (runSpec (solo k) (V k) (actsOf k es)).2 := by
  induction es generalizing s V with
  | nil => exact ⟨s, [], rfl, fun k => rfl⟩
  | cons e es ih =>
    obtain ⟨k, a⟩ := e
    have first : good k (V k) a := by
      have mine := all k
      rw [actsOf_cons, if_pos rfl] at mine
      exact mine.1
    obtain ⟨t, answer, taken, next, same⟩ := progress s V k a start first
    have rest : ∀ j, AllSteps (solo j) (good j) (Function.update V k (solo k (V k) a).1 j)
        (actsOf j es) := by
      intro j
      have mine := all j
      rw [actsOf_cons] at mine
      by_cases here : k = j
      · subst here
        rw [if_pos rfl] at mine
        rw [Function.update_self]
        exact mine.2
      · rw [if_neg here] at mine
        rw [Function.update_of_ne (Ne.symm here)]
        exact mine
    obtain ⟨u, answers, ran, outputs⟩ := ih t _ next rest
    refine ⟨u, answer :: answers, run_cons_ok taken ran, fun j => ?_⟩
    have later := outputs j
    rw [answersOf, actsOf_cons]
    by_cases here : k = j
    · subst here
      rw [Function.update_self] at later
      rw [if_pos rfl, if_pos rfl, List.map_cons, same, later]
      rfl
    · rw [Function.update_of_ne (Ne.symm here)] at later
      rw [if_neg here, if_neg here]
      exact later

/-- The condition on a run is one on each name's machine. -/
theorem components_good {cond : σ → κ × α → Prop}
    (same : ∀ s V k a, R s V → cond s (k, a) → good k (V k) a)
    (progress : ∀ s V k a, R s V → good k (V k) a → ∃ t answer, step s (k, a) = .ok (t, answer) ∧
      R t (Function.update V k (solo k (V k) a).1) ∧ out answer = (solo k (V k) a).2)
    (es : List (κ × α)) (s : σ) (V : κ → τ) (start : R s V) (admitted : Admitted step cond s es) :
    ∀ k, AllSteps (solo k) (good k) (V k) (actsOf k es) := by
  induction es generalizing s V with
  | nil => exact fun k => trivial
  | cons e es ih =>
    obtain ⟨k, a⟩ := e
    obtain ⟨first, rest⟩ := admitted
    have mine := same s V k a start first
    obtain ⟨t, answer, taken, next, -⟩ := progress s V k a start mine
    rw [taken] at rest
    intro j
    have later := ih t _ next rest j
    rw [actsOf_cons]
    by_cases here : k = j
    · subst here
      rw [Function.update_self] at later
      rw [if_pos rfl]
      exact ⟨mine, later⟩
    · rw [Function.update_of_ne (Ne.symm here)] at later
      rw [if_neg here]
      exact later

/-- A name is answered what it is answered alone. -/
theorem run_alone {cond : σ → κ × α → Prop}
    (same : ∀ s V k a, R s V → cond s (k, a) → good k (V k) a)
    (progress : ∀ s V k a, R s V → good k (V k) a → ∃ t answer, step s (k, a) = .ok (t, answer) ∧
      R t (Function.update V k (solo k (V k) a).1) ∧ out answer = (solo k (V k) a).2)
    (es : List (κ × α)) (s : σ) (V : κ → τ) (start : R s V) (admitted : Admitted step cond s es) :
    ∃ t answers, run step s es = .ok (t, answers) ∧ ∀ k, ∃ u alone,
      run step s (es.filter (·.1 = k)) = .ok (u, alone) ∧
      (answersOf k es answers).map out = (answersOf k (es.filter (·.1 = k)) alone).map out := by
  have all := components_good R out good same progress es s V start admitted
  obtain ⟨t, answers, ran, outputs⟩ := run_components R out good progress es s V start all
  refine ⟨t, answers, ran, fun k => ?_⟩
  obtain ⟨u, alone, ran', outputs'⟩ :=
    run_components R out good progress (es.filter (·.1 = k)) s V start fun j => by
      rw [actsOf_filter]
      by_cases here : j = k
      · rw [if_pos here, here]
        exact all k
      · rw [if_neg here]
        trivial
  refine ⟨u, alone, ran', ?_⟩
  rw [outputs k, outputs' k, actsOf_filter, if_pos rfl]

end Components

end SysMonitor.Library
