import SysMonitor.Source.TraceDog

/-!
# The module is unloaded only when no hooked call is in flight

The count follows the calls in flight as long as no report is interrupted: then the counters
are only touched in critical sections, one task at a time, and a waiter that reads zero
has nobody left to wait for. A report that is interrupted is lost for good.
-/

namespace SysMonitor.Guarantees.SafeUnload
open SysMonitor.Library SysMonitor.Source SysMonitor.Source.TraceDog

/-- How many calls are between their enter and their leave. -/
def inFlight (s : Module) : Nat := s.tasks.countP CallPc.between

/-- A task that waits for the semaphore in its enter or its leave. -/
def waits : CallPc → Bool
  | .enterDown _ | .leaveDown _ => true
  | _ => false

/-- What a task loaded is still what the counter holds. -/
def Current (d : Dog) : CallPc → Prop
  | .enterLoaded _ _ total | .leaveLoaded _ _ total => total = d.gRefCount
  | _ => True

/-- Nobody was in flight when the waiter looked. -/
def sawNone : WaiterPc → Bool
  | .atUp refCount | .test refCount => refCount = 0
  | .lastSleep | .returned => true
  | _ => false

/-- What one move of a task does to the quantities of the invariant. -/
structure Moved (d : Dog) (pc : CallPc) (act : CallAct) (d' : Dog) (pc' : CallPc) : Prop where
  balance : d'.sem + pc'.holds.toNat = d.sem + pc.holds.toNat
  arriving : pc'.arriving = true → pc.arriving = true ∨ act.begins = true
  between : pc'.between = true → pc.between = true ∨ pc.arriving = true
  count : ¬(act = .down .interrupted ∧ waits pc = true) → Current d pc →
    d'.gRefCount + pc.between.toNat = d.gRefCount + pc'.between.toNat
  current : Current d' pc'
  changed : d'.gRefCount ≠ d.gRefCount → pc.holds = true

theorem callMove_spec {d d' : Dog} {pc pc' : CallPc} {act : CallAct}
    (moved : callMove d pc act = some (d', pc')) : Moved d pc act d' pc' := by
  unfold callMove at moved
  split at moved
  all_goals
    first
    | cases moved
    | -- the two moves that take the semaphore
      obtain ⟨free, same⟩ := Option.ite_none_right_eq_some.mp moved
      have back := Nat.sub_add_cancel free
      cases same
  all_goals
    refine ⟨?_, ?_, ?_, ?_, ?_, ?_⟩ <;>
      simp_all [Current, CallPc.holds, CallPc.arriving, CallPc.between, CallAct.begins, waits, up,
        down, store]

/-- What one move of the waiter does to the quantities of the invariant. -/
structure WaiterMoved (d : Dog) (w : WaiterPc) (act : WaiterAct) (d' : Dog) (w' : WaiterPc) :
    Prop where
  balance : d'.sem + w'.holds.toNat = d.sem + w.holds.toNat
  kept : d'.gRefCount = d.gRefCount
  started : w = .notStarted → act = .start
  saw : sawNone w' = true →
    sawNone w = true ∨ d.gRefCount = 0 ∨ (act = .down .interrupted ∧ w = .atDown)

theorem waiterMove_spec {d d' : Dog} {w w' : WaiterPc} {act : WaiterAct}
    (moved : waiterMove d w act = some (d', w')) : WaiterMoved d w act d' w' := by
  unfold waiterMove at moved
  split at moved
  all_goals
    first
    | cases moved
    | obtain ⟨free, same⟩ := Option.ite_none_right_eq_some.mp moved
      have back := Nat.sub_add_cancel free
      cases same
  case h_6 refCount =>
    refine ⟨?_, rfl, by simp, ?_⟩
    · split <;> rfl
    · intro saw
      by_cases zero : 0 = refCount
      · left
        simp [sawNone, ← zero]
      · rw [if_pos zero] at saw
        cases saw
  all_goals
    refine ⟨?_, ?_, ?_, ?_⟩ <;> simp_all [WaiterPc.holds, sawNone, up, down]

/-- The module between two steps. -/
structure Consistent (s : Module) : Prop where
  balance : s.dog.sem + s.tasks.countP CallPc.holds + s.waiter.holds.toNat = 1
  count : s.dog.gRefCount = inFlight s
  current : ∀ task ∈ s.tasks, Current s.dog task
  settled : s.waiter ≠ .notStarted → s.tasks.countP CallPc.arriving = 0
  seen : sawNone s.waiter = true → inFlight s = 0

/-- No report of a call is interrupted, and the waiter only when no call is in flight. -/
def Uninterrupted (s : Module) : ModuleEvent → Prop
  | .task i act => ¬(act = .down .interrupted ∧ ∃ task ∈ s.tasks[i]?, waits task = true)
  | .waiter act => act = .down .interrupted ∧ s.waiter = .atDown → inFlight s = 0

/-- The count is the number of calls in flight, and there is none when the waiter has
returned. -/
def Safe (_ : Module) (_ : ModuleEvent) (t : Module) (_ : Unit) : Prop :=
  t.dog.gRefCount = inFlight t ∧ (t.waiter = .returned → inFlight t = 0)

instance (s : Module) (e : ModuleEvent) : Decidable (Uninterrupted s e) := by
  cases e <;> (unfold Uninterrupted; infer_instance)

section Step

variable {s t : Module}

theorem current_congr {d d' : Dog} {pc : CallPc} (same : d'.gRefCount = d.gRefCount)
    (current : Current d pc) : Current d' pc := by
  cases pc <;> simp_all [Current]

theorem holds_of_stale {d : Dog} {pc : CallPc} (stale : ¬Current d pc) : pc.holds = true := by
  cases pc <;> simp_all [Current, CallPc.holds]

/-- A move of one task. -/
theorem task_consistent {i : Nat} {act : CallAct} {answer : Unit} (consistent : Consistent s)
    (uninterrupted : Uninterrupted s (.task i act))
    (stepped : moduleStep s (.task i act) = .ok (t, answer)) : Consistent t := by
  obtain ⟨balance, count, current, settled, seen⟩ := consistent
  rw [moduleStep] at stepped
  split at stepped
  · cases stepped
  rename_i open_gate
  obtain ⟨⟨world, answer'⟩, interleaved, same⟩ := bind_eq_ok stepped
  obtain ⟨task, task', found, moved, tasks⟩ := interleave_ok interleaved
  cases same
  dsimp only at moved tasks found
  have spec := callMove_spec moved
  have member : task ∈ s.tasks := List.mem_of_getElem? found
  have holders := countP_move CallPc.holds found task'
  have flights := countP_move CallPc.between found task'
  have arrivals := countP_move CallPc.arriving found task'
  have balanced := spec.balance
  constructor
  · dsimp only
    rw [tasks]
    omega
  · have counted := spec.count
      (fun ⟨hit, waiting⟩ => uninterrupted ⟨hit, task, found, waiting⟩) (current task member)
    unfold inFlight at count ⊢
    dsimp only
    rw [tasks]
    omega
  · intro x inside
    dsimp only at inside ⊢
    rw [tasks] at inside
    rcases mem_set_cases inside with rfl | ⟨j, other, at_j⟩
    · exact spec.current
    · have before := current x (List.mem_of_getElem? at_j)
      by_cases kept : world.shared.gRefCount = s.dog.gRefCount
      · exact current_congr kept before
      · by_contra stale
        have two := two_le_countP CallPc.holds other at_j found (holds_of_stale stale)
          (spec.changed kept)
        omega
  · intro begun
    dsimp only at begun ⊢
    have nobody := settled begun
    have stays : task'.arriving = false := by
      by_contra arrives
      rcases spec.arriving (by simpa using arrives) with already | calls
      · have some := countP_pos CallPc.arriving found already
        omega
      · exact open_gate ⟨calls, begun⟩
    rw [stays] at arrivals
    rw [tasks]
    simp only [Bool.toNat_false] at arrivals
    omega
  · intro saw
    dsimp only at saw
    have begun : s.waiter ≠ .notStarted := by
      intro idle
      rw [idle] at saw
      cases saw
    have nobody := settled begun
    have none_there := seen saw
    have stays : task'.between = false := by
      by_contra flies
      rcases spec.between (by simpa using flies) with already | arriving
      · have some := countP_pos CallPc.between found already
        unfold inFlight at none_there
        omega
      · have some := countP_pos CallPc.arriving found arriving
        omega
    unfold inFlight at none_there ⊢
    dsimp only
    rw [stays] at flights
    rw [tasks]
    simp only [Bool.toNat_false] at flights
    omega

/-- A move of the waiter. -/
theorem waiter_consistent {act : WaiterAct} {answer : Unit} (consistent : Consistent s)
    (uninterrupted : Uninterrupted s (.waiter act))
    (stepped : moduleStep s (.waiter act) = .ok (t, answer)) : Consistent t := by
  obtain ⟨balance, count, current, settled, seen⟩ := consistent
  rw [moduleStep] at stepped
  split at stepped
  · cases stepped
  rename_i gate
  split at stepped
  · cases stepped
  rename_i dog waiter moved
  cases stepped
  have spec := waiterMove_spec moved
  have balanced := spec.balance
  constructor
  · dsimp only
    omega
  · exact spec.kept.trans count
  · intro task inside
    exact current_congr spec.kept (current task inside)
  · intro _
    dsimp only
    by_cases idle : s.waiter = .notStarted
    · rw [List.countP_eq_zero]
      intro task inside arrives
      exact gate ⟨spec.started idle, List.any_eq_true.mpr ⟨task, inside, arrives⟩⟩
    · exact settled idle
  · intro saw
    rcases spec.saw saw with already | zero | hit
    · exact seen already
    · rw [count] at zero
      exact_mod_cast zero
    · exact uninterrupted hit

theorem moduleStep_safe (s : Module) (e : ModuleEvent) (t : Module) (answer : Unit)
    (consistent : Consistent s) (uninterrupted : Uninterrupted s e)
    (stepped : moduleStep s e = .ok (t, answer)) : Safe s e t answer ∧ Consistent t := by
  have next : Consistent t := by
    cases e with
    | task i act => exact task_consistent consistent uninterrupted stepped
    | waiter act => exact waiter_consistent consistent uninterrupted stepped
  exact ⟨⟨next.count, fun returned => next.seen (by rw [returned]; rfl)⟩, next⟩

theorem loaded_consistent (tasks : Nat) : Consistent (loaded tasks) := by
  constructor
  · simp [loaded, traceDogInitize, List.countP_replicate, CallPc.holds, WaiterPc.holds]
  · simp [loaded, inFlight, traceDogInitize, List.countP_replicate, CallPc.between]
  · intro task inside
    rw [List.eq_of_mem_replicate inside]
    trivial
  · exact fun begun => absurd rfl begun
  · intro saw
    cases saw

end Step

/-- In every interleaving without interrupted reports the count is the number of calls in
flight, and when the waiter has returned no call is. -/
theorem unload_safe (tasks : Nat) (es : List ModuleEvent)
    (admitted : Admitted moduleStep Uninterrupted (loaded tasks) es) :
    EveryStep moduleStep Safe (loaded tasks) es :=
  everyStep_of_admitted Consistent moduleStep_safe es _ (loaded_consistent tasks) admitted

/-- The waiter meets one call in flight, sleeps, and returns after its end. -/
theorem unload_safe_waits :
    EveryStep moduleStep Safe (loaded 1)
      [.task 0 (.call .read), .task 0 (.down .acquired), .task 0 .load, .task 0 .store, .task 0 .up,
        .waiter .start, .waiter (.down .acquired), .waiter .load, .waiter .up, .waiter .go,
        .task 0 .finish, .task 0 (.down .acquired), .task 0 .load, .task 0 .store, .task 0 .up,
        .waiter (.down .acquired), .waiter .load, .waiter .up, .waiter .go, .waiter .go] :=
  unload_safe 1 _ (by decide +kernel)

/-- A signal during the enter: the call is not counted, and the waiter returns while it is
running. A signal during the leave: the count stays up. A signal during the wait: the
waiter returns although it never saw the count. -/
theorem signal_breaks_count :
    (run moduleStep (loaded 1)
      [.task 0 (.call .read), .task 0 (.down .interrupted), .waiter .start,
        .waiter (.down .acquired), .waiter .load, .waiter .up, .waiter .go, .waiter .go]).map
      (fun r => (r.1.dog.gRefCount, inFlight r.1, r.1.waiter)) = .ok (0, 1, .returned) ∧
    (run moduleStep (loaded 1)
      [.task 0 (.call .read), .task 0 (.down .acquired), .task 0 .load, .task 0 .store, .task 0 .up,
        .task 0 .finish, .task 0 (.down .interrupted)]).map
      (fun r => (r.1.dog.gRefCount, inFlight r.1)) = .ok (1, 0) ∧
    (run moduleStep (loaded 1)
      [.task 0 (.call .read), .task 0 (.down .acquired), .task 0 .load, .task 0 .store, .task 0 .up,
        .waiter .start, .waiter (.down .interrupted), .waiter .go]).map
      (fun r => (r.1.dog.gRefCount, inFlight r.1, r.1.waiter)) = .ok (1, 1, .returned) := by
  decide +kernel

end SysMonitor.Guarantees.SafeUnload
