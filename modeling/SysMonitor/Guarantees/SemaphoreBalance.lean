import SysMonitor.Source.DeviceTasks

/-!
# The ring's semaphore and its critical sections

Every move of a task keeps the semaphore count plus the number of tasks in a critical
section, but one: an `interface_read` that was interrupted before it got the semaphore
falls through to `cleanup` and gives it back all the same. From then on two tasks fit in.
-/

namespace SysMonitor.Guarantees.SemaphoreBalance
open SysMonitor.Library SysMonitor.Source SysMonitor.Source.Interface

/-- Right after `sema_init(&sem, 1)`, with any number of tasks, none of them in a call. -/
def started (d : Device) (tasks : Nat) : DeviceWorld :=
  ⟨{ d with sem := 1 }, List.replicate tasks .outside⟩

/-- How many tasks are in a critical section. -/
def holders (s : DeviceWorld) : Nat := s.tasks.countP DevicePc.holds

/-- The variables the semaphore protects. -/
def guarded (d : Device) : Nat × Nat × Nat := (d.readPtr, d.writePtr, d.ownerPid)

/-- After the step the count and the critical sections make 1, and if the step changed a
guarded variable, it was one of the only task in a critical section. -/
def Excluded (s : DeviceWorld) (e : Nat × DeviceAct) (t : DeviceWorld) (_ : Unit) : Prop :=
  t.shared.sem + holders t = 1 ∧
    (guarded t.shared ≠ guarded s.shared →
      holders s = 1 ∧ ∃ task ∈ s.tasks[e.1]?, task.holds = true)

instance (s : DeviceWorld) (e : Nat × DeviceAct) (t : DeviceWorld) (answer : Unit) :
    Decidable (Excluded s e t answer) := by
  unfold Excluded
  infer_instance

/-- The step is not the `up` of an `interface_read` that was interrupted. -/
def Matched (s : DeviceWorld) (e : Nat × DeviceAct) : Prop :=
  ¬(s.tasks[e.1]? = some .strayUp ∧ e.2 = .up)

section Step

variable {d d' : Device} {pc pc' : DevicePc} {act : DeviceAct} {s t : DeviceWorld}

/-- The balance of one move: only a stray `up` adds to it. -/
theorem deviceMove_balance (moved : deviceMove d pc act = some (d', pc')) :
    d'.sem + pc'.holds.toNat = d.sem + pc.holds.toNat + pc.stray.toNat := by
  rcases deviceMove_cases moved with ⟨rfl, before, after, stray⟩ | ⟨call, rfl, free, rfl, rfl⟩ |
    ⟨call, rfl, ran, rfl⟩ | ⟨rfl, rfl, rfl⟩ | ⟨rfl, -, rfl, rfl⟩
  · rw [before, after, stray]
    rfl
  · change d.sem - 1 + 1 = d.sem
    exact Nat.sub_add_cancel free
  · rw [bodyOf_sem ran]
    rfl
  · rfl
  · rfl

/-- Only a task in its critical section touches the guarded variables. -/
theorem deviceMove_guarded (moved : deviceMove d pc act = some (d', pc'))
    (changed : guarded d' ≠ guarded d) : pc.holds = true := by
  rcases deviceMove_cases moved with ⟨rfl, -⟩ | ⟨call, rfl, -, rfl, -⟩ | ⟨call, rfl, -, -⟩ |
    ⟨rfl, rfl, -⟩ | ⟨rfl, -, rfl, -⟩
  · exact absurd rfl changed
  · exact absurd rfl changed
  · rfl
  · exact absurd rfl changed
  · exact absurd rfl changed

/-- The balance of one step of the whole system. -/
theorem step_balance {e : Nat × DeviceAct} {answer : Unit}
    (stepped : deviceTasksStep s e = .ok (t, answer)) :
    ∃ task, s.tasks[e.1]? = some task ∧
      t.shared.sem + holders t = s.shared.sem + holders s + task.stray.toNat ∧
      (guarded t.shared ≠ guarded s.shared → task.holds = true) ∧
      (task.stray = true → e.2 = .up) := by
  obtain ⟨task, task', found, moved, tasks⟩ := interleave_ok stepped
  have counted := countP_move DevicePc.holds found task'
  have balance := deviceMove_balance moved
  refine ⟨task, found, ?_, deviceMove_guarded moved, ?_⟩
  · unfold holders
    rw [tasks]
    omega
  · intro stray
    rcases deviceMove_cases moved with ⟨-, -, -, none⟩ | ⟨call, rfl, -⟩ | ⟨call, rfl, -⟩ |
      ⟨rfl, -⟩ | ⟨rfl, act, -⟩
    · rw [none] at stray
      cases stray
    · cases stray
    · cases stray
    · cases stray
    · exact act

theorem started_balance (d : Device) (tasks : Nat) :
    (started d tasks).shared.sem + holders (started d tasks) = 1 := by
  simp [started, holders, List.countP_replicate, DevicePc.holds]

end Step

/-- In every interleaving the count and the critical sections make 1 all the time, and only
the one task in a critical section changes the guarded variables, exactly when no
interrupted `interface_read` gets to its `up`. -/
theorem semaphore_excludes_iff (d : Device) (tasks : Nat) (es : List (Nat × DeviceAct)) :
    EveryStep deviceTasksStep Excluded (started d tasks) es
      ↔ Admitted deviceTasksStep Matched (started d tasks) es := by
  refine everyStep_iff_admitted (fun s => s.shared.sem + holders s = 1) ?_ ?_ es _
    (started_balance d tasks)
  · intro s e t answer balanced matched stepped
    obtain ⟨task, found, balance, alone, stray⟩ := step_balance stepped
    have honest : task.stray = false := by
      by_contra is_stray
      have wandered : task.stray = true := by simpa using is_stray
      cases task with
      | strayUp => exact matched ⟨found, stray wandered⟩
      | _ => cases wandered
    rw [honest, Bool.toNat_false, Nat.add_zero, balanced] at balance
    refine ⟨⟨balance, fun changed => ?_⟩, balance⟩
    have holds := alone changed
    have some := countP_pos DevicePc.holds found holds
    refine ⟨?_, task, found, holds⟩
    unfold holders at balanced ⊢
    omega
  · intro s e balanced unmatched
    obtain ⟨stray, act⟩ := not_not.mp unmatched
    have stepped : deviceTasksStep s e
        = .ok (⟨up s.shared, s.tasks.set e.1 .outside⟩, ()) := by
      unfold deviceTasksStep interleave
      rw [stray, act]
      rfl
    refine ⟨_, _, stepped, ?_⟩
    rintro ⟨balance, -⟩
    obtain ⟨task, found, raised, -, -⟩ := step_balance stepped
    rw [stray, Option.some.injEq] at found
    rw [balance, balanced, ← found] at raised
    cases raised

/-- A signal reaches a reader that waits for a writer; its `up` lets a third task into the
critical section while the writer is still in it. -/
theorem interrupted_read_admits_two :
    (run deviceTasksStep (started { initial with deviceReady := true } 3)
      [(0, .enter (.write [1])), (0, .down .acquired),
        (1, .enter (.read 1 .complete)), (1, .down .interrupted), (1, .up),
        (2, .enter (.read 1 .complete)), (2, .down .acquired)]).map
      (fun r => (r.1.shared.sem, holders r.1)) = .ok (0, 2) := by
  decide +kernel

end SysMonitor.Guarantees.SemaphoreBalance
