import SysMonitor.Library.Interleaving
import SysMonitor.Source.DeviceAccess

/-!
# Tasks that call the device at the same time

A call is cut where another task can come in between: before its `down_interruptible`,
inside the critical section, before its `up`. The bodies are those of the sequential
functions, and `alone_runs_call` says that a task which is not disturbed computes these.
-/

namespace SysMonitor.Source.Interface
open SysMonitor.Library

/-- A call at the device. -/
inductive DeviceCall where
  | write (buffer : List Byte)
  | open (current : Pid) (fMode : Word)
  | read (count : Nat) (user : UserCopy)
  | release (current : Pid)
  | end
  deriving DecidableEq

/-- Where a task is. -/
inductive DevicePc where
  | outside
  | atDown (call : DeviceCall)
  | inside (call : DeviceCall)
  | atUp
  /-- `cleanup` of an `interface_read` that never got the semaphore. -/
  | strayUp
  deriving DecidableEq

/-- What a task does next. -/
inductive DeviceAct where
  | enter (call : DeviceCall)
  | down (outcome : Down)
  | body
  | up
  deriving DecidableEq

/-- A write that returns before it tries the semaphore. -/
def skipped (d : Device) : DeviceCall → Bool
  | .write buffer => !isDeviceReady d || 0 = buffer.length
  | _ => false

/-- What a call does between its `down_interruptible` and its `up`. -/
def bodyOf (d : Device) : DeviceCall → Except Fault Device
  | .write buffer => writeLocked d buffer
  | .open current fMode => .ok (openLocked d current fMode).1
  | .read count user => do
    let (d, _) ← readLocked d count user
    return d
  | .release current => .ok (releaseLocked d current)
  | .end => .ok (endLocked d)

/-- Where an interrupted `down_interruptible` leads. -/
def afterInterrupt : DeviceCall → DevicePc
  | .read _ _ => .strayUp
  | _ => .outside

/-- One move of one task. `down_interruptible` gets the semaphore only when it is free; a
task whose body faults stays where it is. -/
def deviceMove (d : Device) : DevicePc → DeviceAct → Option (Device × DevicePc)
  | .outside, .enter call => some (d, if skipped d call then .outside else .atDown call)
  | .atDown call, .down .acquired => if 0 < d.sem then some (down d, .inside call) else none
  | .atDown call, .down .interrupted => some (d, afterInterrupt call)
  | .inside call, .body =>
    match bodyOf d call with
    | .ok d => some (d, .atUp)
    | .error _ => none
  | .atUp, .up => some (up d, .outside)
  | .strayUp, .up => some (up d, .outside)
  | _, _ => none

/-- The device and any number of tasks. -/
abbrev DeviceWorld := World Device DevicePc

def deviceTasksStep : DeviceWorld → Nat × DeviceAct → Except Refused (DeviceWorld × Unit) :=
  interleave deviceMove

/-- Between a successful `down_interruptible` and the matching `up`. -/
def DevicePc.holds : DevicePc → Bool
  | .inside _ | .atUp => true
  | _ => false

def DevicePc.stray : DevicePc → Bool
  | .strayUp => true
  | _ => false

/-- What the sequential function does to the device. -/
def callAlone (d : Device) (outcome : Down) : DeviceCall → Except Fault Device
  | .write buffer => writeToInterface d buffer outcome
  | .open current fMode => .ok (interfaceOpen d current fMode outcome).1
  | .read count user => do
    let (d, _) ← interfaceRead d count user outcome
    return d
  | .release current => .ok (interfaceRelease d current outcome).1
  | .end => .ok (endInterface d outcome).1

section Alone

variable {d d' : Device}

theorem callAlone_skipped {call : DeviceCall} (skip : skipped d call = true) (outcome : Down) :
    callAlone d outcome call = .ok d := by
  cases call with
  | write buffer =>
    unfold skipped at skip
    unfold callAlone writeToInterface
    by_cases ready : isDeviceReady d
    · have empty : 0 = buffer.length := by simpa [ready] using skip
      simp [ready, ← empty]
    · simp [ready]
  | «open» current fMode => simp [skipped] at skip
  | read count user => simp [skipped] at skip
  | release current => simp [skipped] at skip
  | «end» => simp [skipped] at skip

/-- A call that tries the semaphore: nothing, a stray `up`, or its body in between. -/
theorem callAlone_tried {call : DeviceCall} (try_it : skipped d call = false) (outcome : Down) :
    callAlone d outcome call =
      match outcome with
      | .interrupted => .ok (if (afterInterrupt call).stray then up d else d)
      | .acquired => do
        let d ← bodyOf (down d) call
        return up d := by
  cases call with
  | write buffer =>
    have ready : isDeviceReady d = true := by
      by_contra asleep
      simp [skipped, asleep] at try_it
    have some : ¬ 0 = buffer.length := by
      intro none
      simp [skipped, ready, ← none] at try_it
    simp only [callAlone, writeToInterface, ready, Bool.not_true, Bool.false_eq_true, if_false,
      if_neg some]
    cases outcome <;> rfl
  | «open» current fMode => cases outcome <;> rfl
  | read count user =>
    cases outcome with
    | interrupted => rfl
    | acquired =>
      simp only [callAlone, interfaceRead, bodyOf]
      cases readLocked (down d) count user <;> rfl
  | release current => cases outcome <;> rfl
  | «end» => cases outcome <;> rfl

/-- A task that is alone with a free semaphore computes what the sequential function does. -/
theorem alone_runs_call (call : DeviceCall) (outcome : Down) (free : 0 < d.sem)
    (ran : callAlone d outcome call = .ok d') :
    ∃ acts : List DeviceAct, ∃ answers,
      run deviceTasksStep ⟨d, [.outside]⟩ (acts.map fun act => (0, act))
        = .ok (⟨d', [.outside]⟩, answers) := by
  cases skip : skipped d call with
  | true =>
    rw [callAlone_skipped skip] at ran
    cases ran
    refine ⟨[.enter call], [()], ?_⟩
    simp [run, deviceTasksStep, interleave, deviceMove, skip, bind, Except.bind, pure, Except.pure]
  | false =>
    rw [callAlone_tried skip] at ran
    cases outcome with
    | interrupted =>
      cases ran
      cases call with
      | read count user =>
        refine ⟨[.enter (.read count user), .down .interrupted, .up], [(), (), ()], ?_⟩
        simp [run, deviceTasksStep, interleave, deviceMove, skip, afterInterrupt, DevicePc.stray,
          bind, Except.bind, pure, Except.pure]
      | write buffer =>
        refine ⟨[.enter (.write buffer), .down .interrupted], [(), ()], ?_⟩
        simp [run, deviceTasksStep, interleave, deviceMove, skip, afterInterrupt, DevicePc.stray,
          bind, Except.bind, pure, Except.pure]
      | «open» current fMode => exact ⟨[.enter (.open current fMode), .down .interrupted], _, rfl⟩
      | release current => exact ⟨[.enter (.release current), .down .interrupted], _, rfl⟩
      | «end» => exact ⟨[.enter .end, .down .interrupted], _, rfl⟩
    | acquired =>
      obtain ⟨d₁, body, same⟩ := bind_eq_ok ran
      cases same
      refine ⟨[.enter call, .down .acquired, .body, .up], [(), (), (), ()], ?_⟩
      simp [run, deviceTasksStep, interleave, deviceMove, skip, free, body, bind, Except.bind,
        pure, Except.pure]

end Alone

/-- All that a task can do. -/
theorem deviceMove_cases {d d' : Device} {pc pc' : DevicePc} {act : DeviceAct}
    (moved : deviceMove d pc act = some (d', pc')) :
    (d' = d ∧ pc.holds = false ∧ pc'.holds = false ∧ pc.stray = false) ∨
    (∃ call, pc = .atDown call ∧ 0 < d.sem ∧ d' = down d ∧ pc' = .inside call) ∨
    (∃ call, pc = .inside call ∧ bodyOf d call = .ok d' ∧ pc' = .atUp) ∨
    (pc = .atUp ∧ d' = up d ∧ pc' = .outside) ∨
    (pc = .strayUp ∧ act = .up ∧ d' = up d ∧ pc' = .outside) := by
  unfold deviceMove at moved
  split at moved
  · rw [Option.some.injEq, Prod.mk.injEq] at moved
    obtain ⟨rfl, rfl⟩ := moved
    refine .inl ⟨rfl, rfl, ?_, rfl⟩
    split <;> rfl
  · rename_i call
    split at moved
    · rename_i free
      cases moved
      exact .inr (.inl ⟨call, rfl, free, rfl, rfl⟩)
    · cases moved
  · rename_i call
    cases moved
    refine .inl ⟨rfl, rfl, ?_, rfl⟩
    cases call <;> rfl
  · rename_i call
    split at moved
    · rename_i d₁ ran
      cases moved
      exact .inr (.inr (.inl ⟨call, rfl, ran, rfl⟩))
    · cases moved
  · cases moved
    exact .inr (.inr (.inr (.inl ⟨rfl, rfl, rfl⟩)))
  · cases moved
    exact .inr (.inr (.inr (.inr ⟨rfl, rfl, rfl, rfl⟩)))
  · cases moved

/-- No body touches the semaphore. -/
theorem bodyOf_sem {d d' : Device} {call : DeviceCall} (ran : bodyOf d call = .ok d') :
    d'.sem = d.sem := by
  cases call with
  | write buffer => exact (writeLocked_control ran).sem
  | «open» current fMode =>
    cases ran
    unfold openLocked
    split
    · rfl
    · split <;> rfl
  | read count user =>
    obtain ⟨⟨d₁, answer⟩, read, same⟩ := bind_eq_ok ran
    cases same
    exact (readLocked_control read).sem
  | release current =>
    cases ran
    unfold releaseLocked
    split <;> rfl
  | «end» =>
    cases ran
    unfold endLocked
    split <;> rfl

end SysMonitor.Source.Interface
