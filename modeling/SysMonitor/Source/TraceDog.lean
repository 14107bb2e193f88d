import Mathlib.Data.Int.Init
import Mathlib.Logic.Function.Basic
import SysMonitor.Library.Interleaving
import SysMonitor.Source.Memory

/-!
# The trace dog: driver/trace_dog.c

Every hooked system call reports its begin and its end, and the unloading task waits until
as many ends as begins were reported. The tasks run at the same time, so each function is
cut at every access to what they share: taking the semaphore, loading the counters, storing
them, giving the semaphore back.
-/

namespace SysMonitor.Source.TraceDog
open SysMonitor.Library

/-- `api_name` -/
inductive ApiName where
  | null
  | create | open | read | write | close | ioctl | stat | lstat | fstat | rename | mkdir | rmdir
  | sync | pipe | symlink | readlink
  | uselib | exit | fork | vfork | clone | execve | kill
  deriving DecidableEq

/-- The globals of `trace_dog.c`. -/
structure Dog where
  sem : Nat
  refTable : ApiName → Int
  gRefCount : Int

/-- `trace_dog_initize` on a module that was just loaded. -/
def traceDogInitize : Dog := ⟨1, fun _ => 0, 0⟩

def down (d : Dog) : Dog := { d with sem := d.sem - 1 }

def up (d : Dog) : Dog := { d with sem := d.sem + 1 }

/-- Store both counters of an api. -/
def store (d : Dog) (api : ApiName) (ref total : Int) : Dog :=
  { d with refTable := Function.update d.refTable api ref, gRefCount := total }

/-- `trace_dog_enter`, run without interference. -/
def traceDogEnter (d : Dog) (api : ApiName) : Down → Dog
  | .interrupted => d
  | .acquired => up (store (down d) api (d.refTable api + 1) (d.gRefCount + 1))

/-- `trace_dog_leave`, run without interference. -/
def traceDogLeave (d : Dog) (api : ApiName) : Down → Dog
  | .interrupted => d
  | .acquired => up (store (down d) api (d.refTable api - 1) (d.gRefCount - 1))

/-- Where a task is in its hooked call. -/
inductive CallPc where
  | outside
  | enterDown (api : ApiName)
  | entering (api : ApiName)
  | enterLoaded (api : ApiName) (ref total : Int)
  | enterUp (api : ApiName)
  | running (api : ApiName)
  | leaveDown (api : ApiName)
  | leaving (api : ApiName)
  | leaveLoaded (api : ApiName) (ref total : Int)
  | leaveUp
  deriving DecidableEq

inductive CallAct where
  | call (api : ApiName)
  | down (outcome : Down)
  | load
  | store
  | up
  | finish
  deriving DecidableEq

/-- A new call. -/
def CallAct.begins : CallAct → Bool
  | .call _ => true
  | _ => false

/-- One move of a task: it calls a hooked function, runs through `trace_dog_enter`, does
the original call, and runs through `trace_dog_leave`. -/
def callMove (d : Dog) : CallPc → CallAct → Option (Dog × CallPc)
  | .outside, .call api => some (d, .enterDown api)
  | .enterDown api, .down .acquired => if 0 < d.sem then some (down d, .entering api) else none
  | .enterDown api, .down .interrupted => some (d, .running api)
  | .entering api, .load => some (d, .enterLoaded api (d.refTable api) d.gRefCount)
  | .enterLoaded api ref total, .store => some (store d api (ref + 1) (total + 1), .enterUp api)
  | .enterUp api, .up => some (up d, .running api)
  | .running api, .finish => some (d, .leaveDown api)
  | .leaveDown api, .down .acquired => if 0 < d.sem then some (down d, .leaving api) else none
  | .leaveDown _, .down .interrupted => some (d, .outside)
  | .leaving api, .load => some (d, .leaveLoaded api (d.refTable api) d.gRefCount)
  | .leaveLoaded api ref total, .store => some (store d api (ref - 1) (total - 1), .leaveUp)
  | .leaveUp, .up => some (up d, .outside)
  | _, _ => none

/-- Where the unloading task is in `wait_for_unload`. -/
inductive WaiterPc where
  | notStarted
  | atDown
  | inside
  | atUp (refCount : Int)
  | test (refCount : Int)
  | lastSleep
  | returned
  deriving DecidableEq

inductive WaiterAct where
  | start
  | down (outcome : Down)
  | load
  | up
  | go
  deriving DecidableEq

/-- One move of `wait_for_unload`. A count that is not zero leads back to the head of the
loop; an interrupted `down_interruptible` leaves it. -/
def waiterMove (d : Dog) : WaiterPc → WaiterAct → Option (Dog × WaiterPc)
  | .notStarted, .start => some (d, .atDown)
  | .atDown, .down .acquired => if 0 < d.sem then some (down d, .inside) else none
  | .atDown, .down .interrupted => some (d, .lastSleep)
  | .inside, .load => some (d, .atUp d.gRefCount)
  | .atUp refCount, .up => some (up d, .test refCount)
  | .test refCount, .go => some (d, if 0 ≠ refCount then .atDown else .lastSleep)
  | .lastSleep, .go => some (d, .returned)
  | _, _ => none

/-- The call has not yet been counted by its `trace_dog_enter`. -/
def CallPc.arriving : CallPc → Bool
  | .enterDown _ | .entering _ | .enterLoaded _ _ _ => true
  | _ => false

/-- Between the enter and the leave: from the one update of the count to the other. -/
def CallPc.between : CallPc → Bool
  | .enterUp _ | .running _ | .leaveDown _ | .leaving _ | .leaveLoaded _ _ _ => true
  | _ => false

/-- In a critical section. -/
def CallPc.holds : CallPc → Bool
  | .entering _ | .enterLoaded _ _ _ | .enterUp _ | .leaving _ | .leaveLoaded _ _ _ | .leaveUp =>
    true
  | _ => false

def WaiterPc.holds : WaiterPc → Bool
  | .inside | .atUp _ => true
  | _ => false

/-- The module while it is being unloaded: the tasks in hooked calls and the waiter. -/
structure Module where
  dog : Dog
  tasks : List CallPc
  waiter : WaiterPc

inductive ModuleEvent where
  | task (i : Nat) (act : CallAct)
  | waiter (act : WaiterAct)
  deriving DecidableEq

/-- One step of the module. The waiter starts when no call is arriving, and no call begins
after it has started: the system call table was restored before. -/
def moduleStep (s : Module) : ModuleEvent → Except Refused (Module × Unit)
  | .task i act =>
    if act.begins = true ∧ s.waiter ≠ .notStarted then .error .refused
    else do
      let (world, _) ← interleave callMove ⟨s.dog, s.tasks⟩ (i, act)
      return ({ s with dog := world.shared, tasks := world.tasks }, ())
  | .waiter act =>
    if act = .start ∧ s.tasks.any CallPc.arriving then .error .refused
    else
      match waiterMove s.dog s.waiter act with
      | none => .error .refused
      | some (dog, waiter) => .ok ({ s with dog, waiter }, ())

/-- Any number of tasks, none of them in a call yet. -/
def loaded (tasks : Nat) : Module := ⟨traceDogInitize, List.replicate tasks .outside, .notStarted⟩

section Alone

variable (d : Dog) (api : ApiName)

/-- A call that is alone with a free semaphore runs `trace_dog_enter` and later
`trace_dog_leave` as the sequential functions. -/
theorem alone_runs_hooks (free : 0 < d.sem) (first second : Down) :
    ∃ acts : List CallAct, ∃ answers,
      run (interleave callMove) ⟨d, [.outside]⟩ (acts.map fun act => (0, act))
        = .ok (⟨traceDogLeave (traceDogEnter d api first) api second, [.outside]⟩, answers) := by
  have again : 0 < d.sem - 1 + 1 := Nat.succ_pos _
  cases first with
  | interrupted =>
    cases second with
    | interrupted =>
      refine ⟨[.call api, .down .interrupted, .finish, .down .interrupted], _, rfl⟩
    | acquired =>
      refine ⟨[.call api, .down .interrupted, .finish, .down .acquired, .load, .store, .up],
        List.replicate 7 (), ?_⟩
      simp [run, interleave, callMove, free, traceDogEnter, traceDogLeave, down, bind,
        Except.bind, pure, Except.pure, List.replicate]
  | acquired =>
    cases second with
    | interrupted =>
      refine ⟨[.call api, .down .acquired, .load, .store, .up, .finish, .down .interrupted],
        List.replicate 7 (), ?_⟩
      simp [run, interleave, callMove, free, traceDogEnter, traceDogLeave, down, bind,
        Except.bind, pure, Except.pure, List.replicate]
    | acquired =>
      refine ⟨[.call api, .down .acquired, .load, .store, .up, .finish, .down .acquired, .load,
        .store, .up], List.replicate 10 (), ?_⟩
      simp [run, interleave, callMove, free, again, traceDogEnter, traceDogLeave, down, up, store,
        bind, Except.bind, pure, Except.pure, List.replicate]

end Alone

end SysMonitor.Source.TraceDog
