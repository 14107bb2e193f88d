import SysMonitor.Library.BoundedQueue
import SysMonitor.Library.Runs
import SysMonitor.Source.RingInvariant

/-!
# The ring is a bounded queue of bytes

The device is driven by any sequence of writes, reads, opens and releases, with any
outcome of each `down_interruptible` and complete user copies. The abstract side is
a queue of at most `size - 1` bytes next to the owner and the ready flag:
`queueStep` says what each call is for, in these terms alone. `deviceStep_simulates`
is the step simulation, `ring_refines_bounded_queue` its lift to every run from the
state `begin_interface` leaves.
-/

namespace SysMonitor.Guarantees.RingQueue
open SysMonitor.Library SysMonitor.Source SysMonitor.Source.Interface

/-- One call at the device. -/
inductive Call where
  | write (buffer : List Byte) (outcome : Down)
  | read (count : Nat) (outcome : Down)
  | open (current : Pid) (fMode : Word) (outcome : Down)
  | release (current : Pid) (outcome : Down)

/-- What a call returns to its caller. -/
inductive Answer where
  | unit
  | code (value : Int)
  | bytes (result : ReadResult)
  deriving DecidableEq

def deviceStep (d : Device) : Call → Except Fault (Device × Answer)
  | .write buffer outcome => do
    let d ← writeToInterface d buffer outcome
    return (d, .unit)
  | .read count outcome => do
    let (d, result) ← interfaceRead d count .complete outcome
    return (d, .bytes result)
  | .open current fMode outcome =>
    let (d, value) := interfaceOpen d current fMode outcome
    .ok (d, .code value)
  | .release current outcome =>
    let (d, value) := interfaceRelease d current outcome
    .ok (d, .code value)

/-- The abstract device: a queue that keeps one byte of the ring free. -/
structure QueueState (size : Nat) where
  queue : BoundedQueue Byte (size - 1)
  ready : Bool
  owner : Nat

def QueueState.start (size : Nat) : QueueState size := ⟨.empty, false, 0⟩

/-- A ready device appends a write whole when it fits. A read hands out the oldest
bytes. Ownership is taken by a read-only open of a free device and given up by the
owner's release. A call that is interrupted, or that finds the device not ready or
taken, leaves the queue alone. -/
def queueStep {size : Nat} (q : QueueState size) : Call → QueueState size × Answer
  | .write buffer .acquired =>
    (if q.ready then { q with queue := q.queue.push buffer } else q, .unit)
  | .write _ .interrupted => (q, .unit)
  | .read count .acquired =>
    ({ q with queue := (q.queue.pop count).2 },
      .bytes ⟨(min count q.queue.items.length : Nat), (q.queue.pop count).1⟩)
  | .read _ .interrupted => (q, .bytes ⟨-EINTR, []⟩)
  | .open current fMode .acquired =>
    (if q.owner = 0 ∧ FMODE_WRITE &&& fMode = 0 then
      { q with owner := current.val, ready := true } else q, .code 0)
  | .open _ _ .interrupted => (q, .code 0)
  | .release current .acquired =>
    (if current.val = q.owner then { q with owner := 0, ready := false } else q, .code 0)
  | .release _ .interrupted => (q, .code (-EINTR))

theorem queueStep_open_queue {size : Nat} (q : QueueState size) (current : Pid) (fMode : Word)
    (outcome : Down) : (queueStep q (.open current fMode outcome)).1.queue = q.queue := by
  cases outcome with
  | interrupted => rfl
  | acquired =>
    rw [queueStep]
    split <;> rfl

theorem queueStep_release_queue {size : Nat} (q : QueueState size) (current : Pid)
    (outcome : Down) : (queueStep q (.release current outcome)).1.queue = q.queue := by
  cases outcome with
  | interrupted => rfl
  | acquired =>
    rw [queueStep]
    split <;> rfl

/-- The device at `base` with a ring of `size` bytes stands for `q`. -/
structure Represents (base size : Nat) (d : Device) (q : QueueState size) : Prop where
  valid : ValidRing d
  base_eq : d.cycleBuffer = base
  size_eq : d.cycleBufferSize = size
  queue : contents d = q.queue.items
  ready : d.deviceReady = q.ready
  owner : d.ownerPid = q.owner

/-- `contents` and `ValidRing` look at the ring's variables only. -/
theorem Represents.of_ring {base size : Nat} {d d' : Device} {q q' : QueueState size}
    (rep : Represents base size d q) (same_queue : q'.queue = q.queue)
    (ring : { d' with sem := d.sem, deviceReady := d.deviceReady, ownerPid := d.ownerPid } = d)
    (ready : d'.deviceReady = q'.ready) (owner : d'.ownerPid = q'.owner) :
    Represents base size d' q' := by
  obtain ⟨valid, base_eq, size_eq, queue, -, -⟩ := rep
  cases d; cases d'
  simp only [Device.mk.injEq, true_and, and_true] at ring
  obtain ⟨rfl, rfl, rfl, rfl, rfl⟩ := ring
  exact ⟨⟨valid.1, valid.2, valid.3, valid.4, valid.5, valid.6⟩, base_eq, size_eq,
    queue.trans (congrArg _ same_queue.symm), ready, owner⟩

theorem write_simulates {base size : Nat} {d : Device} {q : QueueState size}
    (rep : Represents base size d q) (buffer : List Byte) (outcome : Down) :
    ∃ d', writeToInterface d buffer outcome = .ok d' ∧
      Represents base size d' (queueStep q (.write buffer outcome)).1 := by
  unfold writeToInterface
  by_cases ready : d.deviceReady = true
  · have q_ready : q.ready = true := rep.ready ▸ ready
    simp only [isDeviceReady, ready, Bool.not_true, Bool.false_eq_true, if_false]
    cases outcome with
    | interrupted => exact ⟨d, by split <;> rfl, rep⟩
    | acquired =>
      simp only [queueStep, if_pos q_ready]
      split
      next none =>
        have nil : buffer = [] := List.eq_nil_of_length_eq_zero none.symm
        have same : q.queue.push buffer = q.queue := by
          apply BoundedQueue.ext
          rw [nil, BoundedQueue.push_items_of_fits _ _ (by simpa using q.queue.bounded)]
          simp
        exact ⟨d, rfl, by rw [same]; exact rep⟩
      next some =>
        have locked : Represents base size (down d) q := rep.of_ring rfl rfl rep.ready rep.owner
        by_cases fits : q.queue.items.length + buffer.length ≤ size - 1
        · obtain ⟨written, valid, appended⟩ := writeLocked_fits locked.valid buffer
            (by rw [locked.queue, locked.size_eq]; exact fits)
          have stored : Represents base size (afterWrite (down d) buffer)
              { q with queue := q.queue.push buffer } :=
            ⟨valid, rep.base_eq, rep.size_eq,
              by rw [appended, BoundedQueue.push_items_of_fits _ _ fits, locked.queue],
              rep.ready, rep.owner⟩
          refine ⟨up (afterWrite (down d) buffer), ?_, stored.of_ring rfl rfl rep.ready rep.owner⟩
          simp [written, bind, Except.bind, pure, Except.pure]
        · have full := writeLocked_full locked.valid buffer
            (by rw [locked.queue, locked.size_eq]; omega)
          refine ⟨up (down d), ?_, ?_⟩
          · simp [full, bind, Except.bind, pure, Except.pure]
          · rw [BoundedQueue.push_of_full _ _ (by omega)]
            exact rep.of_ring rfl rfl rep.ready rep.owner
  · have asleep : d.deviceReady = false := by simpa using ready
    have q_asleep : q.ready = false := rep.ready ▸ asleep
    refine ⟨d, by simp [isDeviceReady, asleep], ?_⟩
    cases outcome <;> simpa [queueStep, q_asleep] using rep

theorem read_simulates {base size : Nat} {d : Device} {q : QueueState size}
    (rep : Represents base size d q) (count : Nat) (outcome : Down) :
    ∃ d' result, interfaceRead d count .complete outcome = .ok (d', result) ∧
      (queueStep q (.read count outcome)).2 = .bytes result ∧
      Represents base size d' (queueStep q (.read count outcome)).1 := by
  cases outcome with
  | interrupted => exact ⟨up d, _, rfl, rfl, rep.of_ring rfl rfl rep.ready rep.owner⟩
  | acquired =>
    have locked : Represents base size (down d) q := rep.of_ring rfl rfl rep.ready rep.owner
    have read := readLocked_complete locked.valid count
    have used := contents_length locked.valid
    rw [locked.queue] at used
    have dropped := contents_afterRead locked.valid (min count (getUsedSize (down d)))
      (Nat.min_le_right ..)
    have left : Represents base size (afterRead (down d) (min count (getUsedSize (down d))))
        { q with queue := (q.queue.pop count).2 } := by
      refine ⟨locked.valid.afterRead _, rep.base_eq, rep.size_eq, ?_, rep.ready, rep.owner⟩
      have clipped : q.queue.items.drop (min count q.queue.items.length) =
          q.queue.items.drop count := List.drop_eq_drop_min.symm
      rw [dropped, locked.queue, BoundedQueue.pop_snd_items, ← used, clipped]
    refine ⟨up (afterRead (down d) (min count (getUsedSize (down d)))),
      ⟨(min count (getUsedSize (down d)) : Nat), (contents (down d)).take count⟩, ?_, ?_,
      left.of_ring rfl rfl rep.ready rep.owner⟩
    · simp only [interfaceRead, read, bind, Except.bind, pure, Except.pure]
    · simp only [queueStep, BoundedQueue.pop_fst, used, locked.queue]

theorem open_simulates {base size : Nat} {d : Device} {q : QueueState size}
    (rep : Represents base size d q) (current : Pid) (fMode : Word) (outcome : Down) :
    Represents base size (interfaceOpen d current fMode outcome).1
      (queueStep q (.open current fMode outcome)).1 := by
  cases outcome with
  | interrupted => exact rep
  | acquired =>
    show Represents base size (up (openLocked (down d) current fMode).1) _
    by_cases took : d.ownerPid = 0 ∧ FMODE_WRITE &&& fMode = 0
    · have opened : (openLocked (down d) current fMode).1 =
          { down d with ownerPid := current.val, deviceReady := true } := by
        simp [openLocked, down, took.1, took.2]
      rw [opened, queueStep, if_pos (rep.owner ▸ took)]
      exact rep.of_ring rfl rfl rfl rfl
    · have refused : (openLocked (down d) current fMode).1 = down d := by
        unfold openLocked
        split
        · rfl
        · next free =>
          rw [if_pos (fun reads => took ⟨(not_not.mp free).symm, reads⟩)]
      rw [refused, queueStep, if_neg (rep.owner ▸ took)]
      exact rep.of_ring rfl rfl rep.ready rep.owner

theorem release_simulates {base size : Nat} {d : Device} {q : QueueState size}
    (rep : Represents base size d q) (current : Pid) (outcome : Down) :
    Represents base size (interfaceRelease d current outcome).1
      (queueStep q (.release current outcome)).1 := by
  cases outcome with
  | interrupted => exact rep
  | acquired =>
    show Represents base size (up (releaseLocked (down d) current)) _
    by_cases ours : current.val = d.ownerPid
    · have released : releaseLocked (down d) current =
          { down d with ownerPid := 0, deviceReady := false } := if_pos ours
      rw [released, queueStep, if_pos (rep.owner ▸ ours)]
      exact rep.of_ring rfl rfl rfl rfl
    · have kept : releaseLocked (down d) current = down d := if_neg ours
      rw [kept, queueStep, if_neg (rep.owner ▸ ours)]
      exact rep.of_ring rfl rfl rep.ready rep.owner

theorem deviceStep_simulates {base size : Nat} (d : Device) (q : QueueState size) (call : Call)
    (rep : Represents base size d q) :
    ∃ d', deviceStep d call = .ok (d', (queueStep q call).2) ∧
      Represents base size d' (queueStep q call).1 := by
  cases call with
  | write buffer outcome =>
    obtain ⟨d', written, rep'⟩ := write_simulates rep buffer outcome
    refine ⟨d', ?_, rep'⟩
    cases outcome <;>
      simp [deviceStep, written, queueStep, bind, Except.bind, pure, Except.pure]
  | read count outcome =>
    obtain ⟨d', result, read, answer, rep'⟩ := read_simulates rep count outcome
    exact ⟨d', by simp [deviceStep, read, answer, bind, Except.bind, pure, Except.pure], rep'⟩
  | «open» current fMode outcome =>
    refine ⟨_, ?_, open_simulates rep current fMode outcome⟩
    cases outcome <;> rfl
  | release current outcome =>
    refine ⟨_, ?_, release_simulates rep current outcome⟩
    cases outcome <;> rfl

/-- The state `begin_interface` leaves, for a ring at `base` whose pages hold `ring`. -/
def begun (base : Nat) (ring : List Byte) : Device :=
  (beginInterfaceSized initial ring.length (some (base, ring)) .acquired).1

theorem begun_represents (base : Nat) (ring : List Byte) (pos : 0 < ring.length) :
    Represents base ring.length (begun base ring) (.start ring.length) := by
  refine ⟨⟨pos, rfl, le_rfl, ?_, le_rfl, ?_⟩, rfl, rfl, ?_, rfl, rfl⟩
  · exact Nat.lt_add_of_pos_right pos
  · exact Nat.lt_add_of_pos_right pos
  · simp [contents, begun, beginInterfaceSized, beginLocked, initial, isDeviceReady, up, down,
      getUsedSize, QueueState.start]

/-- In every run from the state `begin_interface` leaves the ring behaves as the
bounded queue: same answers, pointers inside the ring, used size the queue's length,
and no copy outside the ring, which would be a fault. -/
theorem ring_refines_bounded_queue (base : Nat) (ring : List Byte) (pos : 0 < ring.length)
    (calls : List Call) :
    ∃ d, run deviceStep (begun base ring) calls =
        .ok (d, (runSpec queueStep (QueueState.start ring.length) calls).2) ∧
      (base ≤ d.readPtr ∧ d.readPtr < base + ring.length) ∧
      (base ≤ d.writePtr ∧ d.writePtr < base + ring.length) ∧
      contents d = (runSpec queueStep (QueueState.start ring.length) calls).1.queue.items ∧
      getUsedSize d =
        (runSpec queueStep (QueueState.start ring.length) calls).1.queue.items.length ∧
      getUsedSize d ≤ ring.length - 1 := by
  obtain ⟨d, ran, rep⟩ := run_simulates (fun d q _ => Represents base ring.length d q)
    (fun d q call _ rep => deviceStep_simulates d q call rep) calls (begun base ring)
    (.start ring.length) (begun_represents base ring pos)
  have used := contents_length rep.valid
  obtain ⟨valid, base_eq, size_eq, queue, -, -⟩ := rep
  rw [queue] at used
  refine ⟨d, ran, ?_, ?_, queue, used.symm, ?_⟩
  · rw [← base_eq, ← size_eq]; exact ⟨valid.read_low, valid.read_high⟩
  · rw [← base_eq, ← size_eq]; exact ⟨valid.write_low, valid.write_high⟩
  · rw [← used]; exact BoundedQueue.bounded _

/-- A ring of four bytes, opened, written across its end and read back. -/
theorem ring_refines_bounded_queue_four :
    0 < [0, 0, 0, (0 : Byte)].length ∧
    ∃ d, run deviceStep (begun 4096 [0, 0, 0, 0])
        [.open ⟨7, by decide⟩ 1 .acquired, .write [1, 2, 3] .acquired, .read 2 .acquired,
          .write [4, 5] .acquired, .read 9 .acquired] =
        .ok (d, [.code 0, .unit, .bytes ⟨2, [1, 2]⟩, .unit, .bytes ⟨3, [3, 4, 5]⟩]) ∧
      getUsedSize d = 0 := by
  refine ⟨by decide, ?_⟩
  obtain ⟨d, ran, -, -, -, used, -⟩ := ring_refines_bounded_queue 4096 [0, 0, 0, 0] (by decide)
    [.open ⟨7, by decide⟩ 1 .acquired, .write [1, 2, 3] .acquired, .read 2 .acquired,
      .write [4, 5] .acquired, .read 9 .acquired]
  exact ⟨d, ran, used⟩

/-- Right after `begin_interface` the device is not ready: a write that fits is not
appended. -/
theorem begun_write_not_appended :
    ¬ ∀ (base : Nat) (ring buffer : List Byte) (d : Device), 0 < ring.length →
      0 < buffer.length →
      (contents (begun base ring)).length + buffer.length ≤ ring.length - 1 →
      writeToInterface (begun base ring) buffer .acquired = .ok d →
      contents d = contents (begun base ring) ++ buffer := by
  intro appended
  have wrong := appended 4096 [0, 0] [1] (begun 4096 [0, 0]) (by decide) (by decide) (by decide)
    (by decide)
  exact absurd wrong (by decide)

end SysMonitor.Guarantees.RingQueue
