import SysMonitor.Guarantees.HeapSafety

/-!
# Whom a process record describes

A record is refreshed only when its task enters a hooked call, by a comparison of start
times and by a flag that was set before the image changed. Over any order of creations,
hooked calls, execs that succeed or fail, exits and reused pids the record describes the
running program after every `notify_enter`, as long as no pid is reused whose last task
left cached descriptors. The message that prints the old path then is let pass here.
-/

namespace SysMonitor.Guarantees.RecordIdentity
open SysMonitor.Library SysMonitor.Source SysMonitor.Source.FdCache SysMonitor.Source.Process
open SysMonitor.Guarantees.HeapSafety

/-- Where a task stands: its image has made no hooked call, it has made one, or it is in
`fake_sys_exec` past `notify_execve`. -/
inductive Phase where
  | outside
  | inside
  | replacing
  deriving DecidableEq

/-- A task that has a pid. Blocks from `since` on were allocated under the present image:
an address is handed out once, in ascending order. -/
structure Running where
  realStartTime : TimeSpec
  image : CString
  since : Ptr
  phase : Phase

/-- The process table beside the tasks of the system; `born` lists every task so far. -/
structure World where
  kernel : Kernel
  running : Int → Option Running
  born : List (Int × TimeSpec)

/-- What a hooked call does with the fd cache. -/
inductive FileUse where
  | insert (fd : Word) (path : Option CString) (recordRoom nameRoom : Bool)
  | get (fd : Word) (answers : FileAnswers) (recordRoom nameRoom : Bool)
  | delete (fd : Word)

def FileUse.call (task : Task) : FileUse → ProcessCall
  | .insert fd path recordRoom nameRoom => .insert task fd path recordRoom nameRoom
  | .get fd answers recordRoom nameRoom => .get task fd answers recordRoom nameRoom
  | .delete fd => .delete task fd

inductive Event where
  | create (pid : Int) (realStartTime : TimeSpec) (image : CString)
  /-- A hooked call begins; every allocation of it succeeds. -/
  | enter (pid : Int) (arguments : ArgumentAnswers)
  | use (pid : Int) (file : FileUse)
  /-- `notify_execve` -/
  | execve (pid : Int)
  /-- The original execve succeeds; one that fails changes nothing. -/
  | replaced (pid : Int) (image : CString)
  | exit (pid : Int)

def World.withTask (w : World) (pid : Int) (task : Running) : World :=
  { w with running := Function.update w.running pid (some task) }

@[simp] theorem World.withTask_kernel (w : World) (pid : Int) (task : Running) :
    (w.withTask pid task).kernel = w.kernel := rfl

@[simp] theorem World.withTask_born (w : World) (pid : Int) (task : Running) :
    (w.withTask pid task).born = w.born := rfl

def worldStep (w : World) : Event → Except Fault (World × Unit)
  | .create pid realStartTime image =>
    let task : Running := ⟨realStartTime, image, w.kernel.heap.fresh, .outside⟩
    .ok (({ w with born := (pid, realStartTime) :: w.born } : World).withTask pid task, ())
  | .enter pid arguments =>
    match w.running pid with
    | none => .ok (w, ())
    | some task => do
      let kernel ← notifyEnter w.kernel ⟨pid, task.realStartTime⟩ (.complete task.image) arguments true
      return (({ w with kernel := kernel } : World).withTask pid { task with phase := .inside }, ())
  | .use pid file =>
    match w.running pid with
    | none => .ok (w, ())
    | some task => do
      let (kernel, _) ← processStep w.kernel (file.call ⟨pid, task.realStartTime⟩)
      return ({ w with kernel := kernel }, ())
  | .execve pid =>
    match w.running pid with
    | none => .ok (w, ())
    | some task => do
      let kernel ← notifyExecve w.kernel ⟨pid, task.realStartTime⟩
      return (({ w with kernel := kernel } : World).withTask pid { task with phase := .replacing }, ())
  | .replaced pid image =>
    match w.running pid with
    | none => .ok (w, ())
    | some task =>
      let task := { task with image := image, since := w.kernel.heap.fresh, phase := .outside }
      .ok (w.withTask pid task, ())
  | .exit pid => .ok ({ w with running := Function.update w.running pid none }, ())

/-- The tasks behave as tasks do: a pid and a start time name one task, a hooked call starts
with `notify_enter`, and an image changes at the end of `fake_sys_exec`. -/
def Permitted (w : World) : Event → Prop
  | .create pid realStartTime _ =>
    (0 ≤ pid ∧ pid < HASH_SLOT_SIZE) ∧ w.running pid = none ∧ (pid, realStartTime) ∉ w.born
  | .enter pid _ => (w.running pid).isSome
  | .use pid _ => (w.running pid).any (·.phase = .inside)
  | .execve pid => (w.running pid).any (·.phase = .inside)
  | .replaced pid _ => (w.running pid).any (·.phase = .replacing)
  | .exit _ => True

/-- A task that enters finds no record, its own, or one that caches no descriptor. -/
def Reusable (w : World) : Event → Prop
  | .enter pid _ => (w.running pid).all fun task =>
      w.kernel.slots pid = NULL ∨
        (w.kernel.process (w.kernel.slots pid)).startTime = task.realStartTime ∨
        (w.kernel.process (w.kernel.slots pid)).area.fileFdHead = NULL
  | _ => True

/-- The record of this pid describes the task that has it, as it runs now. -/
def Describes (w : World) (pid : Int) : Prop :=
  ∃ task, w.running pid = some task ∧ w.kernel.slots pid ≠ NULL ∧
    let record := w.kernel.process (w.kernel.slots pid)
    record.startTime = task.realStartTime ∧
    (record.filename ≠ NULL ∧ w.kernel.heap.chars record.filename = task.image) ∧
    record.beforeExecve = false ∧
    ∀ x ∈ cached w.kernel ⟨pid, task.realStartTime⟩, task.since ≤ x

/-- What holds right after each step. -/
def Described (_ : World) (event : Event) (t : World) (_ : Unit) : Prop :=
  match event with
  | .enter pid _ => Describes t pid
  | _ => True

instance (w : World) : ∀ event, Decidable (Permitted w event)
  | .create _ _ _ => inferInstanceAs (Decidable ((_ ∧ _) ∧ _ = none ∧ _ ∉ w.born))
  | .enter _ _ | .use _ _ | .execve _ | .replaced _ _ => inferInstanceAs (Decidable (_ = true))
  | .exit _ => .isTrue trivial

instance (w : World) : ∀ event, Decidable (Reusable w event)
  | .enter _ _ => inferInstanceAs (Decidable (_ = true))
  | .create _ _ _ | .use _ _ | .execve _ | .replaced _ _ | .exit _ => .isTrue trivial

section Invariant

variable {k k' : Kernel} {records : List Ptr} {contents contents' : Ptr → Contents} {pid : Int}
  {task : Running}

/-- What the table knows of a living task. -/
structure Follows (k : Kernel) (contents : Ptr → Contents) (pid : Int) (task : Running) :
    Prop where
  valid : 0 ≤ pid ∧ pid < HASH_SLOT_SIZE
  since : task.since ≤ k.heap.fresh
  known : task.phase ≠ .outside →
    k.slots pid ≠ NULL ∧ (k.process (k.slots pid)).startTime = task.realStartTime
  flag : task.phase = .replacing → (k.process (k.slots pid)).beforeExecve = true
  current : k.slots pid ≠ NULL → (k.process (k.slots pid)).startTime = task.realStartTime →
    (k.process (k.slots pid)).beforeExecve = false →
      k.heap.chars (k.process (k.slots pid)).filename = task.image ∧
      ∀ x ∈ (contents (k.slots pid)).link, task.since ≤ x

/-- A record that an operation did not refresh: the same strings, and fd records that were
there before or are new. -/
structure Unrefreshed (k k' : Kernel) (contents contents' : Ptr → Contents) (p : Ptr) : Prop where
  startTime : (k'.process p).startTime = (k.process p).startTime
  beforeExecve : (k'.process p).beforeExecve = (k.process p).beforeExecve
  filename : (k'.process p).filename = (k.process p).filename
  chars : k'.heap.chars (k.process p).filename = k.heap.chars (k.process p).filename
  link : ∀ x ∈ (contents' p).link, x ∈ (contents p).link ∨ k.heap.fresh ≤ x

theorem Follows.unrefreshed (follows : Follows k contents pid task)
    (fresh : k.heap.fresh ≤ k'.heap.fresh) (slot : k'.slots pid = k.slots pid)
    (same : k.slots pid ≠ NULL → Unrefreshed k k' contents contents' (k.slots pid)) :
    Follows k' contents' pid task where
  valid := follows.valid
  since := follows.since.trans fresh
  known entered := by
    obtain ⟨real, own⟩ := follows.known entered
    rw [slot, (same real).startTime]
    exact ⟨real, own⟩
  flag replacing := by
    obtain ⟨real, -⟩ := follows.known (by rw [replacing]; decide)
    rw [slot, (same real).beforeExecve]
    exact follows.flag replacing
  current := by
    rw [slot]
    intro real own clear
    rw [(same real).startTime] at own
    rw [(same real).beforeExecve] at clear
    obtain ⟨image, inserted⟩ := follows.current real own clear
    constructor
    · rw [(same real).filename, (same real).chars, image]
    · intro x inside
      rcases (same real).link x inside with old | new
      · exact inserted x old
      · exact follows.since.trans new

/-- The phase of a task may go back to having made a hooked call. -/
theorem Follows.inside (follows : Follows k contents pid task)
    (real : k.slots pid ≠ NULL)
    (own : (k.process (k.slots pid)).startTime = task.realStartTime) :
    Follows k contents pid { task with phase := .inside } where
  valid := follows.valid
  since := follows.since
  known _ := ⟨real, own⟩
  flag no := by simp at no
  current := follows.current

/-- The table and every living task, between two steps. -/
structure Coherent (w : World) (records : List Ptr) (contents : Ptr → Contents) : Prop where
  lenient : w.kernel.strict = false
  rep : KernelRep w.kernel records contents
  apart : ∀ i j, w.kernel.slots i ≠ NULL → w.kernel.slots i = w.kernel.slots j → i = j
  born : ∀ i, w.kernel.slots i ≠ NULL → (i, (w.kernel.process (w.kernel.slots i)).startTime) ∈ w.born
  alive : ∀ i task, w.running i = some task → (i, task.realStartTime) ∈ w.born
  named : ∀ i, w.kernel.slots i ≠ NULL → (w.kernel.process (w.kernel.slots i)).filename ≠ NULL
  follows : ∀ i task, w.running i = some task → Follows w.kernel contents i task

theorem filename_old (rep : KernelRep k records contents) {p : Ptr} (member : p ∈ records) :
    (k.process p).filename < k.heap.fresh := by
  rcases (rep.each p member).filename with null | live
  · rw [null]
    exact k.heap.freshReal
  · exact Heap.live_lt_fresh live

/-- An operation of the fd cache refreshes no record. -/
theorem unrefreshed_of_effect (rep : KernelRep k records contents)
    {p q : Ptr} (effect : FdEffect k k' records contents contents' q) (member : p ∈ records) :
    Unrefreshed k k' contents contents' p := by
  obtain ⟨area, same⟩ := effect.process p
  refine ⟨by rw [same], by rw [same], by rw [same], effect.chars _ (filename_old rep member), ?_⟩
  intro x inside
  by_cases old : x < k.heap.fresh
  · left
    have live := (effect.rep.each p member).cache.link.live x inside
    rw [effect.kind x old] at live
    exact (rep.each p member).mem_link (effect.gained p member x (link_owned inside) old) live
  · exact .inr (Nat.le_of_not_lt old)

/-- `notify_enter` refreshes one record only. -/
theorem unrefreshed_of_entered (rep : KernelRep k records contents) {current : Task}
    {path : PathAnswers} {p q : Ptr}
    (entered : Entered k k' records contents contents' current path p) (member : q ∈ records)
    (other : q ≠ p) : Unrefreshed k k' contents contents' q := by
  obtain ⟨link, prev, same⟩ := entered.others q member other
  refine ⟨by rw [same], by rw [same], by rw [same], entered.chars _ (filename_old rep member), ?_⟩
  intro x inside
  rw [link] at inside
  exact .inl inside

/-- A property of all living tasks, one of which changed or came. -/
theorem withTask_all {P : Int → Running → Prop} {w : World} {task' : Running}
    (others : ∀ i task, i ≠ pid → w.running i = some task → P i task) (own : P pid task')
    (i : Int) (task : Running) (found : (w.withTask pid task').running i = some task) :
    P i task := by
  have found' : Function.update w.running pid (some task') i = some task := found
  by_cases here : i = pid
  · rw [here, Function.update_self] at found'
    cases found'
    rw [here]
    exact own
  · rw [Function.update_of_ne here] at found'
    exact others i task here found'

/-- What a task finds in its own record once its flag is clear. -/
theorem Coherent.describes {w : World} (coherent : Coherent w records contents)
    (found : w.running pid = some task) (real : w.kernel.slots pid ≠ NULL)
    (own : (w.kernel.process (w.kernel.slots pid)).startTime = task.realStartTime)
    (clear : (w.kernel.process (w.kernel.slots pid)).beforeExecve = false) : Describes w pid := by
  have follows := coherent.follows pid task found
  obtain ⟨image, inserted⟩ := follows.current real own clear
  refine ⟨task, found, real, own, ⟨coherent.named pid real, image⟩, clear, fun x inside => ?_⟩
  have at_pid : w.kernel.recordOf pid = w.kernel.slots pid := if_pos follows.valid
  rw [cached_eq coherent.rep, at_pid, if_neg real] at inside
  exact inserted x inside

end Invariant

section Step

variable {w : World} {records : List Ptr} {contents : Ptr → Contents} {pid : Int} {task : Running}

/-- A record was built or rebuilt for the entering task. -/
theorem entered_coherent (coherent : Coherent w records contents)
    (found : w.running pid = some task) {path : PathAnswers} (complete : path = .complete task.image)
    {k' : Kernel} {records' : List Ptr} {contents' : Ptr → Contents} {p : Ptr}
    (rep : KernelRep k' records' contents') (live : p ∈ records')
    (slots : k'.slots = Function.update w.kernel.slots pid p)
    (entered : Entered w.kernel k' records contents contents' ⟨pid, task.realStartTime⟩ path p)
    (apart : ∀ i, i ≠ pid → w.kernel.slots i ≠ NULL → w.kernel.slots i ≠ p) :
    ∃ records contents,
      Coherent (({ w with kernel := k' } : World).withTask pid { task with phase := .inside })
        records contents ∧
      Describes (({ w with kernel := k' } : World).withTask pid { task with phase := .inside })
        pid := by
  have own : k'.slots pid = p := by
    rw [slots]
    exact Function.update_self ..
  have real : p ≠ NULL := Heap.live_ne_null (rep.live p live)
  have other : ∀ i, i ≠ pid → k'.slots i = w.kernel.slots i := by
    intro i here
    rw [slots]
    exact Function.update_of_ne here ..
  have kept : ∀ i, i ≠ pid → w.kernel.slots i ≠ NULL →
      Unrefreshed w.kernel k' contents contents' (w.kernel.slots i) := fun i here slot =>
    unrefreshed_of_entered coherent.rep entered ((coherent.rep.slots i).resolve_left slot)
      (apart i here slot)
  obtain ⟨named, image⟩ := entered.filename task.image complete
  have before := coherent.follows pid task found
  have coherent' : Coherent
      (({ w with kernel := k' } : World).withTask pid { task with phase := .inside })
      records' contents' := by
    refine ⟨entered.strict.trans coherent.lenient, rep, ?_, ?_, ?_, ?_, ?_⟩ <;>
      simp only [World.withTask_kernel, World.withTask_born]
    · intro i j slot same
      by_cases here : i = pid <;> by_cases there : j = pid
      · rw [here, there]
      · rw [here] at same
        exact absurd (((other j there).symm.trans same.symm).trans own)
          (apart j there (other j there ▸ same ▸ own ▸ real))
      · rw [there] at same
        exact absurd ((other i here).symm.trans (same.trans own)) (apart i here (other i here ▸ slot))
      · refine coherent.apart i j (other i here ▸ slot) ?_
        exact (other i here).symm.trans (same.trans (other j there))
    · intro i slot
      by_cases here : i = pid
      · rw [here, own, entered.startTime]
        exact coherent.alive pid task found
      · have slot' : w.kernel.slots i ≠ NULL := other i here ▸ slot
        rw [other i here, (kept i here slot').startTime]
        exact coherent.born i slot'
    · apply withTask_all
      · exact fun i task' _ living => coherent.alive i task' living
      · exact coherent.alive pid task found
    · intro i slot
      by_cases here : i = pid
      · rw [here, own]
        exact named
      · have slot' : w.kernel.slots i ≠ NULL := other i here ▸ slot
        rw [other i here, (kept i here slot').filename]
        exact coherent.named i slot'
    · apply withTask_all
      · intro i task' here living
        exact (coherent.follows i task' living).unrefreshed entered.fresh (other i here) (kept i here)
      · refine ⟨before.valid, before.since.trans entered.fresh, fun _ => ?_, by simp, ?_⟩
        · rw [own]
          exact ⟨real, entered.startTime⟩
        · intro _ _ _
          rw [own, entered.empty]
          exact ⟨image, fun x inside => by simp [noContents] at inside⟩
  refine ⟨records', contents', coherent', coherent'.describes (Function.update_self ..) ?_ ?_ ?_⟩
    <;> simp only [World.withTask_kernel, own]
  · exact real
  · exact entered.startTime
  · exact entered.beforeExecve

/-- A change of one task that leaves the table as it is. -/
theorem Coherent.withTask (coherent : Coherent w records contents) {task' : Running}
    (follows : Follows w.kernel contents pid task')
    (alive : (pid, task'.realStartTime) ∈ w.born) :
    Coherent (w.withTask pid task') records contents := by
  refine ⟨coherent.lenient, coherent.rep, coherent.apart, coherent.born, ?_, coherent.named, ?_⟩
  · apply withTask_all
    · exact fun i task _ living => coherent.alive i task living
    · exact alive
  · apply withTask_all
    · exact fun i task _ living => coherent.follows i task living
    · exact follows

/-- A step that goes through keeps the invariant and has the property. -/
def Proceeds (w : World) (event : Event) : Prop :=
  ∃ t answer, worldStep w event = .ok (t, answer) ∧ Described w event t answer ∧
    ∃ records contents, Coherent t records contents

theorem enter_proceeds (coherent : Coherent w records contents) (pid : Int)
    (arguments : ArgumentAnswers) (permitted : Permitted w (.enter pid arguments))
    (reusable : Reusable w (.enter pid arguments)) : Proceeds w (.enter pid arguments) := by
  obtain ⟨task, found⟩ := Option.isSome_iff_exists.mp permitted
  have follows := coherent.follows pid task found
  rw [Reusable, found, Option.all_some, decide_eq_true_iff] at reusable
  unfold Proceeds
  rw [worldStep, found]
  dsimp only
  rw [notifyEnter_dispatch coherent.rep, if_pos follows.valid]
  by_cases null : w.kernel.slots pid = NULL
  · rw [if_pos null]
    obtain ⟨k', p, contents', ran, new, rep, slots, entered, -⟩ :=
      enterNew_spec coherent.rep follows.valid ⟨pid, task.realStartTime⟩ (.complete task.image)
        arguments
    rw [ran]
    obtain ⟨records, contents, kept, described⟩ :=
      entered_coherent coherent found rfl rep List.mem_cons_self slots entered
        fun i _ slot same => new (same ▸ (coherent.rep.slots i).resolve_left slot)
    exact ⟨_, (), rfl, described, records, contents, kept⟩
  · have member := (coherent.rep.slots pid).resolve_left null
    rw [if_neg null]
    have other : ∀ i, i ≠ pid → w.kernel.slots i ≠ NULL → w.kernel.slots i ≠ w.kernel.slots pid :=
      fun i here slot same => here (coherent.apart i pid slot same)
    by_cases own : (w.kernel.process (w.kernel.slots pid)).startTime = task.realStartTime
    · rw [if_pos own]
      cases flag : (w.kernel.process (w.kernel.slots pid)).beforeExecve with
      | false =>
        rw [enterKnown_unchanged coherent.rep member flag]
        have kept := coherent.withTask (follows.inside null own) (coherent.alive pid task found)
        exact ⟨_, (), rfl, kept.describes (Function.update_self ..) null own flag, records, contents,
          kept⟩
      | true =>
        obtain ⟨k', contents', ran, rep, slots, entered, -⟩ :=
          enterKnown_spec coherent.rep member flag ⟨pid, task.realStartTime⟩ (.complete task.image)
            arguments
        rw [ran]
        obtain ⟨records, contents, kept, described⟩ := entered_coherent coherent found rfl rep member
          (slots.trans (Function.update_eq_self ..).symm) entered other
        exact ⟨_, (), rfl, described, records, contents, kept⟩
    · have empty := (reusable.resolve_left null).resolve_left own
      have spec := enterReused_spec coherent.rep member ⟨pid, task.realStartTime⟩
        (.complete task.image) arguments
      obtain ⟨k', ran⟩ := spec.iff.mpr ⟨by rw [coherent.lenient]; rfl, empty⟩
      rw [if_neg own]
      rw [ran] at spec ⊢
      obtain ⟨-, contents', rep, slots, entered, -⟩ := spec
      obtain ⟨records, contents, kept, described⟩ := entered_coherent coherent found rfl rep member
        (slots.trans (Function.update_eq_self ..).symm) entered other
      exact ⟨_, (), rfl, described, records, contents, kept⟩

theorem use_effect {k : Kernel} (rep : KernelRep k records contents) (current : Task)
    (file : FileUse) : ∃ k' contents', processStep k (file.call current) = .ok (k', ()) ∧
      FdEffect k k' records contents contents' (k.recordOf current.pid) := by
  cases file with
  | insert fd path recordRoom nameRoom =>
    obtain ⟨k', contents', ran, effect, -⟩ :=
      insertIntoCache_effect rep current fd path recordRoom nameRoom
    exact ⟨k', contents', by rw [FileUse.call, processStep, ran]; rfl, effect⟩
  | get fd answers recordRoom nameRoom =>
    obtain ⟨k', path, contents', ran, effect, -⟩ :=
      getCacheByFd_effect rep current fd answers recordRoom nameRoom
    exact ⟨k', contents', by rw [FileUse.call, processStep, ran]; rfl, effect⟩
  | delete fd =>
    obtain ⟨k', suc, contents', ran, effect, -⟩ := deleteCacheByFd_effect rep current fd
    exact ⟨k', contents', by rw [FileUse.call, processStep, ran]; rfl, effect⟩

theorem use_proceeds (coherent : Coherent w records contents) (pid : Int) (file : FileUse) :
    Proceeds w (.use pid file) := by
  unfold Proceeds
  rw [worldStep]
  cases found : w.running pid with
  | none => exact ⟨w, (), rfl, trivial, records, contents, coherent⟩
  | some task =>
    obtain ⟨k', contents', ran, effect⟩ :=
      use_effect coherent.rep ⟨pid, task.realStartTime⟩ file
    have kept : ∀ i, w.kernel.slots i ≠ NULL →
        Unrefreshed w.kernel k' contents contents' (w.kernel.slots i) := fun i slot =>
      unrefreshed_of_effect coherent.rep effect ((coherent.rep.slots i).resolve_left slot)
    dsimp only
    rw [ran]
    refine ⟨_, (), rfl, trivial, records, contents', effect.strict.trans coherent.lenient, effect.rep,
      ?_, ?_, coherent.alive, ?_, ?_⟩
    all_goals simp only [effect.slots]
    · exact coherent.apart
    · intro i slot
      rw [(kept i slot).startTime]
      exact coherent.born i slot
    · intro i slot
      rw [(kept i slot).filename]
      exact coherent.named i slot
    · exact fun i task living => (coherent.follows i task living).unrefreshed effect.fresh
        (congrFun effect.slots i) (kept i)

/-- The flag of the calling task is all that `notify_execve` changes. -/
theorem flagged_spec (k : Kernel) (current : Task) (p : Ptr) :
    ∃ flag, flagged k current p = { k.process p with beforeExecve := flag } ∧
      (p ≠ k.slots current.pid → flag = (k.process p).beforeExecve) ∧
      (0 ≤ current.pid ∧ current.pid < HASH_SLOT_SIZE → p = k.slots current.pid → p ≠ NULL →
        flag = true) := by
  unfold flagged
  by_cases valid : 0 ≤ current.pid ∧ current.pid < HASH_SLOT_SIZE ∧ k.slots current.pid ≠ NULL
  · rw [if_pos valid]
    by_cases here : p = k.slots current.pid
    · refine ⟨true, ?_, fun other => absurd here other, fun _ _ _ => rfl⟩
      rw [here]
      exact Function.update_self ..
    · exact ⟨_, Function.update_of_ne here .., fun _ => rfl, fun _ own => absurd own here⟩
  · rw [if_neg valid]
    refine ⟨_, rfl, fun _ => rfl, fun inside own real => ?_⟩
    exact absurd ⟨inside.1, inside.2, own ▸ real⟩ valid

theorem phase_of_any {o : Option Running} {phase : Phase} (any : o.any (·.phase = phase)) :
    ∃ task, o = some task ∧ task.phase = phase := by
  cases o with
  | none => simp at any
  | some task => exact ⟨task, rfl, of_decide_eq_true any⟩

theorem execve_proceeds (coherent : Coherent w records contents) (pid : Int)
    (permitted : Permitted w (.execve pid)) : Proceeds w (.execve pid) := by
  obtain ⟨task, found, phase⟩ := phase_of_any permitted
  have follows := coherent.follows pid task found
  have ⟨real, own⟩ := follows.known (by rw [phase]; decide)
  obtain ⟨ran, rep, -⟩ := notifyExecve_spec coherent.rep ⟨pid, task.realStartTime⟩
  have same : ∀ p, ∃ flag,
      flagged w.kernel ⟨pid, task.realStartTime⟩ p
        = { w.kernel.process p with beforeExecve := flag } ∧
      (p ≠ w.kernel.slots pid → flag = (w.kernel.process p).beforeExecve) := by
    intro p
    obtain ⟨flag, at_p, other, -⟩ := flagged_spec w.kernel ⟨pid, task.realStartTime⟩ p
    exact ⟨flag, at_p, other⟩
  unfold Proceeds
  rw [worldStep, found]
  dsimp only
  rw [ran]
  refine ⟨_, (), rfl, trivial, records, contents, by exact coherent.lenient, rep, coherent.apart,
    ?_, ?_, ?_, ?_⟩
    <;> simp only [World.withTask_kernel, World.withTask_born]
  · intro i slot
    obtain ⟨flag, at_slot, -⟩ := same (w.kernel.slots i)
    rw [at_slot]
    exact coherent.born i slot
  · apply withTask_all
    · exact fun i task _ living => coherent.alive i task living
    · exact coherent.alive pid task found
  · intro i slot
    obtain ⟨flag, at_slot, -⟩ := same (w.kernel.slots i)
    rw [at_slot]
    exact coherent.named i slot
  · apply withTask_all
    · intro i task' here living
      refine (coherent.follows i task' living).unrefreshed le_rfl rfl fun slot => ?_
      obtain ⟨flag, at_slot, other⟩ := same (w.kernel.slots i)
      have flag_same := other fun shared => here (coherent.apart i pid slot shared)
      rw [flag_same] at at_slot
      exact ⟨congrArg ProcessRecord.startTime at_slot, congrArg ProcessRecord.beforeExecve at_slot,
        congrArg ProcessRecord.filename at_slot, rfl, fun x inside => .inl inside⟩
    · obtain ⟨flag, at_slot, -, set⟩ :=
        flagged_spec w.kernel ⟨pid, task.realStartTime⟩ (w.kernel.slots pid)
      have flag_set := set follows.valid rfl real
      rw [flag_set] at at_slot
      refine ⟨follows.valid, follows.since, fun _ => ?_, fun _ => ?_, fun _ _ clear => ?_⟩
      · exact ⟨real, (congrArg ProcessRecord.startTime at_slot).trans own⟩
      · exact congrArg ProcessRecord.beforeExecve at_slot
      · have clear' := (congrArg ProcessRecord.beforeExecve at_slot).symm.trans clear
        simp at clear'

/-- A permitted step that reuses no record with cached descriptors. -/
theorem worldStep_proceeds (w : World) (event : Event)
    (coherent : ∃ records contents, Coherent w records contents)
    (admitted : Permitted w event ∧ Reusable w event) : Proceeds w event := by
  obtain ⟨records, contents, coherent⟩ := coherent
  obtain ⟨permitted, reusable⟩ := admitted
  cases event with
  | create pid realStartTime image =>
    obtain ⟨valid, -, new⟩ := permitted
    refine ⟨_, (), rfl, trivial, records, contents, ?_⟩
    refine Coherent.withTask (w := { w with born := (pid, realStartTime) :: w.born }) ?_ ?_
      List.mem_cons_self
    · exact ⟨coherent.lenient, coherent.rep, coherent.apart,
        fun i slot => List.mem_cons_of_mem _ (coherent.born i slot),
        fun i task living => List.mem_cons_of_mem _ (coherent.alive i task living), coherent.named,
        coherent.follows⟩
    · refine ⟨valid, le_rfl, by simp, by simp, fun slot own => ?_⟩
      have born := coherent.born pid slot
      have own' : (w.kernel.process (w.kernel.slots pid)).startTime = realStartTime := own
      rw [own'] at born
      exact absurd born new
  | enter pid arguments => exact enter_proceeds coherent pid arguments permitted reusable
  | use pid file => exact use_proceeds coherent pid file
  | execve pid => exact execve_proceeds coherent pid permitted
  | replaced pid image =>
    obtain ⟨task, found, phase⟩ := phase_of_any permitted
    have follows := coherent.follows pid task found
    have ran : worldStep w (.replaced pid image) = .ok (w.withTask pid
        ⟨task.realStartTime, image, w.kernel.heap.fresh, .outside⟩, ()) := by
      rw [worldStep, found]
    refine ⟨_, (), ran, trivial, records, contents, ?_⟩
    refine coherent.withTask ⟨follows.valid, le_rfl, by simp, by simp, fun _ _ clear => ?_⟩
      (coherent.alive pid task found)
    rw [follows.flag phase] at clear
    simp at clear
  | exit pid =>
    have left : ∀ i task, Function.update w.running pid none i = some task →
        w.running i = some task := by
      intro i task living
      by_cases here : i = pid
      · rw [here, Function.update_self] at living
        simp at living
      · rwa [Function.update_of_ne here] at living
    exact ⟨_, (), rfl, trivial, records, contents, coherent.lenient, coherent.rep, coherent.apart,
      coherent.born,
      fun i task living => coherent.alive i task (left i task living), coherent.named,
      fun i task living => coherent.follows i task (left i task living)⟩

/-- A task that finds the record of an earlier one with a cached descriptor does not get through:
`build_process_record` frees the fd records of `cleanup_process_record` again. -/
theorem reuse_faults (w : World) (event : Event)
    (coherent : ∃ records contents, Coherent w records contents) (permitted : Permitted w event)
    (reused : ¬Reusable w event) : ∃ fault, worldStep w event = .error fault := by
  obtain ⟨records, contents, coherent⟩ := coherent
  cases event with
  | enter pid arguments =>
    obtain ⟨task, found⟩ := Option.isSome_iff_exists.mp permitted
    have follows := coherent.follows pid task found
    rw [Reusable, found, Option.all_some, decide_eq_true_iff, not_or, not_or] at reused
    obtain ⟨slot, other, cached⟩ := reused
    have spec := enterReused_spec coherent.rep ((coherent.rep.slots pid).resolve_left slot)
      ⟨pid, task.realStartTime⟩ (.complete task.image) arguments
    rw [worldStep, found]
    dsimp only
    rw [notifyEnter_dispatch coherent.rep, if_pos follows.valid, if_neg slot, if_neg other]
    revert spec
    cases enterReused w.kernel (w.kernel.slots pid) ⟨pid, task.realStartTime⟩
      (.complete task.image) arguments with
    | error fault => exact fun _ => ⟨fault, rfl⟩
    | ok k => exact fun spec => absurd spec.1.2 cached
  | _ => exact absurd trivial reused

end Step

/-- The table after `process_monitor_init`, before any task was created. -/
def started (h : Heap) (process : Ptr → ProcessRecord) : World :=
  ⟨(processMonitorInit h process).lenient, fun _ => none, []⟩

theorem started_coherent (h : Heap) (process : Ptr → ProcessRecord) :
    Coherent (started h process) [] fun _ => noContents :=
  ⟨rfl, (init_rep h process).lenient, fun _ _ real => absurd rfl real, fun _ real => absurd rfl real,
    fun _ _ none => by simp [started] at none, fun _ real => absurd rfl real,
    fun _ _ none => by simp [started] at none⟩

end SysMonitor.Guarantees.RecordIdentity
