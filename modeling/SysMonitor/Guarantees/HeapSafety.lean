import SysMonitor.Source.ProcessCleanup

/-!
# Every block is freed once and none is used after that

A session starts from an empty process table and may end with an unload. It is exact:
the two paths that clean up a record use freed blocks as soon as the record has a path,
and a reused record also when it has a cached descriptor; everything else is safe.
-/

namespace SysMonitor.Guarantees.HeapSafety
open SysMonitor.Library SysMonitor.Source SysMonitor.Source.FdCache SysMonitor.Source.Process

/-- Between two calls the table represents some records. -/
def Sound (k : Kernel) : Prop := k.strict = true ∧ ∃ records contents, KernelRep k records contents

/-- A task that comes to the slot of an earlier task finds a record without a path and
without cached descriptors. -/
def Harmless (k : Kernel) : ProcessCall → Prop
  | .notifyEnter task _ _ _ => 0 ≤ task.pid ∧ task.pid < HASH_SLOT_SIZE →
      k.slots task.pid ≠ NULL →
      (k.process (k.slots task.pid)).startTime ≠ task.realStartTime →
      Recyclable (k.process (k.slots task.pid))
  | _ => True

instance (k : Kernel) (call : ProcessCall) : Decidable (Harmless k call) := by
  cases call <;> (unfold Harmless; infer_instance)

/-- The records that `process_monitor_cleanup` walks. -/
def outstanding (k : Kernel) : Nat → Ptr → List Ptr
  | 0, _ => []
  | rounds + 1, p => if p = NULL then [] else p :: outstanding k rounds (k.process p).next

/-- No record has a path. -/
def Unnamed (k : Kernel) : Prop :=
  ∀ p ∈ outstanding k (k.heap.fresh + 1) k.outstandingHeader, (k.process p).filename = NULL

instance (k : Kernel) : Decidable (Unnamed k) := by
  unfold Unnamed
  infer_instance

section Step

variable {k : Kernel} {records : List Ptr} {contents : Ptr → Contents}

theorem notifyEnter_spec (sound : Sound k) (task : Task) (path : PathAnswers)
    (arguments : ArgumentAnswers) (room : Bool) :
    SucceedsIff (Harmless k (.notifyEnter task path arguments room)) Sound
      (notifyEnter k task path arguments room) := by
  obtain ⟨strict, records, contents, rep⟩ := sound
  rw [notifyEnter_dispatch rep, Harmless]
  by_cases valid : 0 ≤ task.pid ∧ task.pid < HASH_SLOT_SIZE
  · rw [if_pos valid]
    by_cases null : k.slots task.pid = NULL
    · rw [if_pos null]
      cases room with
      | false => exact ⟨fun _ real => absurd null real, strict, records, contents, rep⟩
      | true =>
        obtain ⟨k', p, contents', ran, -, rep', -, entered, -⟩ :=
          enterNew_spec rep valid task path arguments
        rw [ran]
        exact ⟨fun _ real => absurd null real, entered.strict.trans strict, _, contents', rep'⟩
    · have member := (rep.slots task.pid).resolve_left null
      rw [if_neg null]
      by_cases known : (k.process (k.slots task.pid)).startTime = task.realStartTime
      · rw [if_pos known]
        cases flag : (k.process (k.slots task.pid)).beforeExecve with
        | false =>
          rw [enterKnown_unchanged rep member flag]
          exact ⟨fun _ _ other => absurd known other, strict, records, contents, rep⟩
        | true =>
          obtain ⟨k', contents', ran, rep', -, entered, -⟩ :=
            enterKnown_spec rep member flag task path arguments
          rw [ran]
          exact ⟨fun _ _ other => absurd known other, entered.strict.trans strict, records, contents',
            rep'⟩
      · rw [if_neg known]
        have reused := enterReused_spec rep member task path arguments
        rw [strict] at reused
        refine (reused.mono fun k' ⟨contents', rep', _, entered, _⟩ =>
          ⟨entered.strict.trans strict, records, contents', rep'⟩).congr ?_
        exact ⟨fun clean _ _ _ => clean, fun harmless => harmless valid null known⟩
  · rw [if_neg valid]
    exact ⟨fun inside => absurd inside valid, strict, records, contents, rep⟩

/-- A call that always succeeds. -/
theorem succeeds {m : Except Fault Kernel} (ran : ∃ k', m = .ok k' ∧ Sound k') :
    SucceedsIff True (fun r => Sound r.1) (do let k ← m; return (k, ())) := by
  obtain ⟨k', same, sound⟩ := ran
  rw [same]
  exact ⟨trivial, sound⟩

theorem processStep_spec (k : Kernel) (call : ProcessCall) (sound : Sound k) :
    SucceedsIff (Harmless k call) (fun r => Sound r.1) (processStep k call) := by
  have all := sound
  obtain ⟨strict, records, contents, rep⟩ := all
  cases call with
  | notifyEnter task path arguments room =>
    refine SucceedsIff.congr
      ((notifyEnter_spec sound task path arguments room).bind fun k' sound' => ?_)
      (and_iff_left trivial)
    exact ⟨trivial, sound'⟩
  | notifyExecve task =>
    obtain ⟨ran, rep', -⟩ := notifyExecve_spec rep task
    exact succeeds ⟨_, ran, strict, records, contents, rep'⟩
  | insert task fd path recordRoom nameRoom =>
    obtain ⟨k', contents', ran, effect, -⟩ :=
      insertIntoCache_effect rep task fd path recordRoom nameRoom
    exact succeeds ⟨k', ran, effect.strict.trans strict, records, contents', effect.rep⟩
  | get task fd answers recordRoom nameRoom =>
    obtain ⟨k', found, contents', ran, effect, -⟩ :=
      getCacheByFd_effect rep task fd answers recordRoom nameRoom
    rw [processStep, ran]
    exact ⟨trivial, effect.strict.trans strict, records, contents', effect.rep⟩
  | delete task fd =>
    obtain ⟨k', suc, contents', ran, effect, -⟩ := deleteCacheByFd_effect rep task fd
    rw [processStep, ran]
    exact ⟨trivial, effect.strict.trans strict, records, contents', effect.rep⟩

theorem outstanding_walk (k : Kernel) (rounds : Nat) (p : Ptr) :
    outstanding k rounds p = LinkedRing.walk (processFields k.process).next NULL rounds p := by
  induction rounds generalizing p with
  | zero => rfl
  | succ rounds ih => rw [outstanding, LinkedRing.walk, ih]; rfl

theorem outstanding_eq (rep : KernelRep k records contents) :
    outstanding k (k.heap.fresh + 1) k.outstandingHeader = records := by
  have short := link_short (fun q inside => Heap.live_lt_fresh (rep.live q inside)) rep.ring.nodup
  rw [rep.header, outstanding_walk, rep.ring.walk_eq _ (Nat.lt_succ_of_lt short)]

theorem unnamed_iff (rep : KernelRep k records contents) :
    (∀ p ∈ records, (k.process p).filename = NULL) ↔ Unnamed k := by
  rw [Unnamed, outstanding_eq rep]

theorem unload_spec (sound : Sound k) :
    SucceedsIff (Unnamed k) (fun _ => True) (processMonitorCleanup k) := by
  obtain ⟨strict, records, contents, rep⟩ := sound
  have spec := processMonitorCleanup_spec rep
  rw [strict] at spec
  exact (spec.mono fun _ _ => trivial).congr (unnamed_iff rep)

end Step

/-- The table that `process_monitor_init` leaves. -/
theorem init_rep (h : Heap) (process : Ptr → ProcessRecord) :
    KernelRep (processMonitorInit h process) [] (fun _ => noContents) := by
  refine ⟨?_, ?_, rfl, ?_, fun _ => .inl rfl, ?_, ?_⟩
  · exact Function.update_self ..
  · intro p inside; simp at inside
  · exact ⟨by simp [LinkedRing.Link], by simp⟩
  · intro p inside; simp at inside
  · intro p inside; simp at inside

theorem init_sound (h : Heap) (process : Ptr → ProcessRecord) :
    Sound (processMonitorInit h process) :=
  ⟨rfl, [], fun _ => noContents, init_rep h process⟩

/-- A session succeeds, every `kfree` and every pointer in it meeting a live block, exactly
when no task reuses a record that has a path or a cached descriptor and no record has a
path at the unload. -/
theorem session_safe_iff (h : Heap) (process : Ptr → ProcessRecord) (calls : List ProcessCall)
    (unload : Bool) :
    (∃ k, session (processMonitorInit h process) calls unload = .ok k) ↔
      Admitted processStep Harmless (processMonitorInit h process) calls ∧
      (unload = true → ∀ k answers,
        run processStep (processMonitorInit h process) calls = .ok (k, answers) → Unnamed k) := by
  have spec := run_succeedsIff Sound processStep_spec calls _ (init_sound h process)
  unfold session
  revert spec
  cases ran : run processStep (processMonitorInit h process) calls with
  | error fault =>
    intro bad
    refine iff_of_false ?_ fun both => bad both.1
    rintro ⟨k, same⟩
    simp at same
  | ok r =>
    rintro ⟨admitted, sound⟩
    obtain ⟨k, answers⟩ := r
    rw [ok_bind]
    dsimp only
    rw [and_iff_right admitted]
    cases unload with
    | false => exact iff_of_true ⟨k, rfl⟩ fun no => absurd no (by simp)
    | true =>
      refine (unload_spec sound).iff.trans ⟨fun unnamed _ k' answers' same => ?_, fun all => ?_⟩
      · rw [Except.ok.injEq, Prod.mk.injEq] at same
        exact same.1 ▸ unnamed
      · exact all rfl k answers rfl

/-- A table on a heap with nothing else in it. -/
def emptyTable : Kernel :=
  processMonitorInit Heap.unused fun _ =>
    ⟨NULL, NULL, ⟨0, 0⟩, false, NULL, 0, NULL, 0, NULL, emptyArea⟩

/-- A task enters, opens a file and exits; its pid is given to a later task. With a path
the message in `fd_cache_cleanup` prints it after `kfree`; without one the records of the
full list are freed twice. At the unload the message prints a freed path again. -/
theorem reused_pid_uses_freed_blocks :
    (∀ path ∈ [⟨true, true, some .empty, true⟩, (⟨false, true, none, true⟩ : PathAnswers)],
      (session emptyTable
        [.notifyEnter ⟨1, ⟨1, 0⟩⟩ path ⟨false, 0, true, 0⟩ true,
          .insert ⟨1, ⟨1, 0⟩⟩ 3 (some .empty) true true,
          .notifyEnter ⟨1, ⟨2, 0⟩⟩ path ⟨false, 0, true, 0⟩ true] false).map (fun _ => ())
        = .error .useAfterFree) ∧
    (session emptyTable
      [.notifyEnter ⟨1, ⟨1, 0⟩⟩ ⟨true, true, some .empty, true⟩ ⟨false, 0, true, 0⟩ true]
      true).map (fun _ => ()) = .error .useAfterFree := by
  decide +kernel

end SysMonitor.Guarantees.HeapSafety
