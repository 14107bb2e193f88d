import SysMonitor.Guarantees.HeapSafety

/-!
# What the process table loses

A block is lost when it is live and no longer reachable from the globals. The table loses
blocks at two places: a record that is rebuilt after an execve forgets its path and its
arguments, and a deleted fd record is unlinked but never freed. Nothing else is lost, and
what is not lost is freed at the unload.
-/

namespace SysMonitor.Guarantees.MemoryLoss
open SysMonitor.Library SysMonitor.Source SysMonitor.Source.FdCache SysMonitor.Source.Process
open SysMonitor.Guarantees.HeapSafety

/-- Reachable from `process_cache` and `outstanding_header`. -/
inductive Reachable (k : Kernel) : Ptr → Prop
  | table : Reachable k k.processCache
  | slot (i : Int) (valid : 0 ≤ i ∧ i < HASH_SLOT_SIZE) : Reachable k (k.slots i)
  | header : Reachable k k.outstandingHeader
  | next {p : Ptr} (reached : Reachable k p) (live : k.heap.kind p = some .processRecord) :
      Reachable k (k.process p).next
  | filename {p : Ptr} (reached : Reachable k p) (live : k.heap.kind p = some .processRecord) :
      Reachable k (k.process p).filename
  | argv {p : Ptr} (reached : Reachable k p) (live : k.heap.kind p = some .processRecord) :
      Reachable k (k.process p).argv
  | fdHead {p : Ptr} (reached : Reachable k p) (live : k.heap.kind p = some .processRecord) :
      Reachable k (k.process p).area.fileFdHead
  | fdNext {x : Ptr} (reached : Reachable k x) (live : k.heap.kind x = some .fileFdRecord) :
      Reachable k (k.heap.fileFdRecord x).next
  | fdName {x : Ptr} (reached : Reachable k x) (live : k.heap.kind x = some .fileFdRecord) :
      Reachable k (k.heap.fileFdRecord x).filename

/-- The table and, as a ghost, the buffers of tasks that died in `d_path`; these are of
`get_absolute_path_by_fd`, not of the table. -/
structure Ledger where
  kernel : Kernel
  abandoned : List Ptr

/-- The buffer of the calling task, if it dies. -/
def diedWith (k : Kernel) : ProcessCall → List Ptr
  | .get task fd answers _ _ => leftBehind k task fd answers
  | _ => []

def ledgerStep (s : Ledger) (call : ProcessCall) : Except Fault (Ledger × Unit) := do
  let (kernel, _) ← processStep s.kernel call
  return (⟨kernel, s.abandoned ++ diedWith s.kernel call⟩, ())

/-- Every live block that was allocated since the table was is still reachable. -/
def Accounted (base : Ptr) (_ : Ledger) (_ : ProcessCall) (t : Ledger) (_ : Unit) : Prop :=
  ∀ b, base ≤ b → t.kernel.heap.kind b ≠ none → Reachable t.kernel b ∨ b ∈ t.abandoned

/-- A task that comes to the slot of an earlier task finds no cached descriptor there, of which
the records would be freed twice. -/
def Reusable (k : Kernel) : ProcessCall → Prop
  | .notifyEnter task _ _ _ => 0 ≤ task.pid ∧ task.pid < HASH_SLOT_SIZE →
      k.slots task.pid ≠ NULL →
      (k.process (k.slots task.pid)).startTime ≠ task.realStartTime →
      (k.process (k.slots task.pid)).area.fileFdHead = NULL
  | _ => True

instance (k : Kernel) : ∀ call, Decidable (Reusable k call)
  | .notifyEnter task _ _ _ => inferInstanceAs
      (Decidable (0 ≤ task.pid ∧ task.pid < HASH_SLOT_SIZE → _ ≠ NULL → _ ≠ _ → _ = NULL))
  | .notifyExecve _ | .insert _ _ _ _ _ | .get _ _ _ _ _ | .delete _ _ => .isTrue trivial

/-- No record is rebuilt after an execve that has a path or arguments, and no descriptor is
deleted that is cached; a reused record has none. -/
def Frugal (s : Ledger) : ProcessCall → Prop
  | .notifyEnter task path arguments room =>
    Reusable s.kernel (.notifyEnter task path arguments room) ∧
    (0 ≤ task.pid ∧ task.pid < HASH_SLOT_SIZE → s.kernel.slots task.pid ≠ NULL →
      (s.kernel.process (s.kernel.slots task.pid)).startTime = task.realStartTime →
      (s.kernel.process (s.kernel.slots task.pid)).beforeExecve = true →
      texts (s.kernel.process (s.kernel.slots task.pid)) = [])
  | .delete task fd => ∀ x ∈ cached s.kernel task, fdOf s.kernel.heap x ≠ fd
  | _ => True

instance (s : Ledger) : ∀ call, Decidable (Frugal s call)
  | .notifyEnter _ _ _ _ => inferInstanceAs (Decidable (Reusable s.kernel _ ∧ _))
  | .delete task _ => inferInstanceAs (Decidable (∀ x ∈ cached s.kernel task, _ ≠ _))
  | .notifyExecve _ | .insert _ _ _ _ _ | .get _ _ _ _ _ => .isTrue trivial

section Reach

variable {k : Kernel} {records : List Ptr} {contents : Ptr → Contents}

/-- All that the table uses can be reached. -/
theorem reachable_of_used (rep : KernelRep k records contents) {b : Ptr}
    (used : Used k records contents b) : Reachable k b := by
  have front : Reachable k (records.headD NULL) := rep.header ▸ .header
  have record := rep.ring.along front fun p member reached => .next reached (rep.live p member)
  rcases used with rfl | member | ⟨p, member, inside⟩
  · exact .table
  · exact record b member
  · have reached := record p member
    have live := rep.live p member
    have each := rep.each p member
    have first : Reachable k ((contents p).link.headD NULL) :=
      each.cache.link.head ▸ .fdHead reached live
    have linked := each.cache.link.ring.along first fun x inside reached =>
      .fdNext reached (each.cache.link.live x inside)
    rcases List.mem_append.mp inside with text | inside
    · obtain ⟨rfl | rfl, -⟩ := mem_texts.mp text
      · exact .filename reached live
      · exact .argv reached live
    · rcases List.mem_append.mp inside with x | name
      · exact linked b x
      · obtain ⟨x, member_x, rfl⟩ := List.mem_map.mp name
        exact .fdName (linked x member_x) (each.cache.link.live x member_x)

theorem record_of_used (rep : KernelRep k records contents) {p : Ptr}
    (used : Used k records contents p) (live : k.heap.kind p = some .processRecord) :
    p ∈ records := by
  rcases used with rfl | member | ⟨q, member, inside⟩
  · rw [rep.table] at live
    simp at live
  · exact member
  · exact absurd inside ((rep.each q member).not_owned live (.inl rfl))

theorem link_of_used (rep : KernelRep k records contents) {x : Ptr}
    (used : Used k records contents x) (live : k.heap.kind x = some .fileFdRecord) :
    ∃ p ∈ records, x ∈ (contents p).link := by
  rcases used with rfl | member | ⟨q, member, inside⟩
  · rw [rep.table] at live
    simp at live
  · rw [rep.live x member] at live
    simp at live
  · exact ⟨q, member, (rep.each q member).mem_link inside live⟩

/-- And nothing else can be. -/
theorem used_of_reachable (rep : KernelRep k records contents) {b : Ptr}
    (reached : Reachable k b) : b = NULL ∨ Used k records contents b := by
  have text : ∀ p ∈ records, ∀ b, b = (k.process p).filename ∨ b = (k.process p).argv →
      b = NULL ∨ Used k records contents b := by
    intro p member b one
    by_cases null : b = NULL
    · exact .inl null
    · have inside : b ∈ texts (k.process p) := mem_texts.mpr ⟨one, null⟩
      exact .inr (.inr (.inr ⟨p, member, List.mem_append_left _ inside⟩))
  have linked : ∀ p ∈ records, ∀ b ∈ NULL :: (contents p).link,
      b = NULL ∨ Used k records contents b := by
    intro p member b inside
    refine (List.mem_cons.mp inside).imp_right fun inside => ?_
    exact .inr (.inr ⟨p, member, link_owned inside⟩)
  have record : ∀ {p}, (p = NULL ∨ Used k records contents p) →
      k.heap.kind p = some .processRecord → p ∈ records := fun used live =>
    record_of_used rep (used.resolve_left (Heap.live_ne_null live)) live
  induction reached with
  | table => exact .inr (.inl rfl)
  | slot i valid => exact (rep.slots i).imp_right fun member => .inr (.inl member)
  | header =>
    have member := headD_mem NULL records
    rw [← rep.header] at member
    exact (List.mem_cons.mp member).imp_right fun member => .inr (.inl member)
  | next reached live ih =>
    have member := rep.ring.next_mem (record ih live)
    exact (List.mem_cons.mp member).imp_right fun member => .inr (.inl member)
  | filename reached live ih => exact text _ (record ih live) _ (.inl rfl)
  | argv reached live ih => exact text _ (record ih live) _ (.inr rfl)
  | @fdHead p reached live ih =>
    have member := record ih live
    have inside := headD_mem NULL (contents p).link
    rw [← (rep.each p member).cache.link.head] at inside
    exact linked p member _ inside
  | fdNext reached live ih =>
    obtain ⟨p, member, inside⟩ :=
      link_of_used rep (ih.resolve_left (Heap.live_ne_null live)) live
    exact linked p member _ ((rep.each p member).cache.link.ring.next_mem inside)
  | fdName reached live ih =>
    obtain ⟨p, member, inside⟩ :=
      link_of_used rep (ih.resolve_left (Heap.live_ne_null live)) live
    exact .inr (.inr (.inr ⟨p, member, name_owned inside⟩))

end Reach

section Step

variable {base : Ptr} {s : Ledger} {records : List Ptr} {contents : Ptr → Contents}

/-- Between two calls only blocks from before the table and the abandoned ones are lost. -/
def Balanced (base : Ptr) (s : Ledger) : Prop :=
  s.kernel.strict = false ∧ ∃ records contents, KernelRep s.kernel records contents ∧
    ∀ b, Lost s.kernel records contents b → b < base ∨ b ∈ s.abandoned

theorem Balanced.accounted {call : ProcessCall} {t : Ledger} {answer : Unit}
    (balanced : Balanced base t) : Accounted base s call t answer := by
  obtain ⟨-, records, contents, rep, lost⟩ := balanced
  intro b since live
  by_cases used : Used t.kernel records contents b
  · exact .inl (reachable_of_used rep used)
  · exact .inr ((lost b ⟨live, used⟩).resolve_left (Nat.not_lt_of_le since))

/-- A call that loses at most what a dying task abandons. -/
theorem balanced_of_step (start : ∀ b, Lost s.kernel records contents b → b < base ∨
      b ∈ s.abandoned) {call : ProcessCall} {k' : Kernel} {records' : List Ptr}
    {contents' : Ptr → Contents} (ran : processStep s.kernel call = .ok (k', ()))
    (strict : k'.strict = false) (rep : KernelRep k' records' contents')
    (lost : ∀ b, Lost k' records' contents' b →
      Lost s.kernel records contents b ∨ b ∈ diedWith s.kernel call) :
    ∃ t answer, ledgerStep s call = .ok (t, answer) ∧ Accounted base s call t answer ∧
      Balanced base t := by
  have balanced : Balanced base ⟨k', s.abandoned ++ diedWith s.kernel call⟩ := by
    refine ⟨strict, records', contents', rep, fun b lost_b => ?_⟩
    rcases lost b lost_b with before | died
    · exact (start b before).imp_right (List.mem_append_left _)
    · exact .inr (List.mem_append_right _ died)
  refine ⟨_, (), ?_, balanced.accounted, balanced⟩
  rw [ledgerStep, ran]
  rfl

theorem notifyEnter_frugal (lenient : s.kernel.strict = false)
    (rep : KernelRep s.kernel records contents) (task : Task) (path : PathAnswers)
    (arguments : ArgumentAnswers) (room : Bool)
    (frugal : Frugal s (.notifyEnter task path arguments room)) :
    ∃ k' records' contents', notifyEnter s.kernel task path arguments room = .ok k' ∧
      k'.strict = false ∧ KernelRep k' records' contents' ∧
      ∀ b, Lost k' records' contents' b → Lost s.kernel records contents b := by
  obtain ⟨reusable, forgets⟩ := frugal
  rw [notifyEnter_dispatch rep]
  by_cases valid : 0 ≤ task.pid ∧ task.pid < HASH_SLOT_SIZE
  · rw [if_pos valid]
    by_cases null : s.kernel.slots task.pid = NULL
    · rw [if_pos null]
      cases room with
      | false => exact ⟨_, records, contents, rfl, lenient, rep, fun _ lost => lost⟩
      | true =>
        obtain ⟨k', p, contents', ran, -, rep', -, entered, -, lost⟩ :=
          enterNew_spec rep valid task path arguments
        exact ⟨k', _, contents', ran, entered.strict.trans lenient, rep', lost⟩
    · have member := (rep.slots task.pid).resolve_left null
      rw [if_neg null]
      by_cases known : (s.kernel.process (s.kernel.slots task.pid)).startTime = task.realStartTime
      · rw [if_pos known]
        cases flag : (s.kernel.process (s.kernel.slots task.pid)).beforeExecve with
        | false =>
          rw [enterKnown_unchanged rep member flag]
          exact ⟨_, records, contents, rfl, lenient, rep, fun _ lost => lost⟩
        | true =>
          obtain ⟨k', contents', ran, rep', -, entered, lost⟩ :=
            enterKnown_spec rep member flag task path arguments
          refine ⟨k', records, contents', ran, entered.strict.trans lenient, rep', fun b lost_b => ?_⟩
          refine ((lost b).1 lost_b).resolve_right ?_
          rw [forgets valid null known flag]
          exact List.not_mem_nil
      · rw [if_neg known]
        have empty := reusable valid null known
        have spec := enterReused_spec rep member task path arguments
        obtain ⟨k', ran⟩ := spec.iff.mpr ⟨by rw [lenient]; rfl, empty⟩
        rw [ran] at spec ⊢
        obtain ⟨-, contents', rep', -, entered, lost⟩ := spec
        exact ⟨k', records, contents', rfl, entered.strict.trans lenient, rep', lost⟩
  · rw [if_neg valid]
    exact ⟨_, records, contents, rfl, lenient, rep, fun _ lost => lost⟩

/-- One call that meets the condition. -/
theorem ledgerStep_balanced (s : Ledger) (call : ProcessCall) (balanced : Balanced base s)
    (frugal : Frugal s call) :
    ∃ t answer, ledgerStep s call = .ok (t, answer) ∧ Accounted base s call t answer ∧
      Balanced base t := by
  obtain ⟨lenient, records, contents, rep, start⟩ := balanced
  cases call with
  | notifyEnter task path arguments room =>
    obtain ⟨k', records', contents', ran, strict, rep', lost⟩ :=
      notifyEnter_frugal lenient rep task path arguments room frugal
    apply balanced_of_step start _ strict rep' fun b lost_b => .inl (lost b lost_b)
    rw [processStep, ran]
    rfl
  | notifyExecve task =>
    obtain ⟨ran, rep', lost⟩ := notifyExecve_spec rep task
    apply balanced_of_step start _ (by exact lenient) rep' fun b lost_b => .inl (lost b lost_b)
    rw [processStep, ran]
    rfl
  | insert task fd path recordRoom nameRoom =>
    obtain ⟨k', contents', ran, effect, -, lost⟩ :=
      insertIntoCache_effect rep task fd path recordRoom nameRoom
    apply balanced_of_step start _ (effect.strict.trans lenient) effect.rep
      fun b lost_b => .inl (lost b lost_b)
    rw [processStep, ran]
    rfl
  | get task fd answers recordRoom nameRoom =>
    obtain ⟨k', path, contents', ran, effect, lost⟩ :=
      getCacheByFd_effect rep task fd answers recordRoom nameRoom
    have died : ∀ b, Lost k' records contents' b → Lost s.kernel records contents b ∨
        b ∈ diedWith s.kernel (.get task fd answers recordRoom nameRoom) := lost
    apply balanced_of_step start _ (effect.strict.trans lenient) effect.rep died
    rw [processStep, ran]
    rfl
  | delete task fd =>
    obtain ⟨k', suc, contents', ran, effect, ⟨-, x, inside, fd_x, -⟩ | ⟨-, -, -, lost⟩⟩ :=
      deleteCacheByFd_effect rep task fd
    · exact absurd fd_x (frugal x inside)
    · apply balanced_of_step start _ (effect.strict.trans lenient) effect.rep
        fun b lost_b => .inl (lost b lost_b)
      rw [processStep, ran]
      rfl

/-- The condition is exact for one step: a call that does not meet it, and that goes
through, leaves a block live that could be reached before and cannot be now. -/
theorem ledgerStep_loses (s : Ledger) (call : ProcessCall) (balanced : Balanced base s)
    (reusable : Reusable s.kernel call) (wasteful : ¬Frugal s call) :
    ∃ t, ledgerStep s call = .ok (t, ()) ∧ t.abandoned = s.abandoned ∧
      ∃ b, Reachable s.kernel b ∧ t.kernel.heap.kind b ≠ none ∧ ¬Reachable t.kernel b := by
  obtain ⟨-, records, contents, rep, -⟩ := balanced
  have nobody : diedWith s.kernel call = [] := by
    cases call with
    | get task fd answers recordRoom nameRoom => exact absurd trivial wasteful
    | _ => rfl
  -- a call that leaves the table in order with a block lost that the table used before
  have loses : ∀ {k' : Kernel} {contents' : Ptr → Contents} {b : Ptr},
      processStep s.kernel call = .ok (k', ()) → KernelRep k' records contents' →
      Used s.kernel records contents b → Lost k' records contents' b →
      ∃ t, ledgerStep s call = .ok (t, ()) ∧ t.abandoned = s.abandoned ∧
        ∃ b, Reachable s.kernel b ∧ t.kernel.heap.kind b ≠ none ∧ ¬Reachable t.kernel b := by
    intro k' contents' b ran rep' used lost
    have ran' : ledgerStep s call = .ok (⟨k', s.abandoned ++ diedWith s.kernel call⟩, ()) := by
      rw [ledgerStep, ran]
      rfl
    rw [nobody, List.append_nil] at ran'
    refine ⟨_, ran', rfl, b, reachable_of_used rep used, lost.1, fun reached => ?_⟩
    rcases used_of_reachable rep' reached with rfl | used'
    · exact lost.1 k'.heap.nullDead
    · exact lost.2 used'
  cases call with
  | notifyEnter task path arguments room =>
    have forgets := fun clean => wasteful ⟨reusable, clean⟩
    simp only [Classical.not_forall, imp_false] at forgets
    obtain ⟨valid, null, known, flag, named⟩ := forgets
    have member := (rep.slots task.pid).resolve_left null
    obtain ⟨b, text⟩ := List.exists_mem_of_ne_nil _ named
    obtain ⟨k', contents', ran, rep', -, -, lost⟩ :=
      enterKnown_spec rep member flag task path arguments
    refine loses ?_ rep' (.inr (.inr ⟨_, member, List.mem_append_left _ text⟩)) ((lost b).2 text)
    rw [processStep, notifyEnter_dispatch rep, if_pos valid, if_neg null, if_pos known, ran]
    rfl
  | delete task fd =>
    obtain ⟨k', suc, contents', ran, effect, ⟨-, x, -, -, -, used, lost⟩ | ⟨-, absent, -⟩⟩ :=
      deleteCacheByFd_effect rep task fd
    · refine loses ?_ effect.rep used lost
      rw [processStep, ran]
      rfl
    · exact absurd absent wasteful
  | _ => exact absurd trivial wasteful

end Step

/-- The table that `process_monitor_init` leaves on a heap. -/
def started (h : Heap) (process : Ptr → ProcessRecord) : Ledger :=
  ⟨(processMonitorInit h process).lenient, []⟩

theorem started_balanced (h : Heap) (process : Ptr → ProcessRecord) :
    Balanced h.fresh (started h process) := by
  refine ⟨rfl, [], fun _ => noContents, (init_rep h process).lenient, ?_⟩
  rintro b ⟨live, unused⟩
  have other : b ≠ h.fresh := fun table => unused (.inl table)
  by_contra above
  have past : h.fresh ≤ b := Nat.le_of_not_lt fun below => above (.inl below)
  apply live
  exact (Function.update_of_ne other _ _).trans (h.freshDead b past)

/-- In every run whose calls meet the condition each live block of the table is reachable at
every point between two calls, and the unload leaves none of them. -/
theorem nothing_lost (h : Heap) (process : Ptr → ProcessRecord) (calls : List ProcessCall)
    (admitted : Admitted ledgerStep Frugal (started h process) calls) :
    EveryStep ledgerStep (Accounted h.fresh) (started h process) calls ∧
    ∃ t answers, run ledgerStep (started h process) calls = .ok (t, answers) ∧
      ∃ k, processMonitorCleanup t.kernel = .ok k ∧
        ∀ b, h.fresh ≤ b → k.heap.kind b ≠ none → b ∈ t.abandoned := by
  obtain ⟨⟨t, answers, ran, lenient, records, contents, rep, lost⟩, every⟩ :=
    run_of_admitted (Balanced h.fresh) ledgerStep_balanced calls _ (started_balanced h process)
      admitted
  have spec := processMonitorCleanup_spec rep
  rw [lenient] at spec
  obtain ⟨k, cleaned⟩ := spec.iff.mpr fun _ _ => rfl
  rw [cleaned] at spec
  refine ⟨every, t, answers, ran, k, cleaned, fun b since live => ?_⟩
  exact (lost b (spec.2 b live)).resolve_left (Nat.not_lt_of_le since)

/-- A task with a path and arguments enters and closes a descriptor that is not cached; its pid
goes to another one, which caches descriptors, one of them twice. A third task has no path; it
execs, enters again and dies while it looks for a path. -/
theorem nothing_lost_reused :
    let path : PathAnswers := ⟨true, true, some .empty, true⟩
    let calls : List ProcessCall :=
      [.notifyEnter ⟨1, ⟨1, 0⟩⟩ path ⟨true, 4, true, 4⟩ true, .delete ⟨1, ⟨1, 0⟩⟩ 5,
        .notifyEnter ⟨1, ⟨2, 0⟩⟩ path ⟨true, 8, true, 8⟩ true,
        .insert ⟨1, ⟨2, 0⟩⟩ 3 (some .empty) true true,
        .insert ⟨1, ⟨2, 0⟩⟩ 3 (some .empty) true true,
        .get ⟨1, ⟨2, 0⟩⟩ 4 ⟨true, true, some .empty, true⟩ true true,
        .notifyEnter ⟨2, ⟨2, 0⟩⟩ ⟨false, true, none, true⟩ ⟨false, 0, true, 0⟩ true,
        .notifyExecve ⟨2, ⟨2, 0⟩⟩,
        .notifyEnter ⟨2, ⟨2, 0⟩⟩ path ⟨true, 4, true, 4⟩ true,
        .get ⟨2, ⟨2, 0⟩⟩ 4 ⟨true, true, none, true⟩ true true]
    EveryStep ledgerStep (Accounted 1) ⟨emptyTable.lenient, []⟩ calls ∧
    ∃ t answers, run ledgerStep ⟨emptyTable.lenient, []⟩ calls = .ok (t, answers) ∧
      ∃ k, processMonitorCleanup t.kernel = .ok k ∧
        ∀ b, 1 ≤ b → k.heap.kind b ≠ none → b ∈ t.abandoned :=
  nothing_lost Heap.unused emptyTable.process _ (by decide +kernel)

/-- On a heap with nothing else in it: after calls that meet the condition, of which none
died, one that does not. -/
theorem unaccounted (calls : List ProcessCall) (call : ProcessCall)
    (admitted : Admitted ledgerStep Frugal ⟨emptyTable.lenient, []⟩ calls)
    (last : (run ledgerStep ⟨emptyTable.lenient, []⟩ calls).toOption.any fun r =>
      r.1.abandoned = [] ∧ Reusable r.1.kernel call ∧ ¬Frugal r.1 call) :
    ¬EveryStep ledgerStep (Accounted 1) ⟨emptyTable.lenient, []⟩ (calls ++ [call]) := by
  intro every
  obtain ⟨⟨s, answers, ran, balanced⟩, -⟩ := run_of_admitted (Balanced 1) ledgerStep_balanced
    calls _ (started_balanced Heap.unused emptyTable.process) admitted
  have ran' : run ledgerStep ⟨emptyTable.lenient, []⟩ calls = .ok (s, answers) := ran
  rw [ran'] at last
  obtain ⟨nobody, reusable, wasteful⟩ := of_decide_eq_true last
  obtain ⟨t, taken, same, b, -, live, unreached⟩ :=
    ledgerStep_loses s call balanced reusable wasteful
  have since : 1 ≤ b := by
    rcases Nat.eq_zero_or_pos b with rfl | real
    · exact absurd t.kernel.heap.nullDead live
    · exact real
  rcases every.last ran' taken b since live with reached | abandoned
  · exact unreached reached
  · rw [same, nobody] at abandoned
    simp at abandoned

/-- A program that has a path execs and enters again; a descriptor that is cached is closed. -/
theorem lost_by_execve_and_by_close :
    ¬EveryStep ledgerStep (Accounted 1) ⟨emptyTable.lenient, []⟩
      ([.notifyEnter ⟨1, ⟨1, 0⟩⟩ ⟨true, true, some .empty, true⟩ ⟨false, 0, true, 0⟩ true,
        .notifyExecve ⟨1, ⟨1, 0⟩⟩] ++
        [.notifyEnter ⟨1, ⟨1, 0⟩⟩ ⟨true, true, some .empty, true⟩ ⟨false, 0, true, 0⟩ true]) ∧
    ¬EveryStep ledgerStep (Accounted 1) ⟨emptyTable.lenient, []⟩
      ([.notifyEnter ⟨1, ⟨1, 0⟩⟩ ⟨false, true, none, true⟩ ⟨false, 0, true, 0⟩ true,
        .insert ⟨1, ⟨1, 0⟩⟩ 3 (some .empty) true true] ++ [.delete ⟨1, ⟨1, 0⟩⟩ 3]) :=
  ⟨unaccounted _ _ (by decide +kernel) (by decide +kernel),
    unaccounted _ _ (by decide +kernel) (by decide +kernel)⟩

end SysMonitor.Guarantees.MemoryLoss
