import SysMonitor.Source.ProcessRecords

/-!
# notify_enter and notify_execve on the process table

A task seen for the first time and one that comes back after an execve keep the table
whole. A record that is reused is cleaned up and then built again, and both free the fd
cache: this goes well only when the old record held neither a path nor a descriptor.
-/

namespace SysMonitor.Source.Process
open SysMonitor.Library SysMonitor.Library.LinkedRing SysMonitor.Source.FdCache

section Enter

variable {k : Kernel} {records : List Ptr} {contents : Ptr → Contents} {p : Ptr}

theorem reportProcess_spec (live : k.heap.kind p = some .processRecord)
    (readable : Readable k.heap (k.process p).filename) : reportProcess k p = .ok () := by
  unfold reportProcess
  rw [readProcess_live live, ok_bind, printChars_readable (printed_readable k.strict readable)]

theorem writeSlot_spec (table : k.heap.kind k.processCache = some .processCache) {i : Int}
    (valid : 0 ≤ i ∧ i < HASH_SLOT_SIZE) (p : Ptr) :
    k.writeSlot i p = .ok { k with slots := Function.update k.slots i p } := by
  rw [Kernel.writeSlot, follow_live table, ok_bind, if_pos valid]

/-- The calling task's record was built anew, the others are as they were. -/
structure Entered (k k' : Kernel) (records : List Ptr) (contents contents' : Ptr → Contents)
    (task : Task) (path : PathAnswers) (p : Ptr) : Prop where
  startTime : (k'.process p).startTime = task.realStartTime
  beforeExecve : (k'.process p).beforeExecve = false
  filename : ∀ text, path = .complete text →
    (k'.process p).filename ≠ NULL ∧ k'.heap.chars (k'.process p).filename = text
  empty : contents' p = noContents
  others : ∀ q ∈ records, q ≠ p → contents' q = contents q ∧
    ∃ prev, k'.process q = { k.process q with prev := prev }
  fresh : k.heap.fresh ≤ k'.heap.fresh
  chars : ∀ b < k.heap.fresh, k'.heap.chars b = k.heap.chars b
  strict : k'.strict = k.strict

/-- A new record is built and put in front of the others, which only get a new `prev`. -/
theorem buildNewRecord_spec (rep : KernelRep k records contents) {h₀ : Heap}
    (new_heap : h₀ = k.heap.allocate .processRecord) (at_p : p = k.heap.fresh) (new : p ∉ records)
    (task : Task) (path : PathAnswers) (arguments : ArgumentAnswers) :
    ∃ h built, buildNewRecord k task path arguments true
        = .ok ({ k with heap := h, process := built, outstandingHeader := p }, p) ∧
      Touches [] k.heap h ∧ h.kind p = some .processRecord ∧ Built h₀ h task path (built p) ∧
      Ring (processFields built) NULL NULL (p :: records) ∧
      ∀ q ∈ records, ∃ prev, built q = { k.process q with prev := prev } := by
  have alloc : h₀.kind p = some .processRecord := by
    rw [new_heap, at_p]
    exact Function.update_self ..
  obtain ⟨h, filename, argv, argvLength, ran, touches, new_name, new_argv, apart, leaves,
    filled⟩ := describe_spec (k := { k with heap := h₀ }) alloc task path arguments
  have grown : Touches [] k.heap h := by
    refine Touches.trans ?_ touches fun _ inside _ => inside
    rw [new_heap]
    exact .allocate _ _
  have live : h.kind p = some .processRecord := by
    rw [touches.kind p (Heap.live_lt_fresh alloc) (by simp), alloc]
  have kept : ∀ q ∈ records, Function.update k.process p
      (described (k.process p) task filename argv argvLength) q = k.process q := by
    intro q member
    refine Function.update_of_ne ?_ _ _
    rintro rfl
    exact new member
  have ring : Ring (processFields (Function.update k.process p
      (described (k.process p) task filename argv argvLength))) NULL NULL records := by
    refine rep.ring.congr ?_ ?_
    · intro q member real
      exact congrArg ProcessRecord.next (kept q (List.mem_of_ne_of_mem real member))
    · intro q member real
      exact congrArg ProcessRecord.prev (kept q (List.mem_of_ne_of_mem real member))
  obtain ⟨process, linked, ring, at_new, others⟩ := linkProcess_spec
    (k := { k with
      heap := h
      process := Function.update k.process p
        (described (k.process p) task filename argv argvLength) }) live
    (fun q member => (grown.kind q (Heap.live_lt_fresh (rep.live q member)) (by simp)).trans
      (rep.live q member)) rep.header ring new
  simp only [Function.update_self] at at_new
  have named : (process p).filename = filename := by rw [at_new]; rfl
  have null : p ≠ NULL := Heap.live_ne_null alloc
  refine ⟨h, Function.update process p { process p with area := emptyArea }, ?_, grown, live, ?_,
    ?_, fun q member => ?_⟩
  · unfold buildNewRecord kmalloc
    rw [if_pos rfl, ← at_p, ← new_heap]
    dsimp only
    rw [if_neg null, ran, ok_bind, linked, ok_bind,
      initizeFds_spec (by exact live) (by simpa [named] using new_name.readable), ok_bind]
    rfl
  · rw [Function.update_self, at_new]
    exact built_of_described (r := { k.process p with next := records.headD NULL, prev := NULL })
      new_name new_argv apart leaves filled
  · exact (processFields_update process p { process p with area := emptyArea } rfl rfl) ▸ ring
  · have other : q ≠ p := by
      rintro rfl
      exact new member
    obtain ⟨prev, same⟩ := others q other
    refine ⟨prev, ?_⟩
    rw [Function.update_of_ne other, same]
    simp only [kept q member]

/-- The first time a pid is seen. -/
theorem enterNew_spec (rep : KernelRep k records contents) {id : Int}
    (valid : 0 ≤ id ∧ id < HASH_SLOT_SIZE) (task : Task) (path : PathAnswers)
    (arguments : ArgumentAnswers) :
    ∃ k' p contents', enterNew k id task path arguments true = .ok k' ∧ p ∉ records ∧
      KernelRep k' (p :: records) contents' ∧ k'.slots = Function.update k.slots id p ∧
      Entered k k' records contents contents' task path p ∧ Touches [] k.heap k'.heap ∧
      ∀ b, Lost k' (p :: records) contents' b → Lost k records contents b := by
  obtain ⟨p, at_p⟩ : ∃ p, p = k.heap.fresh := ⟨_, rfl⟩
  have new : p ∉ records := fun member =>
    Nat.lt_irrefl _ (at_p ▸ Heap.live_lt_fresh (rep.live p member))
  obtain ⟨h, built, ran, grown, live, record, ring, elsewhere⟩ :=
    buildNewRecord_spec rep rfl at_p new task path arguments
  have table : h.kind k.processCache = some .processCache :=
    (grown.kind _ (Heap.live_lt_fresh rep.table) (by simp)).trans rep.table
  have all_new : Leaves (p :: owned h (built p) noContents) k.heap h := by
    have first := Leaves.allocate k.heap .processRecord
    rw [← at_p] at first
    exact first.trans record.leaves
  refine ⟨{ k with
      heap := h
      process := built
      slots := Function.update k.slots id p
      outstandingHeader := p }, p, Function.update contents p noContents, ?_, new, ?_, rfl, ?_, grown,
    ?_⟩
  · unfold enterNew
    rw [ran, ok_bind]
    dsimp only
    rw [if_neg (Heap.live_ne_null live), writeSlot_spec (by exact table) valid, ok_bind,
      reportProcess_spec (by exact live) (by exact record.rep.filename)]
    rfl
  · rw [at_p]
    refine rep.extend grown (at_p ▸ live) (at_p ▸ ring) elsewhere (at_p ▸ record.rep) ?_ ?_
    · intro b member
      exact Nat.le_of_succ_le (record.new b (at_p.symm ▸ member))
    · intro i
      by_cases here : i = id
      · right
        rw [here, Function.update_self]
        exact List.mem_cons_self
      · rw [Function.update_of_ne here]
        exact (rep.slots i).imp_right (List.mem_cons_of_mem _)
  · refine ⟨record.startTime, record.beforeExecve, record.filename, Function.update_self ..,
      fun q member other => ⟨Function.update_of_ne other _ _, elsewhere q member⟩, grown.fresh,
      grown.chars, rfl⟩
  · intro b lost
    rw [at_p] at lost
    exact rep.extend_lost grown elsewhere (at_p ▸ all_new) lost

/-- The calling task's own record, before an execve. -/
theorem enterKnown_unchanged (rep : KernelRep k records contents) (member : p ∈ records)
    (flag : (k.process p).beforeExecve = false) (task : Task) (path : PathAnswers)
    (arguments : ArgumentAnswers) : enterKnown k p task path arguments = .ok k := by
  unfold enterKnown
  rw [readProcess_live (rep.live p member), ok_bind, flag]
  rfl

/-- And after one: the strings it had are lost, and nothing else. -/
theorem enterKnown_spec (rep : KernelRep k records contents) (member : p ∈ records)
    (flag : (k.process p).beforeExecve = true) (task : Task) (path : PathAnswers)
    (arguments : ArgumentAnswers) :
    ∃ k' contents', enterKnown k p task path arguments = .ok k' ∧
      KernelRep k' records contents' ∧ k'.slots = k.slots ∧
      Entered k k' records contents contents' task path p ∧
      ∀ b, (Lost k' records contents' b → Lost k records contents b ∨ b ∈ texts (k.process p)) ∧
        (b ∈ texts (k.process p) → Lost k' records contents' b) := by
  have live := rep.live p member
  have each := rep.each p member
  obtain ⟨h, r, rebuilt, touches, record, ⟨next, prev⟩, gone⟩ := rebuildRecord_spec live
    each.cache (List.nodup_append.mp each.nodup).2.1 task path arguments
  have live' : h.kind p = some .processRecord := by
    rw [touches.kind p (Heap.live_lt_fresh live), live]
    exact fun mine => each.not_owned live (.inl rfl) (List.mem_append_right _ mine)
  have same : { r with beforeExecve := false } = r := by rw [← record.beforeExecve]
  have within : Touches (owned k.heap (k.process p) (contents p)) k.heap h := touches.mono
    fun _ inside => List.mem_append_right _ inside
  obtain ⟨rep', -⟩ := rep.update member within next prev record.rep
    (fun b inside old => absurd old (Nat.not_lt_of_le (record.new b inside)))
  refine ⟨_, _, ?_, rep', rfl, ?_, fun b => ⟨fun lost => ?_, fun text => ?_⟩⟩
  · unfold enterKnown
    rw [readProcess_live live, ok_bind, flag, if_pos rfl, updateProcessRecord,
      if_neg (Heap.live_ne_null live), rebuilt, ok_bind,
      writeProcess_live (by exact live'), ok_bind]
    simp only [Function.update_self, Function.update_idem, same]
    rw [reportProcess_spec (by exact live') (by simpa using record.rep.filename)]
    rfl
  · refine ⟨?_, ?_, ?_, Function.update_self .., ?_, touches.fresh, touches.chars, rfl⟩
    · simpa using record.startTime
    · simpa using record.beforeExecve
    · simpa using record.filename
    · intro q _ other
      exact ⟨Function.update_of_ne other _ _, (k.process q).prev, Function.update_of_ne other _ _⟩
  · refine (rep.update_lost member within record.leaves lost).imp_right ?_
    rintro ⟨old, -, live_b⟩
    exact (List.mem_append.mp old).resolve_right fun rest => live_b (gone b rest)
  · have old := each.owned_old (List.mem_append_left _ text)
    refine rep.update_dropped member within (List.mem_append_left _ text) ?_ ?_
    · exact fun mine => Nat.not_lt_of_le (record.new b mine) old
    · rw [touches.kind b old]
      · rcases each.owned_live (List.mem_append_left _ text) with live_b | live_b
        · rw [live_b]
          simp
        · rw [live_b]
          simp
      · exact fun rest => (List.nodup_append.mp each.nodup).2.2 b text b rest rfl

/-- The records after the calling task's one was flagged. -/
def flagged (k : Kernel) (task : Task) : Ptr → ProcessRecord :=
  if 0 ≤ task.pid ∧ task.pid < HASH_SLOT_SIZE ∧ k.slots task.pid ≠ NULL then
    Function.update k.process (k.slots task.pid)
      { k.process (k.slots task.pid) with beforeExecve := true }
  else k.process

/-- `notify_execve` only sets the flag. -/
theorem notifyExecve_spec (rep : KernelRep k records contents) (task : Task) :
    notifyExecve k task = .ok { k with process := flagged k task } ∧
      KernelRep { k with process := flagged k task } records contents ∧
      ∀ b, Lost { k with process := flagged k task } records contents b →
        Lost k records contents b := by
  unfold notifyExecve getCurrentProcessId
  by_cases out : task.pid < 0 ∨ task.pid ≥ HASH_SLOT_SIZE
  · have same : flagged k task = k.process := if_neg fun valid => by omega
    rw [if_pos out, same]
    exact ⟨rfl, rep, fun _ lost => lost⟩
  · rw [if_neg out]
    dsimp only
    rw [if_neg (by omega), readSlot_spec rep (by omega) (by omega), ok_bind]
    by_cases null : k.slots task.pid = NULL
    · have same : flagged k task = k.process := if_neg fun valid => valid.2.2 null
      rw [if_pos null, same]
      exact ⟨rfl, rep, fun _ lost => lost⟩
    · have member := (rep.slots task.pid).resolve_left null
      have live := rep.live _ member
      have each := rep.each _ member
      have set : flagged k task = Function.update k.process (k.slots task.pid)
          { k.process (k.slots task.pid) with beforeExecve := true } :=
        if_pos ⟨by omega, by omega, null⟩
      have kept : Function.update contents (k.slots task.pid) (contents (k.slots task.pid))
          = contents := Function.update_eq_self ..
      obtain ⟨rep', -⟩ := rep.update member
        (r := { k.process (k.slots task.pid) with beforeExecve := true })
        (c := contents (k.slots task.pid)) (.refl _ k.heap) rfl rfl
        ⟨each.cache, each.filename, each.argv, each.env, each.nodup⟩ (fun _ inside _ => inside)
      rw [kept] at rep'
      rw [set, if_neg null, writeProcess_live live, ok_bind,
        reportProcess_spec (by exact live) (by simpa using each.filename)]
      refine ⟨rfl, rep', fun b lost => ?_⟩
      rw [← kept] at lost
      rcases rep.update_lost member (.refl _ k.heap)
        ((Leaves.refl k.heap).mono (List.nil_subset _)) lost with before | ⟨old, gone, -⟩
      · exact before
      · exact absurd old gone

/-- Which branch of `notify_enter` is taken. -/
theorem notifyEnter_dispatch (rep : KernelRep k records contents) (task : Task)
    (path : PathAnswers) (arguments : ArgumentAnswers) (room : Bool) :
    notifyEnter k task path arguments room =
      if 0 ≤ task.pid ∧ task.pid < HASH_SLOT_SIZE then
        if k.slots task.pid = NULL then enterNew k task.pid task path arguments room
        else if (k.process (k.slots task.pid)).startTime = task.realStartTime then
          enterKnown k (k.slots task.pid) task path arguments
        else enterReused k (k.slots task.pid) task path arguments
      else .ok k := by
  unfold notifyEnter getCurrentProcessId
  by_cases out : task.pid < 0 ∨ task.pid ≥ HASH_SLOT_SIZE
  · have invalid : ¬(0 ≤ task.pid ∧ task.pid < HASH_SLOT_SIZE) := by omega
    rw [if_pos out, if_neg invalid]
    rfl
  · have valid : 0 ≤ task.pid ∧ task.pid < HASH_SLOT_SIZE := by omega
    rw [if_neg out, if_pos valid]
    dsimp only
    rw [if_neg (by omega), readSlot_spec rep valid.1 valid.2, ok_bind]
    by_cases null : k.slots task.pid = NULL
    · rw [if_pos null, if_pos null]
    · rw [if_neg null, if_neg null, readProcess_live (rep.live _ ((rep.slots _).resolve_left null)),
        ok_bind]

end Enter

end SysMonitor.Source.Process
