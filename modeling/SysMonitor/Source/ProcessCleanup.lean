import SysMonitor.Source.ProcessEnter

/-!
# cleanup_process_record and what follows it

`cleanup_process_record` frees the path and then, inside `fd_cache_cleanup`, prints it;
it leaves `file_fd_head` pointing at freed records, and the next `build_process_record`
walks them again. Each lemma here says exactly when its function succeeds.
-/

namespace SysMonitor.Source.Process
open SysMonitor.Library SysMonitor.Library.LinkedRing SysMonitor.Source.FdCache

section Texts

variable {h : Heap} {r : ProcessRecord} {c : Contents} {p : Ptr}

theorem kfree_readable (readable : Readable h p) :
    ∃ h', kfree h p = .ok h' ∧ Touches ([p].filter (· ≠ NULL)) h h' ∧ h'.fresh = h.fresh ∧
      (p ≠ NULL → h'.kind p = none) := by
  rcases readable with rfl | live
  · exact ⟨h, rfl, .refl _ h, rfl, fun real => absurd rfl real⟩
  · have real := Heap.live_ne_null live
    have mine : [p].filter (· ≠ NULL) = [p] := by simp [real]
    rw [mine]
    exact ⟨h.release p, kfree_live live, .release h p, rfl, fun _ => Function.update_self ..⟩

/-- The three `kfree` of `cleanup_process_record`. -/
theorem freeTexts_spec (rep : RecordRep h r c) :
    ∃ h₁ h₂, kfree h r.filename = .ok h₁ ∧ kfree h₁ r.argv = .ok h₂ ∧ kfree h₂ r.env = .ok h₂ ∧
      Touches (texts r) h h₂ ∧ h₂.fresh = h.fresh ∧ ∀ b ∈ texts r, h₂.kind b = none := by
  obtain ⟨h₁, freed, touches₁, fresh₁, gone₁⟩ := kfree_readable rep.filename
  have apart : r.argv ≠ NULL → r.argv ∉ [r.filename].filter (· ≠ NULL) := by
    intro real inside
    obtain ⟨same, real'⟩ : r.argv = r.filename ∧ r.argv ≠ NULL := by simpa using inside
    have once := (List.nodup_append.mp rep.nodup).1
    rw [texts, same] at once
    simp [← same, real] at once
  have argv : Readable h₁ r.argv := by
    rcases rep.argv with null | live
    · exact .inl null
    · right
      rw [touches₁.kind _ (Heap.live_lt_fresh live) (apart (Heap.live_ne_null live)), live]
  obtain ⟨h₂, freed', touches₂, fresh₂, gone₂⟩ := kfree_readable argv
  refine ⟨h₁, h₂, freed, freed', ?_, ?_, fresh₂.trans fresh₁, ?_⟩
  · rw [rep.env]; rfl
  · refine Touches.trans (touches₁.mono ?_) touches₂ ?_
    · intro b inside
      obtain ⟨rfl, real⟩ : b = r.filename ∧ b ≠ NULL := by simpa using inside
      exact mem_texts.mpr ⟨.inl rfl, real⟩
    · intro b inside _
      obtain ⟨rfl, real⟩ : b = r.argv ∧ b ≠ NULL := by simpa using inside
      exact mem_texts.mpr ⟨.inr rfl, real⟩
  · intro b inside
    obtain ⟨one, real⟩ := mem_texts.mp inside
    by_cases last : b = r.argv
    · rw [last] at real ⊢
      exact gone₂ real
    · have first := one.resolve_right last
      rw [first] at real last ⊢
      rw [touches₂.kind _ (fresh₁ ▸ Heap.live_lt_fresh (rep.filename.kind real)) (by simp [last])]
      exact gone₁ real

end Texts

section Cleanup

variable {k : Kernel} {p : Ptr} {c : Contents}

/-- `cleanup_process_record` frees what the record owns; where messages are strict only a record
without a path survives the message at the end. -/
theorem cleanupProcessRecord_spec (live : k.heap.kind p = some .processRecord)
    (rep : RecordRep k.heap (k.process p) c) :
    SucceedsIff (printed k.strict (k.process p).filename = NULL) (fun k' => ∃ h,
      k' = { k with heap := h } ∧
      Touches (owned k.heap (k.process p) c) k.heap h ∧ h.fresh = k.heap.fresh ∧
      ∀ b ∈ owned k.heap (k.process p) c, h.kind b = none) (cleanupProcessRecord k p) := by
  obtain ⟨h₁, h₂, freed_filename, freed_argv, freed_env, touches, fresh, gone⟩ :=
    freeTexts_spec rep
  obtain ⟨-, nodup, apart⟩ := List.nodup_append.mp rep.nodup
  have out : ∀ b ∈ c.link ++ names k.heap c.link, b ∉ texts (k.process p) :=
    fun b inside text => apart b text b inside rfl
  obtain ⟨cache, same⟩ := cache_frame rep.cache touches out
  have live₂ : h₂.kind p = some .processRecord := by
    rw [touches.kind p (Heap.live_lt_fresh live), live]
    exact fun text => rep.not_owned live (.inl rfl) (List.mem_append_left _ text)
  have begun : cleanupProcessRecord k p = (do
      let s ← fdCacheCleanup ⟨h₂, (k.process p).area⟩ (printed k.strict (k.process p).filename)
      return { k with heap := s.heap }) := by
    unfold cleanupProcessRecord
    rw [readProcess_live live, ok_bind, freed_filename, ok_bind, freed_argv, ok_bind, freed_env,
      ok_bind, cleanupFds, readProcess_live (by exact live₂), ok_bind]
  rw [begun]
  by_cases null : printed k.strict (k.process p).filename = NULL
  · obtain ⟨h₃, cleaned, touches₃, fresh₃, gone₃⟩ := fdCacheCleanup_spec cache
      (by rw [same]; exact nodup) (.inl null) (fun real => absurd null real)
    rw [same] at touches₃ gone₃
    rw [cleaned]
    refine ⟨null, h₃, rfl, ?_, fresh₃.trans fresh, ?_⟩
    · exact (touches.mono (List.subset_append_left _ _)).trans touches₃ fun b inside _ =>
        List.mem_append_right _ inside
    · intro b inside
      rcases List.mem_append.mp inside with text | rest
      · rw [touches₃.kind b (fresh ▸ rep.owned_old inside) (fun member => out b member text)]
        exact gone b text
      · exact gone₃ b rest
  · have text : printed k.strict (k.process p).filename ∈ texts (k.process p) :=
      mem_texts.mpr ⟨.inl (printed_eq null), null⟩
    rw [fdCacheCleanup_freed cache (by rw [same]; exact nodup) null
      (fresh ▸ rep.owned_old (List.mem_append_left _ text)) (gone _ text)
      (by rw [same]; exact fun member => out _ member text)]
    exact null

/-- `build_process_record` on a record whose full list was freed before. -/
theorem rebuildRecord_freed (live : k.heap.kind p = some .processRecord)
    (real : (k.process p).area.fileFdHead ≠ NULL)
    (old : (k.process p).area.fileFdHead < k.heap.fresh)
    (dead : k.heap.kind (k.process p).area.fileFdHead = none) (task : Task)
    (path : PathAnswers) (arguments : ArgumentAnswers) :
    rebuildRecord k p task path arguments = .error .useAfterFree := by
  obtain ⟨h, filename, argv, argvLength, ran, touches, -, -, -⟩ :=
    describe_spec live task path arguments
  have live' : h.kind p = some .processRecord := by
    rw [touches.kind p (Heap.live_lt_fresh live) (by simp), live]
  have dead' : h.kind (k.process p).area.fileFdHead = none := by
    rw [touches.kind _ old (by simp), dead]
  unfold rebuildRecord
  rw [ran, ok_bind, cleanupFds, readProcess_live (by exact live'), ok_bind]
  simp only [Function.update_self, described]
  rw [fdCacheCleanup, cleanupRecords, if_neg real, readRecord, follow, if_neg real, dead']
  rfl

/-- The record of a task that has gone can be built again as it is: it has neither a path
nor a cached descriptor. -/
def Recyclable (r : ProcessRecord) : Prop := r.filename = NULL ∧ r.area.fileFdHead = NULL

instance (r : ProcessRecord) : Decidable (Recyclable r) := by
  unfold Recyclable
  infer_instance

variable {records : List Ptr} {contents : Ptr → Contents}

/-- The branch of `notify_enter` for a reused pid: a cached descriptor is freed twice. -/
theorem enterReused_spec (rep : KernelRep k records contents) (member : p ∈ records)
    (task : Task) (path : PathAnswers) (arguments : ArgumentAnswers) :
    SucceedsIff (printed k.strict (k.process p).filename = NULL ∧
        (k.process p).area.fileFdHead = NULL) (fun k' => ∃ contents', KernelRep k' records contents' ∧
        k'.slots = k.slots ∧ Entered k k' records contents contents' task path p ∧
        ∀ b, Lost k' records contents' b → Lost k records contents b)
      (enterReused k p task path arguments) := by
  have live := rep.live p member
  have each := rep.each p member
  refine (cleanupProcessRecord_spec live each).bind ?_
  rintro _ ⟨h, rfl, touches, fresh, gone⟩
  have live' : h.kind p = some .processRecord := each.kept touches live (.inl rfl)
  have head : (k.process p).area.fileFdHead = (contents p).link.headD NULL := each.cache.link.head
  cases linked : (contents p).link with
  | cons x rest =>
    have inside : x ∈ (contents p).link := linked ▸ List.mem_cons_self
    have at_x : (k.process p).area.fileFdHead = x := by rw [head, linked]; rfl
    have real : (k.process p).area.fileFdHead ≠ NULL :=
      at_x ▸ Heap.live_ne_null (each.cache.link.live x inside)
    rw [rebuildRecord_freed (by exact live') (by exact real)
      (by exact at_x ▸ fresh ▸ each.owned_old (link_owned inside))
      (by exact at_x ▸ gone x (link_owned inside))]
    exact real
  | nil =>
    have null : (k.process p).area.fileFdHead = NULL := by rw [head, linked]; rfl
    have cache : Represents ⟨h, (k.process p).area⟩ (contents p) := by
      refine each.cache.frame rfl ?_ ?_ ?_
      · intro x inside; simp [linked] at inside
      · intro x inside; simp [linked] at inside
      · intro x inside; simp [linked] at inside
    obtain ⟨h', r, rebuilt, touches', record, ⟨next, prev⟩, -⟩ := rebuildRecord_spec
      (k := { k with heap := h }) live' cache (by simp [linked, names]) task path arguments
    have live'' : h'.kind p = some .processRecord := by
      rw [touches'.kind p (fresh ▸ Heap.live_lt_fresh live) (by simp [linked, names]), live']
    have both : Touches (owned k.heap (k.process p) (contents p)) k.heap h' := by
      apply touches.trans touches'
      intro b inside
      simp [linked, names] at inside
    obtain ⟨rep', -⟩ := rep.update member both next prev record.rep (by
      intro b inside old
      exact absurd old (Nat.not_lt_of_le (fresh ▸ record.new b inside)))
    rw [rebuilt, ok_bind, reportProcess_spec (by exact live'') (by simpa using record.rep.filename)]
    refine ⟨null, _, rep', rfl, ⟨?_, ?_, ?_, Function.update_self .., ?_, both.fresh, both.chars, rfl⟩,
      fun b lost => ?_⟩
    · simpa using record.startTime
    · simpa using record.beforeExecve
    · simpa using record.filename
    · intro q _ other
      exact ⟨Function.update_of_ne other _ _, (k.process q).prev, Function.update_of_ne other _ _⟩
    · have leaves := (Leaves.ofFreed touches fresh gone).trans record.leaves
      refine (rep.update_lost member both leaves lost).resolve_right ?_
      rintro ⟨old, -, live_b⟩
      have dead : h'.kind b = none := by
        rw [touches'.kind b (fresh ▸ each.owned_old old) (by simp [linked, names])]
        exact gone b old
      exact live_b dead

/-- What the walk finds ahead of it: the table and the records that are left, which share no
block. -/
structure Remaining (k : Kernel) (contents : Ptr → Contents) (h : Heap) (rest : List Ptr) :
    Prop where
  table : h.kind k.processCache = some .processCache
  live : ∀ q ∈ rest, h.kind q = some .processRecord
  each : ∀ q ∈ rest, RecordRep h (k.process q) (contents q)
  apart : ∀ q ∈ rest, ∀ q' ∈ rest, ∀ b ∈ owned h (k.process q) (contents q),
    b ∈ owned h (k.process q') (contents q') → q = q'

/-- Freeing the first record leaves the others and what they own. -/
theorem Remaining.freed {rest : List Ptr} (remaining : Remaining k contents h (p :: rest))
    (once : p ∉ rest) {h' : Heap}
    (touches : Touches (owned h (k.process p) (contents p)) h h') :
    Remaining k contents (h'.release p) rest ∧ ∀ q ∈ rest,
      owned (h'.release p) (k.process q) (contents q) = owned h (k.process q) (contents q) := by
  have live_p := remaining.live p List.mem_cons_self
  have each_p := remaining.each p List.mem_cons_self
  have both : Touches (p :: owned h (k.process p) (contents p)) h (h'.release p) := by
    refine (touches.mono (List.subset_cons_self _ _)).trans (.release h' p) ?_
    intro b inside _
    rw [List.mem_singleton.mp inside]
    exact List.mem_cons_self
  have frame : ∀ q ∈ rest, RecordRep (h'.release p) (k.process q) (contents q) ∧
      owned (h'.release p) (k.process q) (contents q) = owned h (k.process q) (contents q) := by
    intro q inside
    have each_q := remaining.each q (List.mem_cons_of_mem p inside)
    apply each_q.frame both
    intro b mine touched
    rcases List.mem_cons.mp touched with rfl | theirs
    · exact each_q.not_owned live_p (.inl rfl) mine
    · have same := remaining.apart q (List.mem_cons_of_mem p inside) p List.mem_cons_self b mine
        theirs
      exact once (same ▸ inside)
  have kept : ∀ b kind, h.kind b = some kind → (kind = .processRecord ∨ kind = .processCache) →
      b ≠ p → (h'.release p).kind b = some kind := by
    intro b kind here sort other
    exact (Function.update_of_ne other ..).trans (each_p.kept touches here sort)
  refine ⟨⟨?_, ?_, fun q inside => (frame q inside).1, ?_⟩, fun q inside => (frame q inside).2⟩
  · apply kept _ _ remaining.table (.inr rfl)
    intro same
    have table := remaining.table
    rw [same, live_p] at table
    cases table
  · intro q inside
    apply kept q _ (remaining.live q (List.mem_cons_of_mem p inside)) (.inl rfl)
    intro same
    exact once (same ▸ inside)
  · intro q inside q' inside' b mine mine'
    rw [(frame q inside).2] at mine
    rw [(frame q' inside').2] at mine'
    exact remaining.apart q (List.mem_cons_of_mem p inside) q' (List.mem_cons_of_mem p inside') b
      mine mine'

/-- The walk over the records that are left. -/
theorem cleanupProcesses_spec (ring : Ring (processFields k.process) NULL NULL records)
    (done rest : List Ptr) (split : records = done ++ rest) (rounds : Nat)
    (enough : rest.length < rounds) {h : Heap} (remaining : Remaining k contents h rest) :
    SucceedsIff (∀ q ∈ rest, printed k.strict (k.process q).filename = NULL) (fun k' => ∃ h',
      k' = { k with heap := h' } ∧ h'.kind k.processCache = some .processCache ∧
      ∀ b, h'.kind b ≠ none → h.kind b ≠ none ∧ b ∉ rest ∧
        ∀ q ∈ rest, b ∉ owned h (k.process q) (contents q))
      (cleanupProcesses rounds { k with heap := h } (rest.headD NULL)) := by
  induction rest generalizing done rounds h with
  | nil =>
    cases rounds with
    | zero => simp at enough
    | succ rounds =>
      exact ⟨fun q inside => by simp at inside, h, rfl, remaining.table,
        fun b live_b => ⟨live_b, by simp, by simp⟩⟩
  | cons p rest ih =>
    cases rounds with
    | zero => simp at enough
    | succ rounds =>
      have live_p := remaining.live p List.mem_cons_self
      have each_p := remaining.each p List.mem_cons_self
      have once : p ∉ rest := by
        have nodup := (List.nodup_cons.mp (split ▸ ring.nodup)).2
        exact (List.nodup_cons.mp (List.nodup_append.mp nodup).2.1).1
      have next_p : (k.process p).next = rest.headD NULL := by
        rw [split] at ring
        exact ring.neighbours.2.1 (Heap.live_ne_null live_p)
      unfold cleanupProcesses
      rw [List.headD_cons, if_neg (Heap.live_ne_null live_p)]
      have good : (printed k.strict (k.process p).filename = NULL ∧
            ∀ q ∈ rest, printed k.strict (k.process q).filename = NULL)
          ↔ ∀ q ∈ p :: rest, printed k.strict (k.process q).filename = NULL := by
        rw [List.forall_mem_cons]
      refine SucceedsIff.congr (SucceedsIff.bind
        (cleanupProcessRecord_spec (k := { k with heap := h }) live_p each_p) ?_) good
      rintro _ ⟨h', rfl, touches, fresh, gone⟩
      have live_p' : h'.kind p = some .processRecord := each_p.kept touches live_p (.inl rfl)
      obtain ⟨remaining', same⟩ := remaining.freed once touches
      rw [readProcess_live (by exact live_p'), ok_bind, kfree_live (by exact live_p'), ok_bind,
        next_p]
      refine SucceedsIff.mono (ih (done ++ [p]) (by simp [split]) rounds (by simpa using enough)
        remaining') ?_
      rintro _ ⟨h'', rfl, table'', left⟩
      refine ⟨h'', rfl, table'', fun b live_b => ?_⟩
      obtain ⟨live_b, not_rest, unowned⟩ := left b live_b
      have not_p : b ≠ p := by
        rintro rfl
        exact live_b (Function.update_self ..)
      have live_b' : h'.kind b ≠ none := fun dead =>
        live_b ((Function.update_of_ne not_p _ _).trans dead)
      refine ⟨fun dead => ?_, ?_, ?_⟩
      · exact absurd (Leaves.ofFreed touches fresh gone b dead live_b') (by simp)
      · simp [not_p, not_rest]
      · rw [List.forall_mem_cons]
        refine ⟨fun mine => live_b' (gone b mine), fun q inside mine => unowned q inside ?_⟩
        rw [same q inside]
        exact mine

/-- `process_monitor_cleanup`: all that is left is what was lost before. -/
theorem processMonitorCleanup_spec (rep : KernelRep k records contents) :
    SucceedsIff (∀ q ∈ records, printed k.strict (k.process q).filename = NULL)
      (fun k' => ∀ b, k'.heap.kind b ≠ none → Lost k records contents b)
      (processMonitorCleanup k) := by
  have enough : records.length < k.heap.fresh + 1 := by
    refine Nat.lt_succ_of_lt (link_short ?_ rep.ring.nodup)
    exact fun q inside => Heap.live_lt_fresh (rep.live q inside)
  have walked := cleanupProcesses_spec rep.ring [] records rfl _ enough
    ⟨rep.table, rep.live, rep.each, rep.apart⟩
  unfold processMonitorCleanup
  rw [rep.header]
  have good : ((∀ q ∈ records, printed k.strict (k.process q).filename = NULL) ∧ True)
      ↔ ∀ q ∈ records, printed k.strict (k.process q).filename = NULL := and_iff_left trivial
  refine SucceedsIff.congr (SucceedsIff.bind walked ?_) good
  rintro _ ⟨h, rfl, table, left⟩
  rw [kfree_live (by exact table)]
  refine ⟨trivial, fun b live_b => ?_⟩
  have not_table : b ≠ k.processCache := by
    rintro rfl
    exact live_b (Function.update_self ..)
  obtain ⟨live, not_record, unowned⟩ :=
    left b fun dead => live_b ((Function.update_of_ne not_table _ _).trans dead)
  refine ⟨live, ?_⟩
  rintro (table_b | record | ⟨q, member, mine⟩)
  · exact not_table table_b
  · exact not_record record
  · exact unowned q member mine

end Cleanup

end SysMonitor.Source.Process
