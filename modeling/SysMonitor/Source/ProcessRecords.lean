import SysMonitor.Source.ProcessFds

/-!
# Building, rebuilding and cleaning up process records

What `build_process_record` and `cleanup_process_record` do to the blocks of a record.
Cleaning up frees what a record owns but leaves its pointers, so it may be followed only
by stores over them.
-/

namespace SysMonitor.Source.Process
open SysMonitor.Library.LinkedRing SysMonitor.Source.FdCache

section Answers

variable (h : Heap)

/-- Nothing went wrong, and the path is this one. -/
def PathAnswers.complete (text : CString) : PathAnswers := ⟨true, true, some text, true⟩

theorem getCurrentProcessPath_spec (answers : PathAnswers) :
    ∃ p h', getCurrentProcessPath h answers = .ok (p, h') ∧ Touches [] h h' ∧
      NewText h h' p ∧ Leaves [p] h h' ∧
      ∀ text, answers = .complete text → p ≠ NULL ∧ h'.chars p = text := by
  have nothing : Leaves [NULL] h h := (Leaves.refl h).mono (List.nil_subset _)
  unfold getCurrentProcessPath kmalloc
  cases found : answers.exeFile with
  | false =>
    exact ⟨NULL, h, rfl, .refl _ h, .inl rfl, nothing,
      by rintro text rfl; simp [PathAnswers.complete] at found⟩
  | true =>
    cases room : answers.tmpRoom with
    | false =>
      exact ⟨NULL, h, rfl, .refl _ h, .inl rfl, nothing,
        by rintro text rfl; simp [PathAnswers.complete] at room⟩
    | true =>
      have live : (h.allocate .chars).kind h.fresh = some .chars := Function.update_self ..
      simp only [if_true]
      rw [if_neg (Nat.ne_of_gt h.freshReal)]
      cases path : answers.dPath with
      | none =>
        dsimp only
        rw [kfree_live live]
        refine ⟨NULL, _, rfl, (Touches.release _ h.fresh).through, .inl rfl, ?_, ?_⟩
        · exact ((Leaves.release _ h.fresh).through _ (Function.update_self ..)).mono
            (List.nil_subset _)
        · rintro text rfl
          simp [PathAnswers.complete] at path
      | some text =>
        obtain ⟨p, h', copied, touches, new, leaves, freed, filled⟩ :=
          copyAndFree_spec (h.allocate .chars) h.fresh text answers.pathRoom live
        refine ⟨p, h', copied, touches.through, new.through, leaves.through _ freed, ?_⟩
        rintro text' rfl
        cases path
        exact pathAt_some filled

theorem getCurrentProcessArguments_spec (answers : ArgumentAnswers) :
    ∃ p length h', getCurrentProcessArguments h answers = (p, length, h') ∧ Touches [] h h' ∧
      NewText h h' p ∧ Leaves [p] h h' := by
  have nothing : Leaves [NULL] h h := (Leaves.refl h).mono (List.nil_subset _)
  unfold getCurrentProcessArguments kmalloc
  by_cases some_memory : answers.mm ∧ 0 ≤ answers.len
  · rw [if_pos some_memory]
    cases answers.room with
    | false => exact ⟨NULL, 0, h, rfl, .refl _ h, .inl rfl, nothing⟩
    | true =>
      simp only [if_true]
      rw [if_neg (Nat.ne_of_gt h.freshReal)]
      exact ⟨_, _, _, rfl, .allocate h .chars, .inr ⟨le_rfl, Function.update_self ..⟩,
        .allocate h .chars⟩
  · rw [if_neg some_memory]
    exact ⟨NULL, 0, h, rfl, .refl _ h, .inl rfl, nothing⟩

end Answers

theorem printChars_readable {h : Heap} {p : Ptr} (readable : Readable h p) :
    printChars h p = .ok () := by
  unfold printChars
  rcases readable with null | live
  · rw [if_pos null]
  · rw [if_neg (Heap.live_ne_null live), follow_live live]

section Cleanup

variable {h₀ h : Heap} {link : List Ptr} {c : Contents} {area : FdArea}

/-- What is live once a record and its path have been freed. -/
theorem release_both (h : Heap) (name p b : Ptr) :
    ((h.release name).release p).kind b = if b = p ∨ b = name then none else h.kind b := by
  by_cases at_p : b = p
  · rw [if_pos (.inl at_p), at_p]
    exact Function.update_self ..
  · have first : ((h.release name).release p).kind b = (h.release name).kind b :=
      Function.update_of_ne at_p _ _
    rw [first]
    by_cases at_name : b = name
    · rw [if_pos (.inr at_name), at_name]
      exact Function.update_self ..
    · rw [if_neg (not_or.mpr ⟨at_p, at_name⟩)]
      exact Function.update_of_ne at_name _ _

/-- The walk frees every record with its path, each once. -/
theorem cleanupRecords_spec (ring : Ring (linkFields h₀) NULL NULL link)
    (done rest : List Ptr) (split : link = done ++ rest) (rounds : Nat)
    (enough : rest.length < rounds) (same : h.fileFdRecord = h₀.fileFdRecord)
    (live : Live h rest) (live_names : ∀ b ∈ names h₀ rest, h.kind b = some .chars)
    (nodup : (rest ++ names h₀ rest).Nodup) :
    ∃ h', cleanupRecords rounds h (rest.headD NULL) = .ok h' ∧
      Touches (rest ++ names h₀ rest) h h' ∧ h'.fresh = h.fresh ∧
      ∀ b ∈ rest ++ names h₀ rest, h'.kind b = none := by
  induction rest generalizing done rounds h with
  | nil =>
    cases rounds with
    | zero => simp at enough
    | succ rounds =>
      refine ⟨h, rfl, .refl _ h, rfl, ?_⟩
      intro b member
      simp [names] at member
  | cons p rest ih =>
    cases rounds with
    | zero => simp at enough
    | succ rounds =>
      obtain ⟨name, name_eq⟩ : ∃ name, name = (h₀.fileFdRecord p).filename := ⟨_, rfl⟩
      have shape : names h₀ (p :: rest) = name :: names h₀ rest := by rw [name_eq]; rfl
      rw [shape] at nodup live_names ⊢
      obtain ⟨p_once, nodup⟩ := List.nodup_cons.mp nodup
      obtain ⟨name_once, nodup⟩ := List.nodup_cons.mp (List.nodup_middle.mp nodup)
      have live_p := live p List.mem_cons_self
      have live_name := live_names name List.mem_cons_self
      have apart : p ≠ name := by
        rintro rfl
        exact p_once (by simp)
      have read : readRecord h p = .ok (h₀.fileFdRecord p) := by
        rw [readRecord_live live_p, same]
      have live_p' : (h.release name).kind p = some .fileFdRecord :=
        (Function.update_of_ne apart _ _).trans live_p
      have next_p : (h₀.fileFdRecord p).next = rest.headD NULL := by
        rw [split] at ring
        exact ring.neighbours.2.1 (Heap.live_ne_null live_p)
      have kept : ∀ b ∈ rest ++ names h₀ rest,
          ((h.release name).release p).kind b = h.kind b := by
        intro b inside
        have not_p : b ≠ p := by
          rintro rfl
          exact p_once (List.perm_middle.mem_iff.mpr (List.mem_cons_of_mem name inside))
        have not_name : b ≠ name := fun eq => name_once (eq ▸ inside)
        rw [release_both, if_neg (not_or.mpr ⟨not_p, not_name⟩)]
      obtain ⟨h', freed, touches, fresh, gone⟩ := ih (done ++ [p]) (by simp [split]) rounds
        (by simpa using enough) (h := (h.release name).release p) same
        (fun q member => by
          rw [kept q (List.mem_append_left _ member)]
          exact live q (List.mem_cons_of_mem p member))
        (fun b member => by
          rw [kept b (List.mem_append_right _ member)]
          exact live_names b (List.mem_cons_of_mem name member)) nodup
      refine ⟨h', ?_, ?_, fresh, ?_⟩
      · unfold cleanupRecords
        rw [List.headD_cons, if_neg (Heap.live_ne_null live_p), read, ok_bind, ← name_eq,
          kfree_live live_name, ok_bind, kfree_live live_p', ok_bind, next_p, freed]
      · refine Touches.trans (Touches.trans ((Touches.release h name).mono ?_)
          (Touches.release _ p) ?_) touches ?_
        · simp
        · simp
        · intro b inside _
          simp only [List.mem_append, List.mem_cons] at inside ⊢
          tauto
      · intro b member
        by_cases inside : b ∈ rest ++ names h₀ rest
        · exact gone b inside
        · have ends : b = p ∨ b = name := by
            simp only [List.mem_append, List.mem_cons] at member inside
            tauto
          have old : b < h.fresh := by
            rcases ends with rfl | rfl
            · exact Heap.live_lt_fresh live_p
            · exact Heap.live_lt_fresh live_name
          rw [touches.kind b old inside, release_both, if_pos ends]

/-- The walk of `fd_cache_cleanup` over a cache. -/
theorem cleanupCache_spec (cache : Represents ⟨h, area⟩ c)
    (nodup : (c.link ++ names h c.link).Nodup) :
    ∃ h', cleanupRecords (h.fresh + 1) h area.fileFdHead = .ok h' ∧
      Touches (c.link ++ names h c.link) h h' ∧ h'.fresh = h.fresh ∧
      ∀ b ∈ c.link ++ names h c.link, h'.kind b = none := by
  have head : area.fileFdHead = c.link.headD NULL := cache.link.head
  rw [head]
  refine cleanupRecords_spec cache.link.ring [] c.link rfl (h.fresh + 1) ?_ rfl cache.link.live
    ?_ nodup
  · refine Nat.lt_succ_of_lt (link_short ?_ cache.link.ring.nodup)
    exact fun x member => Heap.live_lt_fresh (cache.link.live x member)
  · intro b member
    obtain ⟨x, inside, rfl⟩ := List.mem_map.mp member
    exact cache.link.names x inside

/-- `fd_cache_cleanup`, when the process's own path can still be printed after it. -/
theorem fdCacheCleanup_spec (cache : Represents ⟨h, area⟩ c)
    (nodup : (c.link ++ names h c.link).Nodup) {filename : Ptr} (readable : Readable h filename)
    (apart : filename ≠ NULL → filename ∉ c.link ++ names h c.link) :
    ∃ h', fdCacheCleanup ⟨h, area⟩ filename = .ok ⟨h', area⟩ ∧
      Touches (c.link ++ names h c.link) h h' ∧ h'.fresh = h.fresh ∧
      ∀ b ∈ c.link ++ names h c.link, h'.kind b = none := by
  obtain ⟨h', freed, touches, fresh, gone⟩ := cleanupCache_spec cache nodup
  have readable' : Readable h' filename := by
    rcases readable with null | live
    · exact .inl null
    · right
      rw [touches.kind filename (Heap.live_lt_fresh live) (apart (Heap.live_ne_null live)), live]
  refine ⟨h', ?_, touches, fresh, gone⟩
  unfold fdCacheCleanup
  dsimp only
  rw [freed, ok_bind, printChars_readable readable']
  rfl

/-- `fd_cache_cleanup`, when the process's own path was freed before it. -/
theorem fdCacheCleanup_freed (cache : Represents ⟨h, area⟩ c)
    (nodup : (c.link ++ names h c.link).Nodup) {filename : Ptr} (real : filename ≠ NULL)
    (old : filename < h.fresh) (dead : h.kind filename = none)
    (apart : filename ∉ c.link ++ names h c.link) :
    fdCacheCleanup ⟨h, area⟩ filename = .error .useAfterFree := by
  obtain ⟨h', freed, touches, -, -⟩ := cleanupCache_spec cache nodup
  have dead' : h'.kind filename = none := (touches.kind filename old apart).trans dead
  unfold fdCacheCleanup
  dsimp only
  rw [freed, ok_bind, printChars, if_neg real, follow, if_neg real, dead']
  rfl

end Cleanup

section Rebuild

variable {k : Kernel} {p : Ptr} {c : Contents}

/-- The record after `describe`. -/
def described (r : ProcessRecord) (task : Task) (filename argv : Ptr) (argvLength : Int) :
    ProcessRecord :=
  { r with filename := filename, argv := argv, argvLength := argvLength, env := NULL,
           envLength := 0, beforeExecve := false, startTime := task.realStartTime }

theorem describe_spec (live : k.heap.kind p = some .processRecord) (task : Task)
    (path : PathAnswers) (arguments : ArgumentAnswers) :
    ∃ h filename argv argvLength, describe k p task path arguments = .ok { k with
        heap := h
        process := Function.update k.process p
          (described (k.process p) task filename argv argvLength) } ∧
      Touches [] k.heap h ∧ NewText k.heap h filename ∧ NewText k.heap h argv ∧
      (filename ≠ NULL → filename ≠ argv) ∧ Leaves [filename, argv] k.heap h ∧
      ∀ text, path = .complete text → filename ≠ NULL ∧ h.chars filename = text := by
  obtain ⟨filename, h₁, got, touches₁, new₁, leaves₁, filled⟩ :=
    getCurrentProcessPath_spec k.heap path
  obtain ⟨argv, argvLength, h₂, read, touches₂, new₂, leaves₂⟩ :=
    getCurrentProcessArguments_spec h₁ arguments
  have live₁ : h₁.kind p = some .processRecord := by
    rw [touches₁.kind p (Heap.live_lt_fresh live) (by simp), live]
  have live₂ : h₂.kind p = some .processRecord := by
    rw [touches₂.kind p (Heap.live_lt_fresh live₁) (by simp), live₁]
  refine ⟨h₂, filename, argv, argvLength, ?_, touches₁.trans touches₂ (by simp), ?_, ?_, ?_,
    leaves₁.trans leaves₂, ?_⟩
  · unfold describe
    rw [got, ok_bind]
    dsimp only
    rw [writeProcess_live (by exact live₁), ok_bind]
    dsimp only
    rw [read]
    dsimp only
    rw [writeProcess_live (by exact live₂), ok_bind, writeProcess_live (by exact live₂)]
    simp only [Function.update_self, Function.update_idem, getCurrentProcessEnvironment]
    rfl
  · refine new₁.imp id fun ⟨above, live_name⟩ => ⟨above, ?_⟩
    rw [touches₂.kind filename (Heap.live_lt_fresh live_name) (by simp), live_name]
  · exact new₂.imp id fun ⟨above, live_argv⟩ => ⟨touches₁.fresh.trans above, live_argv⟩
  · intro real same
    obtain ⟨-, live_name⟩ := new₁.resolve_left real
    obtain ⟨above, -⟩ := new₂.resolve_left (same ▸ real)
    exact Nat.not_lt_of_le above (same ▸ Heap.live_lt_fresh live_name)
  · intro text complete
    obtain ⟨real, same⟩ := filled text complete
    obtain ⟨-, live_name⟩ := new₁.resolve_left real
    exact ⟨real, (touches₂.chars filename (Heap.live_lt_fresh live_name)).trans same⟩

/-- The area of a process without open descriptors. -/
def emptyArea : FdArea := ⟨0, 0, NULL, NULL, fun _ => NULL⟩

def noContents : Contents := ⟨[], [], []⟩

theorem emptyArea_represents (h : Heap) : Represents ⟨h, emptyArea⟩ noContents := by
  obtain ⟨s, run, -, rep⟩ := fdCacheInitize_spec h NULL (.inl rfl)
  have started : s = ⟨h, emptyArea⟩ := by
    simpa [fdCacheInitize, printChars, emptyArea] using run.symm
  exact started ▸ rep

/-- A message reads what the string itself allows. -/
theorem printed_readable (strict : Bool) {h : Heap} {name : Ptr} (readable : Readable h name) :
    Readable h (printed strict name) := by
  cases strict with
  | true => exact readable
  | false => exact .inl rfl

theorem printed_eq {strict : Bool} {name : Ptr} (real : printed strict name ≠ NULL) :
    printed strict name = name := by
  cases strict with
  | true => rfl
  | false => exact absurd rfl real

/-- `fd_cache_initize` on a process record. -/
theorem initizeFds_spec (live : k.heap.kind p = some .processRecord)
    (readable : Readable k.heap (k.process p).filename) :
    initizeFds k p = .ok { k with
      process := Function.update k.process p { k.process p with area := emptyArea } } := by
  unfold initizeFds fdCacheInitize
  rw [readProcess_live live, ok_bind,
    printChars_readable (printed_readable k.strict readable), ok_bind]
  change k.writeProcess p (fun r => { r with area := emptyArea }) = _
  rw [writeProcess_live live]

/-- A record that was just described and has an empty cache. -/
theorem described_rep {h : Heap} {r : ProcessRecord} {task : Task} {filename argv : Ptr}
    {argvLength : Int} (filename_ok : Readable h filename) (argv_ok : Readable h argv)
    (apart : filename ≠ NULL → filename ≠ argv) :
    RecordRep h { described r task filename argv argvLength with area := emptyArea }
      noContents := by
  refine ⟨emptyArea_represents h, filename_ok, argv_ok, rfl, ?_⟩
  simp only [owned, noContents, names, texts, described, List.map_nil, List.append_nil]
  by_cases null : filename = NULL
  · by_cases null' : argv = NULL
    · simp [null, null']
    · simp [null, null']
  · by_cases null' : argv = NULL
    · simp [null, null']
    · simp [null, null', apart null]

/-- What `build_process_record` makes of a record. -/
structure Built (h₀ h : Heap) (task : Task) (path : PathAnswers) (r : ProcessRecord) : Prop where
  rep : RecordRep h r noContents
  new : ∀ b ∈ owned h r noContents, h₀.fresh ≤ b
  leaves : Leaves (owned h r noContents) h₀ h
  startTime : r.startTime = task.realStartTime
  beforeExecve : r.beforeExecve = false
  filename : ∀ text, path = .complete text → r.filename ≠ NULL ∧ h.chars r.filename = text

/-- Which blocks a described record owns. -/
theorem owned_described {h : Heap} {r : ProcessRecord} {task : Task} {filename argv : Ptr}
    {argvLength : Int} :
    owned h { described r task filename argv argvLength with area := emptyArea } noContents
      = [filename, argv].filter (· ≠ NULL) := by
  simp [owned, noContents, names, texts, described]

/-- A described record with an empty cache owns what was allocated for it. -/
theorem built_of_described {h₀ h : Heap} {r : ProcessRecord} {task : Task} {path : PathAnswers}
    {filename argv : Ptr} {argvLength : Int} (new_name : NewText h₀ h filename)
    (new_argv : NewText h₀ h argv) (apart : filename ≠ NULL → filename ≠ argv)
    (leaves : Leaves [filename, argv] h₀ h)
    (filled : ∀ text, path = .complete text → filename ≠ NULL ∧ h.chars filename = text) :
    Built h₀ h task path
      { described r task filename argv argvLength with area := emptyArea } := by
  refine ⟨described_rep new_name.readable new_argv.readable apart, ?_, ?_, rfl, rfl, filled⟩
  · intro b member
    rw [owned_described] at member
    simp only [List.mem_filter, List.mem_cons, List.not_mem_nil, or_false, decide_eq_true_eq]
      at member
    obtain ⟨rfl | rfl, real⟩ := member
    · exact (new_name.resolve_left real).1
    · exact (new_argv.resolve_left real).1
  · intro b dead live
    rw [owned_described]
    refine List.mem_filter.mpr ⟨leaves b dead live, ?_⟩
    obtain ⟨kind, found⟩ := Option.ne_none_iff_exists'.mp live
    simpa using Heap.live_ne_null found

/-- `build_process_record` on a record that exists. Only the fd cache is freed. -/
theorem rebuildRecord_spec (live : k.heap.kind p = some .processRecord)
    (cache : Represents ⟨k.heap, (k.process p).area⟩ c)
    (nodup : (c.link ++ names k.heap c.link).Nodup) (task : Task) (path : PathAnswers)
    (arguments : ArgumentAnswers) :
    ∃ h r, rebuildRecord k p task path arguments
        = .ok { k with heap := h, process := Function.update k.process p r } ∧
      Touches (c.link ++ names k.heap c.link) k.heap h ∧ Built k.heap h task path r ∧
      (r.next = (k.process p).next ∧ r.prev = (k.process p).prev) ∧
      ∀ b ∈ c.link ++ names k.heap c.link, h.kind b = none := by
  obtain ⟨h₁, filename, argv, argvLength, ran, touches₁, new_name, new_argv, apart, leaves,
    filled⟩ := describe_spec live task path arguments
  obtain ⟨cache₁, names₁⟩ := cache_frame cache touches₁ (by simp)
  obtain ⟨h₂, cleaned, touches₂, fresh₂, gone⟩ := fdCacheCleanup_spec cache₁
    (by rw [names₁]; exact nodup) (printed_readable k.strict new_name.readable) (by
      intro real member
      rw [printed_eq real] at member
      obtain ⟨above, -⟩ := new_name.resolve_left (printed_eq real ▸ real)
      rw [names₁] at member
      exact Nat.not_lt_of_le above (cache_block_old cache member))
  rw [names₁] at touches₂ gone
  have live₁ : h₁.kind p = some .processRecord := by
    rw [touches₁.kind p (Heap.live_lt_fresh live) (by simp), live]
  have out : p ∉ c.link ++ names k.heap c.link := by
    intro member
    have other := cache_block_live cache member
    rw [live] at other
    simp at other
  have live₂ : h₂.kind p = some .processRecord := by
    rw [touches₂.kind p (Heap.live_lt_fresh live₁) out, live₁]
  have out_new : ∀ {q}, NewText k.heap h₁ q → NewText k.heap h₂ q := by
    intro q new
    refine new.imp id fun ⟨above, live_q⟩ => ⟨above, ?_⟩
    rw [touches₂.kind q (Heap.live_lt_fresh live_q), live_q]
    intro member
    exact Nat.not_lt_of_le above (cache_block_old cache member)
  refine ⟨h₂, { described (k.process p) task filename argv argvLength with area := emptyArea },
    ?_, ?_, ?_, ⟨rfl, rfl⟩, gone⟩
  · unfold rebuildRecord
    rw [ran, ok_bind]
    unfold cleanupFds
    rw [readProcess_live (by exact live₁), ok_bind]
    simp only [Function.update_self, described]
    rw [cleaned, ok_bind]
    change initizeFds { k with
      heap := h₂
      process := Function.update k.process p
        (described (k.process p) task filename argv argvLength) } p = _
    rw [initizeFds_spec (by exact live₂) (by simpa [described] using (out_new new_name).readable)]
    simp only [Function.update_self, Function.update_idem]
    rfl
  · refine (touches₁.mono (List.nil_subset _)).trans touches₂ ?_
    intro b inside _
    exact inside
  · apply built_of_described (out_new new_name) (out_new new_argv) apart
    · exact leaves.trans (.ofFreed touches₂ fresh₂ gone)
    · intro text complete
      obtain ⟨real, same⟩ := filled text complete
      have old := Heap.live_lt_fresh (new_name.resolve_left real).2
      exact ⟨real, (touches₂.chars filename old).trans same⟩

end Rebuild

section NewRecord

variable {k : Kernel} {records : List Ptr} {contents : Ptr → Contents} {p : Ptr}

/-- The new record becomes the first of the list of all records. -/
theorem linkProcess_spec (live : k.heap.kind p = some .processRecord)
    (lives : ∀ q ∈ records, k.heap.kind q = some .processRecord)
    (header : k.outstandingHeader = records.headD NULL)
    (ring : Ring (processFields k.process) NULL NULL records) (new : p ∉ records) :
    ∃ process, linkProcess k p = .ok { k with process := process, outstandingHeader := p } ∧
      Ring (processFields process) NULL NULL (p :: records) ∧
      process p = { k.process p with next := records.headD NULL, prev := NULL } ∧
      ∀ q ≠ p, ∃ prev, process q = { k.process q with prev := prev } := by
  have real := Heap.live_ne_null live
  have outside : p ∉ NULL :: ([] ++ records) := by simpa using ⟨real, new⟩
  cases records with
  | nil =>
    have null : k.outstandingHeader = NULL := header
    have self : Function.update k.process p { k.process p with next := NULL, prev := NULL } p
        = { k.process p with next := NULL, prev := NULL } := Function.update_self ..
    refine ⟨Function.update k.process p { k.process p with next := NULL, prev := NULL },
      ?_, ?_, self, ?_⟩
    · unfold linkProcess
      rw [if_pos null, writeProcess_live live]
      rfl
    · have whole : Ring (processFields k.process) NULL NULL ([] ++ []) := ring
      refine Ring.insert (a := NULL) (b := NULL) whole outside rfl rfl
        (congrArg ProcessRecord.next self) (congrArg ProcessRecord.prev self)
        (fun absurd_null => absurd rfl absurd_null) (fun absurd_null => absurd rfl absurd_null)
        ?_ ?_
      · intro y member other
        simp at member
        exact absurd member other
      · intro y member other
        simp at member
        exact absurd member other
    · intro q other
      exact ⟨(k.process q).prev, Function.update_of_ne other _ _⟩
  | cons first rest =>
    have first_real := Heap.live_ne_null (lives first List.mem_cons_self)
    have head : k.outstandingHeader = first := header
    have apart : first ≠ p := fun same => new (same ▸ List.mem_cons_self)
    obtain ⟨linked, linked_eq⟩ : ∃ process, process = Function.update k.process p
        { k.process p with prev := NULL, next := first } := ⟨_, rfl⟩
    have at_first : linked first = k.process first := by
      rw [linked_eq, Function.update_of_ne apart]
    have self : Function.update linked first { linked first with prev := p } p
        = { k.process p with next := first, prev := NULL } := by
      rw [Function.update_of_ne apart.symm, linked_eq, Function.update_self]
    have elsewhere : ∀ q, q ≠ p → q ≠ first →
        Function.update linked first { linked first with prev := p } q = k.process q := by
      intro q other other'
      rw [Function.update_of_ne other', linked_eq, Function.update_of_ne other]
    refine ⟨Function.update linked first { linked first with prev := p }, ?_, ?_, self, ?_⟩
    · unfold linkProcess
      rw [head, if_neg first_real, writeProcess_live live, ok_bind, ← linked_eq, head,
        writeProcess_live (by exact lives first List.mem_cons_self)]
      rfl
    · have whole : Ring (processFields k.process) NULL NULL ([] ++ first :: rest) := ring
      refine Ring.insert (a := NULL) (b := first) whole outside rfl rfl
        (congrArg ProcessRecord.next self) (congrArg ProcessRecord.prev self)
        (fun absurd_null => absurd rfl absurd_null) ?_ ?_ ?_
      · intro _
        dsimp only [processFields]
        rw [Function.update_self]
      · intro y member _
        have other : y ≠ p := fun same => outside (same ▸ member)
        dsimp only [processFields]
        by_cases here : y = first
        · rw [here, Function.update_self, at_first]
        · rw [elsewhere y other here]
      · intro y member here
        have other : y ≠ p := fun same => outside (same ▸ member)
        exact congrArg ProcessRecord.prev (elsewhere y other here)
    · intro q other
      by_cases here : q = first
      · refine ⟨p, ?_⟩
        rw [here, Function.update_self, at_first]
      · exact ⟨(k.process q).prev, elsewhere q other here⟩

/-- The records that were there keep what they own when one is put in front of them. -/
theorem KernelRep.kept (rep : KernelRep k records contents) {h : Heap}
    {process : Ptr → ProcessRecord} (touches : Touches [] k.heap h)
    (kept : ∀ q ∈ records, ∃ prev, process q = { k.process q with prev := prev }) :
    ∀ q ∈ records, RecordRep h (process q) (contents q) ∧
      owned h (process q) (contents q) = owned k.heap (k.process q) (contents q) := by
  intro q member
  obtain ⟨prev, same⟩ := kept q member
  obtain ⟨⟨cache, filename, argv, env, nodup⟩, owned_same⟩ :=
    (rep.each q member).frame touches (fun _ _ => by simp)
  rw [same]
  exact ⟨⟨cache, filename, argv, env, nodup⟩, owned_same⟩

/-- A record that was allocated in between joins the table with an empty fd cache. -/
theorem KernelRep.extend (rep : KernelRep k records contents) {h : Heap}
    {process : Ptr → ProcessRecord} {slots : Int → Ptr} (touches : Touches [] k.heap h)
    (live : h.kind k.heap.fresh = some .processRecord)
    (ring : Ring (processFields process) NULL NULL (k.heap.fresh :: records))
    (kept : ∀ q ∈ records, ∃ prev, process q = { k.process q with prev := prev })
    (record : RecordRep h (process k.heap.fresh) noContents)
    (new : ∀ b ∈ owned h (process k.heap.fresh) noContents, k.heap.fresh ≤ b)
    (within : ∀ i, slots i = NULL ∨ slots i ∈ k.heap.fresh :: records) :
    KernelRep { k with
        heap := h
        process := process
        slots := slots
        outstandingHeader := k.heap.fresh } (k.heap.fresh :: records)
      (Function.update contents k.heap.fresh noContents) := by
  have other : ∀ q ∈ records, q ≠ k.heap.fresh := fun q member =>
    Nat.ne_of_lt (Heap.live_lt_fresh (rep.live q member))
  have frame := rep.kept touches kept
  have disjoint : ∀ q ∈ records, ∀ b ∈ owned h (process q) (contents q),
      b ∉ owned h (process k.heap.fresh) noContents := by
    intro q member b inside mine
    rw [(frame q member).2] at inside
    exact Nat.not_lt_of_le (new b mine) ((rep.each q member).owned_old inside)
  refine ⟨?_, ?_, rfl, ring, within, ?_, ?_⟩
  · exact (touches.kind _ (Heap.live_lt_fresh rep.table) (by simp)).trans rep.table
  · intro q member
    rcases List.mem_cons.mp member with rfl | inside
    · exact live
    · exact (touches.kind q (Heap.live_lt_fresh (rep.live q inside)) (by simp)).trans
        (rep.live q inside)
  · intro q member
    dsimp only
    rcases List.mem_cons.mp member with rfl | inside
    · rw [Function.update_self]
      exact record
    · rw [Function.update_of_ne (other q inside)]
      exact (frame q inside).1
  · intro q member q' member' b inside inside'
    dsimp only at inside inside'
    rcases List.mem_cons.mp member with rfl | old
    · rcases List.mem_cons.mp member' with rfl | old'
      · rfl
      · rw [Function.update_self] at inside
        rw [Function.update_of_ne (other q' old')] at inside'
        exact absurd inside (disjoint q' old' b inside')
    · rw [Function.update_of_ne (other q old)] at inside
      rcases List.mem_cons.mp member' with rfl | old'
      · rw [Function.update_self] at inside'
        exact absurd inside' (disjoint q old b inside)
      · rw [Function.update_of_ne (other q' old'), (frame q' old').2] at inside'
        rw [(frame q old).2] at inside
        exact rep.apart q old q' old' b inside inside'

/-- Nothing is lost by that when the new record owns all new blocks. -/
theorem KernelRep.extend_lost (rep : KernelRep k records contents) {h : Heap}
    {process : Ptr → ProcessRecord} {slots : Int → Ptr} (touches : Touches [] k.heap h)
    (kept : ∀ q ∈ records, ∃ prev, process q = { k.process q with prev := prev })
    (leaves : Leaves (k.heap.fresh :: owned h (process k.heap.fresh) noContents) k.heap h)
    {b : Ptr}
    (lost : Lost { k with
        heap := h
        process := process
        slots := slots
        outstandingHeader := k.heap.fresh } (k.heap.fresh :: records)
      (Function.update contents k.heap.fresh noContents) b) :
    Lost k records contents b := by
  obtain ⟨live, unused⟩ := lost
  have other : ∀ q ∈ records, q ≠ k.heap.fresh := fun q member =>
    Nat.ne_of_lt (Heap.live_lt_fresh (rep.live q member))
  constructor
  · intro dead
    rcases List.mem_cons.mp (leaves b dead live) with rfl | mine
    · exact unused (.inr (.inl List.mem_cons_self))
    · refine unused (.inr (.inr ⟨k.heap.fresh, List.mem_cons_self, ?_⟩))
      simpa using mine
  · rintro (table | record | ⟨q, member, inside⟩)
    · exact unused (.inl table)
    · exact unused (.inr (.inl (List.mem_cons_of_mem _ record)))
    · refine unused (.inr (.inr ⟨q, List.mem_cons_of_mem _ member, ?_⟩))
      dsimp only
      rw [Function.update_of_ne (other q member), (rep.kept touches kept q member).2]
      exact inside

end NewRecord

end SysMonitor.Source.Process
