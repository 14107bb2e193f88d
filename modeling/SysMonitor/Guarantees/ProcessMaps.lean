import SysMonitor.Guarantees.FdMap
import SysMonitor.Guarantees.HeapSafety

/-!
# Every process has a map of its own

Over the whole process table: a record is created empty when its task first enters, and
each operation of the fd cache changes the map of the calling process as it would change
a single one, and no other map.
-/

namespace SysMonitor.Guarantees.ProcessMaps
open SysMonitor.Library SysMonitor.Source SysMonitor.Source.FdCache SysMonitor.Source.Process
open SysMonitor.Guarantees.FdTransparency SysMonitor.Guarantees.FdMap SysMonitor.Guarantees.HeapSafety

/-- The cache of every pid that has a record. -/
abbrev PathMaps := Int → Option (Word → Option CString)

/-- The path that a process has cached for a descriptor. -/
def cachedPath (m : PathMaps) (pid : Int) (fd : Word) : Option CString :=
  (m pid).bind fun paths => paths fd

/-- The maps after an insert by a process. -/
def inserted (m : PathMaps) (pid : Int) (fd : Word) (path : Option CString)
    (recordRoom nameRoom : Bool) : PathMaps :=
  Function.update m pid ((m pid).map fun paths =>
    (mapStep paths (.insert fd path recordRoom nameRoom)).1)

/-- The maps after a `get_cache_by_fd`, which inserts what it has to ask the system for. -/
def asked (m : PathMaps) (pid : Int) (fd : Word) (answers : FileAnswers)
    (recordRoom nameRoom : Bool) : PathMaps :=
  if (cachedPath m pid fd).isSome then m
  else inserted m pid fd answers.text recordRoom nameRoom

/-- The maps after a delete. -/
def deleted (m : PathMaps) (pid : Int) (fd : Word) : PathMaps :=
  Function.update m pid ((m pid).map fun paths => Function.update paths fd none)

theorem inserted_short (m : PathMaps) (pid : Int) (fd : Word) {path : Option CString}
    {recordRoom nameRoom : Bool} (short : path = none ∨ (recordRoom && nameRoom) = false) :
    inserted m pid fd path recordRoom nameRoom = m := by
  have same : (m pid).map (fun paths => (mapStep paths (.insert fd path recordRoom nameRoom)).1)
      = m pid := by
    simp only [mapStep_short _ fd short, Option.map_id']
  rw [inserted, same, Function.update_eq_self]

theorem text_of_dies {answers : FileAnswers} (dies : answers.dies = true) : answers.text = none := by
  obtain ⟨file, tmpRoom, dPath, pathRoom⟩ := answers
  cases dPath with
  | none => exact ite_self none
  | some text => simp [FileAnswers.dies] at dies

theorem asked_short (m : PathMaps) (pid : Int) (fd : Word) {answers : FileAnswers}
    {recordRoom nameRoom : Bool} (short : answers.text = none ∨ (recordRoom && nameRoom) = false) :
    asked m pid fd answers recordRoom nameRoom = m := by
  rw [asked, inserted_short _ _ _ short, ite_self]

/-- What the caches hold after an insert by a process. -/
theorem cachedPath_inserted (m : PathMaps) (pid : Int) (fd : Word) (path : Option CString)
    (recordRoom nameRoom : Bool) (pid' : Int) (fd' : Word) :
    cachedPath (inserted m pid fd path recordRoom nameRoom) pid' fd' =
      if pid' = pid ∧ fd' = fd ∧ (m pid).isSome ∧ path ≠ none ∧ recordRoom ∧ nameRoom then path
      else cachedPath m pid' fd' := by
  rcases insert_cases path recordRoom nameRoom with short | ⟨text, rfl, rfl, rfl⟩
  · rw [inserted_short _ _ _ short, if_neg]
    rintro ⟨-, -, -, real, room, room'⟩
    rcases short with none | full
    · exact real none
    · simp [room, room'] at full
  · unfold inserted cachedPath
    by_cases here : pid' = pid
    · rw [here, Function.update_self]
      cases m pid with
      | none => simp
      | some paths =>
        by_cases same : fd' = fd
        · rw [same]
          simp [mapStep]
        · simp [mapStep, same]
    · rw [Function.update_of_ne here, if_neg fun both => here both.1]

/-- What they hold after a `get_cache_by_fd`. -/
theorem cachedPath_asked (m : PathMaps) (pid : Int) (fd : Word) (answers : FileAnswers)
    (recordRoom nameRoom : Bool) (pid' : Int) (fd' : Word) :
    cachedPath (asked m pid fd answers recordRoom nameRoom) pid' fd' =
      if pid' = pid ∧ fd' = fd ∧ cachedPath m pid fd = none ∧ (m pid).isSome ∧ answers.text ≠ none ∧
        recordRoom ∧ nameRoom then answers.text
      else cachedPath m pid' fd' := by
  unfold asked
  cases found : cachedPath m pid fd with
  | some path => simp
  | none =>
    rw [if_neg (by simp), cachedPath_inserted]
    simp

theorem cachedPath_deleted (m : PathMaps) (pid : Int) (fd : Word) (pid' : Int) (fd' : Word) :
    cachedPath (deleted m pid fd) pid' fd' =
      if pid' = pid ∧ fd' = fd then none else cachedPath m pid' fd' := by
  unfold deleted cachedPath
  by_cases here : pid' = pid
  · rw [here, Function.update_self]
    cases m pid with
    | none => simp
    | some paths =>
      by_cases same : fd' = fd
      · rw [same]
        simp
      · simp [same]
  · rw [Function.update_of_ne here, if_neg fun both => here both.1]

/-- No operation of the fd cache gives a process a map or takes it away. -/
theorem asked_isSome (m : PathMaps) (pid : Int) (fd : Word) (answers : FileAnswers)
    (recordRoom nameRoom : Bool) :
    (asked m pid fd answers recordRoom nameRoom pid).isSome = (m pid).isSome := by
  unfold asked inserted
  split
  · rfl
  · rw [Function.update_self, Option.isSome_map]

theorem deleted_isSome (m : PathMaps) (pid : Int) (fd : Word) :
    (deleted m pid fd pid).isSome = (m pid).isSome := by
  rw [deleted, Function.update_self, Option.isSome_map]

/-- The full list of a record. -/
def entries (k : Kernel) (contents : Ptr → Contents) (p : Ptr) : List (Word × CString) :=
  (contents p).link.map (entry k.heap)

/-- The table holds these maps, and every record belongs to the task that has its pid now. -/
structure Holds (owner : Int → TimeSpec) (k : Kernel) (m : PathMaps) (records : List Ptr)
    (contents : Ptr → Contents) : Prop where
  rep : KernelRep k records contents
  apart : ∀ i j, k.recordOf i ≠ NULL → k.recordOf i = k.recordOf j → i = j
  own : ∀ pid, k.recordOf pid ≠ NULL → (k.process (k.recordOf pid)).startTime = owner pid ∧
    (k.process (k.recordOf pid)).beforeExecve = false
  absent : ∀ pid, m pid = none ↔ k.recordOf pid = NULL
  maps : ∀ pid paths, m pid = some paths → Maps (entries k contents (k.recordOf pid)) paths

/-- Some records do. -/
def Mapped (owner : Int → TimeSpec) (k : Kernel) (m : PathMaps) : Prop :=
  ∃ records contents, Holds owner k m records contents

section Entries

variable {k k' : Kernel} {records : List Ptr} {contents contents' : Ptr → Contents} {p q : Ptr}

/-- fd records that were there before keep their descriptors and paths. -/
theorem entry_old (rep : KernelRep k records contents) (member : q ∈ records)
    (effect : FdEffect k k' records contents contents' p) {x : Ptr} (inside : x ∈ (contents q).link) :
    entry k'.heap x = entry k.heap x := by
  have each := rep.each q member
  have old := Heap.live_lt_fresh (each.cache.link.live x inside)
  have name_old := Heap.live_lt_fresh (each.cache.link.names x inside)
  rw [entry, entry, effect.fd x old, pathOf, pathOf, effect.path x old, effect.chars _ name_old]

theorem entries_old (rep : KernelRep k records contents) (member : q ∈ records)
    (effect : FdEffect k k' records contents contents' p) :
    (contents q).link.map (entry k'.heap) = entries k contents q :=
  List.map_congr_left fun _ inside => entry_old rep member effect inside

/-- So do fd records whose blocks are not among those that come and go. -/
theorem entries_touched {h : Heap} {r : ProcessRecord} {c : Contents} {mine : List Ptr}
    (rep : RecordRep k.heap r c) (touches : Touches mine k.heap h)
    (apart : ∀ x ∈ c.link, x ∉ mine) : c.link.map (entry h) = c.link.map (entry k.heap) := by
  apply List.map_congr_left
  intro x inside
  have old := Heap.live_lt_fresh (rep.cache.link.live x inside)
  have name_old := Heap.live_lt_fresh (rep.cache.link.names x inside)
  have cell := touches.record x old (apart x inside)
  rw [entry, entry, fdOf, fdOf, pathOf, pathOf, cell, touches.chars _ name_old]

theorem entries_others (rep : KernelRep k records contents) (member : q ∈ records)
    (effect : FdEffect k k' records contents contents' p) (other : q ≠ p) :
    entries k' contents' q = entries k contents q := by
  rw [entries, effect.others q other, entries_old rep member effect]

theorem entries_inserted (rep : KernelRep k records contents) (member : p ∈ records)
    (effect : FdEffect k k' records contents contents' p) {fd : Word} {path : Option CString}
    {recordRoom nameRoom : Bool}
    (inserted : Inserted k' contents contents' p fd path recordRoom nameRoom) :
    entries k' contents' p
      = (listStep (entries k contents p) (.insert fd path recordRoom nameRoom)).1 := by
  rcases inserted with ⟨short, link⟩ | ⟨text, x, rfl, rfl, rfl, link, fd_x, path_x⟩
  · rw [listStep_short _ fd short, entries, link, entries_old rep member effect]
  · rw [entries, link, List.map_cons, entries_old rep member effect, listStep, entry, fd_x, path_x]

end Entries

section Operations

variable {owner : Int → TimeSpec} {k k' : Kernel} {m : PathMaps} {records : List Ptr}
  {contents contents' : Ptr → Contents} {pid : Int}

theorem Holds.real (holds : Holds owner k m records contents) {paths : Word → Option CString}
    (found : m pid = some paths) : k.recordOf pid ≠ NULL := by
  intro null
  rw [(holds.absent pid).mpr null] at found
  simp at found

/-- An operation of the fd cache on one process, in terms of its map. -/
theorem Holds.changed (holds : Holds owner k m records contents)
    (effect : FdEffect k k' records contents contents' (k.recordOf pid))
    (change : (Word → Option CString) → Word → Option CString)
    (maps : ∀ paths, m pid = some paths →
      Maps (entries k' contents' (k.recordOf pid)) (change paths)) :
    Holds owner k' (Function.update m pid ((m pid).map change)) records contents' := by
  refine ⟨effect.rep, ?_, ?_, ?_, ?_⟩ <;> simp only [effect.recordOf]
  · exact holds.apart
  · intro i slot
    obtain ⟨area, same⟩ := effect.process (k.recordOf i)
    rw [same]
    exact holds.own i slot
  · intro i
    by_cases here : i = pid
    · rw [here, Function.update_self, Option.map_eq_none_iff]
      exact holds.absent pid
    · rw [Function.update_of_ne here]
      exact holds.absent i
  · intro i paths found
    by_cases here : i = pid
    · rw [here, Function.update_self, Option.map_eq_some_iff] at found
      obtain ⟨before, at_pid, rfl⟩ := found
      rw [here]
      exact maps before at_pid
    · rw [Function.update_of_ne here] at found
      have slot := holds.real found
      have other : k.recordOf i ≠ k.recordOf pid := fun same => here (holds.apart i pid slot same)
      rw [entries_others holds.rep (recordOf_member holds.rep slot) effect other]
      exact holds.maps i paths found

/-- Blocks that no record owns come and go. -/
theorem Holds.heap (holds : Holds owner k m records contents) {h : Heap} {mine : List Ptr}
    (touches : Touches mine k.heap h) (chars : ∀ b ∈ mine, k.heap.kind b = some .chars)
    (unowned : ∀ p ∈ records, ∀ b ∈ owned k.heap (k.process p) (contents p), b ∉ mine) :
    Holds owner { k with heap := h } m records contents ∧
      ∀ p ∈ records, owned h (k.process p) (contents p)
        = owned k.heap (k.process p) (contents p) := by
  have sorts : ∀ b ∈ mine, k.heap.kind b ≠ some .processRecord ∧
      k.heap.kind b ≠ some .processCache := by
    intro b inside
    rw [chars b inside]
    simp
  obtain ⟨rep, same⟩ := holds.rep.heap touches sorts unowned
  refine ⟨⟨rep, holds.apart, holds.own, holds.absent, fun i paths found => ?_⟩, same⟩
  have member := recordOf_member holds.rep (holds.real found)
  have kept : entries { k with heap := h } contents (k.recordOf i)
      = entries k contents (k.recordOf i) :=
    entries_touched (holds.rep.each _ member) touches fun x inside =>
      unowned _ member x (link_owned inside)
  change Maps (entries { k with heap := h } contents (k.recordOf i)) paths
  rw [kept]
  exact holds.maps i paths found

theorem insert_holds (holds : Holds owner k m records contents) (task : Task) (fd : Word)
    (path : Option CString) (recordRoom nameRoom : Bool)
    (uncached : path ≠ none → recordRoom = true → nameRoom = true →
      cachedPath m task.pid fd = none) :
    ∃ k' contents', insertIntoCache k task fd path recordRoom nameRoom = .ok k' ∧
      FdEffect k k' records contents contents' (k.recordOf task.pid) ∧
      Holds owner k' (inserted m task.pid fd path recordRoom nameRoom) records contents' := by
  obtain ⟨k', contents', ran, effect, inserted, -⟩ :=
    insertIntoCache_effect holds.rep task fd path recordRoom nameRoom
  refine ⟨k', contents', ran, effect, holds.changed effect _ fun paths found => ?_⟩
  have real := holds.real found
  have before := holds.maps task.pid paths found
  rw [entries_inserted holds.rep (recordOf_member holds.rep real) effect (inserted real)]
  rcases insert_cases path recordRoom nameRoom with short | ⟨text, rfl, rfl, rfl⟩
  · rw [listStep_short _ fd short, mapStep_short _ fd short]
    exact before
  · have free := uncached (by simp) rfl rfl
    rw [cachedPath, found] at free
    exact (listStep_maps before (.insert fd (some text) true true) free).2

/-- The map of a process gives what its fd records hold. -/
theorem Holds.cachedPath_mem (holds : Holds owner k m records contents) {task : Task} {x : Ptr}
    (inside : x ∈ cached k task) :
    x ∈ (contents (k.recordOf task.pid)).link ∧ k.recordOf task.pid ∈ records ∧
      cachedPath m task.pid (fdOf k.heap x) = some (pathOf k.heap x) := by
  rw [cached_eq holds.rep] at inside
  by_cases null : k.recordOf task.pid = NULL
  · rw [if_pos null] at inside
    simp at inside
  · rw [if_neg null] at inside
    refine ⟨inside, recordOf_member holds.rep null, ?_⟩
    obtain ⟨paths, found⟩ := Option.ne_none_iff_exists'.mp fun none =>
      null ((holds.absent task.pid).mp none)
    obtain ⟨nodup, rfl⟩ := holds.maps task.pid paths found
    rw [cachedPath, found]
    exact listPath_of_mem nodup (List.mem_map.mpr ⟨x, inside, rfl⟩)

theorem Holds.cachedPath_none (holds : Holds owner k m records contents) {task : Task} {fd : Word}
    (absent : ∀ x ∈ cached k task, fdOf k.heap x ≠ fd) : cachedPath m task.pid fd = none := by
  rw [cached_eq holds.rep] at absent
  cases found : m task.pid with
  | none => rw [cachedPath, found]; rfl
  | some paths =>
    have real := holds.real found
    rw [if_neg real] at absent
    obtain ⟨-, rfl⟩ := holds.maps task.pid paths found
    rw [cachedPath, found]
    refine listPath_eq_none.mpr fun inside => ?_
    rw [entries, List.map_map] at inside
    obtain ⟨x, linked, same⟩ := List.mem_map.mp inside
    exact absent x linked same

/-- `get_cache_by_fd_internal` answers the path in the map. -/
theorem lookup_holds (holds : Holds owner k m records contents) (task : Task) (fd : Word) :
    ∃ k' path contents', getCacheByFdInternal k task fd = .ok (k', path) ∧
      FdEffect k k' records contents contents' (k.recordOf task.pid) ∧
      Holds owner k' m records contents' ∧
      pathAt k'.heap path = .ok (cachedPath m task.pid fd) ∧
      (path = NULL ↔ cachedPath m task.pid fd = none) := by
  obtain ⟨k', path, contents', ran, effect, ⟨link, answer⟩, -⟩ :=
    getCacheByFdInternal_effect holds.rep task fd
  refine ⟨k', path, contents', ran, effect, ?_, ?_⟩
  · have kept := holds.changed effect id fun paths found => by
      rw [entries, link, entries_old holds.rep (recordOf_member holds.rep (holds.real found)) effect]
      exact holds.maps task.pid paths found
    rw [Option.map_id] at kept
    have same : Function.update m task.pid (id (m task.pid)) = m := Function.update_eq_self ..
    rw [same] at kept
    exact kept
  · rcases answer with ⟨x, inside, rfl, rfl⟩ | ⟨rfl, absent⟩
    · obtain ⟨linked, member, found⟩ := holds.cachedPath_mem inside
      have name := (holds.rep.each _ member).cache.link.names x linked
      have name' : k'.heap.kind (k.heap.fileFdRecord x).filename = some .chars := by
        rw [effect.kind _ (Heap.live_lt_fresh name)]
        exact name
      rw [found]
      refine ⟨?_, iff_of_false (Heap.live_ne_null name) (by simp)⟩
      rw [pathAt, if_neg (Heap.live_ne_null name), readChars_live name',
        effect.chars _ (Heap.live_lt_fresh name)]
      rfl
    · rw [holds.cachedPath_none absent]
      exact ⟨if_pos rfl, iff_of_true rfl rfl⟩

/-- `delete_cache_by_fd` drops the descriptor from the map. -/
theorem delete_holds (holds : Holds owner k m records contents) (task : Task) (fd : Word) :
    ∃ k' contents', deleteCacheByFd k task fd = .ok (k', (cachedPath m task.pid fd).isSome) ∧
      FdEffect k k' records contents contents' (k.recordOf task.pid) ∧
      Holds owner k' (deleted m task.pid fd) records contents' := by
  obtain ⟨k', suc, contents', ran, effect, answer⟩ := deleteCacheByFd_effect holds.rep task fd
  rcases answer with ⟨rfl, x, inside, rfl, link, -⟩ | ⟨rfl, absent, link, -⟩
  · obtain ⟨linked, member, cached_x⟩ := holds.cachedPath_mem inside
    refine ⟨k', contents', by rw [cached_x]; exact ran, effect,
      holds.changed effect _ fun paths found => ?_⟩
    have before := holds.maps task.pid paths found
    have erased := List.map_congr_left fun y (kept : y ∈ (contents _).link.erase x) =>
      entry_old holds.rep member effect (List.mem_of_mem_erase kept)
    rw [entries, link, erased, erase_newest (before.newest linked)]
    exact (listStep_maps before (.delete (fdOf k.heap x)) trivial).2
  · have none_cached := holds.cachedPath_none absent
    refine ⟨k', contents', by rw [none_cached]; exact ran, effect,
      holds.changed effect _ fun paths found => ?_⟩
    rw [cachedPath, found] at none_cached
    have free : Function.update paths fd none = paths :=
      Function.update_eq_self_iff.mpr none_cached.symm
    rw [free, entries, link, entries_old holds.rep (recordOf_member holds.rep (holds.real found)) effect]
    exact holds.maps task.pid paths found

/-- A string outside the table, or NULL. -/
def Held (k : Kernel) (records : List Ptr) (contents : Ptr → Contents) (p : Ptr) : Prop :=
  p = NULL ∨ (k.heap.kind p = some .chars ∧
    ∀ q ∈ records, p ∉ owned k.heap (k.process q) (contents q))

theorem Held.effect {p q : Ptr} (held : Held k records contents p)
    (effect : FdEffect k k' records contents contents' q) : Held k' records contents' p := by
  refine held.imp id fun ⟨live, outside⟩ => ?_
  have old := Heap.live_lt_fresh live
  refine ⟨(effect.kind p old).trans live, fun q member inside => ?_⟩
  exact outside q member (effect.gained q member p inside old)

/-- Blocks that were allocated for a string that is new. -/
theorem Holds.allocated (holds : Holds owner k m records contents) {h : Heap}
    (touches : Touches [] k.heap h) :
    Holds owner { k with heap := h } m records contents ∧
      ∀ p, NewText k.heap h p → Held { k with heap := h } records contents p := by
  obtain ⟨kept, same⟩ := holds.heap touches (by simp) (by simp)
  refine ⟨kept, fun p new => new.imp id fun ⟨above, live⟩ => ⟨live, fun q member inside => ?_⟩⟩
  have before : p ∈ owned k.heap (k.process q) (contents q) := same q member ▸ inside
  exact Nat.not_lt_of_le above ((holds.rep.each q member).owned_old before)

/-- The string is freed again. -/
theorem Holds.freed (holds : Holds owner k m records contents) {p : Ptr}
    (held : Held k records contents p) :
    ∃ h, kfree k.heap p = .ok h ∧ Holds owner { k with heap := h } m records contents := by
  rcases held with rfl | ⟨live, outside⟩
  · exact ⟨k.heap, rfl, holds⟩
  · refine ⟨k.heap.release p, kfree_live live, ?_⟩
    have unowned : ∀ q ∈ records, ∀ b ∈ owned k.heap (k.process q) (contents q), b ∉ [p] := by
      intro q member b inside same
      exact outside q member (List.mem_singleton.mp same ▸ inside)
    exact (holds.heap (Touches.release k.heap p) (by simpa using live) unowned).1

/-- `insert_into_cache` with a string that is freed after it. -/
theorem store_holds (holds : Holds owner k m records contents) (task : Task) (fd : Word)
    (text : Option CString) {p : Ptr} (held : Held k records contents p)
    (recordRoom nameRoom : Bool)
    (uncached : text ≠ none → recordRoom = true → nameRoom = true →
      cachedPath m task.pid fd = none) :
    ∃ k' h contents', insertIntoCache k task fd text recordRoom nameRoom = .ok k' ∧
      kfree k'.heap p = .ok h ∧
      Holds owner { k' with heap := h } (inserted m task.pid fd text recordRoom nameRoom) records
        contents' := by
  obtain ⟨k', contents', ran, effect, kept⟩ :=
    insert_holds holds task fd text recordRoom nameRoom uncached
  obtain ⟨h, freed, kept⟩ := kept.freed (held.effect effect)
  exact ⟨k', h, contents', ran, freed, kept⟩

/-- The part of `get_cache_by_fd` that asks the system. -/
theorem getFromSystem_mapped (mapped : Mapped owner k m) (task : Task) (fd : Word)
    (answers : FileAnswers) (recordRoom nameRoom : Bool)
    (uncached : cachedPath m task.pid fd = none) :
    ∃ k' path, getFromSystem k task fd answers recordRoom nameRoom = .ok (k', path) ∧
      Mapped owner k' (inserted m task.pid fd answers.text recordRoom nameRoom) ∧
      pathAt k'.heap path
        = .ok (cachedPath (inserted m task.pid fd answers.text recordRoom nameRoom) task.pid fd) := by
  obtain ⟨records, contents, holds⟩ := mapped
  obtain ⟨answer, h, found, touches, new, dies, -⟩ := getAbsolutePathByFd_spec k.heap answers
  obtain ⟨kept, held⟩ := holds.allocated touches
  -- no path and nothing stored
  have nothing : answers.text = none → ∃ k' path,
      (Except.ok ({ k with heap := h }, NULL) : Except Fault (Kernel × Ptr)) = .ok (k', path) ∧
      Mapped owner k' (inserted m task.pid fd answers.text recordRoom nameRoom) ∧
      pathAt k'.heap path
        = .ok (cachedPath (inserted m task.pid fd answers.text recordRoom nameRoom) task.pid fd) := by
    intro none
    rw [inserted_short _ _ _ (.inl none), uncached]
    exact ⟨_, NULL, rfl, ⟨records, contents, kept⟩, rfl⟩
  unfold getFromSystem
  rw [found, ok_bind]
  dsimp only
  cases answer with
  | none => exact nothing (text_of_dies (dies.mp rfl))
  | some path =>
    dsimp only
    obtain ⟨new, text⟩ := new path rfl
    by_cases null : path = NULL
    · rw [if_pos null]
      rw [null] at text
      exact nothing (Except.ok.inj text).symm
    · have live := (new.resolve_left null).2
      obtain ⟨k₂, h₂, contents₂, ran, freed, kept₂⟩ :=
        store_holds kept task fd (some (h.chars path)) (held path new) recordRoom nameRoom
          fun _ _ _ => uncached
      obtain ⟨k₃, path₃, contents₃, got, effect, kept₃, answer, -⟩ := lookup_holds kept₂ task fd
      have same : answers.text = some (h.chars path) := by
        rw [pathAt_live live] at text
        simpa using text.symm
      rw [if_neg null, readChars_live live, ok_bind, ran, ok_bind, freed, ok_bind, got, same]
      exact ⟨k₃, path₃, rfl, ⟨records, contents₃, kept₃⟩, answer⟩

/-- `get_cache_by_fd` -/
theorem get_mapped (mapped : Mapped owner k m) (task : Task) (fd : Word) (answers : FileAnswers)
    (recordRoom nameRoom : Bool) :
    ∃ k' path, getCacheByFd k task fd answers recordRoom nameRoom = .ok (k', path) ∧
      Mapped owner k' (asked m task.pid fd answers recordRoom nameRoom) ∧
      pathAt k'.heap path
        = .ok (cachedPath (asked m task.pid fd answers recordRoom nameRoom) task.pid fd) := by
  obtain ⟨records, contents, holds⟩ := mapped
  obtain ⟨k₁, path, contents₁, got, -, kept, answer, null_iff⟩ := lookup_holds holds task fd
  unfold getCacheByFd asked
  rw [got, ok_bind]
  dsimp only
  by_cases null : path = NULL
  · have uncached := null_iff.mp null
    rw [if_pos null, uncached, if_neg (by simp)]
    exact getFromSystem_mapped ⟨records, contents₁, kept⟩ task fd answers recordRoom nameRoom uncached
  · have found : (cachedPath m task.pid fd).isSome := Option.isSome_iff_ne_none.mpr fun none =>
      null (null_iff.mpr none)
    rw [if_neg null, if_pos found]
    exact ⟨k₁, path, rfl, ⟨records, contents₁, kept⟩, answer⟩

/-- The maps after a `notify_enter`, which makes an empty one for a new pid. -/
def entered (m : PathMaps) (pid : Int) (room : Bool) : PathMaps :=
  if (0 ≤ pid ∧ pid < HASH_SLOT_SIZE) ∧ room = true ∧ (m pid).isNone then
    Function.update m pid (some fun _ => none)
  else m

/-- A new map is empty. -/
theorem cachedPath_entered (m : PathMaps) (pid : Int) (room : Bool) (pid' : Int) (fd : Word) :
    cachedPath (entered m pid room) pid' fd = cachedPath m pid' fd := by
  unfold entered
  by_cases new : (0 ≤ pid ∧ pid < HASH_SLOT_SIZE) ∧ room = true ∧ (m pid).isNone
  · rw [if_pos new]
    unfold cachedPath
    by_cases here : pid' = pid
    · rw [here, Function.update_self, Option.isNone_iff_eq_none.mp new.2.2]
      rfl
    · rw [Function.update_of_ne here]
  · rw [if_neg new]

/-- A record for a new pid. -/
theorem new_holds (holds : Holds owner k m records contents)
    (valid : 0 ≤ pid ∧ pid < HASH_SLOT_SIZE) {task : Task} {path : PathAnswers} {p : Ptr}
    (owned : task.realStartTime = owner pid) (new : p ∉ records)
    (rep : KernelRep k' (p :: records) contents') (slots : k'.slots = Function.update k.slots pid p)
    (built : Entered k k' records contents contents' task path p)
    (touches : Touches [] k.heap k'.heap) :
    Holds owner k' (Function.update m pid (some fun _ => none)) (p :: records) contents' := by
  have at_pid : k'.recordOf pid = p := by
    rw [Kernel.recordOf, if_pos valid, slots]
    exact Function.update_self ..
  have elsewhere : ∀ i, i ≠ pid → k'.recordOf i = k.recordOf i := by
    intro i here
    rw [Kernel.recordOf, slots, Function.update_of_ne here, Kernel.recordOf]
  have other : ∀ i, k.recordOf i ≠ NULL → k.recordOf i ≠ p := fun i slot same =>
    new (same ▸ recordOf_member holds.rep slot)
  have real : p ≠ NULL := Heap.live_ne_null (rep.live p List.mem_cons_self)
  refine ⟨rep, ?_, ?_, ?_, ?_⟩
  · intro i j slot same
    by_cases here : i = pid <;> by_cases there : j = pid
    · rw [here, there]
    · rw [here, at_pid, elsewhere j there] at same
      exact absurd same.symm (other j (same ▸ real))
    · rw [there, at_pid, elsewhere i here] at same
      exact absurd same (other i (same ▸ real))
    · rw [elsewhere i here] at slot same
      rw [elsewhere j there] at same
      exact holds.apart i j slot same
  · intro i slot
    by_cases here : i = pid
    · rw [here, at_pid, built.startTime, built.beforeExecve]
      exact ⟨owned, rfl⟩
    · rw [elsewhere i here] at slot ⊢
      obtain ⟨-, prev, same⟩ := built.others _ (recordOf_member holds.rep slot) (other i slot)
      rw [same]
      exact holds.own i slot
  · intro i
    by_cases here : i = pid
    · rw [here, at_pid, Function.update_self]
      exact iff_of_false (by simp) real
    · rw [Function.update_of_ne here, elsewhere i here]
      exact holds.absent i
  · intro i paths found
    by_cases here : i = pid
    · rw [here, Function.update_self, Option.some.injEq] at found
      rw [here, at_pid, entries, built.empty, ← found]
      exact ⟨List.nodup_nil, rfl⟩
    · rw [Function.update_of_ne here] at found
      have slot := holds.real found
      have member := recordOf_member holds.rep slot
      have same : entries k' contents' (k.recordOf i) = entries k contents (k.recordOf i) := by
        rw [entries, (built.others _ member (other i slot)).1, entries]
        exact entries_touched (holds.rep.each _ member) touches (by simp)
      rw [elsewhere i here, same]
      exact holds.maps i paths found

/-- `notify_enter` of the task that has the pid, when no record waits for a refresh. -/
theorem enter_mapped (mapped : Mapped owner k m) (task : Task)
    (owned : task.realStartTime = owner task.pid) (path : PathAnswers)
    (arguments : ArgumentAnswers) (room : Bool) :
    ∃ k', notifyEnter k task path arguments room = .ok k' ∧
      Mapped owner k' (entered m task.pid room) := by
  obtain ⟨records, contents, holds⟩ := mapped
  rw [notifyEnter_dispatch holds.rep]
  unfold entered
  by_cases valid : 0 ≤ task.pid ∧ task.pid < HASH_SLOT_SIZE
  · have at_pid : k.recordOf task.pid = k.slots task.pid := if_pos valid
    rw [if_pos valid, ← at_pid]
    by_cases null : k.recordOf task.pid = NULL
    · have none := (holds.absent task.pid).mpr null
      rw [if_pos null]
      cases room with
      | false =>
        rw [if_neg (by simp)]
        exact ⟨k, rfl, records, contents, holds⟩
      | true =>
        rw [if_pos ⟨valid, rfl, by rw [none]; rfl⟩]
        obtain ⟨k', p, contents', ran, new, rep, slots, built, touches, -⟩ :=
          enterNew_spec holds.rep valid task path arguments
        exact ⟨k', ran, _, _, new_holds holds valid owned new rep slots built touches⟩
    · have known := holds.own task.pid null
      have some : ¬(m task.pid).isNone := by
        rw [Option.isNone_iff_eq_none, holds.absent task.pid]
        exact null
      rw [if_neg null, if_pos (known.1.trans owned.symm), if_neg (fun new => some new.2.2),
        enterKnown_unchanged holds.rep (recordOf_member holds.rep null) known.2]
      exact ⟨k, rfl, records, contents, holds⟩
  · rw [if_neg valid, if_neg (fun new => valid new.1)]
    exact ⟨k, rfl, records, contents, holds⟩

/-- The table of `process_monitor_init`. -/
theorem init_mapped (owner : Int → TimeSpec) (h : Heap) (process : Ptr → ProcessRecord) :
    Mapped owner (processMonitorInit h process) fun _ => none := by
  have empty : ∀ pid, (processMonitorInit h process).recordOf pid = NULL := by
    intro pid
    unfold Kernel.recordOf
    by_cases valid : 0 ≤ pid ∧ pid < HASH_SLOT_SIZE
    · rw [if_pos valid]
      rfl
    · rw [if_neg valid]
  refine ⟨[], fun _ => noContents, init_rep h process, ?_, ?_, ?_, by simp⟩
  · exact fun i _ slot => absurd (empty i) slot
  · exact fun i slot => absurd (empty i) slot
  · exact fun i => iff_of_true rfl (empty i)

end Operations

end SysMonitor.Guarantees.ProcessMaps
