import SysMonitor.Source.ProcessInvariant

/-!
# fd cache operations within the process table

An insert, a lookup or a delete works on one record and frees nothing that anyone owns;
`get_cache_by_fd` brings its own temporary blocks and frees exactly these.
-/

namespace SysMonitor.Source.Process
open SysMonitor.Library SysMonitor.Library.LinkedRing SysMonitor.Source.FdCache

section Record

variable {h h' : Heap} {r : ProcessRecord} {c c' : Contents} {area : FdArea}

theorem texts_area (r : ProcessRecord) (area : FdArea) : texts { r with area := area } = texts r :=
  rfl

theorem Readable.preserved {ps : List Ptr} {p : Ptr} (readable : Readable h p)
    (preserves : Preserves ps h h') : Readable h' p := by
  rcases readable with null | live
  · exact .inl null
  · right
    rw [preserves.kind p (Heap.live_lt_fresh live), live]

/-- A lookup or a delete: the record keeps some of its fd records. -/
theorem RecordRep.shrinks (rep : RecordRep h r c) (cache : Represents ⟨h', area⟩ c')
    (preserves : Preserves c.link h h') (sub : c'.link.Sublist c.link) :
    RecordRep h' { r with area := area } c' ∧
      ∀ b ∈ owned h' { r with area := area } c', b ∈ owned h r c := by
  have same : names h' c'.link = names h c'.link := names_congr fun x member =>
    preserves.filename x (rep.owned_old (link_owned (sub.subset member)))
  have part : (owned h' { r with area := area } c').Sublist (owned h r c) := by
    unfold owned
    rw [texts_area, same]
    exact (List.Sublist.refl _).append (sub.append (sub.map _))
  exact ⟨⟨cache, rep.filename.preserved preserves, rep.argv.preserved preserves, rep.env,
    rep.nodup.sublist part⟩, fun b member => part.subset member⟩

/-- A lookup: the record keeps all of them. -/
theorem RecordRep.owned_same (rep : RecordRep h r c) (preserves : Preserves c.link h h')
    (link : c'.link = c.link) : owned h' { r with area := area } c' = owned h r c := by
  have same : names h' c.link = names h c.link := names_congr fun x member =>
    preserves.filename x (rep.owned_old (link_owned member))
  rw [owned, owned, texts_area, link, same]

/-- An insert: the record also owns the new fd record and its path. -/
theorem RecordRep.grows {fd : Word} {path : CString} (rep : RecordRep h r c)
    (cache : Represents ⟨h', area⟩ c') (preserves : Preserves c.link h h')
    (link : c'.link = h.fresh :: c.link) (new : Allocated h h' h.fresh fd path) :
    RecordRep h' { r with area := area } c' ∧
      (∀ b ∈ owned h' { r with area := area } c', b < h.fresh → b ∈ owned h r c) ∧
      (∀ b ∈ owned h r c, b ∈ owned h' { r with area := area } c') ∧
      Leaves (owned h' { r with area := area } c') h h' := by
  have same : names h' c.link = names h c.link := names_congr fun x member =>
    preserves.filename x (rep.owned_old (link_owned member))
  obtain ⟨name, name_eq⟩ : ∃ name, name = (h'.fileFdRecord h.fresh).filename := ⟨_, rfl⟩
  have shape : (owned h' { r with area := area } c').Perm (h.fresh :: name :: owned h r c) := by
    have parts : owned h' { r with area := area } c'
        = texts r ++ ((h.fresh :: c.link) ++ (name :: names h c.link)) := by
      rw [owned, texts_area, link, names, List.map_cons, ← names, same, name_eq]
    rw [parts, List.cons_append]
    refine List.perm_middle.trans (.cons _ ?_)
    rw [← List.append_assoc]
    refine List.perm_middle.trans (.cons _ ?_)
    rw [owned, List.append_assoc]
  have apart : h.fresh ≠ name := by
    intro eq
    have record := new.live
    have text := new.name
    rw [← name_eq, ← eq, record] at text
    simp at text
  have fresh_new : h.fresh ∉ owned h r c := fun member =>
    Nat.lt_irrefl _ (rep.owned_old member)
  have name_new : name ∉ owned h r c := fun member =>
    Nat.lt_irrefl _ (Nat.lt_of_lt_of_le (rep.owned_old member) (name_eq ▸ new.nameNew))
  refine ⟨⟨cache, rep.filename.preserved preserves, rep.argv.preserved preserves, rep.env, ?_⟩,
    ?_, ?_, ?_⟩
  · refine shape.nodup_iff.mpr (List.nodup_cons.mpr ⟨?_, List.nodup_cons.mpr ⟨name_new, rep.nodup⟩⟩)
    simp [apart, fresh_new]
  · intro b member old
    have inside := shape.mem_iff.mp member
    simp only [List.mem_cons] at inside
    rcases inside with rfl | rfl | inside
    · exact absurd old (Nat.lt_irrefl _)
    · exact absurd old (Nat.not_lt_of_le (name_eq ▸ new.nameNew))
    · exact inside
  · intro b member
    exact shape.mem_iff.mpr (List.mem_cons_of_mem _ (List.mem_cons_of_mem _ member))
  · intro b dead live
    refine shape.mem_iff.mpr ?_
    rcases new.only b dead live with rfl | rfl
    · exact List.mem_cons_self
    · exact List.mem_cons_of_mem _ (name_eq ▸ List.mem_cons_self)

/-- An insert that stores nothing. -/
theorem RecordRep.same (rep : RecordRep h r c) (preserves : Preserves [] h h') :
    RecordRep h' r c ∧ owned h' r c = owned h r c :=
  rep.frame (Touches.ofPreserves preserves) fun _ _ => by simp

end Record

section Calls

variable {k : Kernel} {records : List Ptr} {contents : Ptr → Contents} {p : Ptr}

theorem readProcess_live (live : k.heap.kind p = some .processRecord) :
    k.readProcess p = .ok (k.process p) := by
  rw [Kernel.readProcess, follow_live live]; rfl

theorem writeProcess_live (live : k.heap.kind p = some .processRecord)
    (change : ProcessRecord → ProcessRecord) :
    k.writeProcess p change
      = .ok { k with process := Function.update k.process p (change (k.process p)) } := by
  rw [Kernel.writeProcess, follow_live live]; rfl

/-- What an fd cache operation on the record `p` leaves of the process table: nothing was
freed, no process record came or went, fd records keep their descriptors and paths, and the
other process records keep their fd records. -/
structure FdEffect (k k' : Kernel) (records : List Ptr) (contents contents' : Ptr → Contents)
    (p : Ptr) : Prop where
  rep : KernelRep k' records contents'
  gained : Gained k k' records contents contents'
  fresh : k.heap.fresh ≤ k'.heap.fresh
  kind : ∀ b < k.heap.fresh, k'.heap.kind b = k.heap.kind b
  chars : ∀ b < k.heap.fresh, k'.heap.chars b = k.heap.chars b
  slots : k'.slots = k.slots
  process : ∀ q, ∃ area, k'.process q = { k.process q with area := area }
  others : ∀ q, q ≠ p → contents' q = contents q
  fd : ∀ x < k.heap.fresh, fdOf k'.heap x = fdOf k.heap x
  path : ∀ x < k.heap.fresh,
    (k'.heap.fileFdRecord x).filename = (k.heap.fileFdRecord x).filename
  strict : k'.strict = k.strict

/-- An fd cache operation, run on one of the records. -/
theorem onRecord_spec {α : Type} (rep : KernelRep k records contents) (member : p ∈ records)
    (operation : FdState → Except Fault (FdState × α)) {s : FdState} {a : α} {c : Contents}
    (run : operation ⟨k.heap, (k.process p).area⟩ = .ok (s, a))
    (preserves : Preserves (contents p).link k.heap s.heap)
    (record : RecordRep s.heap { k.process p with area := s.area } c)
    (gained : ∀ b ∈ owned s.heap { k.process p with area := s.area } c, b < k.heap.fresh →
      b ∈ owned k.heap (k.process p) (contents p)) :
    onRecord k p operation = .ok ({ k with
        heap := s.heap
        process := Function.update k.process p { k.process p with area := s.area } }, a) ∧
      FdEffect k { k with
          heap := s.heap
          process := Function.update k.process p { k.process p with area := s.area } }
        records contents (Function.update contents p c) p := by
  have live := rep.live p member
  have live' : s.heap.kind p = some .processRecord := by
    rw [preserves.kind p (Heap.live_lt_fresh live), live]
  have touches : Touches (owned k.heap (k.process p) (contents p)) k.heap s.heap :=
    (Touches.ofPreserves preserves).mono fun x inside => link_owned inside
  have next : { k.process p with area := s.area }.next = (k.process p).next := rfl
  have prev : { k.process p with area := s.area }.prev = (k.process p).prev := rfl
  obtain ⟨rep', gained'⟩ := rep.update member touches next prev record gained
  refine ⟨?_, rep', gained', preserves.fresh, preserves.kind, preserves.chars, rfl, ?_, ?_,
    preserves.fd, preserves.filename, rfl⟩
  · unfold onRecord
    rw [readProcess_live live, ok_bind, run, ok_bind]
    dsimp only
    rw [writeProcess_live (by exact live')]
    rfl
  · intro q
    by_cases here : q = p
    · refine ⟨s.area, ?_⟩
      rw [here]
      exact Function.update_self ..
    · exact ⟨(k.process q).area, Function.update_of_ne here _ _⟩
  · exact fun q here => Function.update_of_ne here _ _

theorem readSlot_spec (rep : KernelRep k records contents) {i : Int} (below : 0 ≤ i)
    (above : i < HASH_SLOT_SIZE) : k.readSlot i = .ok (k.slots i) := by
  rw [Kernel.readSlot, follow_live rep.table, ok_bind, if_pos ⟨below, above⟩]

/-- The record of a pid, or NULL. -/
def Kernel.recordOf (k : Kernel) (pid : Int) : Ptr :=
  if 0 ≤ pid ∧ pid < HASH_SLOT_SIZE then k.slots pid else NULL

theorem recordOf_member (rep : KernelRep k records contents) {pid : Int}
    (real : k.recordOf pid ≠ NULL) : k.recordOf pid ∈ records := by
  unfold Kernel.recordOf at real ⊢
  by_cases valid : 0 ≤ pid ∧ pid < HASH_SLOT_SIZE
  · rw [if_pos valid] at real ⊢
    exact (rep.slots pid).resolve_left real
  · rw [if_neg valid] at real
    exact absurd rfl real

theorem getRecordByPid_spec (rep : KernelRep k records contents) (pid : Int) :
    getRecordByPid k pid = .ok (k.recordOf pid) := by
  unfold getRecordByPid Kernel.recordOf
  by_cases valid : 0 ≤ pid ∧ pid < HASH_SLOT_SIZE
  · rw [if_neg (show ¬(pid < 0 ∨ pid ≥ HASH_SLOT_SIZE) by omega), if_pos valid,
      readSlot_spec rep valid.1 valid.2]
  · rw [if_pos (show pid < 0 ∨ pid ≥ HASH_SLOT_SIZE by omega), if_neg valid]

/-- The fd records of a task's process, newest first. -/
def cached (k : Kernel) (task : Task) : List Ptr :=
  if k.recordOf task.pid = NULL then []
  else walk (linkFields k.heap).next NULL (k.heap.fresh + 1)
    (k.process (k.recordOf task.pid)).area.fileFdHead

/-- The walk over the fd records of a task meets those of its record. -/
theorem cached_eq (rep : KernelRep k records contents) (task : Task) :
    cached k task = if k.recordOf task.pid = NULL then []
      else (contents (k.recordOf task.pid)).link := by
  unfold cached
  by_cases null : k.recordOf task.pid = NULL
  · rw [if_pos null, if_pos null]
  · have each := rep.each _ (recordOf_member rep null)
    have short := link_short (fun x inside => Heap.live_lt_fresh (each.cache.link.live x inside))
      each.cache.link.ring.nodup
    have head : (k.process (k.recordOf task.pid)).area.fileFdHead
        = (contents (k.recordOf task.pid)).link.headD NULL := each.cache.link.head
    rw [if_neg null, if_neg null, head,
      each.cache.link.ring.walk_eq _ (Nat.lt_succ_of_lt short)]

theorem FdEffect.refl (rep : KernelRep k records contents) (p : Ptr) :
    FdEffect k k records contents contents p :=
  ⟨rep, fun _ _ _ inside _ => inside, le_rfl, fun _ _ => rfl, fun _ _ => rfl, rfl,
    fun q => ⟨(k.process q).area, rfl⟩, fun _ _ => rfl, fun _ _ => rfl, fun _ _ => rfl, rfl⟩

theorem FdEffect.trans {k₁ k₂ : Kernel} {contents₁ contents₂ : Ptr → Contents}
    (first : FdEffect k k₁ records contents contents₁ p)
    (second : FdEffect k₁ k₂ records contents₁ contents₂ p) :
    FdEffect k k₂ records contents contents₂ p where
  rep := second.rep
  gained q member b inside old := first.gained q member b
    (second.gained q member b inside (Nat.lt_of_lt_of_le old first.fresh)) old
  fresh := first.fresh.trans second.fresh
  kind b old := (second.kind b (Nat.lt_of_lt_of_le old first.fresh)).trans (first.kind b old)
  chars b old := (second.chars b (Nat.lt_of_lt_of_le old first.fresh)).trans (first.chars b old)
  slots := second.slots.trans first.slots
  process q := by
    obtain ⟨area₁, same₁⟩ := first.process q
    obtain ⟨area₂, same₂⟩ := second.process q
    exact ⟨area₂, by rw [same₂, same₁]⟩
  others q other := (second.others q other).trans (first.others q other)
  fd x old := (second.fd x (Nat.lt_of_lt_of_le old first.fresh)).trans (first.fd x old)
  path x old := (second.path x (Nat.lt_of_lt_of_le old first.fresh)).trans (first.path x old)
  strict := second.strict.trans first.strict

theorem FdEffect.recordOf {k' : Kernel} {contents' : Ptr → Contents}
    (effect : FdEffect k k' records contents contents' p) (pid : Int) :
    k'.recordOf pid = k.recordOf pid := by
  rw [Kernel.recordOf, effect.slots, Kernel.recordOf]

/-- Blocks that came after `k` and that no record owns may come and go. -/
theorem FdEffect.heap {k₁ : Kernel} {contents₁ : Ptr → Contents} {h : Heap} {mine : List Ptr}
    (effect : FdEffect k k₁ records contents contents₁ p) (touches : Touches mine k₁.heap h)
    (later : ∀ b ∈ mine, k.heap.fresh ≤ b) (chars : ∀ b ∈ mine, k₁.heap.kind b = some .chars)
    (unowned : ∀ p ∈ records, ∀ b ∈ owned k₁.heap (k₁.process p) (contents₁ p), b ∉ mine) :
    FdEffect k { k₁ with heap := h } records contents contents₁ p ∧
      ∀ p ∈ records, owned h (k₁.process p) (contents₁ p)
        = owned k₁.heap (k₁.process p) (contents₁ p) := by
  have out : ∀ b < k.heap.fresh, b ∉ mine := fun b old inside =>
    Nat.not_lt_of_le (later b inside) old
  have sorts : ∀ b ∈ mine, k₁.heap.kind b ≠ some .processRecord ∧
      k₁.heap.kind b ≠ some .processCache := by
    intro b inside
    rw [chars b inside]
    simp
  obtain ⟨rep, same⟩ := effect.rep.heap touches sorts unowned
  have cells : ∀ x < k.heap.fresh, h.fileFdRecord x = k₁.heap.fileFdRecord x := fun x old =>
    touches.record x (Nat.lt_of_lt_of_le old effect.fresh) (out x old)
  refine ⟨⟨rep, ?_, effect.fresh.trans touches.fresh, ?_, ?_, effect.slots, effect.process,
    effect.others, ?_, ?_, effect.strict⟩, same⟩
  · intro p member b inside old
    rw [same p member] at inside
    exact effect.gained p member b inside old
  · intro b old
    exact (touches.kind b (Nat.lt_of_lt_of_le old effect.fresh) (out b old)).trans
      (effect.kind b old)
  · intro b old
    exact (touches.chars b (Nat.lt_of_lt_of_le old effect.fresh)).trans (effect.chars b old)
  · intro x old
    exact (congrArg FileFdRecord.fd (cells x old)).trans (effect.fd x old)
  · intro x old
    exact (congrArg FileFdRecord.filename (cells x old)).trans (effect.path x old)

/-- What an insert makes of the fd records of its process. -/
def Inserted (k' : Kernel) (contents contents' : Ptr → Contents) (p : Ptr) (fd : Word)
    (path : Option CString) (recordRoom nameRoom : Bool) : Prop :=
  ((path = none ∨ (recordRoom && nameRoom) = false) ∧ (contents' p).link = (contents p).link) ∨
  ∃ text x, path = some text ∧ recordRoom = true ∧ nameRoom = true ∧
    (contents' p).link = x :: (contents p).link ∧ fdOf k'.heap x = fd ∧ pathOf k'.heap x = text

theorem insertIntoCache_effect (rep : KernelRep k records contents) (task : Task) (fd : Word)
    (path : Option CString) (recordRoom nameRoom : Bool) :
    ∃ k' contents', insertIntoCache k task fd path recordRoom nameRoom = .ok k' ∧
      FdEffect k k' records contents contents' (k.recordOf task.pid) ∧
      (k.recordOf task.pid ≠ NULL →
        Inserted k' contents contents' (k.recordOf task.pid) fd path recordRoom nameRoom) ∧
      ∀ b, Lost k' records contents' b → Lost k records contents b := by
  unfold insertIntoCache
  rw [getRecordByPid_spec rep, ok_bind]
  by_cases null : k.recordOf task.pid = NULL
  · rw [if_pos null]
    exact ⟨k, contents, rfl, .refl rep _, fun real => absurd null real, fun _ lost => lost⟩
  · rw [if_neg null]
    have member := recordOf_member rep null
    generalize k.recordOf task.pid = p at null member ⊢
    have each := rep.each p member
    rcases insert_cases path recordRoom nameRoom with short | ⟨text, rfl, rfl, rfl⟩
    · obtain ⟨h, run, kind, preserves⟩ := insertIntoCache_fails ⟨k.heap, (k.process p).area⟩ fd
        path recordRoom nameRoom short
      obtain ⟨record, same⟩ := each.same preserves
      have ran : (do
          let s ← FdCache.insertIntoCache ⟨k.heap, (k.process p).area⟩ fd path recordRoom nameRoom
          return (s, ()) : Except Fault (FdState × Unit))
          = .ok (⟨h, (k.process p).area⟩, ()) := by rw [run]; rfl
      have preserves' := preserves.mono (List.nil_subset (contents p).link)
      obtain ⟨done, effect⟩ := onRecord_spec rep member (fun s => do
        let s ← FdCache.insertIntoCache s fd path recordRoom nameRoom
        return (s, ())) ran preserves' record (fun b mine _ => same ▸ mine)
      refine ⟨_, _, by rw [done]; rfl, effect, fun _ => .inl ⟨short, ?_⟩, fun b lost => ?_⟩
      · rw [Function.update_self]
      · rcases rep.update_lost member ((Touches.ofPreserves preserves).mono (List.nil_subset _))
          ((Leaves.same kind).mono (List.nil_subset _)) lost with before | ⟨old, gone, -⟩
        · exact before
        · exact absurd (same.symm ▸ old) gone
    · obtain ⟨s, c, run, cache, link, -, new, preserves⟩ :=
        insertIntoCache_succeeds each.cache fd text
      obtain ⟨record, gained, kept, leaves⟩ := each.grows cache preserves link new
      have ran : (do
          let s ← FdCache.insertIntoCache ⟨k.heap, (k.process p).area⟩ fd (some text) true true
          return (s, ()) : Except Fault (FdState × Unit)) = .ok (s, ()) := by rw [run]; rfl
      obtain ⟨done, effect⟩ := onRecord_spec rep member (fun s => do
        let s ← FdCache.insertIntoCache s fd (some text) true true
        return (s, ())) ran preserves record gained
      refine ⟨_, _, by rw [done]; rfl, effect,
        fun _ => .inr ⟨text, k.heap.fresh, rfl, rfl, rfl, ?_, new.fd, new.path⟩, fun b lost => ?_⟩
      · rw [Function.update_self, link]
      · have touches := (Touches.ofPreserves preserves).mono fun x inside =>
          link_owned (h := k.heap) (r := k.process p) inside
        rcases rep.update_lost member touches leaves lost with before | ⟨old, gone, -⟩
        · exact before
        · exact absurd (kept b old) gone

/-- A lookup answers the path of a record with its descriptor, if there is one. -/
theorem getCacheByFdInternal_effect (rep : KernelRep k records contents) (task : Task)
    (fd : Word) :
    ∃ k' path contents', getCacheByFdInternal k task fd = .ok (k', path) ∧
      FdEffect k k' records contents contents' (k.recordOf task.pid) ∧
      ((contents' (k.recordOf task.pid)).link = (contents (k.recordOf task.pid)).link ∧
        ((∃ x ∈ cached k task, fdOf k.heap x = fd ∧ path = (k.heap.fileFdRecord x).filename) ∨
          (path = NULL ∧ ∀ x ∈ cached k task, fdOf k.heap x ≠ fd))) ∧
      ∀ b, Lost k' records contents' b → Lost k records contents b := by
  unfold getCacheByFdInternal
  rw [getRecordByPid_spec rep, ok_bind, cached_eq rep]
  by_cases null : k.recordOf task.pid = NULL
  · rw [if_pos null, if_pos null]
    exact ⟨k, NULL, contents, rfl, .refl rep _, ⟨rfl, .inr ⟨rfl, by simp⟩⟩, fun _ lost => lost⟩
  · rw [if_neg null, if_neg null]
    have member := recordOf_member rep null
    generalize k.recordOf task.pid = p at null member ⊢
    have each := rep.each p member
    -- both ways, found and not found, the record keeps all it owns
    have looked : ∀ {s c path}, FdCache.getCacheByFdInternal ⟨k.heap, (k.process p).area⟩ fd
        = .ok (s, path) → Represents s c → Edits (contents p).link k.heap s.heap →
        c.link = (contents p).link → ∃ k' contents',
          onRecord k p (fun s => FdCache.getCacheByFdInternal s fd) = .ok (k', path) ∧
          FdEffect k k' records contents contents' p ∧
          (contents' p).link = (contents p).link ∧
          ∀ b, Lost k' records contents' b → Lost k records contents b := by
      intro s c path run cache edits link
      obtain ⟨record, gained⟩ := each.shrinks cache edits.preserves (by rw [link])
      obtain ⟨ran, effect⟩ := onRecord_spec rep member
        (fun s => FdCache.getCacheByFdInternal s fd) run edits.preserves record
        (fun b mine _ => gained b mine)
      refine ⟨_, _, ran, effect, ?_, fun b lost => ?_⟩
      · rw [Function.update_self, link]
      · have touches := (Touches.ofPreserves edits.preserves).mono fun x inside =>
          link_owned (h := k.heap) (r := k.process p) inside
        rcases rep.update_lost member touches ((Leaves.same edits.kind).mono (List.nil_subset _))
          lost with before | ⟨old, gone, -⟩
        · exact before
        · rw [each.owned_same edits.preserves link] at gone
          exact absurd old gone
    rcases getCacheByFdInternal_spec each.cache fd with
      ⟨s, c, x, run, cache, only, ⟨fd_x, linked, -⟩, link, -⟩ | ⟨run, absent⟩
    · obtain ⟨k', contents', ran, effect, same, lost⟩ := looked run cache only.edits link
      exact ⟨k', _, contents', ran, effect, ⟨same, .inl ⟨x, linked, fd_x, rfl⟩⟩, lost⟩
    · obtain ⟨k', contents', ran, effect, same, lost⟩ := looked run each.cache (.refl _ _) rfl
      exact ⟨k', _, contents', ran, effect, ⟨same, .inr ⟨rfl, absent⟩⟩, lost⟩

/-- A delete unlinks a record with its descriptor, if there is one. That record is lost with
its path, and nothing else. -/
theorem deleteCacheByFd_effect (rep : KernelRep k records contents) (task : Task) (fd : Word) :
    ∃ k' suc contents', deleteCacheByFd k task fd = .ok (k', suc) ∧
      FdEffect k k' records contents contents' (k.recordOf task.pid) ∧
      ((suc = true ∧ ∃ x ∈ cached k task, fdOf k.heap x = fd ∧
          (contents' (k.recordOf task.pid)).link
            = (contents (k.recordOf task.pid)).link.erase x ∧
          Used k records contents x ∧ Lost k' records contents' x) ∨
        (suc = false ∧ (∀ x ∈ cached k task, fdOf k.heap x ≠ fd) ∧
          (contents' (k.recordOf task.pid)).link = (contents (k.recordOf task.pid)).link ∧
          ∀ b, Lost k' records contents' b → Lost k records contents b)) := by
  unfold deleteCacheByFd
  rw [getRecordByPid_spec rep, ok_bind, cached_eq rep]
  by_cases null : k.recordOf task.pid = NULL
  · rw [if_pos null, if_pos null]
    exact ⟨k, false, contents, rfl, .refl rep _, .inr ⟨rfl, by simp, rfl, fun _ lost => lost⟩⟩
  · rw [if_neg null, if_neg null]
    have member := recordOf_member rep null
    generalize k.recordOf task.pid = p at null member ⊢
    have each := rep.each p member
    rcases deleteFromRecord_spec each.cache fd with
      ⟨s, c, x, run, cache, edits, ⟨fd_x, linked, -⟩, link, -⟩ | ⟨run, absent⟩
    · obtain ⟨record, gained⟩ := each.shrinks cache edits.preserves
        (by rw [link]; exact List.erase_sublist)
      obtain ⟨ran, effect⟩ := onRecord_spec rep member
        (fun s => FdCache.deleteCacheByFd s fd) run edits.preserves record
        (fun b mine _ => gained b mine)
      have used : Used k records contents x := .inr (.inr ⟨p, member, link_owned linked⟩)
      refine ⟨_, _, _, ran, effect, .inl ⟨rfl, x, linked, fd_x, ?_, used, ?_⟩⟩
      · rw [Function.update_self, link]
      · have touches := (Touches.ofPreserves edits.preserves).mono fun x inside =>
          link_owned (h := k.heap) (r := k.process p) inside
        have live := each.cache.link.live x linked
        have live' : s.heap.kind x = some .fileFdRecord := by
          rw [edits.kind]
          exact live
        refine rep.update_dropped member touches (link_owned linked) ?_ (by rw [live']; simp)
        intro mine
        have kept := record.mem_link mine live'
        rw [link] at kept
        have once : (contents p).link.Nodup := (List.nodup_cons.mp each.cache.link.ring.nodup).2
        exact once.not_mem_erase kept
    · obtain ⟨ran, effect⟩ := onRecord_spec rep member
        (fun s => FdCache.deleteCacheByFd s fd) run (Edits.refl _ _).preserves each
        (fun b mine _ => mine)
      refine ⟨_, _, _, ran, effect, .inr ⟨rfl, absent, ?_, fun b lost => ?_⟩⟩
      · rw [Function.update_self]
      · rcases rep.update_lost member (.refl _ _) ((Leaves.refl _).mono (List.nil_subset _))
          lost with before | ⟨old, gone, -⟩
        · exact before
        · exact absurd old gone

/-- A string that was allocated in between, or NULL. -/
def NewText (h h' : Heap) (p : Ptr) : Prop := p = NULL ∨ (h.fresh ≤ p ∧ h'.kind p = some .chars)

theorem NewText.readable {h h' : Heap} (new : NewText h h' p) : Readable h' p :=
  new.imp id And.right

/-- A string that was allocated after others. -/
theorem NewText.after {h h₁ h₂ : Heap} (first : Touches [] h h₁) (new : NewText h₁ h₂ p) :
    NewText h h₂ p :=
  new.imp id fun ⟨above, live⟩ => ⟨first.fresh.trans above, live⟩

theorem pathAt_live {h : Heap} {p : Ptr} (live : h.kind p = some .chars) :
    pathAt h p = .ok (some (h.chars p)) := by
  rw [pathAt, if_neg (Heap.live_ne_null live), readChars_live live]
  rfl

theorem pathAt_some {h : Heap} {p : Ptr} {text : CString} (found : pathAt h p = .ok (some text)) :
    p ≠ NULL ∧ h.chars p = text := by
  unfold pathAt at found
  by_cases null : p = NULL
  · rw [if_pos null] at found
    simp at found
  · rw [if_neg null] at found
    obtain ⟨text', read, same⟩ := bind_eq_ok found
    obtain ⟨-, -, at_p⟩ := bind_eq_ok read
    cases same
    cases at_p
    exact ⟨null, rfl⟩

theorem pathAt_none {h : Heap} {p : Ptr} {path : Option CString} (found : pathAt h p = .ok path) :
    p = NULL ↔ path = none := by
  constructor
  · rintro rfl
    exact (Except.ok.inj found).symm
  · rintro rfl
    by_contra real
    rw [pathAt, if_neg real] at found
    obtain ⟨text, -, same⟩ := bind_eq_ok found
    cases same

theorem copyOut_spec (h : Heap) (text : CString) (room : Bool) :
    ∃ p h', copyOut h text room = .ok (p, h') ∧ Touches [] h h' ∧ NewText h h' p ∧
      Leaves [p] h h' ∧ pathAt h' p = .ok (if room then some text else none) := by
  unfold copyOut kmalloc
  cases room with
  | false =>
    exact ⟨NULL, h, rfl, .refl _ h, .inl rfl, (Leaves.refl h).mono (List.nil_subset _), rfl⟩
  | true =>
    simp only [if_true]
    have live : (h.allocate .chars).kind h.fresh = some .chars := Function.update_self ..
    rw [if_neg (Nat.ne_of_gt h.freshReal), writeChars_live live]
    refine ⟨h.fresh, _, rfl, ?_, .inr ⟨le_rfl, live⟩, Leaves.allocate h .chars, ?_⟩
    · have allocated := Touches.allocate h .chars
      refine ⟨allocated.fresh, allocated.kind, allocated.record, fun b old => ?_⟩
      exact Function.update_of_ne (Nat.ne_of_lt old) _ _
    · rw [pathAt_live (by exact live)]
      exact congrArg (fun text => Except.ok (some text)) (Function.update_self ..)

theorem copyAndFree_spec (h : Heap) (tmp : Ptr) (text : CString) (room : Bool)
    (live : h.kind tmp = some .chars) :
    ∃ p h', copyAndFree h tmp text room = .ok (p, h') ∧ Touches [tmp] h h' ∧ NewText h h' p ∧
      Leaves [p] h h' ∧ h'.kind tmp = none ∧
      pathAt h' p = .ok (if room then some text else none) := by
  obtain ⟨p, h₁, copied, touches, new, leaves, filled⟩ := copyOut_spec h text room
  have old := Heap.live_lt_fresh live
  have live₁ : h₁.kind tmp = some .chars := by
    rw [touches.kind tmp old (by simp), live]
  have live_p : NewText h (h₁.release tmp) p := by
    refine new.imp id fun ⟨above, live_p⟩ => ⟨above, ?_⟩
    have other : p ≠ tmp := fun same => Nat.not_le_of_lt old (same ▸ above)
    rw [Heap.release]
    exact (Function.update_of_ne other _ _).trans live_p
  refine ⟨p, h₁.release tmp, ?_, ?_, live_p, leaves.trans (.release h₁ tmp),
    Function.update_self .., ?_⟩
  · unfold copyAndFree
    rw [copied, ok_bind]
    dsimp only
    rw [kfree_live live₁]
    rfl
  · exact (touches.mono (List.nil_subset _)).trans (.release h₁ tmp) fun b inside _ => inside
  · rw [← filled]
    rcases new with rfl | ⟨-, live₁⟩
    · rfl
    · have real := Heap.live_ne_null live₁
      rw [pathAt_live live₁, pathAt_live (live_p.resolve_left real).2]
      rfl

/-- Blocks that come and go in between leave the heap as it was. -/
theorem Touches.through {h h₁ : Heap} (k : BlockKind)
    (touches : Touches [h.fresh] (h.allocate k) h₁) : Touches [] h h₁ := by
  refine (Touches.allocate h k).trans touches ?_
  intro b inside old
  rw [List.mem_singleton] at inside
  exact absurd old (inside ▸ Nat.lt_irrefl _)

theorem NewText.through {h h₁ : Heap} (k : BlockKind) (new : NewText (h.allocate k) h₁ p) :
    NewText h h₁ p := new.imp id fun ⟨above, live⟩ => ⟨Nat.le_of_succ_le above, live⟩

theorem Leaves.through {h h₁ : Heap} {ps : List Ptr} (k : BlockKind)
    (leaves : Leaves ps (h.allocate k) h₁) (freed : h₁.kind h.fresh = none) : Leaves ps h h₁ :=
  ((Leaves.allocate h k).trans leaves).drop freed

/-- The buffer that `get_absolute_path_by_fd` leaves behind when `d_path` fails. -/
def abandoned (h : Heap) (answers : FileAnswers) : List Ptr :=
  if answers.file ∧ answers.tmpRoom ∧ answers.dPath = none then [h.fresh] else []

theorem getAbsolutePathByFd_spec (h : Heap) (answers : FileAnswers) :
    ∃ answer h', getAbsolutePathByFd h answers = .ok (answer, h') ∧ Touches [] h h' ∧
      (∀ p, answer = some p → NewText h h' p ∧ pathAt h' p = .ok answers.text) ∧
      (answer = none ↔ answers.dies = true) ∧
      Leaves (abandoned h answers ++ answer.toList) h h' := by
  obtain ⟨file, tmpRoom, dPath, pathRoom⟩ := answers
  unfold getAbsolutePathByFd kmalloc abandoned
  have nothing : ∀ ps, Leaves ps h h := fun ps => (Leaves.refl h).mono (List.nil_subset ps)
  have null : ∀ p, some NULL = some p → NewText h h p ∧ pathAt h p = .ok none := by
    intro p same
    cases same
    exact ⟨.inl rfl, rfl⟩
  cases file with
  | false => exact ⟨some NULL, h, rfl, .refl _ h, null, by simp [FileAnswers.dies], nothing _⟩
  | true =>
    cases tmpRoom with
    | false => exact ⟨some NULL, h, rfl, .refl _ h, null, by simp [FileAnswers.dies], nothing _⟩
    | true =>
      simp only [if_true]
      rw [if_neg (Nat.ne_of_gt h.freshReal)]
      cases dPath with
      | none =>
        exact ⟨none, _, rfl, .allocate h .chars, fun p same => by simp at same,
          by simp [FileAnswers.dies], by simpa using Leaves.allocate h .chars⟩
      | some text =>
        obtain ⟨p, h', copied, touches, new, leaves, freed, filled⟩ :=
          copyAndFree_spec (h.allocate .chars) h.fresh text pathRoom (Function.update_self ..)
        refine ⟨some p, h', ?_, touches.through, ?_, by simp [FileAnswers.dies],
          by simpa using leaves.through _ freed⟩
        · dsimp only
          rw [copied]
          rfl
        · intro q same
          rw [Option.some.injEq] at same
          rw [← same]
          refine ⟨new.through, filled.trans ?_⟩
          cases pathRoom with
          | false => rfl
          | true => rfl

/-- The part of `get_cache_by_fd` that asks the system. -/
theorem getFromSystem_effect (rep : KernelRep k records contents) (task : Task) (fd : Word)
    (answers : FileAnswers) (recordRoom nameRoom : Bool) :
    ∃ k' path contents', getFromSystem k task fd answers recordRoom nameRoom = .ok (k', path) ∧
      FdEffect k k' records contents contents' (k.recordOf task.pid) ∧
      ∀ b, Lost k' records contents' b →
        Lost k records contents b ∨ b ∈ abandoned k.heap answers := by
  obtain ⟨answer, h, found, touches, new, -, leaves⟩ := getAbsolutePathByFd_spec k.heap answers
  obtain ⟨effect₁, owned₁⟩ := (FdEffect.refl rep (k.recordOf task.pid)).heap touches (by simp)
    (by simp) (by simp)
  have lost₁ : ∀ b, Lost { k with heap := h } records contents b →
      Lost k records contents b ∨ b ∈ abandoned k.heap answers ++ answer.toList :=
    fun b lost => KernelRep.heap_lost owned₁ leaves lost
  unfold getFromSystem
  rw [found, ok_bind]
  dsimp only
  cases answer with
  | none =>
    refine ⟨_, NULL, contents, rfl, effect₁, fun b lost => ?_⟩
    simpa using lost₁ b lost
  | some path =>
    dsimp only
    by_cases null : path = NULL
    · rw [if_pos null]
      refine ⟨_, NULL, contents, rfl, effect₁, fun b lost => ?_⟩
      have real := Heap.live_ne_null (Option.ne_none_iff_exists'.mp lost.1).choose_spec
      refine (lost₁ b lost).imp_right fun inside => ?_
      simpa [null, real] using inside
    · obtain ⟨above, live⟩ := (new path rfl).1.resolve_left null
      obtain ⟨k₂, contents₂, inserted, effect₂, -, lost₂⟩ :=
        insertIntoCache_effect effect₁.rep task fd (some (h.chars path)) recordRoom nameRoom
      have live₂ : k₂.heap.kind path = some .chars := by
        rw [effect₂.kind path (Heap.live_lt_fresh live)]
        exact live
      have both := effect₁.trans effect₂
      obtain ⟨effect₃, owned₃⟩ := both.heap (Touches.release k₂.heap path)
        (by simpa using above) (by simpa using live₂) (by
          intro p member b inside same
          rw [List.mem_singleton] at same
          rw [same] at inside
          have before := effect₂.gained p member path inside (Heap.live_lt_fresh live)
          rw [owned₁ p member] at before
          exact Nat.not_lt_of_le above ((rep.each p member).owned_old before))
      obtain ⟨k₄, answer, contents₄, got, effect₄, -, lost₄⟩ :=
        getCacheByFdInternal_effect effect₃.rep task fd
      rw [effect₃.recordOf] at effect₄
      refine ⟨k₄, answer, contents₄, ?_, effect₃.trans effect₄, fun b lost => ?_⟩
      · rw [if_neg null, readChars_live live, ok_bind, inserted, ok_bind, kfree_live live₂, ok_bind,
          got]
      · -- the copy was freed, so it is none of the blocks that are live now
        have before := lost₄ b lost
        have other : b ≠ path := by
          rintro rfl
          exact before.1 (Function.update_self ..)
        have kept := (KernelRep.heap_lost owned₃ (Leaves.release k₂.heap path) before).resolve_right
          (by simp)
        rcases lost₁ b (lost₂ b kept) with old | inside
        · exact .inl old
        · right
          simpa [other] using inside

/-- The blocks that a lookup leaves behind: those of a task that dies in `d_path`. -/
def leftBehind (k : Kernel) (task : Task) (fd : Word) (answers : FileAnswers) : List Ptr :=
  match getCacheByFdInternal k task fd with
  | .ok (k, path) => if path = NULL then abandoned k.heap answers else []
  | .error _ => []

theorem getCacheByFd_effect (rep : KernelRep k records contents) (task : Task) (fd : Word)
    (answers : FileAnswers) (recordRoom nameRoom : Bool) :
    ∃ k' path contents', getCacheByFd k task fd answers recordRoom nameRoom = .ok (k', path) ∧
      FdEffect k k' records contents contents' (k.recordOf task.pid) ∧
      ∀ b, Lost k' records contents' b →
        Lost k records contents b ∨ b ∈ leftBehind k task fd answers := by
  obtain ⟨k₁, path, contents₁, got, effect, -, lost₁⟩ := getCacheByFdInternal_effect rep task fd
  unfold getCacheByFd leftBehind
  rw [got, ok_bind]
  dsimp only
  by_cases null : path = NULL
  · rw [if_pos null, if_pos null]
    obtain ⟨k₂, path₂, contents₂, ran, effect₂, lost₂⟩ :=
      getFromSystem_effect effect.rep task fd answers recordRoom nameRoom
    rw [effect.recordOf] at effect₂
    exact ⟨k₂, path₂, contents₂, ran, effect.trans effect₂, fun b lost =>
      (lost₂ b lost).imp_left (lost₁ b)⟩
  · rw [if_neg null, if_neg null]
    exact ⟨k₁, path, contents₁, rfl, effect, fun b lost => .inl (lost₁ b lost)⟩

end Calls

end SysMonitor.Source.Process
