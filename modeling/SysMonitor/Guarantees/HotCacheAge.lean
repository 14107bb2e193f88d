import SysMonitor.Library.EvictingQueue
import SysMonitor.Guarantees.FdRepresentation

/-!
# The hot cache evicts in the order of placement

The circular list from `hot_fd_head` along `time_next` is a bounded queue, youngest first. An
insert and the promotion of a cold record place one in front, a full cache loses the last one,
and a delete takes its record out of the middle.
-/

namespace SysMonitor.Guarantees.HotCacheAge
open SysMonitor.Library SysMonitor.Library.LinkedRing SysMonitor.Source
open SysMonitor.Source.FdCache SysMonitor.Guarantees.FdRepresentation

/-- The records from `p` along `time_next` until it comes back to the head. -/
def readTimes (h : Heap) (head : Ptr) : Nat → Ptr → Except Fault (List Ptr)
  | 0, _ => .error .diverged
  | rounds + 1, p => do
    let r ← readRecord h p
    if r.timeNext = head then return [p]
    else do
      let older ← readTimes h head rounds r.timeNext
      return p :: older

/-- The time list of a process record, from `hot_fd_head` on. -/
def timeList (s : FdState) : Except Fault (List Ptr) :=
  if s.area.hotFdHead = NULL then .ok []
  else readTimes s.heap s.area.hotFdHead (s.heap.fresh + 1) s.area.hotFdHead

/-- The records in the array. -/
def hotRecords (s : FdState) : List Ptr :=
  (List.range s.area.hotCount.toNat).map fun (i : Nat) => s.area.hotFdCache i

/-- What an operation does to the hot cache: a new record and a cold one that is looked up are
placed, a hot one that is deleted is removed, and a hot hit changes nothing. -/
def queueEvent (s : FdState) : FdCall → Except Fault (QueueEvent Ptr)
  | .insert _ path recordRoom nameRoom =>
    .ok (if path.isSome && recordRoom && nameRoom then .place s.heap.fresh else .keep)
  | .get fd => do
    let (hot, _) ← findRecordInHotCache s fd
    let listed ← findRecordInLink s fd
    return if hot = NULL ∧ listed ≠ NULL then .place listed else .keep
  | .delete fd => do
    let (hot, _) ← findRecordInHotCache s fd
    return if hot = NULL then .keep else .remove hot

abbrev AgeQueue := EvictingQueue Ptr HOT_FD_CACHE_SIZE.toNat

section Reading

variable {s : FdState} {c : Contents}

/-- The walk from any node of the circular list. -/
theorem readTimes_ring {h : Heap} {p : Ptr} {ps : List Ptr} (ring : Ring (timeFields h) NULL p ps)
    (live : Live h (p :: ps)) {rounds : Nat} {before rest : List Ptr} {x : Ptr}
    (split : p :: ps = before ++ x :: rest) (enough : rest.length < rounds) :
    readTimes h p rounds x = .ok (x :: rest) := by
  induction rest generalizing before x rounds with
  | nil =>
    obtain ⟨rounds, rfl⟩ := Nat.exists_eq_succ_of_ne_zero (Nat.ne_of_gt enough)
    have live_x := live x (by rw [split]; simp)
    have next : (h.fileFdRecord x).timeNext = p := ring.next_eq split (Heap.live_ne_null live_x)
    rw [readTimes, readRecord_live live_x, ok_bind, next, if_pos rfl]
    rfl
  | cons y rest ih =>
    obtain ⟨rounds, rfl⟩ := Nat.exists_eq_succ_of_ne_zero (Nat.ne_of_gt (Nat.zero_lt_of_lt enough))
    have live_x := live x (by rw [split]; simp)
    have next : (h.fileFdRecord x).timeNext = y := ring.next_eq split (Heap.live_ne_null live_x)
    -- the start is met only once
    have other : y ≠ p := by
      rintro rfl
      have inside : y ∈ ps := by cases before <;> cases split <;> simp
      exact (List.nodup_cons.mp ring.nodup).1 inside
    have later : readTimes h p rounds y = .ok (y :: rest) :=
      @ih rounds (before ++ [x]) y (by rw [split]; simp) (Nat.lt_of_succ_lt_succ enough)
    rw [readTimes, readRecord_live live_x, ok_bind, next, if_neg other, later]
    rfl

/-- The time list of a well-formed cache is read through and comes back to its head. -/
theorem timeList_eq (rep : Represents s c) : timeList s = .ok c.age := by
  have ring := rep.hot.ring
  have live : Live s.heap c.age := fun x inside => rep.hot.live x (rep.hot.same.mem_iff.mp inside)
  unfold timeList
  cases age : c.age with
  | nil =>
    rw [age] at ring
    exact if_pos ring
  | cons p ps =>
    rw [age] at ring live
    have real := Heap.live_ne_null (live p List.mem_cons_self)
    have old : ∀ x ∈ p :: ps, x < s.heap.fresh := fun x inside => Heap.live_lt_fresh (live x inside)
    have nodup : (NULL :: p :: ps).Nodup :=
      List.nodup_cons.mpr ⟨fun null => Heap.live_ne_null (live NULL null) rfl, ring.2.nodup⟩
    have short : ps.length < s.heap.fresh + 1 := by
      have := link_short old nodup
      rw [List.length_cons] at this
      omega
    rw [ring.1, if_neg real]
    exact readTimes_ring ring.2 live (List.nil_append _).symm short

theorem hotRecords_eq (rep : Represents s c) : hotRecords s = c.hot := by
  have count := rep.hot.count
  refine List.ext_getElem ?_ fun i _ inside => ?_
  · rw [hotRecords, List.length_map, List.length_range]
    omega
  · have slot := (slots_at rep.hot.slots i inside).1
    rw [Int.zero_add] at slot
    simp only [hotRecords, List.getElem_map, List.getElem_range, slot]

end Reading

section Step

variable {s : FdState} {c : Contents} {q : AgeQueue}

/-- An operation that went through as this event of the queue. -/
structure Takes (s : FdState) (call : FdCall) (c : Contents) (t : FdState) (answer : FdAnswer)
    (event : QueueEvent Ptr) : Prop where
  ran : fdStep s call = .ok (t, answer)
  seen : queueEvent s call = .ok event
  placed : ∀ x, event = .place x → x ∉ c.age
  kept : ∀ q : AgeQueue, q.items = c.age → ∃ c', Represents t c' ∧ c'.age = (q.apply event).items

theorem keep_places_none (c : Contents) (x : Ptr) (placed : QueueEvent.keep = .place x) :
    x ∉ c.age := by
  cases placed

theorem remove_places_none (c : Contents) (y x : Ptr) (placed : QueueEvent.remove y = .place x) :
    x ∉ c.age := by
  cases placed

theorem insert_takes (rep : Represents s c) (fd : Word) (path : Option CString)
    (recordRoom nameRoom : Bool) :
    ∃ t answer event, Takes s (.insert fd path recordRoom nameRoom) c t answer event := by
  rcases insert_cases path recordRoom nameRoom with short | ⟨text, rfl, rfl, rfl⟩
  · obtain ⟨h, ran, -, preserves⟩ := fdStep_insert_fails s fd path recordRoom nameRoom short
    have stores : (path.isSome && recordRoom && nameRoom) = false := by
      rcases short with rfl | full
      · rfl
      · rw [Bool.and_assoc, full, Bool.and_false]
    refine ⟨_, .inserted, .keep, ran, ?_, keep_places_none c, fun q same => ?_⟩
    · rw [queueEvent, stores]
      rfl
    · exact ⟨c, rep.preserved rfl preserves, same.symm⟩
  · obtain ⟨t, c', ran, rep_t, -, age, -⟩ := insertIntoCache_succeeds rep fd text
    refine ⟨t, .inserted, .place s.heap.fresh, ?_, rfl, ?_, fun q same => ⟨c', rep_t, ?_⟩⟩
    · rw [fdStep, ran]
      rfl
    · rintro x same inside
      cases same
      exact Nat.lt_irrefl _ (Heap.live_lt_fresh (rep.hot.live _ (rep.hot.same.mem_iff.mp inside)))
    · rw [age, ← same]
      rfl

theorem get_takes (rep : Represents s c) (fd : Word) :
    ∃ t answer event, Takes s (.get fd) c t answer event := by
  have walked := findRecordInLink_spec rep.link.head rep.link.ring rep.link.live fd
  rcases lookup_spec rep fd with ⟨left, x, right, cut, same, real, found⟩ | ⟨absent, found, -⟩
  · have inside : x ∈ c.hot := by simp [cut]
    have got := getCacheByFdInternal_hot rep inside found
    refine ⟨s, .path (some (pathOf s.heap x)), .keep, ?_, ?_, keep_places_none c,
      fun q same => ⟨c, rep, same.symm⟩⟩
    · rw [fdStep, got, ok_bind]
      dsimp only
      rw [pathAt_name rep (rep.within inside) (.refl _ _)]
      rfl
    · rw [queueEvent, found, ok_bind]
      dsimp only
      rw [walked, ok_bind, if_neg fun both => real both.1]
      rfl
  · rcases getCacheByFdInternal_spec rep fd with
      ⟨t, c', x, got, rep_t, only, chosen, -, age⟩ | ⟨got, none'⟩
    · have cold : x ∉ c.hot := fun inside => absent x inside chosen.1
      have newest := chosen.2.2 cold
      have real := Heap.live_ne_null (rep.link.live x chosen.2.1)
      refine ⟨t, .path (some (pathOf s.heap x)), .place x, ?_, ?_, ?_, fun q same => ⟨c', rep_t, ?_⟩⟩
      · rw [fdStep, got, ok_bind]
        dsimp only
        rw [pathAt_name rep chosen.2.1 only.edits]
        rfl
      · rw [queueEvent, found, ok_bind]
        dsimp only
        rw [walked, newest, ok_bind, Option.getD_some, if_pos ⟨rfl, real⟩]
        rfl
      · rintro y placed inside
        cases placed
        exact cold (rep.hot.same.mem_iff.mp inside)
      · rw [age, if_neg cold, ← same]
        rfl
    · have unlisted : c.link.find? (fun q => fdOf s.heap q = fd) = none := by simpa using none'
      refine ⟨s, .path none, .keep, ?_, ?_, keep_places_none c, fun q same => ⟨c, rep, same.symm⟩⟩
      · rw [fdStep, got]
        rfl
      · rw [queueEvent, found, ok_bind]
        dsimp only
        rw [walked, unlisted, ok_bind, Option.getD_none, if_neg fun both => both.2 rfl]
        rfl

theorem delete_takes (rep : Represents s c) (fd : Word) :
    ∃ t answer event, Takes s (.delete fd) c t answer event := by
  rcases lookup_spec rep fd with ⟨left, x, right, cut, same, real, found⟩ | ⟨absent, found, -⟩
  · have inside : x ∈ c.hot := by simp [cut]
    obtain ⟨t, c', deleted, rep_t, -, -, age⟩ := delete_found rep (rep.within inside) true
      (findForDelete_hot real found) (fun _ => ⟨left, right, cut, rfl⟩) (by simp)
    refine ⟨t, .deleted true, .remove x, ?_, ?_, remove_places_none c x,
      fun q same => ⟨c', rep_t, ?_⟩⟩
    · rw [fdStep, deleteCacheByFd, deleted]
      rfl
    · rw [queueEvent, found, ok_bind]
      dsimp only
      rw [if_neg real]
      rfl
    · rw [age, ← same]
      rfl
  · have seen : queueEvent s (.delete fd) = .ok .keep := by
      rw [queueEvent, found]
      rfl
    rcases deleteFromRecord_spec rep fd with
      ⟨t, c', x, deleted, rep_t, -, chosen, -, age⟩ | ⟨deleted, -⟩
    · have cold : x ∉ c.age := fun inside =>
        absent x (rep.hot.same.mem_iff.mp inside) chosen.1
      refine ⟨t, .deleted true, .keep, ?_, seen, keep_places_none c, fun q same => ⟨c', rep_t, ?_⟩⟩
      · rw [fdStep, deleteCacheByFd, deleted]
        rfl
      · rw [age, List.erase_of_not_mem cold, ← same]
        rfl
    · refine ⟨s, .deleted false, .keep, ?_, seen, keep_places_none c,
        fun q same => ⟨c, rep, same.symm⟩⟩
      rw [fdStep, deleteCacheByFd, deleted]
      rfl

theorem fdStep_takes (rep : Represents s c) (call : FdCall) :
    ∃ t answer event, Takes s call c t answer event := by
  cases call with
  | insert fd path recordRoom nameRoom => exact insert_takes rep fd path recordRoom nameRoom
  | get fd => exact get_takes rep fd
  | delete fd => exact delete_takes rep fd

end Step

/-- The queue is what the time list reads, and its members are the records in the array. -/
structure Aged (s : FdState) (q : AgeQueue) : Prop where
  reads : timeList s = .ok q.items
  same : q.items.Perm (hotRecords s)
  nodup : q.items.Nodup

/-- What an event of the queue may do to its members. -/
structure Orderly (q : AgeQueue) (event : QueueEvent Ptr) : Prop where
  /-- Only a delete and an eviction take a record away, and only the oldest of a full cache is
  evicted. -/
  oldest : ∀ y ∈ q.items, y ∉ (q.apply event).items → event = .remove y ∨
    ∃ x, event = .place x ∧ q.items.length = HOT_FD_CACHE_SIZE ∧ q.items.getLast? = some y
  /-- A record is placed that is not hot, and is the youngest then. -/
  placed : ∀ x, event = .place x → x ∉ q.items ∧ (q.apply event).items.head? = some x
  younger : ∀ x, event = .place x → ∀ y z, [y, z].Sublist q.items → y ∈ (q.apply event).items

/-- An operation is one event of the queue. -/
def StepsQueue (s : FdState) (call : FdCall) (t : FdState) (_ : FdAnswer) : Prop :=
  ∃ q event, Aged s q ∧ queueEvent s call = .ok event ∧ Aged t (q.apply event) ∧ Orderly q event

/-- The events of a run. -/
def queueEvents (s : FdState) : List FdCall → Except Fault (List (QueueEvent Ptr))
  | [] => .ok []
  | call :: calls => do
    let event ← queueEvent s call
    let (t, _) ← fdStep s call
    let later ← queueEvents t calls
    return event :: later

section Runs

variable {s : FdState} {c : Contents} {q : AgeQueue}

theorem aged_of (rep : Represents s c) (same : q.items = c.age) : Aged s q := by
  have perm : q.items.Perm c.hot := by
    rw [same]
    exact rep.hot.same
  refine ⟨?_, ?_, perm.nodup_iff.mpr rep.hot.nodup⟩
  · rw [same]
    exact timeList_eq rep
  · rw [hotRecords_eq rep]
    exact perm

theorem orderly_of {event : QueueEvent Ptr} (cold : ∀ x, event = .place x → x ∉ q.items) :
    Orderly q event := by
  have room : 0 < HOT_FD_CACHE_SIZE.toNat := by decide
  refine ⟨fun y inside gone => ?_, ?_, ?_⟩
  · rcases q.gone_cases room event inside gone with removed | ⟨x, placed, full, oldest⟩
    · exact .inl removed
    · exact .inr ⟨x, placed, by rw [full]; rfl, oldest⟩
  · rintro x rfl
    exact ⟨cold x rfl, q.place_head x room⟩
  · rintro x rfl y z before
    exact q.place_keeps x room before

/-- One operation on a cache whose queue is known. -/
theorem fdStep_queue (rep : Represents s c) (same : q.items = c.age) (call : FdCall) :
    ∃ t answer event c', fdStep s call = .ok (t, answer) ∧ queueEvent s call = .ok event ∧
      StepsQueue s call t answer ∧ Represents t c' ∧ (q.apply event).items = c'.age := by
  obtain ⟨t, answer, event, ran, seen, cold, kept⟩ := fdStep_takes rep call
  obtain ⟨c', rep', age⟩ := kept q same
  refine ⟨t, answer, event, c', ran, seen, ?_, rep', age.symm⟩
  refine ⟨q, event, aged_of rep same, seen, aged_of rep' age.symm, orderly_of ?_⟩
  rw [same]
  exact cold

/-- A run from a cache whose queue is known. -/
theorem run_queue (calls : List FdCall) (rep : Represents s c) (same : q.items = c.age) :
    ∃ t answers events, run fdStep s calls = .ok (t, answers) ∧
      queueEvents s calls = .ok events ∧ Aged t (events.foldl EvictingQueue.apply q) ∧
      EveryStep fdStep StepsQueue s calls := by
  induction calls generalizing s c q with
  | nil => exact ⟨s, [], [], rfl, rfl, aged_of rep same, trivial⟩
  | cons call calls ih =>
    obtain ⟨t, answer, event, c', ran, seen, steps, rep', same'⟩ := fdStep_queue rep same call
    obtain ⟨u, answers, events, ran_later, seen_later, aged, every⟩ := ih rep' same'
    refine ⟨u, answer :: answers, event :: events, run_cons_ok ran ran_later, ?_, aged, ?_⟩
    · rw [queueEvents, seen, ok_bind, ran, ok_bind]
      dsimp only
      rw [seen_later]
      rfl
    · rw [EveryStep, ran]
      exact ⟨steps, every⟩

end Runs

/-- In every run from `fd_cache_initize` the time list is the queue of the records that were
placed, and every operation is one of its steps. -/
theorem hot_cache_fifo (h : Heap) (filename : Ptr) (s : FdState)
    (started : fdCacheInitize h filename = .ok s) (calls : List FdCall) :
    ∃ t answers events, run fdStep s calls = .ok (t, answers) ∧
      queueEvents s calls = .ok events ∧
      Aged t (events.foldl EvictingQueue.apply EvictingQueue.empty) ∧
      EveryStep fdStep StepsQueue s calls :=
  run_queue calls (initized_represents started) rfl

/-- Seventeen descriptors, the first of which is evicted, looked up and deleted. -/
def evicting : List FdCall :=
  (List.range 17).map (fun (i : Nat) => .insert (BitVec.ofNat 32 i) (some .empty) true true)
    ++ [.get 5, .get 0, .delete 9, .get 9]

theorem hot_cache_fifo_evicting :
    ∃ t answers events, run fdStep unnamed evicting = .ok (t, answers) ∧
      queueEvents unnamed evicting = .ok events ∧
      Aged t (events.foldl EvictingQueue.apply EvictingQueue.empty) ∧
      EveryStep fdStep StepsQueue unnamed evicting :=
  hot_cache_fifo Heap.unused NULL unnamed rfl evicting

end SysMonitor.Guarantees.HotCacheAge
