import SysMonitor.Source.FdInvariant

/-!
# The array of the hot cache, part by part

Shifting, placing and finding in the array, each as a statement about the list of
records that the slots hold. The records of the circular list and of the full list are
only ever read here.
-/

namespace SysMonitor.Source.FdCache

variable {s : FdState} {p : Ptr} {i : Int}

/-- The state after a store into a live record. -/
def FdState.modify (s : FdState) (p : Ptr) (change : FileFdRecord → FileFdRecord) : FdState :=
  { s with heap := s.heap.modify p change }

@[simp] theorem FdState.modify_heap (s : FdState) (p : Ptr)
    (change : FileFdRecord → FileFdRecord) :
    (s.modify p change).heap = s.heap.modify p change := rfl

@[simp] theorem FdState.modify_area (s : FdState) (p : Ptr)
    (change : FileFdRecord → FileFdRecord) : (s.modify p change).area = s.area := rfl

theorem read_live (live : s.heap.kind p = some .fileFdRecord) :
    s.read p = .ok (s.heap.fileFdRecord p) := readRecord_live live

theorem write_live (live : s.heap.kind p = some .fileFdRecord)
    (change : FileFdRecord → FileFdRecord) :
    s.write p change = .ok (s.modify p change) := by
  rw [FdState.write, writeRecord_live live]; rfl

theorem readSlot_inside (below : 0 ≤ i) (above : i < HOT_FD_CACHE_SIZE) :
    s.readSlot i = .ok (s.area.hotFdCache i) := if_pos ⟨below, above⟩

theorem writeSlot_inside (below : 0 ≤ i) (above : i < HOT_FD_CACHE_SIZE) (p : Ptr) :
    s.writeSlot i p = .ok { s with area :=
      { s.area with hotFdCache := Function.update s.area.hotFdCache i p } } :=
  if_pos ⟨below, above⟩

theorem ASSERT_holds {condition : Prop} [Decidable condition] (holds : condition) :
    ASSERT condition = .ok () := if_pos holds

/-- One slot and one index change. -/
theorem place_spec (below : 0 ≤ i) (above : i < HOT_FD_CACHE_SIZE)
    (live : s.heap.kind p = some .fileFdRecord) :
    ∃ t, s.place i p = .ok t ∧ Slots t i [p] ∧ Shifted i (i + 1) [p] s t := by
  unfold FdState.place
  rw [writeSlot_inside below above p, ok_bind, write_live (by exact live)]
  refine ⟨_, rfl, ?_, ?_⟩
  · simp [Slots, Heap.modify_apply]
  · refine ⟨?_, ?_, ?_, rfl, ?_⟩ <;> dsimp only [FdState.modify]
    · refine Edits.modify s.heap p _ ?_ ?_ <;> intro r <;> rfl
    · refine linkFields_modify s.heap p ?_ ?_ <;> intro r <;> rfl
    · refine timeFields_modify s.heap p ?_ ?_ <;> intro r <;> rfl
    · intro j outside
      exact Function.update_of_ne (by omega) _ _

/-- The records of slots `i + 1` and on move one slot down, to a free slot `i`. -/
theorem shiftDown_spec (ps : List Ptr) (s : FdState) (i : Int) (slots : Slots s (i + 1) ps)
    (live : Live s.heap ps) (nodup : ps.Nodup) (below : 0 ≤ i)
    (above : i + ps.length < HOT_FD_CACHE_SIZE) :
    ∃ t, shiftDown s i ps.length = .ok t ∧ Slots t i ps ∧
      Shifted i (i + ps.length) ps s t := by
  induction ps generalizing s i with
  | nil => exact ⟨s, rfl, trivial, .refl _ _ _ s⟩
  | cons p ps ih =>
    rw [List.length_cons] at above ⊢
    obtain ⟨⟨slot, index⟩, rest⟩ := slots
    obtain ⟨fresh, nodup⟩ := List.nodup_cons.mp nodup
    have live_p := live p List.mem_cons_self
    obtain ⟨t, placed, slots_t, shifted⟩ := place_spec (s := s) below (by omega) live_p
    have rest_t : Slots t (i + 1 + 1) ps := shifted.keeps_others rest (.inr (by omega)) fresh
    have live_t : Live t.heap ps := by
      intro q member
      rw [shifted.edits.kind]
      exact live q (List.mem_cons_of_mem p member)
    obtain ⟨u, run, slots_u, shifted_u⟩ := ih t (i + 1) rest_t live_t nodup (by omega) (by omega)
    refine ⟨u, ?_, ⟨?_, slots_u⟩, ?_⟩
    · unfold shiftDown
      rw [readSlot_inside (by omega) (by omega), ok_bind, slot, read_live live_p, ok_bind,
        ASSERT_holds index.symm, ok_bind, placed, ok_bind, run]
    · have kept := shifted_u.keeps slots_t (.inl (by simp)) (by simpa using fresh)
      exact kept.1
    · refine (shifted.mono (Int.le_refl _) (by push_cast; omega) (by simp)).trans ?_
      exact shifted_u.mono (by omega) (by push_cast; omega) (List.subset_cons_self p ps)

/-- The records of slots `i` and on move one slot up, to a free slot behind them. -/
theorem shiftUp_spec (ps : List Ptr) (s : FdState) (i : Int) (slots : Slots s i ps)
    (live : Live s.heap ps) (nodup : ps.Nodup) (below : 0 ≤ i)
    (above : i + ps.length < HOT_FD_CACHE_SIZE) :
    ∃ t, shiftUp s (i + ps.length) ps.length = .ok t ∧ Slots t (i + 1) ps ∧
      Shifted (i + 1) (i + 1 + ps.length) ps s t := by
  induction ps using List.reverseRecOn generalizing s with
  | nil => exact ⟨s, rfl, trivial, .refl _ _ _ s⟩
  | append_singleton ps p ih =>
    have length : ((ps ++ [p]).length : Int) = ps.length + 1 := by simp
    have rounds : (ps ++ [p]).length = ps.length + 1 := by simp
    rw [length] at above ⊢
    rw [rounds]
    obtain ⟨init, ⟨⟨slot, index⟩, -⟩⟩ := (slots_append s i ps [p]).mp slots
    obtain ⟨nodup, -, apart⟩ := List.nodup_append.mp nodup
    have fresh : p ∉ ps := fun member => apart p member p (by simp) rfl
    have live_p := live p (by simp)
    have last : i + (↑ps.length + 1) - 1 = i + ps.length := by omega
    obtain ⟨t, placed, slots_t, shifted⟩ :=
      place_spec (s := s) (i := i + (ps.length + 1)) (by omega) above live_p
    have init_t : Slots t i ps := shifted.keeps_others init (.inl (by omega)) fresh
    have live_t : Live t.heap ps := by
      intro q member
      rw [shifted.edits.kind]
      exact live q (by simp [member])
    obtain ⟨u, run, slots_u, shifted_u⟩ := ih t init_t live_t nodup (by omega)
    refine ⟨u, ?_, ?_, ?_⟩
    · unfold shiftUp
      rw [last, readSlot_inside (by omega) (by omega), ok_bind, slot, read_live live_p, ok_bind,
        ASSERT_holds index.symm, ok_bind, placed, ok_bind, run]
    · rw [slots_append]
      refine ⟨slots_u, ?_⟩
      have shift : i + 1 + (ps.length : Int) = i + (ps.length + 1) := by omega
      rw [shift]
      exact shifted_u.keeps slots_t (.inr (by omega)) (by simpa using fresh)
    · refine (shifted.mono (by omega) (by omega) (by simp)).trans ?_
      exact shifted_u.mono (Int.le_refl _) (by omega) (List.subset_append_left ps [p])

section Find

variable {hot : List Ptr}

theorem hotFd_at (slots : Slots s 0 hot) (live : Live s.heap hot)
    (room : (hot.length : Int) ≤ HOT_FD_CACHE_SIZE) (j : Nat) (inside : j < hot.length) :
    hotFd s j = .ok (fdOf s.heap hot[j]) := by
  have slot := (slots_at slots j inside).1
  rw [Int.zero_add] at slot
  unfold hotFd
  rw [readSlot_inside (by omega) (by omega), ok_bind, slot,
    read_live (live _ (List.getElem_mem inside))]
  rfl

/-- The records of the hot cache, as its array. -/
theorem hot_recordArray (slots : Slots s 0 hot) (live : Live s.heap hot)
    (room : (hot.length : Int) ≤ HOT_FD_CACHE_SIZE)
    (sorted : hot.Pairwise fun p q => fdOf s.heap p ≤ fdOf s.heap q) :
    RecordArray s.readSlot (hotFd s) (fdOf s.heap) hot where
  slot j inside := by
    have slot := (slots_at slots j inside).1
    rw [Int.zero_add] at slot
    rw [readSlot_inside (by omega) (by omega), slot]
  fd := hotFd_at slots live room
  sorted := sorted

/-- `find_record_in_hot_cache`: a hot record with its slot, or none has the descriptor. -/
theorem findRecordInHotCache_spec (slots : Slots s 0 hot) (live : Live s.heap hot)
    (hotCount : s.area.hotCount = hot.length) (room : (hot.length : Int) ≤ HOT_FD_CACHE_SIZE)
    (sorted : hot.Pairwise fun p q => fdOf s.heap p ≤ fdOf s.heap q) (fd : Word) :
    (∃ left p right, hot = left ++ p :: right ∧ fdOf s.heap p = fd ∧
      findRecordInHotCache s fd = .ok (p, left.length)) ∨
    ((∀ p ∈ hot, fdOf s.heap p ≠ fd) ∧ findRecordInHotCache s fd = .ok (NULL, -1)) := by
  rw [findRecordInHotCache_eq, hotCount]
  exact (hot_recordArray slots live room sorted).findRecord fd

/-- `get_insert_index`: where the array is to be cut. -/
theorem getInsertIndex_spec (slots : Slots s 0 hot) (live : Live s.heap hot)
    (hotCount : s.area.hotCount = hot.length) (room : (hot.length : Int) ≤ HOT_FD_CACHE_SIZE)
    (sorted : hot.Pairwise fun p q => fdOf s.heap p ≤ fdOf s.heap q) (fd : Word) :
    ∃ left right, hot = left ++ right ∧ getInsertIndex s fd = .ok left.length ∧
      (∀ p ∈ left, fdOf s.heap p ≤ fd) ∧ ∀ p ∈ right, fd ≤ fdOf s.heap p := by
  rw [getInsertIndex_eq, hotCount]
  exact (hot_recordArray slots live room sorted).insertIndex fd

/-- The consistency check finds nothing. -/
theorem checkHot_spec (ps : List Ptr) (i : Int) (prev : Word) (slots : Slots s i ps)
    (live : Live s.heap ps) (below : 0 ≤ i) (above : i + ps.length ≤ HOT_FD_CACHE_SIZE)
    (lower : ∀ p ∈ ps, prev ≤ fdOf s.heap p)
    (sorted : ps.Pairwise fun p q => fdOf s.heap p ≤ fdOf s.heap q) :
    checkHot s i prev ps.length = .ok () := by
  induction ps generalizing i prev with
  | nil => rfl
  | cons p ps ih =>
    rw [List.length_cons] at above ⊢
    obtain ⟨⟨slot, index⟩, rest⟩ := slots
    obtain ⟨least, sorted⟩ := List.pairwise_cons.mp sorted
    unfold checkHot
    rw [readSlot_inside below (by omega), ok_bind, slot, read_live (live p List.mem_cons_self),
      ok_bind, ASSERT_holds index.symm, ok_bind, ASSERT_holds (lower p List.mem_cons_self), ok_bind]
    refine ih (i + 1) _ rest ?_ (by omega) (by omega) least sorted
    intro q member
    exact live q (List.mem_cons_of_mem p member)

end Find

end SysMonitor.Source.FdCache
