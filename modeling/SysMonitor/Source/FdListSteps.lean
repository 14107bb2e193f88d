import Mathlib.Data.List.Perm.Subperm
import SysMonitor.Source.HotCacheSteps

/-!
# The two linked lists of the fd cache, part by part

Taking a record out of a ring and putting one in, on the time fields and on the link
fields. What the stores do to a ring is `Ring.remove` and `Ring.insert`; what is left is
to follow the pointers and to name the neighbours.
-/

namespace SysMonitor.Source.FdCache
open SysMonitor.Library.LinkedRing

/-- Only time fields of `ps` changed. -/
structure Retimed (ps : List Ptr) (s s' : FdState) : Prop where
  edits : Edits ps s.heap s'.heap
  links : linkFields s'.heap = linkFields s.heap
  index : ∀ p, (s'.heap.fileFdRecord p).hotIndex = (s.heap.fileFdRecord p).hotIndex
  area : s'.area = s.area

/-- Only link fields of `ps` and the head of the list changed. -/
structure Relinked (ps : List Ptr) (s s' : FdState) : Prop where
  edits : Edits ps s.heap s'.heap
  times : timeFields s'.heap = timeFields s.heap
  index : ∀ p, (s'.heap.fileFdRecord p).hotIndex = (s.heap.fileFdRecord p).hotIndex
  area : s'.area = { s.area with fileFdHead := s'.area.fileFdHead }

theorem Retimed.trans {ps : List Ptr} {s t u : FdState} (first : Retimed ps s t)
    (second : Retimed ps t u) : Retimed ps s u where
  edits := first.edits.trans second.edits
  links := second.links.trans first.links
  index p := (second.index p).trans (first.index p)
  area := second.area.trans first.area

theorem Relinked.trans {ps : List Ptr} {s t u : FdState} (first : Relinked ps s t)
    (second : Relinked ps t u) : Relinked ps s u where
  edits := first.edits.trans second.edits
  times := second.times.trans first.times
  index p := (second.index p).trans (first.index p)
  area := by rw [second.area, first.area]

section Stores

variable {ps : List Ptr} {p : Ptr} {change : FileFdRecord → FileFdRecord}

/-- A store into the time fields. -/
theorem Retimed.store (s : FdState) (member : p ∈ ps)
    (only : ∀ r, change r = { r with timePrev := (change r).timePrev,
                                     timeNext := (change r).timeNext }) :
    Retimed ps s (s.modify p change) where
  edits := by
    refine (Edits.modify s.heap p change ?_ ?_).mono (by simpa using member)
    · intro r; rw [only r]
    · intro r; rw [only r]
  links := by
    refine linkFields_modify s.heap p ?_ ?_
    · intro r; rw [only r]
    · intro r; rw [only r]
  index q := by
    apply field_modify s.heap p q FileFdRecord.hotIndex
    intro r; rw [only r]
  area := rfl

/-- A store into the link fields. -/
theorem Relinked.store (s : FdState) (member : p ∈ ps)
    (only : ∀ r, change r = { r with prev := (change r).prev, next := (change r).next }) :
    Relinked ps s (s.modify p change) where
  edits := by
    refine (Edits.modify s.heap p change ?_ ?_).mono (by simpa using member)
    · intro r; rw [only r]
    · intro r; rw [only r]
  times := by
    refine timeFields_modify s.heap p ?_ ?_
    · intro r; rw [only r]
    · intro r; rw [only r]
  index q := by
    apply field_modify s.heap p q FileFdRecord.hotIndex
    intro r; rw [only r]
  area := rfl

end Stores

theorem getLastD_mem (a : Ptr) (xs : List Ptr) : xs.getLastD a ∈ a :: xs := by
  rcases List.eq_nil_or_concat xs with rfl | ⟨init, last, rfl⟩
  · simp
  · simp [List.getLastD_eq_getLast?]

theorem headD_mem (a : Ptr) (xs : List Ptr) : xs.headD a ∈ a :: xs := by
  cases xs with
  | nil => simp
  | cons x xs => simp

section Times

variable {s : FdState} {a o p : Ptr} {xs ys age : List Ptr}

/-- A record leaves the circular list. -/
theorem unlinkTime_spec (ring : Ring (timeFields s.heap) NULL a (xs ++ o :: ys))
    (live : Live s.heap (a :: (xs ++ o :: ys))) :
    ∃ t, unlinkTime s o = .ok t ∧ Ring (timeFields t.heap) NULL a (xs ++ ys) ∧
      Retimed (a :: (xs ++ ys)) s t := by
  obtain ⟨⟨-, prev_o⟩, ⟨next_o, -⟩⟩ := ring.neighbours
  obtain ⟨front, front_eq⟩ : ∃ front, front = xs.getLastD a := ⟨_, rfl⟩
  obtain ⟨back, back_eq⟩ : ∃ back, back = ys.headD a := ⟨_, rfl⟩
  have front_mem : front ∈ a :: xs := front_eq ▸ getLastD_mem a xs
  have back_mem : back ∈ a :: ys := back_eq ▸ headD_mem a ys
  simp only [List.mem_cons] at front_mem back_mem
  have live_o := live o (by simp)
  have live_front := live front (by simp; tauto)
  have live_back := live back (by simp; tauto)
  have prev_o : (s.heap.fileFdRecord o).timePrev = front :=
    front_eq ▸ prev_o (Heap.live_ne_null live_o)
  have next_o : (s.heap.fileFdRecord o).timeNext = back :=
    back_eq ▸ next_o (Heap.live_ne_null live_o)
  have apart : o ∉ a :: xs := by
    have nodup := ring.nodup
    rw [← List.cons_append, List.nodup_append] at nodup
    exact fun member => nodup.2.2 o member o (by simp) rfl
  have other : o ≠ front := by
    rintro rfl
    simp_all
  unfold unlinkTime
  rw [read_live live_o, ok_bind, prev_o, next_o, write_live live_front, ok_bind,
    read_live (by exact live_o), ok_bind]
  simp only [FdState.modify_heap, timePrev_modify, timeNext_modify, if_neg other, prev_o, next_o]
  rw [write_live (by exact live_back)]
  refine ⟨_, rfl, ?_, ?_⟩
  · refine ring.remove front_eq back_eq ?_ ?_ ?_ ?_
    · intro _
      simp only [timeFields, FdState.modify_heap, timeNext_modify]
      split <;> simp_all
    · intro _
      simp [timeFields, timePrev_modify]
    · intro y _ not_front
      simp only [timeFields, FdState.modify_heap, timeNext_modify, if_neg not_front]
      split <;> simp_all
    · intro y _ not_back
      simp only [timeFields, FdState.modify_heap, timePrev_modify, if_neg not_back]
      split <;> simp_all
  · refine (Retimed.store s ?_ fun r => rfl).trans (.store _ ?_ fun r => rfl)
    · simp; tauto
    · simp; tauto

/-- The head of a circular list and its neighbours agree. -/
theorem assertLinked_spec (ring : AgeRing s.heap s.area.hotFdHead (a :: xs))
    (live : Live s.heap (a :: xs)) : assertLinked s = .ok () := by
  obtain ⟨head, ring⟩ := ring
  obtain ⟨⟨next_a, prev_back⟩, ⟨next_front, prev_a⟩⟩ := ring.ends
  have live_a := live a List.mem_cons_self
  have live_front := live _ (getLastD_mem a xs)
  have live_back := live _ (headD_mem a xs)
  have next_a := next_a (Heap.live_ne_null live_a)
  have prev_a := prev_a (Heap.live_ne_null live_a)
  have next_front := next_front (Heap.live_ne_null live_front)
  have prev_back := prev_back (Heap.live_ne_null live_back)
  simp only [timeFields] at next_a prev_a next_front prev_back
  unfold assertLinked
  rw [head, read_live live_a, ok_bind, prev_a, read_live live_front, ok_bind, next_front,
    ASSERT_holds rfl, ok_bind, next_a, read_live live_back, ok_bind, prev_back, ASSERT_holds rfl]

/-- A record becomes the youngest of the circular list. -/
theorem linkTime_spec (ring : AgeRing s.heap s.area.hotFdHead age) (live : Live s.heap age)
    (live_p : s.heap.kind p = some .fileFdRecord) (new : p ∉ age) :
    ∃ t, linkTime s p = .ok t ∧ AgeRing t.heap p (p :: age) ∧ Retimed (p :: age) s t := by
  have real := Heap.live_ne_null live_p
  cases age with
  | nil =>
    have empty : s.area.hotFdHead = NULL := ring
    unfold linkTime
    rw [if_pos empty, write_live live_p, ok_bind, write_live (by exact live_p)]
    refine ⟨_, rfl, ⟨rfl, ⟨?_, by simp⟩⟩, ?_⟩
    · simp [Link, timeFields, timeNext_modify, timePrev_modify]
    · exact (Retimed.store s (by simp) fun r => rfl).trans (.store _ (by simp) fun r => rfl)
  | cons a xs =>
    have asserted := assertLinked_spec ring live
    obtain ⟨head, ring⟩ := ring
    obtain ⟨-, ⟨-, prev_a⟩⟩ := ring.ends
    obtain ⟨front, front_eq⟩ : ∃ front, front = xs.getLastD a := ⟨_, rfl⟩
    have front_mem : front ∈ a :: xs := front_eq ▸ getLastD_mem a xs
    have live_a := live a List.mem_cons_self
    have live_front := live front front_mem
    have prev_a : (s.heap.fileFdRecord a).timePrev = front :=
      front_eq ▸ prev_a (Heap.live_ne_null live_a)
    have not_a : a ≠ p := fun same => new (same ▸ List.mem_cons_self)
    have not_front : p ≠ front := fun same => new (same ▸ front_mem)
    unfold linkTime
    simp only [head]
    rw [if_neg (Heap.live_ne_null live_a), asserted, ok_bind, read_live live_a, ok_bind,
      write_live live_p, ok_bind, write_live (by exact live_p), ok_bind]
    simp only [FdState.modify_area, head]
    rw [read_live (by exact live_a), ok_bind]
    simp only [FdState.modify_heap, timePrev_modify, if_neg not_a, prev_a]
    rw [write_live (by exact live_front), ok_bind]
    simp only [FdState.modify_area, head]
    rw [write_live (by exact live_a)]
    refine ⟨_, rfl, ⟨rfl, ?_⟩, ?_⟩
    · apply Ring.rotate_back
      have ring' : Ring (timeFields s.heap) NULL a (xs ++ []) := by simpa using ring
      refine ring'.insert (by simpa using new) front_eq rfl ?_ ?_ ?_ ?_ ?_ ?_
      · simp [timeFields, timeNext_modify, not_a.symm, not_front]
      · simp [timeFields, timePrev_modify, not_a.symm, not_front]
      · intro _
        simp only [timeFields, FdState.modify_heap, timeNext_modify]
        by_cases same : front = a
        · rw [if_pos same, if_pos same.symm]
        · rw [if_neg same, if_pos trivial]
      · intro _
        simp [timeFields, timePrev_modify]
      · intro y member not_last
        have not_p : y ≠ p := by rintro rfl; simp_all
        simp only [timeFields, FdState.modify_heap, timeNext_modify, if_neg not_last,
          if_neg not_p]
        split <;> simp_all
      · intro y member not_head
        have not_p : y ≠ p := by rintro rfl; simp_all
        have not_head : y ≠ a := not_head
        simp only [timeFields, FdState.modify_heap, timePrev_modify, if_neg not_head,
          if_neg not_p]
        split <;> simp_all
    · have here : p ∈ p :: a :: xs := List.mem_cons_self
      have front_in : front ∈ p :: a :: xs := List.mem_cons_of_mem p front_mem
      have head_in : a ∈ p :: a :: xs := by simp
      exact (((Retimed.store s here fun r => rfl).trans (.store _ here fun r => rfl)).trans
        (.store _ front_in fun r => rfl)).trans (.store _ head_in fun r => rfl)

end Times

section Links

variable {s : FdState} {x : Ptr} {xs ys link : List Ptr}

/-- Distinct blocks that exist are fewer than the addresses in use. -/
theorem link_short {h : Heap} (old : ∀ p ∈ link, p < h.fresh) (nodup : (NULL :: link).Nodup) :
    link.length < h.fresh := by
  have within : NULL :: link ⊆ List.range h.fresh := by
    intro p member
    rw [List.mem_range]
    rcases List.mem_cons.mp member with rfl | member
    · exact h.freshReal
    · exact old p member
  have length := (List.Nodup.subperm nodup within).length_le
  rw [List.length_cons, List.length_range] at length
  exact length

/-- The walk answers the first record with the descriptor. -/
theorem searchLink_spec {h : Heap} (ring : Ring (linkFields h) NULL NULL link)
    (live : Live h link) (fd : Word) (done rest : List Ptr) (split : link = done ++ rest)
    (rounds : Nat) (enough : rest.length < rounds) :
    searchLink h fd rounds (rest.headD NULL)
      = .ok ((rest.find? fun p => fdOf h p = fd).getD NULL) := by
  induction rest generalizing done rounds with
  | nil =>
    cases rounds with
    | zero => simp at enough
    | succ rounds => simp [searchLink]
  | cons p rest ih =>
    cases rounds with
    | zero => simp at enough
    | succ rounds =>
      have live_p := live p (by simp [split])
      rw [split] at ring
      obtain ⟨-, ⟨next_p, -⟩⟩ := ring.neighbours
      have next_p : (h.fileFdRecord p).next = rest.headD NULL :=
        next_p (Heap.live_ne_null live_p)
      unfold searchLink
      rw [List.headD_cons, if_neg (Heap.live_ne_null live_p), readRecord_live live_p, ok_bind]
      by_cases here : fdOf h p = fd
      · rw [if_pos here, List.find?_cons_of_pos (by simpa using here), Option.getD_some]
        rfl
      · rw [if_neg here, List.find?_cons_of_neg (by simpa using here), next_p]
        exact ih (done ++ [p]) (by simp [split]) rounds (by simpa using enough)

/-- `find_record_in_link` -/
theorem findRecordInLink_spec (head : s.area.fileFdHead = link.headD NULL)
    (ring : Ring (linkFields s.heap) NULL NULL link) (live : Live s.heap link) (fd : Word) :
    findRecordInLink s fd = .ok ((link.find? fun p => fdOf s.heap p = fd).getD NULL) := by
  unfold findRecordInLink
  rw [head]
  apply searchLink_spec ring live fd [] link rfl _
  refine Nat.lt_succ_of_lt (link_short ?_ ring.nodup)
  exact fun p member => Heap.live_lt_fresh (live p member)

theorem setPrev_spec (s : FdState) (p prev : Ptr) (ps : List Ptr)
    (live : p ≠ NULL → p ∈ ps ∧ s.heap.kind p = some .fileFdRecord) :
    ∃ t, setPrev s p prev = .ok t ∧ Relinked ps s t ∧ t.area = s.area ∧
      (p ≠ NULL → (linkFields t.heap).prev p = prev) ∧
      (∀ y, y ≠ p → (linkFields t.heap).prev y = (linkFields s.heap).prev y) ∧
      ∀ y, (linkFields t.heap).next y = (linkFields s.heap).next y := by
  unfold setPrev
  by_cases null : p = NULL
  · rw [if_pos null]
    exact ⟨s, rfl, ⟨.refl ps s.heap, rfl, fun _ => rfl, rfl⟩, rfl, fun real => absurd null real,
      fun _ _ => rfl, fun _ => rfl⟩
  · rw [if_neg null, write_live (live null).2]
    refine ⟨_, rfl, .store s (live null).1 fun r => rfl, rfl, ?_, ?_, ?_⟩
    · intro _
      simp [linkFields, prev_modify]
    · intro y other
      simp [linkFields, prev_modify, other]
    · intro y
      simp only [linkFields, FdState.modify_heap, next_modify]
      split <;> simp_all

/-- A record leaves the full list, whether it is the head or not. -/
theorem unlinkRecord_spec (head : s.area.fileFdHead = (xs ++ x :: ys).headD NULL)
    (ring : Ring (linkFields s.heap) NULL NULL (xs ++ x :: ys))
    (live : Live s.heap (xs ++ x :: ys)) :
    ∃ t, unlinkRecord s x = .ok t ∧ Ring (linkFields t.heap) NULL NULL (xs ++ ys) ∧
      t.area.fileFdHead = (xs ++ ys).headD NULL ∧ Relinked (xs ++ ys) s t := by
  obtain ⟨⟨-, link_prev⟩, ⟨link_next, -⟩⟩ := ring.neighbours
  obtain ⟨front, front_eq⟩ : ∃ front, front = xs.getLastD NULL := ⟨_, rfl⟩
  obtain ⟨back, back_eq⟩ : ∃ back, back = ys.headD NULL := ⟨_, rfl⟩
  have live_x := live x (by simp)
  have prev_x : (s.heap.fileFdRecord x).prev = front :=
    front_eq ▸ link_prev (Heap.live_ne_null live_x)
  have next_x : (s.heap.fileFdRecord x).next = back :=
    back_eq ▸ link_next (Heap.live_ne_null live_x)
  have back_live : back ≠ NULL → back ∈ xs ++ ys ∧ s.heap.kind back = some .fileFdRecord := by
    intro real
    have member := headD_mem NULL ys
    rw [← back_eq, List.mem_cons] at member
    have member := member.resolve_left real
    exact ⟨by simp [member], live back (by simp [member])⟩
  unfold unlinkRecord
  cases xs with
  | nil =>
    rw [List.nil_append, List.headD_cons] at head
    obtain ⟨t, run, relinked, area, prev_back, prev_frame, next_frame⟩ :=
      setPrev_spec { s with area := { s.area with fileFdHead := back } } back NULL ([] ++ ys)
        back_live
    simp only [head, if_true]
    rw [read_live live_x, ok_bind, next_x]
    refine ⟨t, run, ?_, ?_, ?_⟩
    · refine ring.remove front_eq back_eq ?_ ?_ ?_ ?_
      · intro real
        exact absurd front_eq real
      · intro real
        rw [prev_back real, front_eq]
        rfl
      · intro y _ _
        exact next_frame y
      · intro y _ other
        exact prev_frame y other
    · rw [area, back_eq]
      rfl
    · exact ⟨relinked.edits, relinked.times, relinked.index, by rw [area]⟩
  | cons z zs =>
    rw [List.cons_append, List.headD_cons] at head
    have nodup := ring.nodup
    have front_mem : front ∈ z :: zs := by
      have member := getLastD_mem z zs
      rwa [front_eq, List.getLastD_cons]
    have live_front := live front (List.mem_append_left _ front_mem)
    have not_head : x ≠ s.area.fileFdHead := by
      rw [head]
      rintro rfl
      simp at nodup
    have not_front : x ≠ front := by
      rintro rfl
      rw [List.nodup_cons, List.nodup_append] at nodup
      exact nodup.2.2.2 x front_mem x (by simp) rfl
    obtain ⟨t, run, relinked, area, prev_back, prev_frame, next_frame⟩ :=
      setPrev_spec (s.modify front fun r => { r with next := back }) back front
        ((z :: zs) ++ ys) back_live
    rw [if_neg not_head, read_live live_x, ok_bind, prev_x, next_x, write_live live_front, ok_bind,
      read_live (by exact live_x), ok_bind]
    simp only [FdState.modify_heap, prev_modify, next_modify, if_neg not_front, prev_x, next_x]
    refine ⟨t, run, ?_, ?_, ?_⟩
    · refine ring.remove front_eq back_eq ?_ prev_back ?_ ?_
      · intro _
        rw [next_frame front]
        simp [linkFields, next_modify]
      · intro y _ other
        rw [next_frame y]
        simp [linkFields, next_modify, other]
      · intro y _ other
        rw [prev_frame y other]
        simp only [linkFields, FdState.modify_heap, prev_modify]
        split <;> simp_all
    · rw [area, FdState.modify_area, head]
      rfl
    · exact (Relinked.store s (List.mem_append_left ys front_mem) fun r => rfl).trans relinked

end Links

end SysMonitor.Source.FdCache
