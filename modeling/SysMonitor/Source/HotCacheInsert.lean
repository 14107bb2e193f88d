import SysMonitor.Source.FdListSteps

/-!
# `insert_into_hot_cache`

Making room, finding the place, shifting and settling, put together. The four shift
cases of the source come down to one fact: cutting the array at the insertion point and
taking the evicted record out leaves a free slot between the two parts.
-/

namespace SysMonitor.Source.FdCache
open SysMonitor.Library.LinkedRing

/-- Neither the full list nor its length changed, and of the records only `ps`. -/
structure HotOnly (ps : List Ptr) (s s' : FdState) : Prop where
  edits : Edits ps s.heap s'.heap
  links : linkFields s'.heap = linkFields s.heap
  fdCount : s'.area.fdCount = s.area.fdCount
  fileFdHead : s'.area.fileFdHead = s.area.fileFdHead

namespace HotOnly

variable {ps qs : List Ptr} {s t u : FdState}

theorem trans (first : HotOnly ps s t) (second : HotOnly ps t u) : HotOnly ps s u where
  edits := first.edits.trans second.edits
  links := second.links.trans first.links
  fdCount := second.fdCount.trans first.fdCount
  fileFdHead := second.fileFdHead.trans first.fileFdHead

theorem mono (only : HotOnly ps s t) (within : ps ⊆ qs) : HotOnly qs s t :=
  ⟨only.edits.mono within, only.links, only.fdCount, only.fileFdHead⟩

theorem ofShifted {lo hi : Int} (shifted : Shifted lo hi ps s t) : HotOnly ps s t :=
  ⟨shifted.edits, shifted.links, by rw [shifted.area], by rw [shifted.area]⟩

theorem ofRetimed (retimed : Retimed ps s t) : HotOnly ps s t :=
  ⟨retimed.edits, retimed.links, by rw [retimed.area], by rw [retimed.area]⟩

end HotOnly

theorem Live.edits {h h' : Heap} {ps qs : List Ptr} (live : Live h ps) (edits : Edits qs h h') :
    Live h' ps := by
  intro p member
  rw [edits.kind]
  exact live p member

theorem sorted_edits {h h' : Heap} {ps qs : List Ptr} (edits : Edits qs h h')
    (sorted : ps.Pairwise fun p q => fdOf h p ≤ fdOf h q) :
    ps.Pairwise fun p q => fdOf h' p ≤ fdOf h' q := by
  simpa only [fdOf, edits.fd] using sorted

theorem LinkRep.hotOnly {ps link : List Ptr} {s t : FdState} (rep : LinkRep s link)
    (only : HotOnly ps s t) : LinkRep t link where
  live := rep.live.edits only.edits
  names p member := by
    rw [only.edits.kind, only.edits.filename]
    exact rep.names p member
  head := by rw [only.fileFdHead, rep.head]
  ring := by rw [only.links]; exact rep.ring
  count := by rw [only.fdCount, rep.count]

theorem AgeRing.congr {h h' : Heap} {head : Ptr} {age : List Ptr} (ring : AgeRing h head age)
    (same : timeFields h' = timeFields h) : AgeRing h' head age := by
  cases age with
  | nil => exact ring
  | cons a xs =>
    obtain ⟨here, ring⟩ := ring
    refine ⟨here, ?_⟩
    rw [same]
    exact ring

theorem AgeRing.nodup {h : Heap} {head : Ptr} {age : List Ptr} (ring : AgeRing h head age) :
    age.Nodup := by
  cases age with
  | nil => exact List.nodup_nil
  | cons a xs => exact ring.2.nodup

theorem Slots.retimed {s t : FdState} {i : Int} {ps qs : List Ptr} (slots : Slots s i ps)
    (retimed : Retimed qs s t) : Slots t i ps := by
  refine slots_congr slots ?_ ?_
  · intro j _ _
    rw [retimed.area]
  · intro p _
    exact retimed.index p

section Insert

variable {s : FdState} {hot age left right : List Ptr} {p : Ptr}

theorem HotRep.nodup (rep : HotRep s hot age) : hot.Nodup :=
  rep.same.nodup_iff.mp rep.ring.nodup

/-- "link hot cache up" -/
theorem linkHot_spec (ring : AgeRing s.heap s.area.hotFdHead age) (live : Live s.heap age)
    (live_p : s.heap.kind p = some .fileFdRecord) (new : p ∉ age) :
    ∃ t, linkHot s p = .ok { t with area := { s.area with hotFdHead := p } } ∧
      AgeRing t.heap p (p :: age) ∧ Retimed (p :: age) s t := by
  obtain ⟨t, run, ring_t, retimed⟩ := linkTime_spec ring live live_p new
  refine ⟨t, ?_, ring_t, retimed⟩
  have live_t : Live t.heap (p :: age) := by
    intro q member
    rw [retimed.edits.kind]
    rcases List.mem_cons.mp member with rfl | member
    · exact live_p
    · exact live q member
  have asserted : assertLinked { t with area := { s.area with hotFdHead := p } } = .ok () :=
    assertLinked_spec ring_t live_t
  unfold linkHot
  rw [run, ok_bind, retimed.area]
  dsimp only at asserted ⊢
  rw [asserted]
  rfl

/-- The record in the free slot closes the array up. -/
theorem Shifted.around {t : FdState} (shifted : Shifted left.length (left.length + 1) [p] s t)
    (slots_left : Slots s 0 left) (slots_right : Slots s (left.length + 1) right)
    (here : t.area.hotFdCache left.length = p ∧
      (t.heap.fileFdRecord p).hotIndex = left.length)
    (apart : p ∉ left ++ right) : Slots t 0 (left ++ p :: right) := by
  rw [List.mem_append, not_or] at apart
  obtain ⟨not_left, not_right⟩ := apart
  rw [slots_append, Slots, Int.zero_add]
  refine ⟨?_, here, ?_⟩
  · exact shifted.keeps_others slots_left (.inl (by omega)) not_left
  · exact shifted.keeps_others slots_right (.inr (by omega)) not_right

/-- With a free slot between the two parts, the record goes there and to the head of the
circular list, and the consistency check passes. -/
theorem settle_spec (oldestIndex : Int) (slots_left : Slots s 0 left)
    (slots_right : Slots s (left.length + 1) right)
    (live : Live s.heap (left ++ p :: right)) (nodup : (left ++ p :: right).Nodup)
    (room : ((left ++ p :: right).length : Int) ≤ HOT_FD_CACHE_SIZE)
    (count : (if oldestIndex = -1 then s.area.hotCount + 1 else s.area.hotCount)
      = (left ++ p :: right).length)
    (sorted : (left ++ p :: right).Pairwise fun p q => fdOf s.heap p ≤ fdOf s.heap q)
    (ring : AgeRing s.heap s.area.hotFdHead age) (same : age.Perm (left ++ right)) :
    ∃ t, settle s oldestIndex left.length p = .ok t ∧
      HotRep t (left ++ p :: right) (p :: age) ∧ HotOnly (left ++ p :: right) s t := by
  have length : ((left ++ p :: right).length : Int) = left.length + 1 + right.length := by
    simp; omega
  rw [length] at room
  have live_p := live p (by simp)
  have apart : p ∉ left ++ right := (List.nodup_cons.mp (List.nodup_middle.mp nodup)).1
  have new : p ∉ age := fun member => apart (same.mem_iff.mp member)
  obtain ⟨t, placed, slots_p, shifted⟩ :=
    place_spec (s := s) (i := left.length) (by omega) (by omega) live_p
  have live_age : Live t.heap age := by
    intro q member
    rw [shifted.edits.kind]
    apply live
    have inside := same.mem_iff.mp member
    simp at inside ⊢
    tauto
  have ring_t : AgeRing t.heap t.area.hotFdHead age := by
    rw [shifted.area]
    exact ring.congr shifted.times
  obtain ⟨u, linked, ring_u, retimed⟩ := linkHot_spec ring_t live_age
    (by rw [shifted.edits.kind]; exact live_p) new
  have slots_t := shifted.around slots_left slots_right slots_p.1 apart
  have edits : Edits (left ++ p :: right) s.heap u.heap := by
    refine (shifted.edits.mono (by simp)).trans (retimed.edits.mono ?_)
    intro q member
    rcases List.mem_cons.mp member with rfl | member
    · simp
    · have inside := same.mem_iff.mp member
      simp at inside ⊢
      tauto
  have live_u := live.edits edits
  have sorted_u := sorted_edits edits sorted
  have hotCount_t : t.area.hotCount = s.area.hotCount := by rw [shifted.area]
  obtain ⟨v, v_eq⟩ : ∃ v : FdState, v = { u with area := { t.area with
    hotFdHead := p, hotCount := ((left ++ p :: right).length : Int) } } := ⟨_, rfl⟩
  have slots_v : Slots v 0 (left ++ p :: right) := by
    rw [v_eq]
    refine slots_congr slots_t ?_ ?_
    · intro j _ _; rfl
    · intro q _; exact retimed.index q
  have live_v : Live v.heap (left ++ p :: right) := by rw [v_eq]; exact live_u
  have sorted_v : (left ++ p :: right).Pairwise fun p q => fdOf v.heap p ≤ fdOf v.heap q := by
    rw [v_eq]; exact sorted_u
  have checked := checkHot_spec (left ++ p :: right) 0 0 slots_v live_v (by omega)
    (by omega) (fun q _ => by rw [BitVec.le_def]; simp) sorted_v
  have hotCount_v : v.area.hotCount = (left ++ p :: right).length := by rw [v_eq]
  refine ⟨v, ?_, ?_, ?_⟩
  · unfold settle
    rw [placed, ok_bind, linked, ok_bind]
    dsimp only
    rw [hotCount_t, count, ← v_eq, Int.toNat_natCast, checked]
    rfl
  · refine ⟨live_v, hotCount_v, by rw [length]; exact room, slots_v, sorted_v, ?_, ?_⟩
    · rw [v_eq]; exact ring_u
    · exact (same.cons p).trans List.perm_middle.symm
  · rw [v_eq]
    refine ⟨edits, retimed.links.trans shifted.links, ?_, ?_⟩
    · dsimp only; rw [shifted.area]
    · dsimp only; rw [shifted.area]

/-- A full cache makes room: its oldest record, the last of the circular list, leaves
that list but is still in the array. -/
theorem makeRoom_full (rep : HotRep s hot age) (full : (hot.length : Int) = HOT_FD_CACHE_SIZE) :
    ∃ t before o behind young, hot = before ++ o :: behind ∧ age = young ++ [o] ∧
      makeRoom s = .ok (t, before.length) ∧ AgeRing t.heap t.area.hotFdHead young ∧
      Retimed hot s t := by
  have long : age.length = 16 := by
    have length := rep.same.length_eq
    have size : HOT_FD_CACHE_SIZE = 16 := rfl
    omega
  obtain ⟨a, young, o, rfl⟩ : ∃ a young o, age = a :: (young ++ [o]) := by
    cases age with
    | nil => simp at long
    | cons a rest =>
      rcases List.eq_nil_or_concat rest with rfl | ⟨young, o, rfl⟩
      · simp at long
      · exact ⟨a, young, o, by simp⟩
  have live_age : Live s.heap (a :: (young ++ [o])) := fun q member =>
    rep.live q (rep.same.mem_iff.mp member)
  obtain ⟨head, ring⟩ := rep.ring
  have inside : o ∈ hot := rep.same.mem_iff.mp (by simp)
  obtain ⟨before, behind, cut⟩ := List.append_of_mem inside
  obtain ⟨-, index⟩ : s.area.hotFdCache (0 + before.length) = o ∧
      (s.heap.fileFdRecord o).hotIndex = 0 + before.length := by
    have slots := rep.slots
    rw [cut, slots_append] at slots
    exact slots.2.1
  rw [Int.zero_add] at index
  obtain ⟨-, ⟨-, prev_a⟩⟩ := ring.ends
  have live_a := live_age a List.mem_cons_self
  have prev_a : (s.heap.fileFdRecord a).timePrev = o := by
    have last := prev_a (Heap.live_ne_null live_a)
    simpa [timeFields, List.getLastD_eq_getLast?] using last
  obtain ⟨t, run, ring_t, retimed⟩ := unlinkTime_spec ring live_age
  rw [List.append_nil] at ring_t retimed
  refine ⟨t, before, o, behind, a :: young, cut, rfl, ?_, ?_, ?_⟩
  · unfold makeRoom
    have some_head : s.area.hotFdHead ≠ NULL := by
      rw [head]
      exact Heap.live_ne_null live_a
    rw [if_pos (rep.count.trans full), ASSERT_holds some_head, ok_bind, head, read_live live_a,
      ok_bind]
    dsimp only
    rw [prev_a, read_live (live_age o (by simp)), ok_bind, index, ASSERT_holds (by omega), ok_bind,
      run]
    rfl
  · refine ⟨?_, ring_t⟩
    rw [retimed.area, head]
  · refine ⟨retimed.edits.mono ?_, retimed.links, retimed.index, retimed.area⟩
    intro q member
    apply rep.same.mem_iff.mp
    simp at member ⊢
    tauto

/-- Nothing has to leave: the right part of the array moves up. -/
theorem moveSlots_open (slots : Slots s 0 (left ++ right)) (live : Live s.heap (left ++ right))
    (nodup : (left ++ right).Nodup) (count : s.area.hotCount = (left ++ right).length)
    (room : ((left ++ right).length : Int) < HOT_FD_CACHE_SIZE) :
    ∃ t, moveSlots s (-1) left.length = .ok (t, left.length) ∧ Slots t 0 left ∧
      Slots t (left.length + 1) right ∧ Shifted 0 HOT_FD_CACHE_SIZE right s t := by
  obtain ⟨slots_left, slots_right⟩ := (slots_append s 0 left right).mp slots
  rw [Int.zero_add] at slots_right
  obtain ⟨-, nodup_right, apart⟩ := List.nodup_append.mp nodup
  have length : ((left ++ right).length : Int) = left.length + right.length := by simp
  rw [length] at count room
  obtain ⟨t, run, slots_t, shifted⟩ := shiftUp_spec right s left.length slots_right
    (fun q member => live q (by simp [member])) nodup_right (by omega) room
  refine ⟨t, ?_, ?_, slots_t, shifted.mono (by omega) (by omega) (List.Subset.refl right)⟩
  · unfold moveSlots
    have rounds : (left.length + right.length - left.length : Int).toNat = right.length := by omega
    rw [if_pos rfl, count, rounds, run]
    rfl
  · apply shifted.keeps slots_left (.inl (by omega))
    intro q member here
    exact apart q member q here rfl

/-- Where the evicted record lies with respect to the insertion point. -/
theorem cut_cases {before behind : List Ptr} {o : Ptr}
    (cut : before ++ o :: behind = left ++ right) :
    (∃ middle, left = before ++ o :: middle ∧ behind = middle ++ right) ∨
    (∃ middle, before = left ++ middle ∧ right = middle ++ o :: behind) := by
  rcases List.append_eq_append_iff.mp cut with ⟨middle, rfl, eq⟩ | ⟨middle, rfl, eq⟩
  · cases middle with
    | nil => exact .inr ⟨[], by simp, by simpa using eq.symm⟩
    | cons x middle =>
      rw [List.cons_append, List.cons.injEq] at eq
      obtain ⟨rfl, rfl⟩ := eq
      exact .inl ⟨middle, rfl, rfl⟩
  · exact .inr ⟨middle, rfl, eq⟩

/-- The evicted record is left of the insertion point: the records between the two move down. -/
theorem moveSlots_down {before middle : List Ptr} {o : Ptr}
    (slots : Slots s 0 (before ++ o :: (middle ++ right)))
    (live : Live s.heap middle) (nodup : (before ++ o :: (middle ++ right)).Nodup)
    (room : ((before ++ o :: (middle ++ right)).length : Int) ≤ HOT_FD_CACHE_SIZE) :
    ∃ t, moveSlots s before.length (before ++ o :: middle).length
        = .ok (t, (before ++ middle).length) ∧
      Slots t 0 (before ++ middle) ∧ Slots t ((before ++ middle).length + 1) right ∧
      Shifted 0 HOT_FD_CACHE_SIZE middle s t := by
  have length : ((before ++ o :: (middle ++ right)).length : Int)
      = before.length + 1 + middle.length + right.length := by simp; omega
  have fit : ((before ++ o :: middle).length : Int) = before.length + 1 + middle.length := by
    simp; omega
  have free : ((before ++ middle).length : Int) = before.length + middle.length := by simp
  have shift : (before.length : Int) + middle.length + 1 = before.length + 1 + middle.length := by
    omega
  rw [length] at room
  simp only [slots_append, Slots, Int.zero_add] at slots
  obtain ⟨slots_before, -, slots_middle, slots_right⟩ := slots
  simp only [List.nodup_append, List.nodup_cons] at nodup
  obtain ⟨-, ⟨-, nodup_middle, -, apart⟩, apart_before⟩ := nodup
  obtain ⟨t, run, slots_t, shifted⟩ := shiftDown_spec middle s before.length slots_middle live
    nodup_middle (by omega) (by omega)
  refine ⟨t, ?_, ?_, ?_, shifted.mono (by omega) (by omega) (List.Subset.refl middle)⟩
  · unfold moveSlots
    have rounds : (before.length + 1 + middle.length - 1 - before.length : Int).toNat
        = middle.length := by omega
    have target : (before.length + 1 + middle.length - 1 : Int) = before.length + middle.length := by
      omega
    rw [if_neg (by omega), fit, if_pos (by omega), rounds, run, free, ← target]
    rfl
  · rw [slots_append, Int.zero_add]
    refine ⟨shifted.keeps slots_before (.inl (by omega)) ?_, slots_t⟩
    intro q member here
    exact apart_before q member q (by simp [here]) rfl
  · rw [free, shift]
    apply shifted.keeps slots_right (.inr (by omega))
    intro q member here
    exact apart q here q member rfl

/-- The evicted record is at the insertion point or right of it: the records between the two
move up. -/
theorem moveSlots_up {middle behind : List Ptr} {o : Ptr}
    (slots : Slots s 0 ((left ++ middle) ++ o :: behind)) (live : Live s.heap middle)
    (nodup : ((left ++ middle) ++ o :: behind).Nodup)
    (room : (((left ++ middle) ++ o :: behind).length : Int) ≤ HOT_FD_CACHE_SIZE) :
    ∃ t, moveSlots s (left ++ middle).length left.length = .ok (t, left.length) ∧
      Slots t 0 left ∧ Slots t (left.length + 1) (middle ++ behind) ∧
      Shifted 0 HOT_FD_CACHE_SIZE middle s t := by
  have length : (((left ++ middle) ++ o :: behind).length : Int)
      = left.length + middle.length + 1 + behind.length := by simp; omega
  have oldest : ((left ++ middle).length : Int) = left.length + middle.length := by simp
  have shift : (left.length : Int) + 1 + middle.length = left.length + middle.length + 1 := by
    omega
  rw [length] at room
  simp only [slots_append, Slots, Int.zero_add, oldest] at slots
  obtain ⟨⟨slots_left, slots_middle⟩, -, slots_behind⟩ := slots
  simp only [List.nodup_append, List.nodup_cons] at nodup
  obtain ⟨⟨-, nodup_middle, apart_left⟩, -, apart⟩ := nodup
  obtain ⟨t, run, slots_t, shifted⟩ := shiftUp_spec middle s left.length slots_middle live
    nodup_middle (by omega) (by omega)
  refine ⟨t, ?_, ?_, ?_, shifted.mono (by omega) (by omega) (List.Subset.refl middle)⟩
  · unfold moveSlots
    rw [if_neg (by omega), if_neg (by omega), oldest]
    by_cases moves : 0 < middle.length
    · have rounds : (left.length + middle.length - left.length : Int).toNat
          = middle.length := by omega
      rw [if_pos (by omega), rounds, run]
      rfl
    · rw [if_neg (by omega)]
      have none_moves : middle = [] := List.length_eq_zero_iff.mp (by omega)
      subst none_moves
      simp only [List.length_nil, shiftUp, Except.ok.injEq] at run
      rw [run]
      rfl
  · apply shifted.keeps slots_left (.inl (by omega))
    intro q member here
    exact apart_left q member q here rfl
  · rw [slots_append, shift]
    refine ⟨slots_t, shifted.keeps slots_behind (.inr (by omega)) ?_⟩
    intro q member here
    exact apart q (by simp [here]) q (by simp [member]) rfl

/-- The slot of the evicted record is filled from the insertion point's side, and the
free slot ends up between the two parts. -/
theorem moveSlots_full {before behind : List Ptr} {o : Ptr}
    (cut : before ++ o :: behind = left ++ right) (slots : Slots s 0 (left ++ right))
    (live : Live s.heap (left ++ right)) (nodup : (left ++ right).Nodup)
    (room : ((left ++ right).length : Int) ≤ HOT_FD_CACHE_SIZE) :
    ∃ t left' right', moveSlots s before.length left.length = .ok (t, left'.length) ∧
      left'.Sublist left ∧ right'.Sublist right ∧ left' ++ right' = before ++ behind ∧
      Slots t 0 left' ∧ Slots t (left'.length + 1) right' ∧
      Shifted 0 HOT_FD_CACHE_SIZE (left ++ right) s t := by
  rw [← cut] at slots live nodup room ⊢
  rcases cut_cases cut with ⟨middle, rfl, rfl⟩ | ⟨middle, rfl, rfl⟩
  · have live_middle : Live s.heap middle := fun q member => live q (by simp [member])
    obtain ⟨t, run, slots_left, slots_right, shifted⟩ :=
      moveSlots_down slots live_middle nodup room
    refine ⟨t, before ++ middle, right, run, ?_, List.Sublist.refl right, by simp, slots_left,
      slots_right, ?_⟩
    · exact (List.Sublist.refl before).append (List.sublist_cons_self o middle)
    · apply shifted.mono (Int.le_refl _) (Int.le_refl _)
      intro q; simp; tauto
  · have live_middle : Live s.heap middle := fun q member => live q (by simp [member])
    obtain ⟨t, run, slots_left, slots_right, shifted⟩ := moveSlots_up slots live_middle nodup room
    refine ⟨t, left, middle ++ behind, run, List.Sublist.refl left, ?_, by simp, slots_left,
      slots_right, ?_⟩
    · exact (List.Sublist.refl middle).append (List.sublist_cons_self o behind)
    · apply shifted.mono (Int.le_refl _) (Int.le_refl _)
      intro q; simp; tauto

/-- A sorted array stays sorted with the record at the insertion point, also after one
of the others has left. -/
theorem sorted_insert {h : Heap} {left' right' : List Ptr}
    (sorted : (left ++ right).Pairwise fun p q => fdOf h p ≤ fdOf h q)
    (lower : ∀ q ∈ left, fdOf h q ≤ fdOf h p) (upper : ∀ q ∈ right, fdOf h p ≤ fdOf h q)
    (sub_left : left'.Sublist left) (sub_right : right'.Sublist right) :
    (left' ++ p :: right').Pairwise fun p q => fdOf h p ≤ fdOf h q := by
  obtain ⟨sorted_left, sorted_right, between⟩ := List.pairwise_append.mp sorted
  refine List.pairwise_append.mpr ⟨sorted_left.sublist sub_left, ?_, ?_⟩
  · rw [List.pairwise_cons]
    refine ⟨?_, sorted_right.sublist sub_right⟩
    intro q member
    exact upper q (sub_right.subset member)
  · intro q member r member'
    rcases List.mem_cons.mp member' with rfl | member'
    · exact lower q (sub_left.subset member)
    · exact between q (sub_left.subset member) r (sub_right.subset member')

/-- The array is open for `p` between `left` and `right`, and the circular list holds the
records that stay. -/
structure OpenFor (s : FdState) (p : Ptr) (oldestIndex : Int) (left right young : List Ptr) :
    Prop where
  slotsLeft : Slots s 0 left
  slotsRight : Slots s (left.length + 1) right
  live : Live s.heap (left ++ p :: right)
  nodup : (left ++ p :: right).Nodup
  room : ((left ++ p :: right).length : Int) ≤ HOT_FD_CACHE_SIZE
  count : (if oldestIndex = -1 then s.area.hotCount + 1 else s.area.hotCount)
    = (left ++ p :: right).length
  sorted : (left ++ p :: right).Pairwise fun p q => fdOf s.heap p ≤ fdOf s.heap q
  ring : AgeRing s.heap s.area.hotFdHead young
  same : young.Perm (left ++ right)

theorem live_insert {h : Heap} (live : Live h (left ++ right))
    (live_p : h.kind p = some .fileFdRecord) : Live h (left ++ p :: right) := by
  intro q member
  rcases List.mem_cons.mp (List.perm_middle.mem_iff.mp member) with rfl | member
  · exact live_p
  · exact live q member

theorem Live.subset {h : Heap} {ps qs : List Ptr} (live : Live h ps) (within : qs ⊆ ps) :
    Live h qs := fun q member => live q (within member)

theorem nodup_insert (nodup : (left ++ right).Nodup) (new : p ∉ left ++ right) :
    (left ++ p :: right).Nodup :=
  List.nodup_middle.mpr (List.nodup_cons.mpr ⟨new, nodup⟩)

/-- Below its capacity the cache opens at the insertion point. -/
theorem opens_below (rep : HotRep s hot age) (live_p : s.heap.kind p = some .fileFdRecord)
    (new : p ∉ hot) (below : (hot.length : Int) < HOT_FD_CACHE_SIZE) :
    ∃ t left right, insertIntoHotCache s p = settle t (-1) left.length p ∧
      OpenFor t p (-1) left right age ∧ hot = left ++ right ∧ HotOnly hot s t := by
  obtain ⟨left, right, rfl, place, lower, upper⟩ :=
    getInsertIndex_spec rep.slots rep.live rep.count rep.room rep.sorted (fdOf s.heap p)
  have nodup := rep.nodup
  obtain ⟨t, moved, slots_left, slots_right, shifted⟩ :=
    moveSlots_open rep.slots rep.live nodup rep.count below
  have length : (left ++ p :: right).length = (left ++ right).length + 1 := by simp; omega
  refine ⟨t, left, right, ?_, ?_, rfl, ?_⟩
  · have no_room_needed : makeRoom s = .ok (s, -1) := by
      unfold makeRoom
      rw [if_neg (by rw [rep.count]; omega)]
    unfold insertIntoHotCache
    rw [no_room_needed, ok_bind]
    dsimp only
    rw [read_live live_p, ok_bind, place, ok_bind, moved, ok_bind]
  · refine ⟨slots_left, slots_right, ?_, nodup_insert nodup new, ?_, ?_, ?_, ?_, rep.same⟩
    · exact (live_insert rep.live live_p).edits shifted.edits
    · rw [length]; omega
    · rw [if_pos rfl, shifted.area, rep.count, length]
      exact (Int.natCast_succ _).symm
    · exact sorted_edits shifted.edits (sorted_insert rep.sorted lower upper
        (List.Sublist.refl left) (List.Sublist.refl right))
    · rw [shifted.area]
      exact rep.ring.congr shifted.times
  · exact (HotOnly.ofShifted shifted).mono (List.subset_append_right left right)

/-- At its capacity the cache opens where the oldest record leaves a slot, seen from the
insertion point. -/
theorem opens_full (rep : HotRep s hot age) (live_p : s.heap.kind p = some .fileFdRecord)
    (new : p ∉ hot) (full : (hot.length : Int) = HOT_FD_CACHE_SIZE) :
    ∃ t oldestIndex left right young o,
      insertIntoHotCache s p = settle t oldestIndex left.length p ∧
      OpenFor t p oldestIndex left right young ∧ age = young ++ [o] ∧
      (left ++ right).Sublist hot ∧ HotOnly hot s t := by
  have nodup := rep.nodup
  obtain ⟨t, before, o, behind, young, evict, age_eq, made, ring_t, retimed⟩ :=
    makeRoom_full rep full
  have live_t := rep.live.edits retimed.edits
  have slots_t := rep.slots.retimed retimed
  have sorted_t := sorted_edits retimed.edits rep.sorted
  have count_t : t.area.hotCount = hot.length := by rw [retimed.area]; exact rep.count
  have live_p_t : t.heap.kind p = some .fileFdRecord := by rw [retimed.edits.kind]; exact live_p
  obtain ⟨left₀, right₀, rfl, place, lower, upper⟩ :=
    getInsertIndex_spec slots_t live_t count_t rep.room sorted_t (fdOf t.heap p)
  obtain ⟨u, left, right, moved, sub_left, sub_right, rest, slots_left, slots_right, shifted⟩ :=
    moveSlots_full evict.symm slots_t live_t nodup rep.room
  have sub : (left ++ right).Sublist (left₀ ++ right₀) := sub_left.append sub_right
  have length : (left ++ p :: right).length = (left₀ ++ right₀).length := by
    rw [evict]
    have counted := congrArg List.length rest
    simp only [List.length_append, List.length_cons] at counted ⊢
    omega
  refine ⟨u, before.length, left, right, young, o, ?_, ?_, age_eq, sub, ?_⟩
  · unfold insertIntoHotCache
    rw [made, ok_bind]
    dsimp only
    rw [read_live live_p_t, ok_bind, place, ok_bind, moved, ok_bind]
  · refine ⟨slots_left, slots_right, ?_, nodup_insert (nodup.sublist sub) ?_, ?_, ?_, ?_, ?_, ?_⟩
    · exact (live_insert (live_t.subset sub.subset) live_p_t).edits shifted.edits
    · exact fun member => new (sub.subset member)
    · rw [length]; exact rep.room
    · rw [if_neg (by omega), shifted.area, length]
      exact count_t
    · exact sorted_edits shifted.edits (sorted_insert sorted_t lower upper sub_left sub_right)
    · rw [shifted.area]
      exact ring_t.congr shifted.times
    · have whole : (young ++ [o]).Perm (before ++ o :: behind) := by
        rw [← age_eq, ← evict]; exact rep.same
      rw [rest]
      exact ((List.perm_append_singleton o young).symm.trans
        (whole.trans List.perm_middle)).cons_inv
  · exact (HotOnly.ofRetimed retimed).trans (.ofShifted shifted)

/-- `insert_into_hot_cache` on a record that is not hot: it becomes the youngest, and a
full cache loses its oldest. -/
theorem insertIntoHotCache_spec (rep : HotRep s hot age)
    (live_p : s.heap.kind p = some .fileFdRecord) (new : p ∉ hot) :
    ∃ t hot', insertIntoHotCache s p = .ok t ∧
      HotRep t hot' ((p :: age).take HOT_FD_CACHE_SIZE.toNat) ∧ hot' ⊆ p :: hot ∧
      HotOnly (p :: hot) s t := by
  have age_length := rep.same.length_eq
  have size : (HOT_FD_CACHE_SIZE.toNat : Int) = HOT_FD_CACHE_SIZE := rfl
  have room := rep.room
  obtain ⟨t, oldestIndex, left, right, young, run, opened, within, only, youngest⟩ :
      ∃ t oldestIndex left right young,
        insertIntoHotCache s p = settle t oldestIndex left.length p ∧
        OpenFor t p oldestIndex left right young ∧ left ++ right ⊆ hot ∧ HotOnly hot s t ∧
        (p :: age).take HOT_FD_CACHE_SIZE.toNat = p :: young := by
    by_cases full : (hot.length : Int) = HOT_FD_CACHE_SIZE
    · obtain ⟨t, oldestIndex, left, right, young, o, run, opened, rfl, sub, only⟩ :=
        opens_full rep live_p new full
      refine ⟨t, oldestIndex, left, right, young, run, opened, sub.subset, only, ?_⟩
      have short : HOT_FD_CACHE_SIZE.toNat = (p :: young).length := by
        simp only [List.length_append, List.length_cons, List.length_nil] at age_length ⊢
        omega
      rw [← List.cons_append, short, List.take_left]
    · obtain ⟨t, left, right, run, opened, rfl, only⟩ := opens_below rep live_p new (by omega)
      refine ⟨t, -1, left, right, age, run, opened, List.Subset.refl _, only, ?_⟩
      exact List.take_of_length_le (by rw [List.length_cons]; omega)
  obtain ⟨u, settled, rep_u, only_u⟩ := settle_spec oldestIndex opened.slotsLeft
    opened.slotsRight opened.live opened.nodup opened.room opened.count opened.sorted opened.ring
    opened.same
  have inside : left ++ p :: right ⊆ p :: hot := by
    intro q member
    rcases List.mem_cons.mp (List.perm_middle.mem_iff.mp member) with rfl | member
    · exact List.mem_cons_self
    · exact List.mem_cons_of_mem p (within member)
  refine ⟨u, left ++ p :: right, run.trans settled, ?_, inside, ?_⟩
  · rw [youngest]
    exact rep_u
  · exact (only.mono (List.subset_cons_self p hot)).trans (only_u.mono inside)

end Insert

end SysMonitor.Source.FdCache
