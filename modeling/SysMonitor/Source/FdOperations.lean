import SysMonitor.Source.HotCacheInsert

/-!
# Insert, get and delete on the whole fd cache

Every operation keeps `Represents` and says which record it chose. What it may do to
the rest of the heap is `Preserves`: nothing that was live is freed, and no record
outside the full list changes.
-/

namespace SysMonitor.Source.FdCache
open SysMonitor.Library.LinkedRing

theorem erase_middle {x : Ptr} {xs : List Ptr} (out : x ∉ xs) (ys : List Ptr) :
    (xs ++ x :: ys).erase x = xs ++ ys := by
  rw [List.erase_append_right _ out, List.erase_cons_head]

/-- Blocks from before are live as before, and records outside `ps` are untouched. -/
structure Preserves (ps : List Ptr) (h h' : Heap) : Prop where
  fresh : h.fresh ≤ h'.fresh
  kind : ∀ q < h.fresh, h'.kind q = h.kind q
  chars : ∀ q < h.fresh, h'.chars q = h.chars q
  fd : ∀ q < h.fresh, (h'.fileFdRecord q).fd = (h.fileFdRecord q).fd
  filename : ∀ q < h.fresh, (h'.fileFdRecord q).filename = (h.fileFdRecord q).filename
  elsewhere : ∀ q < h.fresh, q ∉ ps → h'.fileFdRecord q = h.fileFdRecord q

theorem Edits.preserves {ps : List Ptr} {h h' : Heap} (edits : Edits ps h h') :
    Preserves ps h h' where
  fresh := Nat.le_of_eq edits.fresh.symm
  kind q _ := by rw [edits.kind]
  chars q _ := by rw [edits.chars]
  fd q _ := edits.fd q
  filename q _ := edits.filename q
  elsewhere q _ out := edits.elsewhere q out

/-- Later records are new, so what happens to them does not count. -/
theorem Preserves.trans_edits {ps qs : List Ptr} {h h₁ h₂ : Heap} (first : Preserves ps h h₁)
    (second : Edits qs h₁ h₂) (within : ∀ q ∈ qs, q < h.fresh → q ∈ ps) :
    Preserves ps h h₂ where
  fresh := first.fresh.trans second.preserves.fresh
  kind q old := by rw [second.kind, first.kind q old]
  chars q old := by rw [second.chars, first.chars q old]
  fd q old := by rw [second.fd, first.fd q old]
  filename q old := by rw [second.filename, first.filename q old]
  elsewhere q old out := by
    rw [second.elsewhere q (fun member => out (within q member old)), first.elsewhere q old out]

/-- A hot cache whose records and whose part of the area did not change. -/
theorem HotRep.congr {s t : FdState} {hot age : List Ptr} (rep : HotRep s hot age)
    (count : t.area.hotCount = s.area.hotCount) (head : t.area.hotFdHead = s.area.hotFdHead)
    (array : t.area.hotFdCache = s.area.hotFdCache)
    (kind : ∀ q ∈ hot, t.heap.kind q = s.heap.kind q)
    (fd : ∀ q ∈ hot, fdOf t.heap q = fdOf s.heap q)
    (index : ∀ q ∈ hot, (t.heap.fileFdRecord q).hotIndex = (s.heap.fileFdRecord q).hotIndex)
    (next : ∀ q ∈ hot, (timeFields t.heap).next q = (timeFields s.heap).next q)
    (prev : ∀ q ∈ hot, (timeFields t.heap).prev q = (timeFields s.heap).prev q) :
    HotRep t hot age where
  live q member := by rw [kind q member]; exact rep.live q member
  count := by rw [count, rep.count]
  room := rep.room
  slots := by
    refine slots_congr rep.slots ?_ index
    intro j _ _
    rw [array]
  sorted := by
    apply rep.sorted.imp_of_mem
    intro p q member member' order
    rw [fd p member, fd q member']
    exact order
  ring := by
    have ring := rep.ring
    have same := rep.same
    cases age with
    | nil => rw [head]; exact ring
    | cons a xs =>
      obtain ⟨here, ring⟩ := ring
      refine ⟨head.trans here, ring.congr ?_ ?_⟩
      · intro q member _
        exact next q (same.mem_iff.mp member)
      · intro q member _
        exact prev q (same.mem_iff.mp member)
  same := rep.same

theorem HotRep.relinked {ps hot age : List Ptr} {s t : FdState} (rep : HotRep s hot age)
    (relinked : Relinked ps s t) : HotRep t hot age := by
  refine rep.congr (by rw [relinked.area]) (by rw [relinked.area]) (by rw [relinked.area]) ?_ ?_
    ?_ ?_ ?_
  · intro q _; rw [relinked.edits.kind]
  · intro q _; exact relinked.edits.fd q
  · intro q _; exact relinked.index q
  · intro q _; rw [relinked.times]
  · intro q _; rw [relinked.times]

section Lookup

variable {s : FdState} {c : Contents} {fd : Word}

/-- The two lookups together: a hot record with its slot, or no hot record has the
descriptor and the full list answers its newest. -/
theorem lookup_spec (rep : Represents s c) (fd : Word) :
    (∃ left x right, c.hot = left ++ x :: right ∧ fdOf s.heap x = fd ∧ x ≠ NULL ∧
      findRecordInHotCache s fd = .ok (x, left.length)) ∨
    ((∀ q ∈ c.hot, fdOf s.heap q ≠ fd) ∧ findRecordInHotCache s fd = .ok (NULL, -1) ∧
      findRecordInLink s fd = .ok ((c.link.find? fun q => fdOf s.heap q = fd).getD NULL)) := by
  rcases findRecordInHotCache_spec rep.hot.slots rep.hot.live rep.hot.count rep.hot.room
    rep.hot.sorted fd with ⟨left, x, right, cut, same, run⟩ | ⟨absent, run⟩
  · left
    refine ⟨left, x, right, cut, same, ?_, run⟩
    exact Heap.live_ne_null (rep.hot.live x (by simp [cut]))
  · right
    exact ⟨absent, run, findRecordInLink_spec rep.link.head rep.link.ring rep.link.live fd⟩

/-- The record that a `get` or a `delete` chooses. -/
def Chosen (h : Heap) (c : Contents) (fd : Word) (x : Ptr) : Prop :=
  fdOf h x = fd ∧ x ∈ c.link ∧ (x ∉ c.hot → c.link.find? (fun q => fdOf h q = fd) = some x)

theorem find?_newest {link : List Ptr} {h : Heap} {x : Ptr}
    (found : link.find? (fun q => fdOf h q = fd) = some x) : x ∈ link ∧ fdOf h x = fd := by
  refine ⟨List.mem_of_find?_eq_some found, ?_⟩
  simpa using List.find?_some found

/-- A hot hit changes nothing. -/
theorem getCacheByFdInternal_hot {x : Ptr} {i : Int} (rep : Represents s c) (inside : x ∈ c.hot)
    (found : findRecordInHotCache s fd = .ok (x, i)) :
    getCacheByFdInternal s fd = .ok (s, (s.heap.fileFdRecord x).filename) := by
  have live := rep.hot.live x inside
  rw [getCacheByFdInternal, found, ok_bind]
  dsimp only
  rw [if_neg (Heap.live_ne_null live), read_live live]
  rfl

theorem findForDelete_hot {x : Ptr} {i : Int} (real : x ≠ NULL)
    (found : findRecordInHotCache s fd = .ok (x, i)) : findForDelete s fd = .ok (x, true, i) := by
  rw [findForDelete, found, ok_bind]
  dsimp only
  rw [if_neg real]
  rfl

/-- `get_cache_by_fd_internal` -/
theorem getCacheByFdInternal_spec (rep : Represents s c) (fd : Word) :
    (∃ t c' x, getCacheByFdInternal s fd = .ok (t, (s.heap.fileFdRecord x).filename) ∧
      Represents t c' ∧ HotOnly c.link s t ∧ Chosen s.heap c fd x ∧ c'.link = c.link ∧
      c'.age = if x ∈ c.hot then c.age else (x :: c.age).take HOT_FD_CACHE_SIZE.toNat) ∨
    (getCacheByFdInternal s fd = .ok (s, NULL) ∧ ∀ q ∈ c.link, fdOf s.heap q ≠ fd) := by
  rcases lookup_spec rep fd with ⟨left, x, right, cut, same, real, run⟩ | ⟨absent, run, walk⟩
  · left
    have inside : x ∈ c.hot := by simp [cut]
    exact ⟨s, c, x, getCacheByFdInternal_hot rep inside run, rep, ⟨.refl _ _, rfl, rfl, rfl⟩,
      ⟨same, rep.within inside, fun out => absurd inside out⟩, rfl, (if_pos inside).symm⟩
  · cases found : c.link.find? (fun q => fdOf s.heap q = fd) with
    | none =>
      right
      refine ⟨?_, by simpa using found⟩
      unfold getCacheByFdInternal
      rw [run, ok_bind]
      dsimp only
      rw [if_pos rfl, walk, ok_bind, found, Option.getD_none, if_pos rfl]
      rfl
    | some x =>
      left
      obtain ⟨member, same⟩ := find?_newest found
      have live := rep.link.live x member
      have cold : x ∉ c.hot := fun hot => absent x hot same
      obtain ⟨t, hot', inserted, rep_t, within, only⟩ := insertIntoHotCache_spec rep.hot live cold
      have inside : x :: c.hot ⊆ c.link := List.cons_subset.mpr ⟨member, rep.within⟩
      refine ⟨t, ⟨c.link, hot', _⟩, x, ?_, ⟨rep.link.hotOnly only, rep_t, List.Subset.trans within inside⟩,
        only.mono inside, ⟨same, member, fun _ => found⟩, rfl, (if_neg cold).symm⟩
      have live_t : t.heap.kind x = some .fileFdRecord := by rw [only.edits.kind]; exact live
      unfold getCacheByFdInternal
      rw [run, ok_bind]
      dsimp only
      rw [if_pos rfl, walk, ok_bind, found, Option.getD_some, if_neg (Heap.live_ne_null live),
        inserted, ok_bind, read_live live_t, ok_bind, only.edits.filename]
      rfl

end Lookup

section Remove

variable {s : FdState} {c : Contents} {x : Ptr} {older younger left right age : List Ptr}

/-- A record that is alone in its circular list is linked to itself; the two stores
change nothing that matters. -/
theorem unlinkTime_alone (ring : Ring (timeFields s.heap) NULL x [])
    (live : s.heap.kind x = some .fileFdRecord) :
    ∃ t, unlinkTime s x = .ok t ∧ Retimed [x] s t := by
  obtain ⟨⟨next_x, prev_x⟩, -⟩ := ring.ends
  have next_x : (s.heap.fileFdRecord x).timeNext = x := next_x (Heap.live_ne_null live)
  have prev_x : (s.heap.fileFdRecord x).timePrev = x := prev_x (Heap.live_ne_null live)
  unfold unlinkTime
  rw [read_live live, ok_bind, prev_x, next_x, write_live live, ok_bind,
    read_live (by exact live), ok_bind]
  simp only [FdState.modify_heap, timeNext_modify, timePrev_modify, if_true, prev_x]
  rw [write_live (by exact live)]
  exact ⟨_, rfl, (Retimed.store s (by simp) fun r => rfl).trans
    (.store _ (by simp) fun r => rfl)⟩

/-- A record leaves the circular list; when it was the head, the next one is. -/
theorem leaveAge_spec (ring : AgeRing s.heap s.area.hotFdHead (younger ++ x :: older))
    (live : Live s.heap (younger ++ x :: older)) :
    ∃ head t, leaveHead s x = .ok { s with area := { s.area with hotFdHead := head } } ∧
      unlinkTime { s with area := { s.area with hotFdHead := head } } x = .ok t ∧
      Retimed (younger ++ x :: older) { s with area := { s.area with hotFdHead := head } } t ∧
      (younger ++ older ≠ [] → AgeRing t.heap head (younger ++ older)) := by
  have live_x := live x (by simp)
  cases younger with
  | nil =>
    obtain ⟨here, ring⟩ := ring
    obtain ⟨⟨next_x, -⟩, -⟩ := ring.ends
    have next_x : (s.heap.fileFdRecord x).timeNext = older.headD x :=
      next_x (Heap.live_ne_null live_x)
    have leave : leaveHead s x
        = .ok { s with area := { s.area with hotFdHead := older.headD x } } := by
      unfold leaveHead
      rw [if_pos here.symm, here, read_live live_x, ok_bind, next_x]
      rfl
    cases older with
    | nil =>
      obtain ⟨t, run, retimed⟩ := unlinkTime_alone
        (s := { s with area := { s.area with hotFdHead := x } }) ring live_x
      exact ⟨x, t, leave, run, retimed, fun some_left => absurd rfl some_left⟩
    | cons d older =>
      have turned : Ring (timeFields s.heap) NULL d (older ++ x :: []) := ring.rotate
      obtain ⟨t, run, ring_t, retimed⟩ := unlinkTime_spec
        (s := { s with area := { s.area with hotFdHead := d } }) turned (by
          intro q member
          apply live
          simp at member ⊢
          tauto)
      rw [List.append_nil] at ring_t retimed
      refine ⟨d, t, leave, run, ?_, fun _ => ⟨rfl, ring_t⟩⟩
      exact ⟨retimed.edits.mono (by simp), retimed.links, retimed.index, retimed.area⟩
  | cons a younger =>
    obtain ⟨here, ring⟩ := ring
    have not_head : x ≠ s.area.hotFdHead := by
      rw [here]
      rintro rfl
      have nodup := ring.nodup
      simp at nodup
    have leave : leaveHead s x
        = .ok { s with area := { s.area with hotFdHead := a } } := by
      unfold leaveHead
      rw [if_neg not_head, ← here]
      rfl
    obtain ⟨t, run, ring_t, retimed⟩ := unlinkTime_spec
      (s := { s with area := { s.area with hotFdHead := a } }) ring live
    refine ⟨a, t, leave, run, ?_, fun _ => ⟨rfl, ring_t⟩⟩
    refine ⟨retimed.edits.mono ?_, retimed.links, retimed.index, retimed.area⟩
    intro q
    simp
    tauto

/-- The head of the list by age, which is NULL when nothing is left. -/
theorem ageRing_or_null {h : Heap} {head : Ptr} {age : List Ptr} {count : Int}
    (length : count = age.length) (ring : age ≠ [] → AgeRing h head age) :
    AgeRing h (if count = 0 then NULL else head) age := by
  cases age with
  | nil =>
    rw [if_pos (by simpa using length)]
    rfl
  | cons p age =>
    rw [List.length_cons] at length
    rw [if_neg (by omega)]
    exact ring (List.cons_ne_nil p age)

/-- "delete from hot cache" -/
theorem removeHot_spec (rep : HotRep s (left ++ x :: right) age) :
    ∃ t, removeHot s x left.length = .ok t ∧ HotRep t (left ++ right) (age.erase x) ∧
      HotOnly (left ++ x :: right) s t := by
  have nodup := rep.nodup
  have room := rep.room
  have length : ((left ++ x :: right).length : Int) = left.length + 1 + right.length := by
    simp; omega
  rw [length] at room
  have slots := rep.slots
  simp only [slots_append, Slots, Int.zero_add] at slots
  obtain ⟨slots_left, -, slots_right⟩ := slots
  simp only [List.nodup_append, List.nodup_cons] at nodup
  obtain ⟨-, ⟨-, nodup_right⟩, apart⟩ := nodup
  obtain ⟨t, shift, slots_t, shifted⟩ := shiftDown_spec right s left.length slots_right
    (fun q member => rep.live q (by simp [member])) nodup_right (by omega) (by omega)
  obtain ⟨younger, older, age_eq⟩ := List.append_of_mem (rep.same.mem_iff.mpr
    (show x ∈ left ++ x :: right by simp))
  have ring_t : AgeRing t.heap t.area.hotFdHead (younger ++ x :: older) := by
    rw [shifted.area, ← age_eq]
    exact rep.ring.congr shifted.times
  have live_t : Live t.heap (younger ++ x :: older) := by
    intro q member
    rw [shifted.edits.kind]
    exact rep.live q (rep.same.mem_iff.mp (age_eq ▸ member))
  obtain ⟨head, u, leave, unlink, retimed, ring_u⟩ := leaveAge_spec ring_t live_t
  have age_rest : age.erase x = younger ++ older := by
    have age_nodup := rep.ring.nodup
    rw [age_eq] at age_nodup ⊢
    have apart := (List.nodup_cons.mp (List.nodup_middle.mp age_nodup)).1
    exact erase_middle (fun inside => apart (List.mem_append_left older inside)) older
  have same : (younger ++ older).Perm (left ++ right) := by
    have whole : (younger ++ x :: older).Perm (left ++ x :: right) := age_eq ▸ rep.same
    exact (List.perm_middle.symm.trans (whole.trans List.perm_middle)).cons_inv
  have count_t : t.area.hotCount = s.area.hotCount := by rw [shifted.area]
  have count_u : u.area.hotCount = s.area.hotCount := by rw [retimed.area]; exact count_t
  have head_u : u.area.hotFdHead = head := by rw [retimed.area]
  have edits : Edits (left ++ x :: right) s.heap u.heap := by
    refine (shifted.edits.mono ?_).trans (retimed.edits.mono ?_)
    · intro q member; simp [member]
    · intro q member
      exact rep.same.mem_iff.mp (age_eq ▸ member)
  have sub : (left ++ right).Sublist (left ++ x :: right) :=
    (List.Sublist.refl left).append (List.sublist_cons_self x right)
  refine ⟨{ u with area := { u.area with hotCount := s.area.hotCount - 1, hotFdHead :=
    if s.area.hotCount - 1 = 0 then NULL else head } }, ?_, ?_, ?_⟩
  · unfold removeHot
    have rounds : (s.area.hotCount - 1 - left.length).toNat = right.length := by
      rw [rep.count, length]; omega
    rw [rounds, shift, ok_bind, leave, ok_bind, unlink, ok_bind, count_u, head_u]
    rfl
  · rw [age_rest]
    refine ⟨?_, ?_, ?_, ?_, ?_, ?_, same⟩
    · exact (rep.live.subset sub.subset).edits edits
    · dsimp only
      rw [rep.count, length]; simp; omega
    · simp only [List.length_append, Int.natCast_add]; omega
    · have slots_u : Slots u 0 (left ++ right) := by
        refine Slots.retimed ?_ retimed
        refine slots_congr (s := t) ?_ (fun _ _ _ => rfl) (fun _ _ => rfl)
        rw [slots_append, Int.zero_add]
        refine ⟨shifted.keeps slots_left (.inl (by omega)) ?_, slots_t⟩
        intro q member here
        exact apart q member q (by simp [here]) rfl
      exact slots_congr slots_u (fun _ _ _ => rfl) (fun _ _ => rfl)
    · exact sorted_edits edits (rep.sorted.sublist sub)
    · apply ageRing_or_null _ ring_u
      rw [rep.count, length, same.length_eq, List.length_append]
      omega
  · refine ⟨edits, retimed.links.trans shifted.links, ?_, ?_⟩
    · dsimp only
      rw [retimed.area]
      dsimp only
      rw [shifted.area]
    · dsimp only
      rw [retimed.area]
      dsimp only
      rw [shifted.area]

/-- The full list after a record has left it and the count has gone down. -/
theorem LinkRep.unlinked {link link' : List Ptr} {t : FdState} (rep : LinkRep s link)
    (edits : Edits link s.heap t.heap) (within : link' ⊆ link)
    (length : link.length = link'.length + 1) (ring : Ring (linkFields t.heap) NULL NULL link')
    (head : t.area.fileFdHead = link'.headD NULL) (count : t.area.fdCount = s.area.fdCount) :
    LinkRep { t with area := { t.area with
      fdCount := t.area.fdCount - 1,
      fileFdHead := if t.area.fdCount - 1 = 0 then NULL else t.area.fileFdHead } } link' where
  live := (rep.live.subset within).edits edits
  names q member := by
    rw [edits.kind, edits.filename]
    exact rep.names q (within member)
  head := by
    dsimp only
    by_cases last : t.area.fdCount - 1 = 0
    · have empty : link' = [] := by
        apply List.length_eq_zero_iff.mp
        rw [count, rep.count, length] at last
        omega
      rw [if_pos last, empty]
      rfl
    · rw [if_neg last, head]
  ring := ring
  count := by
    dsimp only
    rw [count, rep.count, length]
    omega

/-- A record leaves the hot cache if it is there. -/
theorem removeIfHot_spec {hotList : List Ptr} (rep : HotRep s hotList age) (hot : Bool)
    {delIndex : Int}
    (slot : hot = true → ∃ left right, hotList = left ++ x :: right ∧ delIndex = left.length)
    (cold : hot = false → x ∉ hotList) :
    ∃ t hot', removeIfHot s x hot delIndex = .ok t ∧ HotRep t hot' (age.erase x) ∧
      hot' ⊆ hotList ∧ x ∉ hot' ∧ HotOnly hotList s t := by
  cases hot with
  | false =>
    have out := cold rfl
    refine ⟨s, hotList, rfl, ?_, List.Subset.refl _, out, ⟨.refl _ _, rfl, rfl, rfl⟩⟩
    rw [List.erase_of_not_mem (fun member => out (rep.same.mem_iff.mp member))]
    exact rep
  | true =>
    obtain ⟨left, right, rfl, rfl⟩ := slot rfl
    obtain ⟨t, run, rep_t, only⟩ := removeHot_spec rep
    refine ⟨t, left ++ right, run, rep_t, ?_, ?_, only⟩
    · intro q; simp; tauto
    · exact (List.nodup_cons.mp (List.nodup_middle.mp rep.nodup)).1

/-- What `delete_from_record` does once it has found a record. -/
theorem delete_found (rep : Represents s c) (member : x ∈ c.link) (hot : Bool) {delIndex : Int}
    {fd : Word} (found : findForDelete s fd = .ok (x, hot, delIndex))
    (slot : hot = true → ∃ left right, c.hot = left ++ x :: right ∧ delIndex = left.length)
    (cold : hot = false → x ∉ c.hot) :
    ∃ t c', deleteFromRecord s fd = .ok (t, true) ∧ Represents t c' ∧
      Edits c.link s.heap t.heap ∧ c'.link = c.link.erase x ∧ c'.age = c.age.erase x := by
  obtain ⟨xs, ys, cut⟩ := List.append_of_mem member
  have link_ring := rep.link.ring
  have link_live := rep.link.live
  have link_head := rep.link.head
  have nodup := (List.nodup_cons.mp rep.link.ring.nodup).2
  rw [cut] at link_ring link_live link_head nodup
  have apart : x ∉ xs ++ ys := (List.nodup_cons.mp (List.nodup_middle.mp nodup)).1
  have erased : c.link.erase x = xs ++ ys := by
    rw [cut]
    exact erase_middle (fun inside => apart (List.mem_append_left ys inside)) ys
  have within : xs ++ ys ⊆ c.link := by
    rw [cut]
    intro q; simp; tauto
  obtain ⟨t, unlinked, ring_t, head_t, relinked⟩ :=
    unlinkRecord_spec link_head link_ring link_live
  have rep_t := rep.hot.relinked relinked
  have count_t : t.area.fdCount = s.area.fdCount := by rw [relinked.area]
  obtain ⟨u, hot', run, rep_u, hot_within, gone, only⟩ := removeIfHot_spec rep_t hot slot cold
  have edits : Edits c.link s.heap u.heap :=
    (relinked.edits.mono within).trans (only.edits.mono rep.within)
  refine ⟨{ u with area := { u.area with
    fdCount := u.area.fdCount - 1,
    fileFdHead := if u.area.fdCount - 1 = 0 then NULL else u.area.fileFdHead } },
    ⟨xs ++ ys, hot', c.age.erase x⟩, ?_, ⟨?_, ?_, ?_⟩, edits, erased.symm, rfl⟩
  · have real := Heap.live_ne_null (rep.link.live x member)
    unfold deleteFromRecord
    rw [found, ok_bind]
    dsimp only
    rw [if_neg real, unlinked, ok_bind, run]
    rfl
  · refine rep.link.unlinked edits within ?_ ?_ ?_ (only.fdCount.trans count_t)
    · rw [cut]; simp; omega
    · rw [only.links]; exact ring_t
    · rw [only.fileFdHead]; exact head_t
  · exact rep_u.congr rfl rfl rfl (fun _ _ => rfl) (fun _ _ => rfl) (fun _ _ => rfl)
      (fun _ _ => rfl) (fun _ _ => rfl)
  · intro q inside
    have linked := rep.within (hot_within inside)
    have not_x : q ≠ x := by rintro rfl; exact gone inside
    rw [cut] at linked
    simp at linked ⊢
    tauto

/-- `delete_from_record` -/
theorem deleteFromRecord_spec (rep : Represents s c) (fd : Word) :
    (∃ t c' x, deleteFromRecord s fd = .ok (t, true) ∧ Represents t c' ∧
      Edits c.link s.heap t.heap ∧ Chosen s.heap c fd x ∧ c'.link = c.link.erase x ∧
      c'.age = c.age.erase x) ∨
    (deleteFromRecord s fd = .ok (s, false) ∧ ∀ q ∈ c.link, fdOf s.heap q ≠ fd) := by
  rcases lookup_spec rep fd with ⟨left, x, right, cut, same, real, run⟩ | ⟨absent, run, walk⟩
  · left
    have inside : x ∈ c.hot := by simp [cut]
    obtain ⟨t, c', deleted, rep_t, edits, link, age⟩ := delete_found rep (rep.within inside) true
      (findForDelete_hot real run) (fun _ => ⟨left, right, cut, rfl⟩) (by simp)
    exact ⟨t, c', x, deleted, rep_t, edits, ⟨same, rep.within inside, fun out =>
      absurd inside out⟩, link, age⟩
  · have found : findForDelete s fd
        = .ok ((c.link.find? fun q => fdOf s.heap q = fd).getD NULL, false, -1) := by
      unfold findForDelete
      rw [run, ok_bind]
      dsimp only
      rw [if_pos rfl, walk]
      rfl
    cases newest : c.link.find? (fun q => fdOf s.heap q = fd) with
    | none =>
      right
      rw [newest, Option.getD_none] at found
      refine ⟨?_, by simpa using newest⟩
      unfold deleteFromRecord
      rw [found, ok_bind]
      dsimp only
      rw [if_pos rfl]
      rfl
    | some x =>
      left
      rw [newest, Option.getD_some] at found
      obtain ⟨member, same⟩ := find?_newest newest
      have cold : x ∉ c.hot := fun hot => absent x hot same
      obtain ⟨t, c', deleted, rep_t, edits, link, age⟩ := delete_found rep member false found
        (by simp) (fun _ => cold)
      exact ⟨t, c', x, deleted, rep_t, edits, ⟨same, member, fun _ => newest⟩, link, age⟩

end Remove

section Insert

variable {s : FdState} {c : Contents} {fd : Word} {path : CString}

/-- What a new record and its path look like. -/
structure Allocated (h h' : Heap) (p : Ptr) (fd : Word) (path : CString) : Prop where
  new : h.fresh ≤ p
  live : h'.kind p = some .fileFdRecord
  fd : fdOf h' p = fd
  nameNew : h.fresh ≤ (h'.fileFdRecord p).filename
  name : h'.kind (h'.fileFdRecord p).filename = some .chars
  path : h'.chars (h'.fileFdRecord p).filename = path
  only : ∀ b, h.kind b = none → h'.kind b ≠ none → b = p ∨ b = (h'.fileFdRecord p).filename

theorem allocate_succeeds (h : Heap) (fd : Word) (path : CString) :
    ∃ h', allocateFileFdRecord h fd path true true = .ok (h.fresh, h') ∧
      Allocated h h' h.fresh fd path ∧ Preserves [] h h' := by
  have real : h.fresh ≠ NULL := Nat.ne_of_gt h.freshReal
  have name_real : h.fresh + 1 ≠ NULL := Nat.succ_ne_zero _
  unfold allocateFileFdRecord
  simp only [kmalloc, if_true, if_neg real]
  rw [writeRecord_live (by simp [Heap.allocate]), ok_bind,
    writeRecord_live (by simp [Heap.allocate]), ok_bind, if_neg (by exact name_real),
    writeChars_live (by simp [Heap.allocate]), ok_bind]
  refine ⟨_, rfl, ⟨le_rfl, ?_, ?_, ?_, ?_, ?_, ?_⟩, ?_⟩
  · simp [Heap.storeChars, Heap.allocate]
  · simp [Heap.storeChars, fdOf, Heap.modify, Heap.allocate]
  · simp [Heap.storeChars, Heap.modify, Heap.allocate]
  · simp [Heap.storeChars, Heap.modify, Heap.allocate]
  · simp [Heap.storeChars, Heap.modify]
  · intro b dead live
    by_contra neither
    obtain ⟨not_record, not_name⟩ := not_or.mp neither
    refine live ?_
    simp only [Heap.storeChars, Heap.modify_kind, Heap.allocate] at not_name ⊢
    rw [Function.update_of_ne (by simpa [Heap.modify] using not_name),
      Function.update_of_ne not_record, dead]
  · have old : ∀ q < h.fresh, q ≠ h.fresh ∧ q ≠ h.fresh + 1 := fun q below =>
      ⟨Nat.ne_of_lt below, Nat.ne_of_lt (Nat.lt_succ_of_lt below)⟩
    refine ⟨Nat.le_add_right h.fresh 2, ?_, ?_, ?_, ?_, ?_⟩
    · intro q below
      simp [Heap.storeChars, Heap.allocate, old q below]
    · intro q below
      simp [Heap.storeChars, Heap.allocate, old q below]
    · intro q below
      simp [Heap.storeChars, Heap.modify, Heap.allocate, old q below]
    · intro q below
      simp [Heap.storeChars, Heap.modify, Heap.allocate, old q below]
    · intro q below _
      simp [Heap.storeChars, Heap.modify, Heap.allocate, old q below]

/-- When there is no room, for the record or for the path, what was allocated is freed
again and no live block differs. -/
theorem allocate_fails (h : Heap) (fd : Word) (path : CString) (recordRoom nameRoom : Bool)
    (short : (recordRoom && nameRoom) = false) :
    ∃ h', allocateFileFdRecord h fd path recordRoom nameRoom = .ok (NULL, h') ∧
      h'.kind = h.kind ∧ Preserves [] h h' := by
  have real : h.fresh ≠ NULL := Nat.ne_of_gt h.freshReal
  unfold allocateFileFdRecord
  cases recordRoom with
  | false =>
    simp only [kmalloc, Bool.false_eq_true, if_false, if_true]
    exact ⟨h, rfl, rfl, (Edits.refl [] h).preserves⟩
  | true =>
    have no_name : nameRoom = false := by simpa using short
    subst no_name
    simp only [kmalloc, if_true, if_neg real, Bool.false_eq_true, if_false]
    rw [writeRecord_live (by simp [Heap.allocate]), ok_bind,
      writeRecord_live (by simp [Heap.allocate]), ok_bind,
      kfree_live (k := .fileFdRecord) (by simp [Heap.allocate]), ok_bind]
    refine ⟨_, rfl, ?_, Nat.le_add_right h.fresh 1, ?_, ?_, ?_, ?_, ?_⟩
    · funext q
      simp only [Heap.release, Heap.modify_kind, Heap.allocate, Function.update_apply]
      by_cases here : q = h.fresh
      · rw [if_pos here, here, h.freshDead _ le_rfl]
      · rw [if_neg here, if_neg here]
    · intro q below
      simp [Heap.release, Heap.allocate, Nat.ne_of_lt below]
    · intro q below
      rfl
    · intro q below
      simp [Heap.release, Heap.modify, Heap.allocate, Nat.ne_of_lt below]
    · intro q below
      simp [Heap.release, Heap.modify, Heap.allocate, Nat.ne_of_lt below]
    · intro q below _
      simp [Heap.release, Heap.modify, Heap.allocate, Nat.ne_of_lt below]

/-- The cache is what it was when the area and the blocks it is made of are. -/
theorem Represents.frame {t : FdState} (rep : Represents s c) (area : t.area = s.area)
    (kind : ∀ q ∈ c.link, t.heap.kind q = s.heap.kind q)
    (record : ∀ q ∈ c.link, t.heap.fileFdRecord q = s.heap.fileFdRecord q)
    (name : ∀ q ∈ c.link, t.heap.kind (s.heap.fileFdRecord q).filename
      = s.heap.kind (s.heap.fileFdRecord q).filename) : Represents t c := by
  refine ⟨⟨?_, ?_, ?_, ?_, ?_⟩, ?_, rep.within⟩
  · intro q member
    rw [kind q member]
    exact rep.link.live q member
  · intro q member
    rw [record q member, name q member]
    exact rep.link.names q member
  · rw [area]; exact rep.link.head
  · refine rep.link.ring.congr ?_ ?_
    · intro q member real
      simp only [linkFields, record q (List.mem_of_ne_of_mem real member)]
    · intro q member real
      simp only [linkFields, record q (List.mem_of_ne_of_mem real member)]
  · rw [area]; exact rep.link.count
  · refine rep.hot.congr (by rw [area]) (by rw [area]) (by rw [area]) ?_ ?_ ?_ ?_ ?_
    · intro q member; exact kind q (rep.within member)
    · intro q member; simp only [fdOf, record q (rep.within member)]
    · intro q member; rw [record q (rep.within member)]
    · intro q member; simp only [timeFields, record q (rep.within member)]
    · intro q member; simp only [timeFields, record q (rep.within member)]

theorem Represents.preserved {t : FdState} (rep : Represents s c) (area : t.area = s.area)
    (preserves : Preserves [] s.heap t.heap) : Represents t c := by
  have old : ∀ q ∈ c.link, q < s.heap.fresh := fun q member =>
    Heap.live_lt_fresh (rep.link.live q member)
  refine rep.frame area ?_ ?_ ?_
  · intro q member; exact preserves.kind q (old q member)
  · intro q member; exact preserves.elsewhere q (old q member) (by simp)
  · intro q member; exact preserves.kind _ (Heap.live_lt_fresh (rep.link.names q member))

theorem Preserves.mono {ps qs : List Ptr} {h h' : Heap} (preserves : Preserves ps h h')
    (within : ps ⊆ qs) : Preserves qs h h' where
  fresh := preserves.fresh
  kind := preserves.kind
  chars := preserves.chars
  fd := preserves.fd
  filename := preserves.filename
  elsewhere q old out := preserves.elsewhere q old fun member => out (within member)

theorem Allocated.edits {ps : List Ptr} {h h₁ h₂ : Heap} {p : Ptr}
    (new : Allocated h h₁ p fd path) (edits : Edits ps h₁ h₂) : Allocated h h₂ p fd path where
  new := new.new
  live := by rw [edits.kind]; exact new.live
  fd := (edits.fd p).trans new.fd
  nameNew := by rw [edits.filename]; exact new.nameNew
  name := by rw [edits.kind, edits.filename]; exact new.name
  path := by rw [edits.chars, edits.filename]; exact new.path
  only := by rw [edits.kind, edits.filename]; exact new.only

/-- The stores that put an allocated record in front of the full list. -/
theorem pushRecord_spec {p : Ptr} (rep : Represents s c)
    (live_p : s.heap.kind p = some .fileFdRecord)
    (live_name : s.heap.kind (s.heap.fileFdRecord p).filename = some .chars)
    (new : p ∉ c.link) :
    ∃ t, setPrev (s.modify p fun r =>
        { r with prev := NULL, next := s.area.fileFdHead, timeNext := NULL, timePrev := NULL })
        s.area.fileFdHead p = .ok t ∧
      Represents { t with area := { t.area with
        fileFdHead := p, fdCount := t.area.fdCount + 1 } } { c with link := p :: c.link } ∧
      Edits (p :: c.link) s.heap t.heap := by
  have real := Heap.live_ne_null live_p
  have head_mem : s.area.fileFdHead ≠ NULL → s.area.fileFdHead ∈ c.link := by
    intro some_head
    have member := headD_mem NULL c.link
    rw [← rep.link.head] at member
    exact List.mem_of_ne_of_mem some_head member
  have not_head : p ≠ s.area.fileFdHead := by
    intro same
    exact new (same ▸ head_mem (same ▸ real))
  obtain ⟨t, run, relinked, area, prev_head, prev_frame, next_frame⟩ := setPrev_spec
    (s.modify p fun r =>
      { r with prev := NULL, next := s.area.fileFdHead, timeNext := NULL, timePrev := NULL })
    s.area.fileFdHead p (p :: c.link) (fun some_head =>
      ⟨List.mem_cons_of_mem p (head_mem some_head), rep.link.live _ (head_mem some_head)⟩)
  have area : t.area = s.area := area
  have edits : Edits (p :: c.link) s.heap t.heap := by
    have second := relinked.edits
    rw [FdState.modify_heap] at second
    refine Edits.trans (Edits.mono (Edits.modify s.heap p _ ?_ ?_) (by simp)) second
    · intro r; rfl
    · intro r; rfl
  refine ⟨t, run, ⟨⟨?_, ?_, rfl, ?_, ?_⟩, ?_, ?_⟩, edits⟩
  · refine Live.edits ?_ edits
    intro q member
    rcases List.mem_cons.mp member with rfl | member
    · exact live_p
    · exact rep.link.live q member
  · intro q member
    rw [edits.kind, edits.filename]
    rcases List.mem_cons.mp member with rfl | member
    · exact live_name
    · exact rep.link.names q member
  · have ring : Ring (linkFields s.heap) NULL NULL ([] ++ c.link) := rep.link.ring
    have fresh_node : p ∉ NULL :: ([] ++ c.link) := by
      simp [real, new]
    refine ring.insert fresh_node rfl rep.link.head ?_ ?_ ?_ prev_head ?_ ?_
    · rw [next_frame p]
      simp [linkFields, next_modify]
    · rw [prev_frame p not_head]
      simp [linkFields, prev_modify]
    · intro impossible
      exact absurd rfl impossible
    · intro y member _
      have other : y ≠ p := by rintro rfl; exact fresh_node member
      rw [next_frame y]
      simp [linkFields, next_modify, other]
    · intro y member not_first
      have other : y ≠ p := by rintro rfl; exact fresh_node member
      rw [prev_frame y not_first]
      simp [linkFields, prev_modify, other]
  · dsimp only
    rw [area, rep.link.count]
    simp
  · have other : ∀ q ∈ c.hot, q ≠ p := by
      rintro q member rfl
      exact new (rep.within member)
    refine rep.hot.congr (by rw [area]) (by rw [area]) (by rw [area]) ?_ ?_ ?_ ?_ ?_
    · intro q _; rw [edits.kind]
    · intro q _; exact edits.fd q
    · intro q member
      rw [relinked.index q, FdState.modify_heap, Heap.modify_apply, if_neg (other q member)]
    · intro q member
      rw [relinked.times]
      simp [timeFields, timeNext_modify, other q member]
    · intro q member
      rw [relinked.times]
      simp [timeFields, timePrev_modify, other q member]
  · exact List.Subset.trans rep.within (List.subset_cons_self p c.link)

/-- `insert_into_link`: the new record is the head of the full list, and not hot. -/
theorem insertIntoLink_succeeds (rep : Represents s c) (fd : Word) (path : CString) :
    ∃ t, insertIntoLink s fd path true true = .ok (t, s.heap.fresh) ∧
      Represents t { c with link := s.heap.fresh :: c.link } ∧
      Allocated s.heap t.heap s.heap.fresh fd path ∧ Preserves c.link s.heap t.heap := by
  obtain ⟨h, allocated, new, preserves⟩ := allocate_succeeds s.heap fd path
  have unlinked : s.heap.fresh ∉ c.link := fun member =>
    Nat.lt_irrefl _ (Heap.live_lt_fresh (rep.link.live _ member))
  have rep_h := rep.preserved (t := { s with heap := h }) rfl preserves
  obtain ⟨t, run, rep_t, edits⟩ := pushRecord_spec rep_h new.live new.name unlinked
  refine ⟨_, ?_, rep_t, new.edits edits, ?_⟩
  · unfold insertIntoLink
    rw [allocated, ok_bind]
    dsimp only
    rw [if_neg (Heap.live_ne_null new.live), write_live (by exact new.live), ok_bind]
    simp only [FdState.modify_area]
    dsimp only at run
    rw [run]
    rfl
  · refine (preserves.mono (List.nil_subset c.link)).trans_edits edits ?_
    intro q member below
    exact List.mem_of_ne_of_mem (Nat.ne_of_lt below) member

theorem insertIntoLink_fails (s : FdState) (fd : Word) (path : CString)
    (recordRoom nameRoom : Bool) (short : (recordRoom && nameRoom) = false) :
    ∃ h, insertIntoLink s fd path recordRoom nameRoom = .ok ({ s with heap := h }, NULL) ∧
      h.kind = s.heap.kind ∧ Preserves [] s.heap h := by
  obtain ⟨h, failed, kind, preserves⟩ :=
    allocate_fails s.heap fd path recordRoom nameRoom short
  refine ⟨h, ?_, kind, preserves⟩
  unfold insertIntoLink
  rw [failed, ok_bind]
  dsimp only
  rw [if_pos rfl]
  rfl

/-- `insert_into_cache` with room: the descriptor's newest record, and the youngest hot
one. -/
theorem insertIntoCache_succeeds (rep : Represents s c) (fd : Word) (path : CString) :
    ∃ t c', insertIntoCache s fd (some path) true true = .ok t ∧ Represents t c' ∧
      c'.link = s.heap.fresh :: c.link ∧
      c'.age = (s.heap.fresh :: c.age).take HOT_FD_CACHE_SIZE.toNat ∧
      Allocated s.heap t.heap s.heap.fresh fd path ∧ Preserves c.link s.heap t.heap := by
  obtain ⟨t, linked, rep_t, new, preserves⟩ := insertIntoLink_succeeds rep fd path
  have cold : s.heap.fresh ∉ c.hot := fun member =>
    Nat.lt_irrefl _ (Heap.live_lt_fresh (rep.hot.live _ member))
  obtain ⟨u, hot', run, rep_u, within, only⟩ :=
    insertIntoHotCache_spec rep_t.hot new.live cold
  have inside : s.heap.fresh :: c.hot ⊆ s.heap.fresh :: c.link :=
    List.cons_subset_cons _ rep.within
  refine ⟨u, ⟨s.heap.fresh :: c.link, hot', _⟩, ?_, ⟨rep_t.link.hotOnly only, rep_u,
    List.Subset.trans within inside⟩, rfl, rfl, new.edits only.edits, ?_⟩
  · unfold insertIntoCache
    dsimp only
    rw [linked, ok_bind]
    dsimp only
    rw [if_neg (Heap.live_ne_null new.live), run]
  · apply preserves.trans_edits only.edits
    intro q member below
    exact List.mem_of_ne_of_mem (Nat.ne_of_lt below) (inside member)

/-- `insert_into_cache` without room, or without a path. -/
theorem insertIntoCache_fails (s : FdState) (fd : Word) (path : Option CString)
    (recordRoom nameRoom : Bool) (short : path = none ∨ (recordRoom && nameRoom) = false) :
    ∃ h, insertIntoCache s fd path recordRoom nameRoom = .ok { s with heap := h } ∧
      h.kind = s.heap.kind ∧ Preserves [] s.heap h := by
  cases path with
  | none => exact ⟨s.heap, rfl, rfl, (Edits.refl [] s.heap).preserves⟩
  | some path =>
    obtain ⟨h, failed, kind, preserves⟩ := insertIntoLink_fails s fd path recordRoom nameRoom
      (short.resolve_left (by simp))
    refine ⟨h, ?_, kind, preserves⟩
    unfold insertIntoCache
    dsimp only
    rw [failed, ok_bind]
    dsimp only
    rw [if_pos rfl]
    rfl

/-- Either an insert has a path and room for both blocks, or it stores nothing. -/
theorem insert_cases (path : Option CString) (recordRoom nameRoom : Bool) :
    (path = none ∨ (recordRoom && nameRoom) = false) ∨
    ∃ text, path = some text ∧ recordRoom = true ∧ nameRoom = true := by
  cases path with
  | none => exact .inl (.inl rfl)
  | some text =>
    cases room : recordRoom && nameRoom with
    | false => exact .inl (.inr rfl)
    | true =>
      rw [Bool.and_eq_true] at room
      exact .inr ⟨text, rfl, room.1, room.2⟩

/-- `fd_cache_initize` leaves an empty cache, whatever the area held. -/
theorem fdCacheInitize_spec (h : Heap) (filename : Ptr)
    (readable : filename = NULL ∨ h.kind filename = some .chars) :
    ∃ s, fdCacheInitize h filename = .ok s ∧ s.heap = h ∧ Represents s ⟨[], [], []⟩ := by
  have printed : printChars h filename = .ok () := by
    unfold printChars
    rcases readable with null | live
    · rw [if_pos null]
    · rw [if_neg (Heap.live_ne_null live), follow_live live]
  unfold fdCacheInitize
  rw [printed, ok_bind]
  refine ⟨_, rfl, rfl, ⟨⟨?_, ?_, rfl, ⟨?_, ?_⟩, rfl⟩, ⟨?_, rfl, ?_, trivial, .nil, rfl, .nil⟩, ?_⟩⟩
  · intro q member; simp at member
  · intro q member; simp at member
  · simp [Link]
  · simp
  · intro q member; simp at member
  · decide
  · exact List.Subset.refl _

end Insert

section Steps

variable {s : FdState} {c : Contents}

/-- The path of a record. -/
abbrev pathOf (h : Heap) (p : Ptr) : CString := h.chars (h.fileFdRecord p).filename

theorem fdStep_insert_fails (s : FdState) (fd : Word) (path : Option CString)
    (recordRoom nameRoom : Bool) (short : path = none ∨ (recordRoom && nameRoom) = false) :
    ∃ h, fdStep s (.insert fd path recordRoom nameRoom) = .ok ({ s with heap := h }, .inserted) ∧
      h.kind = s.heap.kind ∧ Preserves [] s.heap h := by
  obtain ⟨h, run, kind, preserves⟩ := insertIntoCache_fails s fd path recordRoom nameRoom short
  refine ⟨h, ?_, kind, preserves⟩
  rw [fdStep, run]
  rfl

theorem fdStep_insert (rep : Represents s c) (fd : Word) (path : CString) :
    ∃ t c', fdStep s (.insert fd (some path) true true) = .ok (t, .inserted) ∧
      Represents t c' ∧ c'.link = s.heap.fresh :: c.link ∧
      Allocated s.heap t.heap s.heap.fresh fd path ∧ Preserves c.link s.heap t.heap := by
  obtain ⟨t, c', run, rep_t, link, -, new, preserves⟩ := insertIntoCache_succeeds rep fd path
  refine ⟨t, c', ?_, rep_t, link, new, preserves⟩
  rw [fdStep, run]
  rfl

theorem pathAt_name {x : Ptr} (rep : Represents s c) (member : x ∈ c.link) {h : Heap}
    (edits : Edits c.link s.heap h) :
    pathAt h (s.heap.fileFdRecord x).filename = .ok (some (pathOf s.heap x)) := by
  have live := rep.link.names x member
  have live_h : h.kind (s.heap.fileFdRecord x).filename = some .chars := by
    rw [edits.kind]
    exact live
  unfold pathAt
  rw [if_neg (Heap.live_ne_null live), readChars_live live_h, edits.chars]
  rfl

theorem fdStep_get (rep : Represents s c) (fd : Word) :
    (∃ t c' x, fdStep s (.get fd) = .ok (t, .path (some (pathOf s.heap x))) ∧
      Represents t c' ∧ Edits c.link s.heap t.heap ∧ Chosen s.heap c fd x ∧ c'.link = c.link) ∨
    (fdStep s (.get fd) = .ok (s, .path none) ∧ ∀ q ∈ c.link, fdOf s.heap q ≠ fd) := by
  rcases getCacheByFdInternal_spec rep fd with
    ⟨t, c', x, run, rep_t, only, chosen, link, -⟩ | ⟨run, absent⟩
  · refine .inl ⟨t, c', x, ?_, rep_t, only.edits, chosen, link⟩
    rw [fdStep, run, ok_bind]
    dsimp only
    rw [pathAt_name rep chosen.2.1 only.edits]
    rfl
  · refine .inr ⟨?_, absent⟩
    rw [fdStep, run]
    rfl

theorem fdStep_delete (rep : Represents s c) (fd : Word) :
    (∃ t c' x, fdStep s (.delete fd) = .ok (t, .deleted true) ∧ Represents t c' ∧
      Edits c.link s.heap t.heap ∧ Chosen s.heap c fd x ∧ c'.link = c.link.erase x) ∨
    (fdStep s (.delete fd) = .ok (s, .deleted false) ∧ ∀ q ∈ c.link, fdOf s.heap q ≠ fd) := by
  rcases deleteFromRecord_spec rep fd with
    ⟨t, c', x, run, rep_t, edits, chosen, link, -⟩ | ⟨run, absent⟩
  · refine .inl ⟨t, c', x, ?_, rep_t, edits, chosen, link⟩
    rw [fdStep, deleteCacheByFd, run]
    rfl
  · refine .inr ⟨?_, absent⟩
    rw [fdStep, deleteCacheByFd, run]
    rfl

end Steps

end SysMonitor.Source.FdCache
