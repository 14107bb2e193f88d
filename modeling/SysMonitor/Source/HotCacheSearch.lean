import SysMonitor.Library.Runs
import SysMonitor.Source.FdCache

/-!
# The two bisections of the hot cache

`find_record_in_hot_cache` and `get_insert_index` bisect the same array. Both are
followed here over any array that reads back without a fault and is non-decreasing,
whatever its length and however many equal descriptors it holds.
-/

namespace SysMonitor.Source.FdCache
open SysMonitor.Library

/-- `get_insert_index` over any array that `fdAt` reads. -/
def insertIndexIn (fdAt : Int → Except Fault Word) (hotCount : Int) (fd : Word) :
    Except Fault Int :=
  searchInsert fdAt hotCount fd (hotCount.toNat + 1) 0 0 (hotCount - 1)

/-- `find_record_in_hot_cache` over any array that `slotAt` and `fdAt` read. -/
def findRecordIn (slotAt : Int → Except Fault Ptr) (fdAt : Int → Except Fault Word)
    (hotCount : Int) (fd : Word) : Except Fault (Ptr × Int) := do
  let index ← searchHot fdAt fd (hotCount.toNat + 1) 0 (hotCount - 1)
  if index ≠ -1 then do
    let p ← slotAt index
    return (p, index)
  else return (NULL, -1)

theorem getInsertIndex_eq (s : FdState) (fd : Word) :
    getInsertIndex s fd = insertIndexIn (hotFd s) s.area.hotCount fd := rfl

theorem findRecordInHotCache_eq (s : FdState) (fd : Word) :
    findRecordInHotCache s fd = findRecordIn s.readSlot (hotFd s) s.area.hotCount fd := rfl

/-- `fdAt` reads an array of `n` descriptors in non-decreasing order. -/
structure SortedArray (fdAt : Int → Except Fault Word) (key : Int → Word) (n : Int) : Prop where
  reads : ∀ i, 0 ≤ i → i < n → fdAt i = .ok (key i)
  sorted : ∀ i j, 0 ≤ i → i ≤ j → j < n → key i ≤ key j

section Orders

/-- Descriptors are compared as unsigned numbers. -/
theorem word_lt_of_lt_of_le {a b c : Word} (first : a < b) (second : b ≤ c) : a < c := by
  rw [BitVec.lt_def] at first ⊢
  rw [BitVec.le_def] at second
  omega

theorem word_lt_of_le_of_lt {a b c : Word} (first : a ≤ b) (second : b < c) : a < c := by
  rw [BitVec.lt_def] at second ⊢
  rw [BitVec.le_def] at first
  omega

end Orders

variable {fdAt : Int → Except Fault Word} {key : Int → Word} {n : Int} {fd : Word}

theorem SortedArray.neighbour (array : SortedArray fdAt key n) (there : Prop)
    [Decidable there] (i : Int) (inside : there → 0 ≤ i ∧ i < n) :
    neighbourFd fdAt there i = .ok (if there then key i else 0) := by
  unfold neighbourFd
  by_cases here : there
  · rw [if_pos here, if_pos here, array.reads i (inside here).1 (inside here).2]
  · rw [if_neg here, if_neg here]

/-- Every round leaves only smaller descriptors on the left and greater ones on the
right of the part still to search. -/
theorem searchHot_spec (array : SortedArray fdAt key n) (rounds : Nat) (l r : Int)
    (left_in : 0 ≤ l) (right_in : r < n) (enough : r + 1 < l + rounds) (some_round : 0 < rounds)
    (smaller : ∀ i, 0 ≤ i → i < l → key i < fd) (greater : ∀ i, r < i → i < n → fd < key i) :
    ∃ i, searchHot fdAt fd rounds l r = .ok i ∧
      ((0 ≤ i ∧ i < n ∧ key i = fd) ∨ (i = -1 ∧ ∀ j, 0 ≤ j → j < n → key j ≠ fd)) := by
  induction rounds generalizing l r with
  | zero => omega
  | succ rounds ih =>
    unfold searchHot
    by_cases open_part : l ≤ r
    · rw [if_pos open_part]
      have middle_left : l ≤ (l + r) / 2 := by omega
      have middle_right : (l + r) / 2 ≤ r := by omega
      generalize (l + r) / 2 = m at middle_left middle_right
      simp only [array.reads m (by omega) (by omega), ok_bind]
      by_cases below : key m < fd
      · rw [if_pos below]
        refine ih (m + 1) r (by omega) right_in (by omega) (by omega) ?_ greater
        intro i first last
        exact word_lt_of_le_of_lt (array.sorted i m first (by omega) (by omega)) below
      · rw [if_neg below]
        by_cases above : fd < key m
        · rw [if_pos above]
          apply ih l (m - 1) left_in (by omega) (by omega) (by omega) smaller
          intro i first last
          exact word_lt_of_lt_of_le above (array.sorted m i (by omega) (by omega) last)
        · rw [if_neg above]
          refine ⟨m, rfl, .inl ⟨by omega, by omega, ?_⟩⟩
          exact BitVec.le_antisymm (BitVec.not_lt.mp above) (BitVec.not_lt.mp below)
    · rw [if_neg open_part]
      refine ⟨-1, rfl, .inr ⟨rfl, ?_⟩⟩
      intro j first last same
      by_cases side : j < l
      · have less := smaller j first side
        simp [same] at less
      · have more := greater j (by omega) last
        simp [same] at more

/-- `find_record_in_hot_cache` finds the descriptor exactly when it is there. -/
theorem searchHot_sorted (array : SortedArray fdAt key n) (fd : Word) (nonneg : 0 ≤ n) :
    ∃ i, searchHot fdAt fd (n.toNat + 1) 0 (n - 1) = .ok i ∧
      ((0 ≤ i ∧ i < n ∧ key i = fd) ∨ (i = -1 ∧ ∀ j, 0 ≤ j → j < n → key j ≠ fd)) := by
  refine searchHot_spec array _ 0 (n - 1) (by omega) (by omega) (by omega) (by omega) ?_ ?_
  · intro i first last; omega
  · intro i first last; omega

/-- The two neighbours of a place say on which side of it the whole array is. -/
theorem SortedArray.splits (array : SortedArray fdAt key n) {i : Int} (below : 0 ≤ i)
    (above : i ≤ n) (before : 0 < i → key (i - 1) ≤ fd) (behind : i < n → fd ≤ key i) :
    0 ≤ i ∧ i ≤ n ∧ (∀ j, 0 ≤ j → j < i → key j ≤ fd) ∧ ∀ j, i ≤ j → j < n → fd ≤ key j := by
  refine ⟨below, above, ?_, ?_⟩
  · intro j first last
    have order := array.sorted j (i - 1) first (by omega) (by omega)
    exact BitVec.le_trans order (before (by omega))
  · intro j first last
    have order := array.sorted i j below first last
    exact BitVec.le_trans (behind (by omega)) order

/-- As long as the loop of `get_insert_index` runs, what is left of `l` is smaller and
what is right of `r` greater than the descriptor. So it never runs out of slots: it
leaves at a slot whose neighbour is on the other side. -/
theorem searchInsert_spec (array : SortedArray fdAt key n) (rounds : Nat) (fit l r : Int)
    (left_in : 0 ≤ l) (right_in : r < n) (open_part : l ≤ r) (enough : r + 1 < l + rounds)
    (smaller : 0 < l → key (l - 1) < fd) (greater : r + 1 < n → fd < key (r + 1)) :
    ∃ i, searchInsert fdAt n fd rounds fit l r = .ok i ∧ 0 ≤ i ∧ i ≤ n ∧
      (∀ j, 0 ≤ j → j < i → key j ≤ fd) ∧ ∀ j, i ≤ j → j < n → fd ≤ key j := by
  induction rounds generalizing fit l r with
  | zero => omega
  | succ rounds ih =>
    unfold searchInsert
    rw [if_pos open_part]
    have middle_left : l ≤ (l + r) / 2 := by omega
    have middle_right : (l + r) / 2 ≤ r := by omega
    generalize (l + r) / 2 = m at middle_left middle_right
    have read_prev := array.neighbour (m ≠ 0) (m - 1) fun _ => ⟨by omega, by omega⟩
    have read_next := array.neighbour (n - 1 ≠ m) (m + 1) fun _ => ⟨by omega, by omega⟩
    simp only [array.reads m (by omega) (by omega), read_prev, read_next, ok_bind]
    by_cases fits_left : (m = 0 ∨ (if m ≠ 0 then key (m - 1) else 0) ≤ fd) ∧ fd ≤ key m
    · rw [if_pos fits_left]
      refine ⟨m, rfl, array.splits (by omega) (by omega) ?_ fun _ => fits_left.2⟩
      intro some_left
      rcases fits_left.1 with start | prev
      · omega
      · rwa [if_pos (by omega)] at prev
    · rw [if_neg fits_left]
      by_cases fits_right : key m ≤ fd ∧ (n - 1 = m ∨ fd ≤ if n - 1 ≠ m then key (m + 1) else 0)
      · rw [if_pos fits_right]
        refine ⟨m + 1, rfl, array.splits (by omega) (by omega) ?_ ?_⟩
        · intro _
          rw [Int.add_sub_cancel]
          exact fits_right.1
        · intro some_right
          rcases fits_right.2 with stop | next
          · omega
          · rwa [if_pos (by omega)] at next
      · rw [if_neg fits_right]
        by_cases below : key m < fd
        · rw [if_pos below]
          -- the slot behind is smaller too, so it is not the one past `r`
          have not_last : n - 1 ≠ m := fun last => fits_right ⟨BitVec.le_of_lt below, .inl last⟩
          have next_below : key (m + 1) < fd := by
            rw [← BitVec.not_le]
            intro next
            exact fits_right ⟨BitVec.le_of_lt below, .inr (by rwa [if_pos not_last])⟩
          have inside : m < r := by
            by_contra outside
            have edge : r + 1 = m + 1 := by omega
            have more := greater (by omega)
            rw [edge] at more
            exact BitVec.lt_irrefl _ (BitVec.lt_trans more next_below)
          refine ih (n - 1) (m + 1) r (by omega) right_in (by omega) (by omega) ?_ greater
          intro _
          rwa [Int.add_sub_cancel]
        · rw [if_neg below]
          have here : fd ≤ key m := BitVec.not_lt.mp below
          have not_first : m ≠ 0 := fun first => fits_left ⟨.inl first, here⟩
          have prev_above : fd < key (m - 1) := by
            rw [← BitVec.not_le]
            intro prev
            exact fits_left ⟨.inr (by rwa [if_pos not_first]), here⟩
          have inside : l < m := by
            by_contra outside
            have edge : l - 1 = m - 1 := by omega
            have less := smaller (by omega)
            rw [edge] at less
            exact BitVec.lt_irrefl _ (BitVec.lt_trans less prev_above)
          apply ih (n - 1) l (m - 1) left_in (by omega) (by omega) (by omega) smaller
          intro _
          rw [Int.sub_add_cancel]
          exact word_lt_of_lt_of_le prev_above (array.sorted (m - 1) m (by omega) (by omega)
            (by omega))

/-- `get_insert_index` answers a place that keeps the array sorted. -/
theorem searchInsert_sorted (array : SortedArray fdAt key n) (fd : Word) (nonneg : 0 ≤ n) :
    ∃ i, searchInsert fdAt n fd (n.toNat + 1) 0 0 (n - 1) = .ok i ∧ 0 ≤ i ∧ i ≤ n ∧
      (∀ j, 0 ≤ j → j < i → key j ≤ fd) ∧ ∀ j, i ≤ j → j < n → fd ≤ key j := by
  rcases Int.lt_or_eq_of_le nonneg with some_slot | empty
  · refine searchInsert_spec array _ 0 0 (n - 1) (by omega) (by omega) (by omega) (by omega) ?_ ?_
    · intro impossible; omega
    · intro impossible; omega
  · refine ⟨0, ?_, array.splits (Int.le_refl 0) nonneg ?_ ?_⟩
    · unfold searchInsert
      rw [if_neg (by omega)]
    · intro impossible; omega
    · intro impossible; omega

/-- `slotAt` and `fdAt` read an array of these records and their keys, and the keys do not
decrease. -/
structure RecordArray (slotAt : Int → Except Fault Ptr) (fdAt : Int → Except Fault Word)
    (key : Ptr → Word) (records : List Ptr) : Prop where
  slot : ∀ (j : Nat) (inside : j < records.length), slotAt j = .ok records[j]
  fd : ∀ (j : Nat) (inside : j < records.length), fdAt j = .ok (key records[j])
  sorted : records.Pairwise fun p q => key p ≤ key q

namespace RecordArray

variable {slotAt : Int → Except Fault Ptr} {key : Ptr → Word} {records : List Ptr}

/-- The array as the bisections see it. -/
theorem sortedArray (array : RecordArray slotAt fdAt key records) :
    SortedArray fdAt (fun i => key (records.getD i.toNat NULL)) records.length where
  reads i below above := by
    lift i to Nat using below
    have inside : i < records.length := by omega
    simp [array.fd i inside, inside]
  sorted i j below order above := by
    lift i to Nat using below
    lift j to Nat using by omega
    have inside : j < records.length := by omega
    have inside' : i < records.length := by omega
    simp only [Int.toNat_natCast, List.getD_eq_getElem?_getD, List.getElem?_eq_getElem inside,
      List.getElem?_eq_getElem inside', Option.getD_some]
    rcases Nat.lt_or_eq_of_le (Int.ofNat_le.mp order) with less | rfl
    · exact List.pairwise_iff_getElem.mp array.sorted i j inside' inside less
    · exact BitVec.le_refl _

/-- A record with its place in the array, or none has the key. -/
theorem findRecord (array : RecordArray slotAt fdAt key records) (fd : Word) :
    (∃ left p right, records = left ++ p :: right ∧ key p = fd ∧
      findRecordIn slotAt fdAt records.length fd = .ok (p, left.length)) ∨
    ((∀ p ∈ records, key p ≠ fd) ∧
      findRecordIn slotAt fdAt records.length fd = .ok (NULL, -1)) := by
  obtain ⟨i, run, ⟨below, above, same⟩ | ⟨rfl, absent⟩⟩ :=
    searchHot_sorted array.sortedArray fd (by omega)
  · left
    lift i to Nat using below
    have inside : i < records.length := by omega
    refine ⟨records.take i, records[i], records.drop (i + 1), ?_, ?_, ?_⟩
    · rw [List.getElem_cons_drop, List.take_append_drop]
    · simpa [inside] using same
    · unfold findRecordIn
      rw [run, ok_bind, if_pos (by omega), array.slot i inside, ok_bind, List.length_take,
        Nat.min_eq_left (by omega)]
      rfl
  · right
    constructor
    · intro p member
      obtain ⟨j, inside, rfl⟩ := List.getElem_of_mem member
      simpa [inside] using absent j (by omega) (by omega)
    · unfold findRecordIn
      rw [run, ok_bind, if_neg (by omega)]
      rfl

/-- Where the array is to be cut. -/
theorem insertIndex (array : RecordArray slotAt fdAt key records) (fd : Word) :
    ∃ left right, records = left ++ right ∧
      insertIndexIn fdAt records.length fd = .ok left.length ∧
      (∀ p ∈ left, key p ≤ fd) ∧ ∀ p ∈ right, fd ≤ key p := by
  obtain ⟨i, run, below, above, lower, upper⟩ :=
    searchInsert_sorted array.sortedArray fd (by omega)
  lift i to Nat using below
  have inside : i ≤ records.length := by omega
  refine ⟨records.take i, records.drop i, (List.take_append_drop i records).symm, ?_, ?_, ?_⟩
  · unfold insertIndexIn
    rw [run, List.length_take, Nat.min_eq_left inside]
  · intro p member
    obtain ⟨j, short, rfl⟩ := List.getElem_of_mem member
    rw [List.length_take] at short
    have within : j < records.length := by omega
    simpa [within] using lower j (by omega) (by omega)
  · intro p member
    obtain ⟨j, short, rfl⟩ := List.getElem_of_mem member
    rw [List.length_drop] at short
    have within : i + j < records.length := by omega
    have bound := upper ((i + j : Nat) : Int) (by omega) (by omega)
    simp only [Int.toNat_natCast, List.getD_eq_getElem?_getD, List.getElem?_eq_getElem within,
      Option.getD_some] at bound
    rw [List.getElem_drop]
    exact bound

end RecordArray

section Extends

/-- What `read` reads, `read'` reads as well. -/
def ReadBy {α : Type} (read read' : Int → Except Fault α) : Prop :=
  ∀ i v, read i = .ok v → read' i = .ok v

variable {fdAt' : Int → Except Fault Word}

theorem neighbourFd_extends (more : ReadBy fdAt fdAt') {there : Prop} [Decidable there] {i : Int}
    {v : Word} (read : neighbourFd fdAt there i = .ok v) : neighbourFd fdAt' there i = .ok v := by
  unfold neighbourFd at read ⊢
  by_cases here : there
  · rw [if_pos here] at read ⊢
    exact more i v read
  · rw [if_neg here] at read ⊢
    exact read

/-- A search that meets no fault does not depend on what else can be read. -/
theorem searchHot_extends (more : ReadBy fdAt fdAt') {rounds : Nat} {l r i : Int}
    (run : searchHot fdAt fd rounds l r = .ok i) : searchHot fdAt' fd rounds l r = .ok i := by
  induction rounds generalizing l r with
  | zero => cases run
  | succ rounds ih =>
    unfold searchHot at run ⊢
    by_cases open_part : l ≤ r
    · rw [if_pos open_part] at run ⊢
      obtain ⟨tFd, read, run⟩ := bind_eq_ok run
      simp only [more _ _ read, ok_bind]
      by_cases below : tFd < fd
      · rw [if_pos below] at run ⊢
        exact ih run
      · rw [if_neg below] at run ⊢
        by_cases above : fd < tFd
        · rw [if_pos above] at run ⊢
          exact ih run
        · rw [if_neg above] at run ⊢
          exact run
    · rw [if_neg open_part] at run ⊢
      exact run

theorem searchInsert_extends (more : ReadBy fdAt fdAt') {rounds : Nat} {fit l r i : Int}
    (run : searchInsert fdAt n fd rounds fit l r = .ok i) :
    searchInsert fdAt' n fd rounds fit l r = .ok i := by
  induction rounds generalizing fit l r with
  | zero => cases run
  | succ rounds ih =>
    unfold searchInsert at run ⊢
    by_cases open_part : l ≤ r
    · rw [if_pos open_part] at run ⊢
      obtain ⟨tFd, read, run⟩ := bind_eq_ok run
      obtain ⟨prevFd, read_prev, run⟩ := bind_eq_ok run
      obtain ⟨nextFd, read_next, run⟩ := bind_eq_ok run
      simp only [more _ _ read, neighbourFd_extends more read_prev,
        neighbourFd_extends more read_next, ok_bind]
      by_cases fits_left : ((l + r) / 2 = 0 ∨ prevFd ≤ fd) ∧ fd ≤ tFd
      · rw [if_pos fits_left] at run ⊢
        exact run
      · rw [if_neg fits_left] at run ⊢
        by_cases fits_right : tFd ≤ fd ∧ (n - 1 = (l + r) / 2 ∨ fd ≤ nextFd)
        · rw [if_pos fits_right] at run ⊢
          exact run
        · rw [if_neg fits_right] at run ⊢
          by_cases below : tFd < fd
          · rw [if_pos below] at run ⊢
            exact ih run
          · rw [if_neg below] at run ⊢
            exact ih run
    · rw [if_neg open_part] at run ⊢
      exact run

theorem insertIndexIn_extends (more : ReadBy fdAt fdAt') {i : Int}
    (run : insertIndexIn fdAt n fd = .ok i) : insertIndexIn fdAt' n fd = .ok i :=
  searchInsert_extends more run

theorem findRecordIn_extends {slotAt slotAt' : Int → Except Fault Ptr}
    (more_slots : ReadBy slotAt slotAt') (more : ReadBy fdAt fdAt') {found : Ptr × Int}
    (run : findRecordIn slotAt fdAt n fd = .ok found) :
    findRecordIn slotAt' fdAt' n fd = .ok found := by
  unfold findRecordIn at run ⊢
  obtain ⟨index, searched, run⟩ := bind_eq_ok run
  rw [searchHot_extends more searched, ok_bind]
  by_cases there : index ≠ -1
  · rw [if_pos there] at run ⊢
    obtain ⟨p, read, run⟩ := bind_eq_ok run
    rw [more_slots _ _ read, ok_bind]
    exact run
  · rw [if_neg there] at run ⊢
    exact run

end Extends

end SysMonitor.Source.FdCache
