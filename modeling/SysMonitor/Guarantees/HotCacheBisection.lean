import SysMonitor.Source.HotCacheSteps

/-!
# The bisections of the hot cache over arrays of any length

`hot_fd_cache` has sixteen slots. Here its two searches run over any sorted array of live
records, and every index outside the array faults. The functions of `fd_cache.c` get the same
answers in every state that has such an array in its first slots.
-/

namespace SysMonitor.Guarantees.HotCacheBisection
open SysMonitor.Library SysMonitor.Source SysMonitor.Source.FdCache

/-- Hot records in the order of their descriptors, any number of which may be equal. -/
structure HotArray where
  heap : Heap
  records : List Ptr
  live : Live heap records
  sorted : records.Pairwise fun p q => fdOf heap p ≤ fdOf heap q

namespace HotArray

/-- `hot_count` -/
def hotCount (a : HotArray) : Int := a.records.length

/-- `hot_fd_cache[i]`, which is a fault outside the array. -/
def readSlot (a : HotArray) (i : Int) : Except Fault Ptr :=
  if 0 ≤ i ∧ i < a.hotCount then .ok (a.records.getD i.toNat NULL) else .error .outOfBounds

/-- `hot_fd_cache[i]->fd` -/
def hotFd (a : HotArray) (i : Int) : Except Fault Word := do
  let p ← a.readSlot i
  let r ← readRecord a.heap p
  return r.fd

/-- `get_insert_index` -/
def insertIndex (a : HotArray) (fd : Word) : Except Fault Int :=
  insertIndexIn a.hotFd a.hotCount fd

/-- `find_record_in_hot_cache` -/
def findRecord (a : HotArray) (fd : Word) : Except Fault (Ptr × Int) :=
  findRecordIn a.readSlot a.hotFd a.hotCount fd

/-- A record for this descriptor is in the array. -/
def Contains (a : HotArray) (fd : Word) : Prop := ∃ p ∈ a.records, fdOf a.heap p = fd

/-- A record for this descriptor can go in front of slot `i`. -/
structure Fits (a : HotArray) (fd : Word) (i : Int) : Prop where
  start : 0 ≤ i
  stop : i ≤ a.hotCount
  left : ∀ (j : Nat) (inside : j < a.records.length), j < i → fdOf a.heap a.records[j] ≤ fd
  right : ∀ (j : Nat) (inside : j < a.records.length), i ≤ j → fd ≤ fdOf a.heap a.records[j]

/-- The record of slot `i` is the answer, and it is one for this descriptor. -/
def FoundAt (a : HotArray) (fd : Word) (i : Nat) : Prop :=
  ∃ inside : i < a.records.length,
    a.findRecord fd = .ok (a.records[i], i) ∧ fdOf a.heap a.records[i] = fd

theorem readSlot_at (a : HotArray) (j : Nat) (inside : j < a.records.length) :
    a.readSlot j = .ok a.records[j] := by
  simp [readSlot, hotCount, inside]

/-- An index that reads back is one of a record. -/
theorem readSlot_eq_ok {a : HotArray} {i : Int} {p : Ptr} (read : a.readSlot i = .ok p) :
    ∃ (j : Nat) (inside : j < a.records.length), i = j ∧ p = a.records[j] := by
  unfold readSlot at read
  split at read
  · next inside =>
    obtain ⟨below, above⟩ := inside
    lift i to Nat using below
    have within : i < a.records.length := Int.ofNat_lt.mp above
    refine ⟨i, within, rfl, ?_⟩
    simpa [within] using read.symm
  · cases read

/-- A round that reads its middle slot has formed a sum in the range of an `int`, if only the
pointers of the array have room in kernel space. -/
theorem sum_in_int (a : HotArray) (room : 4 * a.hotCount ≤ kernelSpace) {l r : Int} {p : Ptr}
    (read : a.readSlot ((l + r) / 2) = .ok p) : 0 ≤ l + r ∧ l + r ≤ 0x7fffffff := by
  obtain ⟨m, inside, middle, -⟩ := readSlot_eq_ok read
  unfold hotCount kernelSpace at room
  omega

theorem hotFd_at (a : HotArray) (j : Nat) (inside : j < a.records.length) :
    a.hotFd j = .ok (fdOf a.heap a.records[j]) := by
  unfold hotFd
  rw [a.readSlot_at j inside, ok_bind, readRecord_live (a.live _ (List.getElem_mem inside))]
  rfl

theorem recordArray (a : HotArray) :
    RecordArray a.readSlot a.hotFd (fdOf a.heap) a.records where
  slot := a.readSlot_at
  fd := a.hotFd_at
  sorted := a.sorted

/-- The answer of `get_insert_index` fits. -/
theorem insertIndex_fits (a : HotArray) (fd : Word) :
    ∃ i, a.insertIndex fd = .ok i ∧ a.Fits fd i := by
  obtain ⟨left, right, split, run, lower, upper⟩ := a.recordArray.insertIndex fd
  have length : a.records.length = left.length + right.length := by
    rw [split, List.length_append]
  refine ⟨left.length, run, by omega, by rw [hotCount, length]; omega, ?_, ?_⟩
  · intro j inside before
    have short : j < left.length := by omega
    have here : a.records[j] = left[j] := by
      simp only [split, List.getElem_append_left short]
    rw [here]
    exact lower _ (List.getElem_mem short)
  · intro j inside behind
    have long : left.length ≤ j := by omega
    have here : a.records[j] = right[j - left.length] := by
      simp only [split, List.getElem_append_right long]
    rw [here]
    exact upper _ (List.getElem_mem _)

/-- `find_record_in_hot_cache` finds a record in its slot, or there is none to find. -/
theorem findRecord_cases (a : HotArray) (fd : Word) :
    (∃ i, a.FoundAt fd i) ∨ (a.findRecord fd = .ok (NULL, -1) ∧ ¬ a.Contains fd) := by
  rcases a.recordArray.findRecord fd with ⟨left, p, right, split, same, run⟩ | ⟨absent, run⟩
  · left
    have inside : left.length < a.records.length := by
      rw [split, List.length_append, List.length_cons]
      omega
    have here : a.records[left.length] = p := by
      simp [split]
    refine ⟨left.length, inside, ?_, ?_⟩
    · rw [here]
      exact run
    · rw [here, same]
  · right
    refine ⟨run, ?_⟩
    rintro ⟨p, member, same⟩
    exact absent p member same

theorem FoundAt.contains {a : HotArray} {fd : Word} {i : Nat} (found : a.FoundAt fd i) :
    a.Contains fd := by
  obtain ⟨inside, -, same⟩ := found
  exact ⟨a.records[i], List.getElem_mem inside, same⟩

/-- An index in the array is not the `-1` of a descriptor without a record. -/
theorem FoundAt.not_null {a : HotArray} {fd : Word} {i : Nat} (found : a.FoundAt fd i) :
    a.findRecord fd ≠ .ok (NULL, -1) := by
  obtain ⟨inside, run, -⟩ := found
  rw [run]
  intro same
  have index : (i : Int) = -1 := congrArg Prod.snd (Except.ok.inj same)
  omega

end HotArray

/-- The state has this array in its first slots. What the slots behind it hold is open. -/
structure Shows (s : FdState) (a : HotArray) : Prop where
  heap : s.heap = a.heap
  count : s.area.hotCount = a.hotCount
  slots : ReadBy a.readSlot s.readSlot

namespace Shows

variable {s : FdState} {a : HotArray}

theorem hotFd (shown : Shows s a) : ReadBy a.hotFd (FdCache.hotFd s) := by
  intro i fd read
  obtain ⟨p, slot, record⟩ := bind_eq_ok read
  unfold FdCache.hotFd FdState.read
  rw [shown.slots i p slot, ok_bind, shown.heap]
  exact record

/-- The code's function answers what it answers where every other index is a fault. -/
theorem getInsertIndex (shown : Shows s a) (fd : Word) :
    getInsertIndex s fd = a.insertIndex fd := by
  obtain ⟨i, run, -⟩ := a.insertIndex_fits fd
  rw [run, getInsertIndex_eq, shown.count]
  exact insertIndexIn_extends shown.hotFd run

theorem findRecordInHotCache (shown : Shows s a) (fd : Word) :
    findRecordInHotCache s fd = a.findRecord fd := by
  have answers : ∃ found, a.findRecord fd = .ok found := by
    rcases a.findRecord_cases fd with ⟨i, inside, run, -⟩ | ⟨run, -⟩
    · exact ⟨_, run⟩
    · exact ⟨_, run⟩
  obtain ⟨found, run⟩ := answers
  rw [run, findRecordInHotCache_eq, shown.count]
  exact findRecordIn_extends shown.slots shown.hotFd run

end Shows

/-- Every well-formed fd cache shows such an array. -/
theorem represents_shows {s : FdState} {c : Contents} (rep : Represents s c) :
    ∃ a : HotArray, a.records = c.hot ∧ Shows s a := by
  refine ⟨⟨s.heap, c.hot, rep.hot.live, rep.hot.sorted⟩, rfl, rfl, rep.hot.count, ?_⟩
  intro i p read
  obtain ⟨j, inside, rfl, rfl⟩ := HotArray.readSlot_eq_ok read
  have room := rep.hot.room
  have within : j < c.hot.length := inside
  have slot := (slots_at rep.hot.slots j within).1
  rw [Int.zero_add] at slot
  rw [readSlot_inside (by omega) (by omega), slot]

/-- On every sorted array of hot records `get_insert_index` answers a place that keeps it
sorted, and `find_record_in_hot_cache` a record for the descriptor with its slot exactly when
there is one. A state that has the array in its first slots gets the same answers, whatever
else its slots hold. -/
theorem bisections_correct (a : HotArray) (fd : Word) :
    (∃ i, a.insertIndex fd = .ok i ∧ a.Fits fd i) ∧
    ((∃ i, a.FoundAt fd i) ↔ a.Contains fd) ∧
    (a.findRecord fd = .ok (NULL, -1) ↔ ¬ a.Contains fd) ∧
    ∀ s, Shows s a → getInsertIndex s fd = a.insertIndex fd ∧
      findRecordInHotCache s fd = a.findRecord fd := by
  refine ⟨a.insertIndex_fits fd, ?_, ?_, ?_⟩
  · constructor
    · rintro ⟨i, found⟩
      exact found.contains
    · intro there
      rcases a.findRecord_cases fd with found | ⟨-, absent⟩
      · exact found
      · exact absurd there absent
  · constructor
    · intro run there
      rcases a.findRecord_cases fd with ⟨i, found⟩ | ⟨-, absent⟩
      · exact found.not_null run
      · exact absent there
    · intro absent
      rcases a.findRecord_cases fd with ⟨i, found⟩ | ⟨run, -⟩
      · exact absurd found.contains absent
      · exact run
  · intro s shown
    exact ⟨shown.getInsertIndex fd, shown.findRecordInHotCache fd⟩

/-- Four records at the addresses 1 to 4, for the descriptors 0, 3, 3 and 7. -/
def fourRecords : Heap :=
  [0, 3, 3, 7].foldl (fun h fd => (h.allocate .fileFdRecord).modify h.fresh
    fun r => { r with fd := fd }) Heap.unused

def repeated : HotArray where
  heap := fourRecords
  records := [1, 2, 3, 4]
  live := by unfold Live; decide
  sorted := by decide

/-- The same records in a process record, with a dangling pointer in every slot behind them. -/
def repeatedState : FdState where
  heap := fourRecords
  area := ⟨4, 4, 1, 1, fun i => if i < 4 then i.toNat + 1 else 9⟩

theorem repeatedState_shows : Shows repeatedState repeated where
  heap := rfl
  count := rfl
  slots i p read := by
    obtain ⟨j, inside, rfl, rfl⟩ := HotArray.readSlot_eq_ok read
    have short : j < 4 := inside
    have slots : j = 0 ∨ j = 1 ∨ j = 2 ∨ j = 3 := by omega
    rcases slots with rfl | rfl | rfl | rfl <;> rfl

theorem bisections_correct_repeated :
    repeated.Fits 3 1 ∧ (∃ i, repeated.FoundAt 3 i) ∧ repeated.findRecord 5 = .ok (NULL, -1) ∧
      getInsertIndex repeatedState 3 = .ok 1 ∧
      findRecordInHotCache repeatedState 3 = .ok (2, 1) := by
  obtain ⟨⟨i, run, fits⟩, found, -, same⟩ := bisections_correct repeated 3
  have first : repeated.insertIndex 3 = .ok 1 := by decide
  obtain rfl := Except.ok.inj (first.symm.trans run)
  refine ⟨fits, found.mpr ⟨2, by decide, rfl⟩, ?_, ?_, ?_⟩
  · apply (bisections_correct repeated 5).2.2.1.mpr
    unfold HotArray.Contains
    decide
  · rw [(same repeatedState repeatedState_shows).1, first]
  · rw [(same repeatedState repeatedState_shows).2]
    decide

end SysMonitor.Guarantees.HotCacheBisection
