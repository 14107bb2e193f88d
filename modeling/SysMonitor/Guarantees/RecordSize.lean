import SysMonitor.Guarantees.LogBlocks
import SysMonitor.Source.DetailsJoin

/-!
# The size of a record

`end_log_system_call` sets a buffer for the details aside that keeps the record within
`RECORD_MAX_SIZE`, and goes without one when the path takes all of it. The path itself is not
cut, so a record exceeds the size exactly when its path alone does.
-/

namespace SysMonitor.Guarantees.RecordSize
open SysMonitor.Library SysMonitor.Source SysMonitor.Source.LogText SysMonitor.Source.LogCache
open SysMonitor.Source.DetailsBuffer (detailSize_eq)
open SysMonitor.Guarantees.LogBlocks (cleared roomy)

/-- The path of the task's call, as it lies in its slot. -/
def pathBefore (memory : Memory) (s : LogModule) (pid : Int) : Option CString :=
  (viewOf memory s.heap (s.slots (getSlotId pid))).bind (·.path)

/-- What `log_item_to_storage` hands to `write_to_interface`. -/
def bytesOf (record : Record) : List Byte :=
  LogStorage.record record.header record.path record.details

theorem append_strlen (s t : CString) : (s.append t).strlen ≤ s.strlen + t.strlen := by
  have cut : (s.append t).strlen ≤ ((s.bytes ++ t.bytes).takeWhile (· ≠ 0)).length :=
    List.length_take_le' _ _
  have whole := (List.takeWhile_prefix (l := s.bytes ++ t.bytes) (· ≠ 0)).length_le
  rw [List.length_append] at whole
  exact cut.trans whole

section Details

variable {memory : Memory} {h : BlockHeap LogBlock}

theorem paramText_strlen (param : Option CString) : (paramText param).strlen = paramSize param := by
  cases param with
  | none => decide
  | some text => rfl

/-- The loop keeps one byte of the buffer for the NUL. -/
theorem appendParams_strlen {strings : Ptr} {count : Nat} {left : List Nat} {room size : Int}
    {details text : CString} (positive : 0 < room) (inside : details.strlen + room ≤ size)
    (ran : appendParams memory h strings count left room details = .ok text) :
    text.strlen + 1 ≤ size := by
  induction left generalizing room details with
  | nil =>
    cases ran
    omega
  | cons i left ih =>
    obtain ⟨entry, -, ran⟩ := bind_eq_ok ran
    obtain ⟨param, -, ran⟩ := bind_eq_ok ran
    dsimp only at ran
    have rendered := paramText_strlen param
    have grown := append_strlen details (paramText param)
    split at ran
    next fits =>
      split at ran
      next more =>
        have comma : (CString.literal ", ").strlen = 2 := by decide
        have grown' := append_strlen (details.append (paramText param)) (.literal ", ")
        exact ih (by omega) (by omega) ran
      next => exact ih (by omega) (by omega) ran
    next =>
      cases ran
      omega

theorem detailsText_strlen {it : LogItem} {d : Ptr} {size : Int} (positive : 0 < size)
    {text : CString} (ran : detailsText memory h it d size = .ok (some text)) :
    text.strlen + 1 ≤ size := by
  have empty : CString.empty.strlen = 0 := rfl
  unfold detailsText at ran
  split at ran
  · cases ran
  · split at ran
    · obtain ⟨joined, ran', same⟩ := bind_eq_ok ran
      cases same
      exact appendParams_strlen positive (by omega) ran'
    · cases ran
      omega

/-- The path and the details of an item's record. -/
theorem endItem_sizes {p : Ptr} {ret : Word} {answers : Answers} {h' : BlockHeap LogBlock}
    {record : Record} (ended : endItem memory h p ret answers = .ok (h', record)) :
    (∃ it, readItem h p = .ok it ∧ readText memory h it.path = .ok record.path) ∧
      ∀ text, record.details = some text → text.strlen + 1 ≤ detailSize record.path := by
  obtain ⟨it, found, ended⟩ := bind_eq_ok ended
  obtain ⟨path, read, ended⟩ := bind_eq_ok ended
  obtain ⟨h₁, -, ended⟩ := bind_eq_ok ended
  dsimp only at ended
  obtain ⟨text, joined, ended⟩ := bind_eq_ok ended
  obtain ⟨h₂, -, ended⟩ := bind_eq_ok ended
  obtain ⟨h₃, -, ended⟩ := bind_eq_ok ended
  cases ended
  refine ⟨⟨it, found, read⟩, ?_⟩
  rintro text rfl
  by_cases positive : 0 < detailSize path
  · exact detailsText_strlen positive joined
  · -- nothing was allocated
    rw [decide_eq_false positive, Bool.and_false] at joined
    change detailsText memory h₁ it NULL _ = _ at joined
    rw [detailsText, if_pos rfl] at joined
    cases joined

end Details

section Calls

variable {memory : Memory} {s t : LogModule} {pid : Int}

theorem readText_eq {h : BlockHeap LogBlock} {p : Ptr} {text : Option CString}
    (read : readText memory h p = .ok text) : text = textAt memory h p := by
  unfold readText at read
  split at read
  next null =>
    rw [null, textAt_null]
    exact (Except.ok.inj read).symm
  next real =>
    obtain ⟨found, chars, same⟩ := bind_eq_ok read
    cases same
    unfold LogCache.readChars at chars
    unfold textAt
    cases block : h.block p with
    | none => rw [block] at chars; cases chars
    | some b =>
      rw [block] at chars
      cases b with
      | chars c => rw [← Except.ok.inj chars]
      | _ => cases chars

theorem readItem_eq {h : BlockHeap LogBlock} {p : Ptr} {it : LogItem}
    (found : readItem h p = .ok it) : h.block p = some (.item it) := by
  unfold readItem at found
  split at found
  next block => rw [block, Except.ok.inj found]
  next => cases found

/-- The item of the call in progress is the one in the slot, or a new one without a path. -/
theorem cached_path {room : Bool} {item : Ptr}
    (cached : getCurrentCache memory s pid false room = .ok (t, item)) (real : item ≠ NULL)
    {it : LogItem} (found : t.heap.block item = some (.item it)) :
    textAt memory t.heap it.path = pathBefore memory s pid := by
  obtain ⟨slot, held, cached⟩ := bind_eq_ok cached
  have slot_eq : slot = s.slots (getSlotId pid) := by
    unfold readSlot at held
    split at held
    · cases held
    · split at held
      · exact (Except.ok.inj held).symm
      · cases held
  rw [pathBefore, ← slot_eq]
  split at cached
  next null =>
    rw [null, viewOf_null]
    cases room with
    | false =>
      cases cached
      exact absurd rfl real
    | true =>
      have there : (s.heap.allocate (.item (memory.garbage s.heap.fresh))).block s.heap.fresh
          = some (.item (memory.garbage s.heap.fresh)) := BlockHeap.allocate_self _ _
      have nonnull : s.heap.fresh ≠ NULL := Nat.ne_of_gt s.heap.freshReal
      have allocated : LogCache.kmalloc s.heap (.item (memory.garbage s.heap.fresh)) true
          = (s.heap.fresh, s.heap.allocate (.item (memory.garbage s.heap.fresh))) := rfl
      rw [allocated] at cached
      dsimp only at cached
      rw [if_neg nonnull, writeItem_live there] at cached
      cases cached
      rw [BlockHeap.store_self (by rw [there]; simp)] at found
      cases found
      exact textAt_null _ _
  next =>
    rw [if_neg (by simp)] at cached
    cases cached
    rw [viewOf, found]
    rfl

/-- The record of a call has the path of its slot, and details that fit beside it. -/
theorem ended_sizes {ret : Word} {answers : Answers} {record : Record}
    (ended : endLogSystemCall memory s pid ret answers = .ok (t, some record)) :
    record.path = pathBefore memory s pid ∧
      ∀ text, record.details = some text → text.strlen + 1 ≤ detailSize record.path := by
  obtain ⟨⟨s₁, item⟩, cached, ended⟩ := bind_eq_ok ended
  dsimp only at ended
  split at ended
  · cases ended
  next real =>
    obtain ⟨⟨h', record'⟩, done, same⟩ := bind_eq_ok ended
    cases same
    obtain ⟨⟨it, found, read⟩, sizes⟩ := endItem_sizes done
    refine ⟨?_, sizes⟩
    rw [readText_eq read]
    exact cached_path cached real (readItem_eq found)

/-- The longest path for which the record still has its size. -/
def longestPath : Nat := 982

/-- Beside a path that is too long there are no details. -/
theorem ended_long {ret : Word} {answers : Answers} {record : Record}
    (ended : endLogSystemCall memory s pid ret answers = .ok (t, some record)) {path : CString}
    (here : pathBefore memory s pid = some path) (long : longestPath < path.strlen) :
    record.details = none ∧ (bytesOf record).length = LogHeader.size + path.strlen + 2 ∧
      RECORD_MAX_SIZE < (bytesOf record).length := by
  obtain ⟨same, sizes⟩ := ended_sizes ended
  unfold longestPath at long
  rw [detailSize_eq, same] at sizes
  have size : pathSize (pathBefore memory s pid) = path.strlen := by
    rw [here]
    rfl
  have none : record.details = none := by
    cases details : record.details with
    | none => rfl
    | some text =>
      have beside := sizes text details
      omega
  have length : (bytesOf record).length = LogHeader.size + path.strlen + 2 := by
    rw [bytesOf, LogStorage.record_length, LogStorage.fullSize, same, none, here]
    rfl
  refine ⟨none, length, ?_⟩
  rw [length]
  unfold RECORD_MAX_SIZE LogHeader.size
  omega

/-- For every state of the log module and every call that goes through: if the path is NULL or
has at most 982 characters, the record has at most `RECORD_MAX_SIZE` bytes. Otherwise there are
no details in it, and it is as long as the header, the path and two NULs. -/
theorem record_size {ret : Word} {answers : Answers} {record : Record}
    (ended : endLogSystemCall memory s pid ret answers = .ok (t, some record)) :
    ((∀ path, pathBefore memory s pid = some path → path.strlen ≤ longestPath) →
      (bytesOf record).length ≤ RECORD_MAX_SIZE) ∧
    (∀ path, pathBefore memory s pid = some path → longestPath < path.strlen →
      record.details = none ∧ (bytesOf record).length = LogHeader.size + path.strlen + 2 ∧
        RECORD_MAX_SIZE < (bytesOf record).length) := by
  refine ⟨fun short => ?_, fun path here long => ended_long ended here long⟩
  obtain ⟨same, sizes⟩ := ended_sizes ended
  rw [detailSize_eq] at sizes
  rw [← same] at short
  have path_size : LogStorage.stringSize record.path ≤ 983 ∧
      LogStorage.stringSize record.path ≤ pathSize record.path + 1 := by
    cases path : record.path with
    | none => exact ⟨by decide, by decide⟩
    | some text => exact ⟨Nat.succ_le_succ (short text path), Nat.le_refl _⟩
  rw [bytesOf, LogStorage.record_length, LogStorage.fullSize]
  unfold RECORD_MAX_SIZE LogHeader.size
  cases details : record.details with
  | none =>
    change 40 + _ + 1 ≤ _
    omega
  | some text =>
    have beside := sizes text details
    change 40 + _ + (text.strlen + 1) ≤ _
    omega

end Calls

/-- A read on a file with this path has begun and added its parameters. -/
def reading (path : CString) : LogModule :=
  match run (logStep cleared) (logInit .unused)
      [(7, .begin .readFile .read (.fd (some path)) 2, roomy),
      (7, .add (.unsignedInt "fd" 3), roomy), (7, .add (.int "count" 64), roomy)] with
  | .ok (s, _) => s
  | .error _ => logInit .unused

theorem record_size_reading : ∃ t record,
    endLogSystemCall cleared (reading (.literal "/a")) 7 0 roomy = .ok (t, some record) ∧
      (bytesOf record).length ≤ RECORD_MAX_SIZE := by
  obtain ⟨t, record, ended⟩ : ∃ t record,
      endLogSystemCall cleared (reading (.literal "/a")) 7 0 roomy = .ok (t, some record) :=
    ⟨_, _, rfl⟩
  refine ⟨t, record, ended, (record_size ended).1 fun path here => ?_⟩
  have found : pathBefore cleared (reading (.literal "/a")) 7 = some (.literal "/a") := rfl
  rw [found] at here
  cases here
  decide

/-- 983 characters. -/
def longPath : CString := .ofBytes (List.replicate 983 97)

/-- A path that `get_absolute_path_by_fd` can return gives a record of 1025 bytes. -/
theorem long_path_exceeds : ∃ t record,
    endLogSystemCall cleared (reading longPath) 7 0 roomy = .ok (t, some record) ∧
      (bytesOf record).length = 1025 ∧ ¬ (bytesOf record).length ≤ RECORD_MAX_SIZE := by
  have logged : ((endLogSystemCall cleared (reading longPath) 7 0 roomy).toOption.bind
      (·.2)).isSome = true := by decide +kernel
  cases ended : endLogSystemCall cleared (reading longPath) 7 0 roomy with
  | error fault =>
    rw [ended] at logged
    cases logged
  | ok result =>
    obtain ⟨t, answer⟩ := result
    rw [ended] at logged
    obtain ⟨record, rfl⟩ := Option.isSome_iff_exists.mp logged
    have length : longPath.strlen = 983 := by decide +kernel
    have here : pathBefore cleared (reading longPath) 7 = some longPath := rfl
    obtain ⟨-, size, exceeds⟩ := ended_long ended here (by rw [length]; decide)
    rw [length] at size
    exact ⟨t, record, rfl, size, Nat.not_le.mpr exceeds⟩

end SysMonitor.Guarantees.RecordSize
