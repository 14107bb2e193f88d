import SysMonitor.Source.ContentMemory
import SysMonitor.Source.LogStorage

/-!
# What `ReadContent` accepts

`ReadContent` returns true for content of the right length, whatever it holds. Its two strings
lie inside the content only if the content holds two NULs, which every record of the driver
does; after other content `main` prints memory behind the block.
-/

namespace SysMonitor.Guarantees.ContentStrings
open SysMonitor.Library SysMonitor.Library.TerminatedStrings SysMonitor.Source
open SysMonitor.Source.Interface SysMonitor.Source.KernelStrings SysMonitor.Source.Reader
open SysMonitor.Source.LogStorage

section Strings

variable {block : List Byte}

/-- A string that ends in the block does not depend on what lies behind it. -/
theorem text_append (nul : 0 ∈ block) (beyond : List Byte) : text (block ++ beyond) = text block := by
  obtain ⟨rest, split⟩ := exists_rest nul
  conv_lhs => rw [split, List.append_assoc, List.cons_append]
  exact text_terminated (zero_notMem_text block) _

/-- There is a NUL behind the first string's exactly when there are two. -/
theorem nul_behind_iff (nul : 0 ∈ block) :
    0 ∈ block.drop ((text block).length + 1) ↔ 2 ≤ block.count 0 := by
  obtain ⟨rest, split⟩ := exists_rest nul
  have behind : block.drop ((text block).length + 1) = rest := by
    conv_lhs => rw [split]
    rw [text_terminated (zero_notMem_text block), List.drop_length_add_append]
    rfl
  have count : block.count 0 = rest.count 0 + 1 := by
    conv_lhs => rw [split]
    rw [List.count_append, List.count_eq_zero_of_not_mem (zero_notMem_text block),
      List.count_cons_self, Nat.zero_add]
  rw [behind, count, ← List.count_pos_iff]
  omega

/-- Both strings end inside the content when it holds two NULs. -/
theorem inside_iff (content beyond : List Byte) :
    Located.Inside content ⟨0, (text (content ++ beyond)).length + 1⟩ ↔ 2 ≤ content.count 0 := by
  unfold Located.Inside
  rw [List.drop_zero]
  by_cases nul : 0 ∈ content
  · rw [text_append nul, nul_behind_iff nul]
    exact and_iff_right nul
  · rw [List.count_eq_zero_of_not_mem nul]
    exact iff_of_false (fun both => nul both.1) (by decide)

end Strings

section Accepted

variable {d d' : Device} {contentSize pathOffset detailsOffset : Word} {malloc : Bool}
  {beyond : List Byte} {user : UserCopy} {outcome : Down} {found : Located}

/-- What is accepted was read whole. -/
theorem accepted_whole (accepted : readContentIn d contentSize pathOffset detailsOffset malloc beyond
      user outcome = .ok (d', some found)) :
    ∃ content, interfaceRead d contentSize.toNat user outcome
        = .ok (d', ⟨contentSize.toInt, content⟩) ∧ content.length = contentSize.toNat ∧
      found = ⟨0, (text (content ++ beyond)).length + 1⟩ := by
  unfold readContentIn at accepted
  by_cases empty : contentSize.toInt ≤ 0
  · rw [if_pos empty] at accepted
    cases accepted
  rw [if_neg empty] at accepted
  cases malloc with
  | false => cases accepted
  | true =>
    obtain ⟨⟨e, returned, content⟩, read, accepted⟩ := bind_eq_ok accepted
    dsimp only at accepted
    by_cases whole : returned = contentSize.toInt
    · rw [if_neg (not_not_intro whole)] at accepted
      obtain ⟨pathSize, first, accepted⟩ := bind_eq_ok accepted
      obtain ⟨detailsSize, second, accepted⟩ := bind_eq_ok accepted
      cases accepted
      have counted := interfaceRead_counts read (by dsimp only; omega)
      dsimp only at counted
      refine ⟨content, by rw [read, whole], ?_, ?_⟩
      · rw [BitVec.toInt_eq_toNat_cond] at empty whole
        split at empty <;> split at whole <;> omega
      · obtain ⟨string, found, same⟩ := bind_eq_ok first
        cases same
        rw [List.drop_zero] at found
        rw [Nat.zero_add, (stringIn_found found).2]
    · rw [if_pos whole] at accepted
      cases accepted

/-- Whatever the device delivers and whatever lies behind it: what `ReadContent` accepts has
both strings inside the content if and only if the content holds two NULs. -/
theorem accepted_inside_iff (accepted : readContentIn d contentSize pathOffset detailsOffset malloc
      beyond user outcome = .ok (d', some found)) :
    ∃ content, interfaceRead d contentSize.toNat user outcome
        = .ok (d', ⟨contentSize.toInt, content⟩) ∧ content.length = contentSize.toNat ∧
      (found.Inside content ↔ 2 ≤ content.count 0) := by
  obtain ⟨content, read, length, rfl⟩ := accepted_whole accepted
  exact ⟨content, read, length, inside_iff content beyond⟩

/-- Strings that lie inside are the ones that the reader's model finds. -/
theorem readContent_inside (accepted : readContentIn d contentSize pathOffset detailsOffset malloc
      beyond user outcome = .ok (d', some found)) {content : List Byte}
    (read : interfaceRead d contentSize.toNat user outcome
      = .ok (d', ⟨contentSize.toInt, content⟩)) (inside : found.Inside content) :
    readContent d contentSize pathOffset detailsOffset malloc user outcome
      = .ok (d', some ⟨content, text content, text (content.drop found.details)⟩) := by
  obtain ⟨content', read', -, rfl⟩ := accepted_whole accepted
  rw [read] at read'
  cases read'
  obtain ⟨first, second⟩ := inside
  rw [List.drop_zero] at first
  dsimp only at second ⊢
  rw [text_append first] at second ⊢
  unfold readContentIn at accepted
  unfold readContent
  by_cases empty : contentSize.toInt ≤ 0
  · rw [if_pos empty] at accepted
    cases accepted
  cases malloc with
  | false =>
    rw [if_neg empty] at accepted
    cases accepted
  | true =>
    have path : stringAt content = .ok (text content) := if_pos first
    have details : stringAt (content.drop ((text content).length + 1))
        = .ok (text (content.drop ((text content).length + 1))) := if_pos second
    simp only [if_neg empty, read, path, details, bind, Except.bind, pure, Except.pure]
    rw [if_neg (by decide), if_neg (not_not_intro rfl)]

end Accepted

/-- The content of a record: path and details, each with its NUL. -/
theorem record_content_inside (path details : Option CString) (beyond : List Byte) :
    Located.Inside (stringBytes path ++ stringBytes details)
      ⟨0, (text (stringBytes path ++ stringBytes details ++ beyond)).length + 1⟩ := by
  have nul : ∀ string, 1 ≤ (stringBytes string).count 0 := by
    intro string
    apply List.one_le_count_iff.mpr
    cases string <;> simp [stringBytes, CString.terminated]
  rw [inside_iff, List.count_append]
  have first := nul path
  have second := nul details
  omega

section Samples

/-- A ring with `bytes` unread at its front. -/
def holding (bytes : List Byte) : Device :=
  { initial with
    cycleBufferSize := 524288
    cycleBuffer := 0xc1000000
    readPtr := 0xc1000000
    writePtr := 0xc1000000 + bytes.length
    ring := bytes ++ List.replicate (524288 - bytes.length) 7 }

theorem holding_read {bytes : List Byte} (some : 0 < bytes.length) (few : bytes.length < 524288) :
    ∃ d', interfaceRead (holding bytes) bytes.length .complete .acquired
      = .ok (d', ⟨bytes.length, bytes⟩) := by
  have start : (down (holding bytes)).readPtr = 0xc1000000 := rfl
  have stop : (down (holding bytes)).writePtr = 0xc1000000 + bytes.length := rfl
  have used : getUsedSize (down (holding bytes)) = bytes.length := by
    rw [getUsedSize, start, stop, if_neg (by omega), if_neg (by omega)]
    omega
  have stored : ringBytes (down (holding bytes)) 0xc1000000 bytes.length = .ok bytes := by
    have length : (down (holding bytes)).ring.length = 524288 := by
      simp only [down, holding, List.length_append, List.length_replicate]
      omega
    have base : (down (holding bytes)).cycleBuffer = 0xc1000000 := rfl
    rw [ringBytes, length, base, if_pos (by omega), Nat.sub_self, List.drop_zero]
    exact congrArg Except.ok List.take_left
  have locked : ∃ d', readLocked (down (holding bytes)) bytes.length .complete
      = .ok (d', ⟨bytes.length, bytes⟩) := by
    unfold readLocked
    rw [used, start, stop]
    dsimp only
    rw [if_neg (by omega), if_neg (by omega), if_neg (by omega), readStraight, if_pos some, start,
      stored]
    refine ⟨_, congrArg Except.ok (Prod.ext rfl ?_)⟩
    simp [UserCopy.complete]
  obtain ⟨d', locked⟩ := locked
  exact ⟨up d', by rw [interfaceRead, locked]; rfl⟩

/-- Two NULs in the content or behind it are enough for it to be accepted. -/
theorem holding_accepted (bytes beyond : List Byte) (contentSize : Word)
    (some : 0 < bytes.length) (few : bytes.length < 524288)
    (size : contentSize.toNat = bytes.length) (mapped : 2 ≤ (bytes ++ beyond).count 0) :
    ∃ d', interfaceRead (holding bytes) bytes.length .complete .acquired
        = .ok (d', ⟨bytes.length, bytes⟩) ∧
      readContentIn (holding bytes) contentSize 0 0 true beyond .complete .acquired
        = .ok (d', .some ⟨0, (text (bytes ++ beyond)).length + 1⟩) := by
  obtain ⟨d', read⟩ := holding_read some few
  have positive : contentSize.toInt = bytes.length := by
    rw [BitVec.toInt_eq_toNat_cond]
    split <;> omega
  have first : 0 ∈ bytes ++ beyond := List.count_pos_iff.mp (by omega)
  have second := (nul_behind_iff first).mpr mapped
  have path : strlen (bytes ++ beyond) = .ok (text (bytes ++ beyond)).length :=
    strlen_eq (stringIn_text first)
  have details := strlen_eq (stringIn_text second)
  refine ⟨d', read, ?_⟩
  unfold readContentIn
  rw [positive, if_neg (by omega), size, read]
  simp only [bind, Except.bind, List.drop_zero, Nat.zero_add, path, details, pure, Except.pure]
  rw [if_neg (by decide), if_neg (not_not_intro rfl)]

end Samples

/-- The path `/a` without details. -/
theorem accepted_inside_path : ∃ d' content,
    readContentIn (holding [47, 97, 0, 0]) 4 0 0 true [] .complete .acquired
      = .ok (d', some ⟨0, 3⟩) ∧
    interfaceRead (holding [47, 97, 0, 0]) 4 .complete .acquired = .ok (d', ⟨4, content⟩) ∧
    (Located.Inside content ⟨0, 3⟩ ↔ 2 ≤ content.count 0) := by
  obtain ⟨d', -, accepted⟩ := holding_accepted [47, 97, 0, 0] [] 4 (by decide) (by decide) rfl
    (by decide)
  obtain ⟨content, read, -, inside⟩ := accepted_inside_iff accepted
  exact ⟨d', content, accepted, read, inside⟩

/-- Content without a NUL, and content with a NUL as its last byte: both are accepted, and what
lies behind the block is taken for the rest of the strings. -/
theorem unterminated_accepted :
    (∃ d', readContentIn (holding [97, 98, 99, 100]) 4 0 0 true [101, 0, 102, 0] .complete .acquired
        = .ok (d', some ⟨0, 6⟩) ∧
      interfaceRead (holding [97, 98, 99, 100]) 4 .complete .acquired
        = .ok (d', ⟨4, [97, 98, 99, 100]⟩) ∧
      ¬ Located.Inside [97, 98, 99, 100] ⟨0, 6⟩) ∧
    (∃ d', readContentIn (holding [97, 98, 99, 0]) 4 0 0 true [101, 0] .complete .acquired
        = .ok (d', some ⟨0, 4⟩) ∧
      interfaceRead (holding [97, 98, 99, 0]) 4 .complete .acquired
        = .ok (d', ⟨4, [97, 98, 99, 0]⟩) ∧
      ¬ Located.Inside [97, 98, 99, 0] ⟨0, 4⟩) := by
  constructor
  · obtain ⟨d', read, accepted⟩ := holding_accepted [97, 98, 99, 100] [101, 0, 102, 0] 4 (by decide)
      (by decide) rfl (by decide)
    exact ⟨d', accepted, read, fun inside => absurd inside.1 (by decide)⟩
  · obtain ⟨d', read, accepted⟩ := holding_accepted [97, 98, 99, 0] [101, 0] 4 (by decide)
      (by decide) rfl (by decide)
    exact ⟨d', accepted, read, fun inside => absurd inside.2 (by decide)⟩



end SysMonitor.Guarantees.ContentStrings
