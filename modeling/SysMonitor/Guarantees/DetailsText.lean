import SysMonitor.Source.DetailsJoin

/-!
# Details as a join of whole parameters

The details are the first parameters with separators between them, unless a parameter that
is not the first is the one that does not fit: the separator in front of it has been written
by then.
-/

namespace SysMonitor.Guarantees.DetailsText
open SysMonitor.Library.TerminatedStrings SysMonitor.Library.BoundedJoin SysMonitor.Source
open SysMonitor.Source.LogText SysMonitor.Source.DetailsBuffer

/-- The parameters as they appear in the details. -/
def rendered (params : List (Option CString)) : List (List Byte) := texts (asEntries params)

/-- A join of the first parameters, and of all of them where that fits into the buffer. -/
def Clean (params : List (Option CString)) (detailSize : Word) (details : List Byte) : Prop :=
  (∃ k ≤ params.length, details = separator.val.intercalate ((rendered params).take k)) ∧
    ((separator.val.intercalate (rendered params)).length ≤ detailSize.toInt - 1 →
      details = separator.val.intercalate (rendered params))

/-- Some parameters and a separator fit into the buffer, but not with the next parameter. -/
def SeparatorDangles (params : List (Option CString)) (detailSize : Word) : Prop :=
  ∃ k, 0 < k ∧ k < params.length ∧
    (separator.val.intercalate ((rendered params).take k)).length + 2 ≤ detailSize.toInt - 1 ∧
    detailSize.toInt - 1 < (separator.val.intercalate ((rendered params).take (k + 1))).length

theorem rendered_length (params : List (Option CString)) :
    (rendered params).length = params.length := by
  simp [rendered, texts, asEntries]

/-- Every parameter is longer than the separator. -/
theorem rendered_long {params : List (Option CString)}
    (long : ∀ param ∈ params, 3 ≤ (paramText param).strlen) :
    ∀ part ∈ rendered params, separator.val.length < part.length := by
  intro part inside
  rw [rendered, texts, asEntries, List.map_map] at inside
  obtain ⟨param, member, rfl⟩ := List.mem_map.mp inside
  have three := long param member
  rw [CString.strlen, paramText_bytes] at three
  exact three

theorem toInt_of_positive {size : Word} (positive : 0 < size.toInt) :
    size.toInt = size.toNat := by
  rw [BitVec.toInt_eq_toNat_cond] at positive ⊢
  split at positive <;> omega

/-- For every array of parameters of at least three characters and every positive
`detail_size`: the loop ends, and what it leaves is a clean join of whole parameters if and
only if no separator dangles. -/
theorem details_clean_iff {detailSize : Word} (positive : 0 < detailSize.toInt)
    (params : List (Option CString))
    (long : ∀ param ∈ params, 3 ≤ (paramText param).strlen) {buffer : List Byte}
    (length : buffer.length = detailSize.toNat) :
    ∃ s, fillDetails (asEntries params) detailSize buffer = .ok s ∧ s.point = .finished ∧
      (Clean params detailSize (text s.details) ↔ ¬ SeparatorDangles params detailSize) := by
  obtain ⟨s, ran, finished, written⟩ :=
    fillDetails_text (asEntries_countable params) positive length
  have size := toInt_of_positive positive
  have dangles : SeparatorDangles params detailSize
      ↔ Dangles separator.val (rendered params) (detailSize.toNat - 1) := by
    unfold SeparatorDangles Dangles
    rw [rendered_length, separator_length]
    constructor <;>
      · rintro ⟨k, some, more, fits, next⟩
        exact ⟨k, some, more, by omega, by omega⟩
  refine ⟨s, ran, finished, ?_⟩
  change text s.details = fill separator.val (rendered params) (detailSize.toNat - 1) at written
  rw [dangles, ← fill_clean_iff (rendered_long long) (by decide), rendered_length, Clean, written]
  constructor
  · exact And.left
  · intro clean
    exact ⟨clean, fun fits => fill_of_fits (by omega)⟩

/-- The text that the log module's model puts into the record is the one in the buffer. -/
theorem joinParams_eq {detailSize : Word} (positive : 0 < detailSize.toInt)
    (small : detailSize.toNat ≤ kernelSpace) (params : List (Option CString)) {buffer : List Byte}
    (length : buffer.length = detailSize.toNat) :
    ∃ s, fillDetails (asEntries params) detailSize buffer = .ok s ∧
      text s.details = (joinParams params detailSize.toInt .empty).bytes := by
  obtain ⟨s, ran, -, written⟩ := fillDetails_text (asEntries_countable params) positive length
  have size := toInt_of_positive positive
  have none : CString.empty.strlen = 0 := rfl
  refine ⟨s, ran, ?_⟩
  rw [joinParams_bytes params positive (by rw [none, size]; omega), written, size]
  congr 1
  omega

/-- What `read(3, ...)` logs. -/
def readParams : List (Option CString) :=
  [some (unsignedIntText "fd" 3), some (unsignedIntText "buf" 0x1000), some (intText "count" 5)]

/-- A buffer that has room for all of them. -/
theorem details_clean_read :
    ∃ s, fillDetails (asEntries readParams) 900 (List.replicate 900 7) = .ok s ∧
      s.point = .finished ∧
      (Clean readParams 900 (text s.details) ↔ ¬ SeparatorDangles readParams 900) :=
  details_clean_iff (by decide) readParams (by decide +kernel) List.length_replicate

/-- With a path of 946 characters 21 bytes are left: the details end in a separator. -/
theorem dangling_separator :
    (detailSizeOf (some ⟨List.replicate 946 97, by decide +kernel⟩)) = 21 ∧
    ∃ s, fillDetails (asEntries readParams) 21 (List.replicate 21 7) = .ok s ∧
      text s.details = (unsignedIntText "fd" 3).bytes ++ separator.val ∧
      ¬ Clean readParams 21 (text s.details) := by
  refine ⟨by decide +kernel, ?_⟩
  obtain ⟨s, ran, -, written⟩ := @fillDetails_text (asEntries readParams)
    (asEntries_countable readParams) 21 (by decide) (List.replicate 21 7) List.length_replicate
  refine ⟨s, ran, ?_, fun clean => ?_⟩
  · rw [written]
    decide +kernel
  · have dangles : Dangles separator.val (rendered readParams) 20 :=
      ⟨1, by decide, by decide, by decide +kernel, by decide +kernel⟩
    apply (fill_clean_iff (rendered_long (by decide +kernel)) (by decide)).mp _ dangles
    obtain ⟨k, le, same⟩ := clean.1
    exact ⟨k, le, written.symm.trans same⟩

end SysMonitor.Guarantees.DetailsText
