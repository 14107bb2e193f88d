import SysMonitor.Source.DetailsBuffer

/-!
# What `end_log_system_call` writes into the details buffer

The bytes in the buffer after the loop are the parameters joined while they fit, and the
loop of the log module's model, which works on strings, leaves the same text.
-/

namespace SysMonitor.Source.DetailsBuffer
open SysMonitor.Library.TerminatedStrings SysMonitor.Library.BoundedJoin
open SysMonitor.Source.KernelStrings SysMonitor.Source.LogText

/-- The entries as they appear in the details. -/
def texts (entries : List (Option CText)) : List (List Byte) :=
  entries.map fun entry => (entryText entry).val

@[simp] theorem texts_cons (entry : Option CText) (left : List (Option CText)) :
    texts (entry :: left) = (entryText entry).val :: texts left := rfl

section Run

variable {size room : Nat} {s : Loop}

theorem loopSteps_finished (entries : List (Option CText)) (finished : s.point = .finished)
    (n : Nat) : loopSteps entries n s = .ok s := by
  induction n with
  | zero => rfl
  | succ n ih =>
    have stay : loopStep entries s = .ok s := by rw [loopStep, finished]
    rw [loopSteps, stay]
    exact ih

theorem loopSteps_succ {entries : List (Option CText)} {t : Loop}
    (stepped : loopStep entries s = .ok t) (n : Nat) :
    loopSteps entries (n + 1) s = loopSteps entries n t := by
  rw [loopSteps, stepped]
  rfl

/-- The loop over the entries that are left; two steps for each of them. -/
theorem loopSteps_text (done left : List (Option CText)) (count : Countable (done ++ left))
    (here : LoopAt size room s) (head : s.point = .head) (index : s.i = done.length) :
    ∃ t, loopSteps (done ++ left) (2 * left.length + 1) s = .ok t ∧ t.point = .finished ∧
      text t.details = text s.details ++ fill separator.val (texts left) room := by
  induction left generalizing done room s with
  | nil =>
    have stepped := @step_end (done ++ []) s head (by simp [index])
    refine ⟨_, loopSteps_succ stepped 0, rfl, ?_⟩
    simp [texts, fill]
  | cons entry left ih =>
    have found : (done ++ entry :: left)[s.i]? = some entry := by simp [index]
    by_cases fits : (entryText entry).val.length ≤ room
    · obtain ⟨t, stepped, tail, same, there, written⟩ := step_fits here head found count fits
      have more : t.i + 1 < (done ++ entry :: left).length ↔ texts left ≠ [] := by
        rw [texts, ne_eq, List.map_eq_nil_iff, ← List.length_eq_zero_iff, List.length_append,
          List.length_cons, same, index]
        omega
      have entries : done ++ entry :: left = (done ++ [entry]) ++ left := by simp
      rw [List.length_cons, Nat.mul_succ, loopSteps_succ stepped]
      by_cases between : texts left ≠ [] ∧ 2 ≤ room - (entryText entry).val.length
      · obtain ⟨u, stepped', head', next, there', written'⟩ :=
          step_separator there tail (more.mpr between.1) between.2
        rw [loopSteps_succ stepped', entries]
        obtain ⟨v, ran, finished, rest⟩ := ih (done ++ [entry]) (entries ▸ count) there' head'
          (by rw [next, same, index]; simp)
        refine ⟨v, ran, finished, ?_⟩
        rw [rest, written', written, texts_cons, fill, if_pos fits, separator_length,
          if_pos between]
        simp only [List.append_assoc]
      · have stepped' := step_next there tail (fun both => between ⟨more.mp both.1, both.2⟩)
          (by rw [same, index]; simp)
        rw [loopSteps_succ stepped', entries]
        obtain ⟨v, ran, finished, rest⟩ := ih (s := ⟨.head, t.i + 1, t.left, t.details⟩)
          (done ++ [entry]) (entries ▸ count)
          ⟨there.length, there.nul, there.string, there.left⟩ rfl (by simp [same, index])
        refine ⟨v, ran, finished, ?_⟩
        rw [rest, written, texts_cons, fill, if_pos fits, separator_length, if_neg between,
          List.append_assoc]
    · obtain ⟨rest, stepped⟩ := step_large here head found count (Nat.not_le.mp fits)
      rw [List.length_cons, Nat.mul_succ, loopSteps_succ stepped]
      refine ⟨_, loopSteps_finished _ rfl _, rfl, ?_⟩
      rw [texts_cons, fill_of_large (Nat.not_le.mp fits), List.append_nil]

end Run

/-- The empty string in a buffer of which nothing else is known. -/
theorem loopStart_at {detailSize : Word} {buffer : List Byte} (positive : 0 < detailSize.toInt)
    (length : buffer.length = detailSize.toNat) :
    LoopAt detailSize.toNat (detailSize.toNat - 1) (loopStart detailSize buffer) ∧
      text (loopStart detailSize buffer).details = [] := by
  have small : detailSize.toInt = detailSize.toNat := by
    rw [BitVec.toInt_eq_toNat_cond] at positive ⊢
    split at positive <;> omega
  obtain ⟨first, rest, rfl⟩ : ∃ first rest, buffer = first :: rest :=
    List.exists_cons_of_ne_nil (List.ne_nil_of_length_pos (by omega))
  have empty : text (loopStart detailSize (first :: rest)).details = [] := by
    simp [loopStart, text]
  refine ⟨⟨by simpa [loopStart] using length, by simp [loopStart], ?_, ?_⟩, empty⟩
  · rw [empty, List.length_nil]
    omega
  · rw [loopStart, small]
    omega

/-- The loop ends, and the buffer then holds the entries joined while they fit. -/
theorem fillDetails_text {entries : List (Option CText)} (count : Countable entries)
    {detailSize : Word} (positive : 0 < detailSize.toInt) {buffer : List Byte}
    (length : buffer.length = detailSize.toNat) :
    ∃ s, fillDetails entries detailSize buffer = .ok s ∧ s.point = .finished ∧
      text s.details = fill separator.val (texts entries) (detailSize.toNat - 1) := by
  obtain ⟨start, empty⟩ := loopStart_at positive length
  obtain ⟨s, ran, finished, written⟩ := loopSteps_text [] entries count start rfl rfl
  refine ⟨s, ran, finished, ?_⟩
  rw [written, empty, List.nil_append]

section Strings

/-- A kernel string without the bound on its length. -/
def asText (string : CString) : CText := ⟨string.bytes, string.nulFree⟩

def asEntries (params : List (Option CString)) : List (Option CText) := params.map (·.map asText)

theorem asEntries_countable (params : List (Option CString)) : Countable (asEntries params) := by
  intro string inside
  obtain ⟨param, -, same⟩ := List.mem_map.mp inside
  obtain ⟨kernel, rfl, rfl⟩ := Option.map_eq_some_iff.mp same
  have fits := kernel.fits
  unfold kernelSpace at fits
  change kernel.bytes.length < 2 ^ 31
  omega

/-- For a kernel string `detail_size` is computed without an overflow. -/
theorem detailSize_eq (path : Option CString) : detailSize path = 967 - pathSize path := by
  have same : detailSize path = (detailSizeOf (path.map asText)).toInt := by cases path <;> rfl
  have size : pathSize path = pathSizeOf (path.map asText) := by cases path <;> rfl
  rw [same, size]
  apply detailSizeOf_toInt
  intro string inside
  obtain ⟨kernel, rfl, rfl⟩ := Option.map_eq_some_iff.mp inside
  have fits := kernel.fits
  unfold kernelSpace at fits
  change kernel.bytes.length < _
  omega

theorem paramText_bytes (param : Option CString) :
    (paramText param).bytes = (entryText (param.map asText)).val := by
  cases param with
  | none => decide
  | some string => rfl

theorem append_bytes {s t : CString} (fits : s.strlen + t.strlen < kernelSpace) :
    (s.append t).bytes = s.bytes ++ t.bytes := by
  have free : 0 ∉ s.bytes ++ t.bytes := by
    rw [List.mem_append]
    rintro (inside | inside)
    · exact s.nulFree inside
    · exact t.nulFree inside
  change (text (s.bytes ++ t.bytes)).take (kernelSpace - 1) = _
  rw [text_of_free free]
  apply List.take_of_length_le
  rw [List.length_append]
  change s.strlen + t.strlen ≤ _
  omega

theorem append_strlen {s t : CString} (fits : s.strlen + t.strlen < kernelSpace) :
    (s.append t).strlen = s.strlen + t.strlen := by
  rw [CString.strlen, append_bytes fits, List.length_append]
  rfl

theorem paramSize_eq (param : Option CString) : paramSize param = (paramText param).strlen := by
  cases param with
  | none => decide
  | some string => rfl

theorem texts_asEntries_cons (param : Option CString) (rest : List (Option CString)) :
    texts (asEntries (param :: rest)) = (paramText param).bytes :: texts (asEntries rest) := by
  rw [paramText_bytes]
  rfl

theorem comma_bytes : (CString.literal ", ").bytes = separator.val := by decide

theorem comma_strlen : (CString.literal ", ").strlen = 2 := by
  rw [CString.strlen, comma_bytes, separator_length]

/-- The loop over strings writes the same. -/
theorem joinParams_bytes (params : List (Option CString)) {left : Int} {details : CString}
    (positive : 0 < left) (fits : details.strlen + left ≤ kernelSpace) :
    (joinParams params left details).bytes
      = details.bytes ++ fill separator.val (texts (asEntries params)) (left - 1).toNat := by
  induction params generalizing left details with
  | nil => simp [joinParams, texts, asEntries, fill]
  | cons param rest ih =>
    have more : rest ≠ [] ↔ texts (asEntries rest) ≠ [] := by simp [texts, asEntries]
    have length : (paramText param).bytes.length = (paramText param).strlen := rfl
    rw [joinParams, texts_asEntries_cons, paramSize_eq]
    dsimp only
    by_cases room : (paramText param).strlen < left
    · have inside : details.strlen + (paramText param).strlen < kernelSpace := by omega
      have written : (paramText param).bytes.length ≤ (left - 1).toNat := by omega
      rw [if_pos (by omega), fill, if_pos written, separator_length]
      by_cases between : rest ≠ [] ∧ left - (paramText param).strlen > 2
      · have inside' : (details.append (paramText param)).strlen + (CString.literal ", ").strlen
            < kernelSpace := by
          rw [append_strlen inside, comma_strlen]
          omega
        have same : (left - (paramText param).strlen - 2 - 1).toNat
            = (left - 1).toNat - (paramText param).bytes.length - 2 := by omega
        rw [if_pos between, if_pos ⟨more.mp between.1, by omega⟩, ih (by omega)]
        · rw [append_bytes inside', append_bytes inside, comma_bytes, same]
          simp only [List.append_assoc]
        · rw [append_strlen inside', append_strlen inside, comma_strlen]
          omega
      · have same : (left - (paramText param).strlen - 1).toNat
            = (left - 1).toNat - (paramText param).bytes.length := by omega
        rw [if_neg between, if_neg fun both => between ⟨more.mpr both.1, by omega⟩, ih (by omega)]
        · rw [append_bytes inside, same, List.append_assoc]
        · rw [append_strlen inside]
          omega
    · rw [if_neg (by omega), fill_of_large (by omega), List.append_nil]

end Strings

end SysMonitor.Source.DetailsBuffer
