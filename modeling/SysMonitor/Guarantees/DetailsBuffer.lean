import SysMonitor.Source.DetailsJoin

/-!
# The details buffer never overflows

`left` is what the buffer has left for the string and its NUL, at the head of every
iteration and behind every `strcat`; so no `strcat` leaves the buffer, however long the
parameters are.
-/

namespace SysMonitor.Guarantees.DetailsBuffer
open SysMonitor.Library.TerminatedStrings SysMonitor.Library.BoundedJoin SysMonitor.Source
open SysMonitor.Source.KernelStrings SysMonitor.Source.LogStorage SysMonitor.Source.DetailsBuffer

/-- The string ends inside the buffer, and at the head of an iteration `left` is the rest of
the buffer. -/
def Within (size : Word) (s : Loop) : Prop :=
  ∃ k, strlen s.details = .ok k ∧ (k + 1 : Int) ≤ size.toInt ∧
    (s.point = .head → (k : Int) = size.toInt - s.left.toInt ∧ 1 ≤ s.left.toInt)

/-- The buffer has its size and a string, and `left` counts the rest while the loop runs. -/
structure Sound (entries : List (Option CText)) (size : Nat) (s : Loop) : Prop where
  length : s.details.length = size
  nul : 0 ∈ s.details
  running : s.point ≠ .finished → ∃ room, LoopAt size room s
  inside : s.point = .tail → s.i < entries.length

section Loop

variable {entries : List (Option CText)} {size : Nat} {s : Loop}

theorem sound_of_at {room : Nat} (here : LoopAt size room s)
    (inside : s.point = .tail → s.i < entries.length) : Sound entries size s :=
  ⟨here.length, here.nul, fun _ => ⟨room, here⟩, inside⟩

/-- One step never leaves the buffer. -/
theorem Sound.step (sound : Sound entries size s) (count : Countable entries) :
    ∃ t, loopStep entries s = .ok t ∧ Sound entries size t := by
  cases point : s.point with
  | head =>
    obtain ⟨room, here⟩ := sound.running (by simp [point])
    cases found : entries[s.i]? with
    | none =>
      exact ⟨_, step_end point found, sound.length, sound.nul, by simp, by simp⟩
    | some entry =>
      have inside := (List.getElem?_eq_some_iff.mp found).1
      by_cases fits : (entryText entry).val.length ≤ room
      · obtain ⟨t, stepped, -, same, there, -⟩ := step_fits here point found count fits
        exact ⟨t, stepped, sound_of_at there fun _ => by omega⟩
      · obtain ⟨left, stepped⟩ := step_large here point found count (Nat.not_le.mp fits)
        exact ⟨_, stepped, sound.length, sound.nul, by simp, by simp⟩
  | tail =>
    obtain ⟨room, here⟩ := sound.running (by simp [point])
    by_cases more : s.i + 1 < entries.length ∧ 2 ≤ room
    · obtain ⟨t, stepped, head, -, there, -⟩ := step_separator here point more.1 more.2
      exact ⟨t, stepped, sound_of_at there fun tail => by simp [head] at tail⟩
    · exact ⟨_, step_next here point more (sound.inside point),
        sound_of_at ⟨here.length, here.nul, here.string, here.left⟩ (by simp)⟩
  | finished =>
    refine ⟨s, ?_, sound⟩
    rw [loopStep, point]

theorem Sound.steps (sound : Sound entries size s) (count : Countable entries) (n : Nat) :
    ∃ t, loopSteps entries n s = .ok t ∧ Sound entries size t := by
  induction n generalizing s with
  | zero => exact ⟨s, rfl, sound⟩
  | succ n ih =>
    obtain ⟨t, stepped, sound'⟩ := sound.step count
    obtain ⟨u, ran, sound''⟩ := ih sound'
    refine ⟨u, ?_, sound''⟩
    rw [loopSteps, stepped]
    exact ran

theorem Sound.within {size : Word} (sound : Sound entries size.toNat s) (positive : 0 < size.toInt) :
    Within size s := by
  have length := text_length_lt sound.nul
  rw [sound.length] at length
  have small : size.toInt = size.toNat := by
    rw [BitVec.toInt_eq_toNat_cond] at positive ⊢
    split at positive <;> omega
  refine ⟨(text s.details).length, strlen_eq (stringIn_text sound.nul), by omega, fun head => ?_⟩
  obtain ⟨room, here⟩ := sound.running (by simp [head])
  have string := here.string
  have left := here.left
  omega

end Loop

section Sizes

variable {path : Option CText}

theorem allocateDetails_some {size : Word} {memory : Option (Nat → Byte)} {buffer : List Byte}
    (allocated : allocateDetails size memory = some buffer) :
    0 < size.toInt ∧ buffer.length = size.toNat := by
  unfold allocateDetails at allocated
  split at allocated
  · cases allocated
  next positive => exact ⟨Int.not_le.mp positive, (kmalloc_some allocated).2⟩

/-- For every path that is not too long for the arithmetic, every array of parameters whose
lengths fit into an `int` together, and whatever the new buffer contains: the buffer is there
only if `detail_size` is positive, no step of the loop leaves it, and `left` is the rest of
it at the head of every iteration. -/
theorem details_stay_inside (short : ShortPath path) (entries : List (Option CText))
    (total : ((entries.filterMap id).map (·.val.length)).sum < 2 ^ 31)
    (memory : Option (Nat → Byte)) {buffer : List Byte}
    (allocated : allocateDetails (detailSizeOf path) memory = some buffer) :
    0 < (detailSizeOf path).toInt ∧ (detailSizeOf path).toInt = 967 - pathSizeOf path ∧
      buffer.length = (detailSizeOf path).toNat ∧
      ∀ n, ∃ s, loopSteps entries n (loopStart (detailSizeOf path) buffer) = .ok s ∧
        Within (detailSizeOf path) s := by
  obtain ⟨positive, length⟩ := allocateDetails_some allocated
  have count : Countable entries := by
    intro string inside
    have member : string.val.length ∈ (entries.filterMap id).map (·.val.length) :=
      List.mem_map.mpr ⟨string, List.mem_filterMap.mpr ⟨some string, inside, rfl⟩, rfl⟩
    obtain ⟨before, after, split⟩ := List.append_of_mem member
    rw [split, List.sum_append_nat, List.sum_cons] at total
    omega
  refine ⟨positive, detailSizeOf_toInt short, length, fun n => ?_⟩
  have start : Sound entries _ _ := sound_of_at (loopStart_at positive length).1
    (by simp [loopStart])
  obtain ⟨s, ran, sound⟩ := start.steps count n
  exact ⟨s, ran, sound.within positive⟩

/-- A path, three parameters of which one is missing, and a buffer with other bytes in it. -/
theorem details_stay_inside_three :
    let path : Option CText := some ⟨[47, 97], by decide⟩
    let entries : List (Option CText) := [some ⟨[102, 100], by decide⟩, none, some separator]
    ∃ buffer, allocateDetails (detailSizeOf path) (some fun _ => 7) = some buffer ∧
      ∀ n, ∃ s, loopSteps entries n (loopStart (detailSizeOf path) buffer) = .ok s ∧
        Within (detailSizeOf path) s := by
  intro path entries
  have short : ShortPath path := by
    intro string same
    rw [← Option.some.inj same]
    decide
  obtain ⟨buffer, allocated⟩ : ∃ buffer,
      allocateDetails (detailSizeOf path) (some fun _ => 7) = some buffer := by
    rw [allocateDetails, if_neg (by decide), LogStorage.kmalloc, if_pos (by decide)]
    exact ⟨_, rfl⟩
  exact ⟨buffer, allocated,
    (details_stay_inside short entries (by decide) (some fun _ => 7) allocated).2.2.2⟩

end Sizes

end SysMonitor.Guarantees.DetailsBuffer
