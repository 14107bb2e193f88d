import Mathlib.Data.List.Basic

/-!
# Joining parts while they fit

`fill` writes parts and separators into a bounded room from left to right. It decides on a
separator before it knows whether the next part fits, so it may leave one at the end.
-/

namespace SysMonitor.Library.BoundedJoin

variable {α : Type*} {sep part : List α} {parts rest : List (List α)} {room : Nat}

/-- Every part that fits, and a separator behind it when it is not the last and that fits. -/
def fill (sep : List α) : List (List α) → Nat → List α
  | [], _ => []
  | part :: rest, room =>
    if part.length ≤ room then
      if rest ≠ [] ∧ sep.length ≤ room - part.length then
        part ++ sep ++ fill sep rest (room - part.length - sep.length)
      else part ++ fill sep rest (room - part.length)
    else []

/-- There is room for some parts and a separator, but not for the part that comes next. -/
def Dangles (sep : List α) (parts : List (List α)) (room : Nat) : Prop :=
  ∃ k, 0 < k ∧ k < parts.length ∧
    (sep.intercalate (parts.take k)).length + sep.length ≤ room ∧
    room < (sep.intercalate (parts.take (k + 1))).length

/-- More parts never make a join shorter. -/
theorem intercalate_append_length (first second : List (List α)) :
    (sep.intercalate first).length ≤ (sep.intercalate (first ++ second)).length := by
  induction first with
  | nil => simp
  | cons part first ih =>
    by_cases last : first = []
    · subst last
      by_cases none : second = []
      · simp [none]
      · rw [List.singleton_append, List.intercalate_cons_of_ne_nil none]
        simp
    · have more : first ++ second ≠ [] := by simp [last]
      rw [List.cons_append, List.intercalate_cons_of_ne_nil last,
        List.intercalate_cons_of_ne_nil more]
      simp only [List.length_append]
      omega

theorem intercalate_take_mono (sep : List α) (parts : List (List α)) {m n : Nat} (le : m ≤ n) :
    (sep.intercalate (parts.take m)).length ≤ (sep.intercalate (parts.take n)).length := by
  obtain ⟨more, split⟩ := List.take_prefix_take_left (l := parts) le
  rw [← split]
  exact intercalate_append_length _ _

/-- A part that does not fit ends the writing. -/
theorem fill_of_large (large : room < part.length) : fill sep (part :: rest) room = [] := by
  rw [fill, if_neg (Nat.not_le.mpr large)]

/-- A part and a separator that fit, with parts to come. -/
theorem fill_of_room (some : rest ≠ []) (fits : part.length + sep.length ≤ room) :
    fill sep (part :: rest) room
      = part ++ sep ++ fill sep rest (room - part.length - sep.length) := by
  rw [fill, if_pos (by omega), if_pos ⟨some, by omega⟩]

theorem length_le_fill (fits : part.length ≤ room) :
    part.length ≤ (fill sep (part :: rest) room).length := by
  rw [fill, if_pos fits]
  split
  · rw [List.append_assoc, List.length_append]
    exact Nat.le_add_right _ _
  · rw [List.length_append]
    exact Nat.le_add_right _ _

/-- A join that fits is written whole. -/
theorem fill_of_fits (fits : (sep.intercalate parts).length ≤ room) :
    fill sep parts room = sep.intercalate parts := by
  induction parts generalizing room with
  | nil => simp [fill]
  | cons part rest ih =>
    by_cases last : rest = []
    · subst last
      simp only [List.intercalate_singleton] at fits ⊢
      simp [fill, fits]
    · rw [List.intercalate_cons_of_ne_nil last] at fits ⊢
      simp only [List.length_append] at fits
      rw [fill_of_room last (by omega), ih (by omega)]

/-- Where a separator dangles, it ends what is written. -/
theorem fill_of_dangles {k : Nat} (some : 0 < k) (more : k < parts.length)
    (fits : (sep.intercalate (parts.take k)).length + sep.length ≤ room)
    (next : room < (sep.intercalate (parts.take (k + 1))).length) :
    fill sep parts room = sep.intercalate (parts.take k) ++ sep := by
  induction parts generalizing room k with
  | nil => exact absurd more (Nat.not_lt_zero k)
  | cons part rest ih =>
    obtain ⟨k, rfl⟩ : ∃ j, k = j + 1 := ⟨k - 1, by omega⟩
    rw [List.length_cons] at more
    have rest_some : rest ≠ [] := List.ne_nil_of_length_pos (by omega)
    rw [List.take_succ_cons] at fits next ⊢
    cases k with
    | zero =>
      obtain ⟨head, tail, rfl⟩ := List.exists_cons_of_ne_nil rest_some
      simp only [List.take_zero, List.intercalate_singleton, List.take_succ_cons, Nat.zero_add,
        List.intercalate_cons_cons, List.length_append] at fits next ⊢
      rw [fill_of_room (by simp) fits, fill_of_large (by omega), List.append_nil]
    | succ k =>
      have taken : rest.take (k + 1) ≠ [] := by simp [rest_some]
      have taken' : rest.take (k + 1 + 1) ≠ [] := by simp [rest_some]
      rw [List.intercalate_cons_of_ne_nil taken, List.length_append, List.length_append] at fits
      rw [List.intercalate_cons_of_ne_nil taken', List.length_append, List.length_append] at next
      rw [List.intercalate_cons_of_ne_nil taken, fill_of_room rest_some (by omega),
        ih (k := k + 1) (by omega) (by omega) (by omega) (by omega)]
      simp

theorem Dangles.first {head : List α} {tail : List (List α)}
    (fits : part.length + sep.length ≤ room)
    (large : room < part.length + sep.length + head.length) :
    Dangles sep (part :: head :: tail) room := by
  refine ⟨1, Nat.one_pos, by simp, ?_, ?_⟩
  · simpa using fits
  · simpa [Nat.add_assoc] using large

/-- What dangles behind a part that fits, dangles with that part in front. -/
theorem Dangles.later {head : List α} {tail : List (List α)}
    (fits : part.length + sep.length ≤ room)
    (dangles : Dangles sep (head :: tail) (room - part.length - sep.length)) :
    Dangles sep (part :: head :: tail) room := by
  obtain ⟨k, some, more, most, next⟩ := dangles
  have taken : (head :: tail).take k ≠ [] := by
    simp
    omega
  refine ⟨k + 1, by omega, Nat.succ_lt_succ more, ?_, ?_⟩
  · rw [List.take_succ_cons, List.intercalate_cons_of_ne_nil taken, List.length_append,
      List.length_append]
    omega
  · rw [List.take_succ_cons, List.intercalate_cons_of_ne_nil (by simp),
      List.length_append, List.length_append]
    omega

section Clean

variable (long : ∀ part ∈ parts, sep.length < part.length)
include long

/-- Where no separator dangles, what is written is a join of the first parts. -/
theorem fill_of_not_dangles (clean : ¬ Dangles sep parts room) :
    ∃ k ≤ parts.length, fill sep parts room = sep.intercalate (parts.take k) := by
  induction parts generalizing room with
  | nil => exact ⟨0, Nat.le_refl 0, by simp [fill]⟩
  | cons part rest ih =>
    by_cases fits : part.length ≤ room
    · by_cases last : rest = []
      · exact ⟨1, by simp, by simp [last, fill, fits]⟩
      · obtain ⟨head, tail, rfl⟩ := List.exists_cons_of_ne_nil last
        have head_long := long head (by simp)
        by_cases between : sep.length ≤ room - part.length
        · have head_fits : head.length ≤ room - part.length - sep.length := by
            by_contra large
            exact clean (.first (by omega) (by omega))
          have later : ¬ Dangles sep (head :: tail) (room - part.length - sep.length) :=
            fun dangles => clean (dangles.later (by omega))
          obtain ⟨k, le, filled⟩ :=
            ih (fun part inside => long part (List.mem_cons_of_mem _ inside)) later
          -- the next part fits, so at least that one is written
          have some : k ≠ 0 := by
            rintro rfl
            have written : head.length ≤ (fill sep (head :: tail) _).length :=
              length_le_fill head_fits
            rw [filled, List.take_zero, List.intercalate_nil, List.length_nil] at written
            omega
          have taken : (head :: tail).take k ≠ [] := by simpa using some
          refine ⟨k + 1, Nat.succ_le_succ le, ?_⟩
          rw [fill, if_pos fits, if_pos ⟨last, between⟩, filled, List.take_succ_cons,
            List.intercalate_cons_of_ne_nil taken]
        · refine ⟨1, by simp, ?_⟩
          rw [fill, if_pos fits, if_neg fun both => between both.2, fill_of_large (by omega)]
          simp
    · exact ⟨0, Nat.zero_le _, by rw [fill_of_large (Nat.not_le.mp fits)]; simp⟩

/-- What is written is a join of the first parts exactly when no separator dangles. -/
theorem fill_clean_iff (real : sep ≠ []) :
    (∃ k ≤ parts.length, fill sep parts room = sep.intercalate (parts.take k))
      ↔ ¬ Dangles sep parts room := by
  constructor
  · rintro ⟨m, -, clean⟩ ⟨k, some, more, fits, next⟩
    rw [fill_of_dangles some more fits next] at clean
    have lengths := congrArg List.length clean
    have positive := List.length_pos_iff.mpr real
    rw [List.length_append] at lengths
    rcases Nat.lt_or_ge k m with later | earlier
    · have grown := intercalate_take_mono sep parts (show k + 1 ≤ m from later)
      omega
    · have grown := intercalate_take_mono sep parts earlier
      omega
  · exact fill_of_not_dangles long

end Clean

end SysMonitor.Library.BoundedJoin
