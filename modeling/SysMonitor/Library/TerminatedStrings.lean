import Mathlib.Data.List.TakeWhile
import SysMonitor.Library.CyclicBuffer

/-!
# Strings in blocks of memory

A block is a list of cells and holds a string when one of the cells is zero. Storing a
string with its terminator behind the text of a block appends to that text.
-/

namespace SysMonitor.Library.TerminatedStrings
open SysMonitor.Library.CyclicBuffer

variable {α : Type*} [Zero α] [DecidableEq α]

/-- What stands before the first zero. -/
def text (block : List α) : List α := block.takeWhile (· ≠ 0)

variable {block s : List α}

theorem zero_notMem_text (block : List α) : (0 : α) ∉ text block := by
  intro inside
  have kept := List.mem_takeWhile_imp inside
  simp at kept

theorem text_of_free (free : (0 : α) ∉ s) : text s = s := by
  apply List.takeWhile_eq_self_iff.mpr
  intro x inside
  rw [decide_eq_true_eq]
  rintro rfl
  exact free inside

/-- What follows a terminator is not part of the text. -/
@[simp] theorem text_terminated (free : (0 : α) ∉ s) (rest : List α) :
    text (s ++ 0 :: rest) = s := by
  have cells : ∀ x ∈ s, decide (x ≠ 0) = true := by
    intro x inside
    rw [decide_eq_true_eq]
    rintro rfl
    exact free inside
  rw [text, List.takeWhile_append_of_pos cells, List.takeWhile_cons_of_neg (by simp),
    List.append_nil]

/-- A block with a zero is its text, the zero and something more. -/
theorem exists_rest (terminated : (0 : α) ∈ block) : ∃ rest, block = text block ++ 0 :: rest := by
  obtain ⟨first, rest, split, free⟩ := List.eq_append_cons_of_mem terminated
  refine ⟨rest, ?_⟩
  conv_rhs => rw [split, text_terminated free]
  exact split

theorem text_length_lt (terminated : (0 : α) ∈ block) : (text block).length < block.length := by
  obtain ⟨rest, split⟩ := exists_rest terminated
  have lengths := congrArg List.length split
  rw [List.length_append, List.length_cons] at lengths
  omega

/-- The string that a block holds, none where no cell is zero. -/
def stringOf (block : List α) : Option (List α) := if 0 ∈ block then some (text block) else none

theorem stringOf_eq (terminated : (0 : α) ∈ block) : stringOf block = some (text block) :=
  if_pos terminated

theorem stringOf_eq_none (unterminated : (0 : α) ∉ block) : stringOf block = none :=
  if_neg unterminated

/-- A terminated string stored at the end of the text. -/
def append (block s : List α) : List α := splice block (text block).length (s ++ [0])

theorem append_eq (block s : List α) :
    append block s
      = text block ++ s ++ 0 :: block.drop ((text block).length + (s.length + 1)) := by
  have kept : block.take (text block).length = text block :=
    List.prefix_iff_eq_take.mp (List.takeWhile_prefix _) |>.symm
  rw [append, splice, kept, List.length_append, List.length_singleton]
  simp

/-- Where there is room for it, an appended string is all that the block changes by. -/
theorem append_spec (free : (0 : α) ∉ s) (fits : (text block).length + s.length < block.length) :
    (append block s).length = block.length ∧ (0 : α) ∈ append block s ∧
      text (append block s) = text block ++ s := by
  refine ⟨?_, ?_, ?_⟩
  · apply splice_length
    rw [List.length_append, List.length_singleton]
    omega
  · rw [append_eq]
    simp
  · have whole : (0 : α) ∉ text block ++ s := by
      rw [List.mem_append]
      rintro (inside | inside)
      · exact zero_notMem_text block inside
      · exact free inside
    rw [append_eq, text_terminated whole]

end SysMonitor.Library.TerminatedStrings
