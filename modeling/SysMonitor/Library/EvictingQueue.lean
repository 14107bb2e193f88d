import Mathlib.Data.List.Basic

/-!
# First-in first-out queues that evict

The members stand youngest first. A new one goes in front, and in a full queue the oldest gives
way to it; any member can be taken out where it stands.
-/

namespace SysMonitor.Library

variable {α : Type*}

structure EvictingQueue (α : Type*) (capacity : Nat) where
  items : List α
  bounded : items.length ≤ capacity

/-- What happens to a queue. -/
inductive QueueEvent (α : Type*) where
  | place (x : α)
  | remove (x : α)
  | keep
  deriving DecidableEq

namespace EvictingQueue

variable {capacity : Nat}

def empty : EvictingQueue α capacity := ⟨[], Nat.zero_le _⟩

def place (q : EvictingQueue α capacity) (x : α) : EvictingQueue α capacity :=
  ⟨(x :: q.items).take capacity, List.length_take_le _ _⟩

def remove [DecidableEq α] (q : EvictingQueue α capacity) (x : α) : EvictingQueue α capacity :=
  ⟨q.items.erase x, Nat.le_trans (List.length_erase_le) q.bounded⟩

def apply [DecidableEq α] (q : EvictingQueue α capacity) : QueueEvent α → EvictingQueue α capacity
  | .place x => q.place x
  | .remove x => q.remove x
  | .keep => q

section Place

variable (q : EvictingQueue α capacity) (x : α)

theorem place_of_room (room : q.items.length < capacity) : (q.place x).items = x :: q.items :=
  List.take_of_length_le room

/-- The oldest member of a full queue is dropped. -/
theorem place_of_full (full : q.items.length = capacity) (some' : 0 < capacity) :
    (q.place x).items = x :: q.items.dropLast := by
  obtain ⟨n, rfl⟩ := Nat.exists_eq_succ_of_ne_zero (Nat.ne_of_gt some')
  show (x :: q.items).take (n + 1) = _
  rw [List.take_succ_cons, List.dropLast_eq_take, full]
  rfl

/-- The new member is the youngest, whatever the queue held. -/
theorem place_head (some' : 0 < capacity) : (q.place x).items.head? = some x := by
  obtain ⟨n, rfl⟩ := Nat.exists_eq_succ_of_ne_zero (Nat.ne_of_gt some')
  rfl

/-- A member with an older one behind it stays. -/
theorem place_keeps (some' : 0 < capacity) {y z : α} (younger : [y, z].Sublist q.items) :
    y ∈ (q.place x).items := by
  rcases Nat.lt_or_eq_of_le q.bounded with room | full
  · rw [place_of_room q x room]
    exact List.mem_cons_of_mem x (younger.subset List.mem_cons_self)
  · rw [place_of_full q x full some']
    obtain ⟨before, behind, shape, inside, older⟩ := List.cons_sublist_iff.mp younger
    have behind_some : behind ≠ [] := List.ne_nil_of_mem (older.subset List.mem_cons_self)
    rw [shape, List.dropLast_append_of_ne_nil behind_some]
    exact List.mem_cons_of_mem x (List.mem_append_left _ inside)

/-- What is dropped is the oldest, and the queue was full. -/
theorem place_evicts (some' : 0 < capacity) {y : α} (inside : y ∈ q.items)
    (gone : y ∉ (q.place x).items) : q.items.length = capacity ∧ q.items.getLast? = some y := by
  rcases Nat.lt_or_eq_of_le q.bounded with room | full
  · rw [place_of_room q x room] at gone
    exact absurd (List.mem_cons_of_mem x inside) gone
  · rw [place_of_full q x full some'] at gone
    refine ⟨full, ?_⟩
    obtain ⟨older, last, shape⟩ := List.eq_nil_or_concat q.items |>.resolve_left
      (List.ne_nil_of_mem inside)
    rw [List.concat_eq_append] at shape
    rw [shape, List.dropLast_concat, List.mem_cons, not_or] at gone
    rw [shape, List.mem_append, List.mem_singleton] at inside
    rw [shape, List.getLast?_concat, inside.resolve_left gone.2]

end Place

/-- Only a removal and an eviction take a member away. -/
theorem gone_cases [DecidableEq α] (some' : 0 < capacity) (q : EvictingQueue α capacity)
    (e : QueueEvent α) {y : α} (inside : y ∈ q.items) (gone : y ∉ (q.apply e).items) :
    e = .remove y ∨
      ∃ x, e = .place x ∧ q.items.length = capacity ∧ q.items.getLast? = some y := by
  cases e with
  | place x => exact .inr ⟨x, rfl, place_evicts q x some' inside gone⟩
  | remove x =>
    by_cases same : y = x
    · rw [same]
      exact .inl rfl
    · exact absurd ((List.mem_erase_of_ne same).mpr inside) gone
  | keep => exact absurd inside gone

end EvictingQueue

end SysMonitor.Library
