import Mathlib.Data.List.Basic

/-!
# Bounded queues

A first-in first-out queue whose length bound is a field, so that an overfull
queue cannot be built. Elements are put in blocks: a block that does not fit is
refused as a whole.
-/

namespace SysMonitor.Library

variable {α : Type*}

structure BoundedQueue (α : Type*) (limit : Nat) where
  items : List α
  bounded : items.length ≤ limit

namespace BoundedQueue

variable {limit : Nat}

def empty : BoundedQueue α limit := ⟨[], Nat.zero_le _⟩

/-- Append a whole block, or refuse it. -/
def push (q : BoundedQueue α limit) (block : List α) : BoundedQueue α limit :=
  if fits : q.items.length + block.length ≤ limit then
    ⟨q.items ++ block, by simpa using fits⟩
  else q

/-- The oldest `n` elements, fewer if the queue is shorter, and the queue without them. -/
def pop (q : BoundedQueue α limit) (n : Nat) : List α × BoundedQueue α limit :=
  (q.items.take n, ⟨q.items.drop n, by
    rw [List.length_drop]
    exact Nat.le_trans (Nat.sub_le _ _) q.bounded⟩)

@[ext] theorem ext {p q : BoundedQueue α limit} (same : p.items = q.items) : p = q := by
  cases p; cases q; simp_all

@[simp] theorem empty_items : (empty : BoundedQueue α limit).items = [] := rfl

theorem push_items_of_fits (q : BoundedQueue α limit) (block : List α)
    (fits : q.items.length + block.length ≤ limit) :
    (q.push block).items = q.items ++ block := by
  simp [push, fits]

theorem push_of_full (q : BoundedQueue α limit) (block : List α)
    (full : limit < q.items.length + block.length) : q.push block = q := by
  simp [push, Nat.not_le.mpr full]

@[simp] theorem pop_fst (q : BoundedQueue α limit) (n : Nat) : (q.pop n).1 = q.items.take n := rfl

@[simp] theorem pop_snd_items (q : BoundedQueue α limit) (n : Nat) :
    (q.pop n).2.items = q.items.drop n := rfl

end BoundedQueue

end SysMonitor.Library
