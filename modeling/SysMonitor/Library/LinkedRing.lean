import Mathlib.Data.List.Nodup
import Mathlib.Data.List.Chain

/-!
# Doubly linked lists as rings

The nodes of a doubly linked list are met by following `next` from a start node until
it comes back to that node, and `prev` runs the same way backwards. A circular list is
a ring from any of its nodes; a list that ends in null pointers is a ring from the null
node, whose own two fields do not exist. With this one relation insertion and removal
at any place are one lemma each, whichever neighbours happen to be null.
-/

namespace SysMonitor.Library.LinkedRing

variable {α : Type*}

/-- The two link fields of every node. -/
structure Fields (α : Type*) where
  next : α → α
  prev : α → α

/-- `b` comes right behind `a`; the fields of the null node are not looked at. -/
def Link (f : Fields α) (null a b : α) : Prop :=
  (a ≠ null → f.next a = b) ∧ (b ≠ null → f.prev b = a)

/-- From `s` along `xs` and back to `s`. -/
structure Ring (f : Fields α) (null s : α) (xs : List α) : Prop where
  chain : List.IsChain (Link f null) (s :: xs ++ [s])
  nodup : (s :: xs).Nodup

/-- A chain is kept when its links are: left ends are all but the last element, right
ends all but the first. -/
theorem isChain_congr {R S : α → α → Prop} {l : List α} (chain : List.IsChain R l)
    (keep : ∀ a ∈ l.dropLast, ∀ b ∈ l.tail, R a b → S a b) : List.IsChain S l := by
  induction l with
  | nil => exact .nil
  | cons a l ih =>
    cases l with
    | nil => exact .singleton _
    | cons b l =>
      rw [List.isChain_cons_cons] at chain ⊢
      refine ⟨keep a (by simp) b (by simp) chain.1, ih chain.2 ?_⟩
      intro x left y right
      exact keep x (by simp [left]) y (List.mem_of_mem_tail right)

theorem link_congr {f f' : Fields α} {null : α} {l : List α}
    (chain : List.IsChain (Link f null) l)
    (next_same : ∀ a ∈ l.dropLast, a ≠ null → f'.next a = f.next a)
    (prev_same : ∀ b ∈ l.tail, b ≠ null → f'.prev b = f.prev b) :
    List.IsChain (Link f' null) l := by
  apply isChain_congr chain
  rintro a left b right ⟨next, prev⟩
  refine ⟨fun real => ?_, fun real => ?_⟩
  · rw [next_same a left real, next real]
  · rw [prev_same b right real, prev real]

/-- The part of a ring up to the node `a` in front of a cut. -/
theorem link_congr_left {f f' : Fields α} {null s a b : α} {xs before : List α}
    (chain : List.IsChain (Link f null) (before ++ [a])) (left : s :: xs = before ++ [a])
    (once : a ∉ before) (other : b ∉ xs)
    (next_frame : ∀ y ∈ s :: xs, y ≠ a → f'.next y = f.next y)
    (prev_frame : ∀ y ∈ s :: xs, y ≠ b → f'.prev y = f.prev y) :
    List.IsChain (Link f' null) (before ++ [a]) := by
  refine link_congr chain ?_ ?_
  · intro y member _
    rw [List.dropLast_concat] at member
    apply next_frame y (by simp [left, member])
    exact fun same => once (same ▸ member)
  · intro y member _
    rw [← left, List.tail_cons] at member
    apply prev_frame y (List.mem_cons_of_mem s member)
    exact fun same => other (same ▸ member)

/-- The part of a ring from the node `b` behind a cut. -/
theorem link_congr_right {f f' : Fields α} {null s a b : α} {ys behind : List α}
    (chain : List.IsChain (Link f null) (b :: behind)) (right : ys ++ [s] = b :: behind)
    (other : a ∉ ys) (once : b ∉ behind)
    (next_frame : ∀ y ∈ s :: ys, y ≠ a → f'.next y = f.next y)
    (prev_frame : ∀ y ∈ s :: ys, y ≠ b → f'.prev y = f.prev y) :
    List.IsChain (Link f' null) (b :: behind) := by
  refine link_congr chain ?_ ?_
  · intro y member _
    rw [← right, List.dropLast_concat] at member
    apply next_frame y (List.mem_cons_of_mem s member)
    exact fun same => other (same ▸ member)
  · intro y member _
    rw [List.tail_cons] at member
    have inside : y ∈ ys ++ [s] := right ▸ List.mem_cons_of_mem b member
    apply prev_frame y (by simpa [or_comm] using inside)
    exact fun same => once (same ▸ member)

namespace Ring

variable {f f' : Fields α} {null s : α} {xs ys : List α}

theorem congr (ring : Ring f null s xs)
    (next_same : ∀ a ∈ s :: xs, a ≠ null → f'.next a = f.next a)
    (prev_same : ∀ b ∈ s :: xs, b ≠ null → f'.prev b = f.prev b) : Ring f' null s xs := by
  refine ⟨link_congr ring.chain ?_ ?_, ring.nodup⟩
  · intro a left
    rw [List.dropLast_concat] at left
    exact next_same a left
  · intro b right
    apply prev_same b
    simpa [or_comm] using right

/-- The same ring, started one node later. -/
theorem rotate {b : α} (ring : Ring f null s (b :: xs)) : Ring f null b (xs ++ [s]) := by
  obtain ⟨chain, nodup⟩ := ring
  constructor
  · rw [List.cons_append, List.cons_append, List.isChain_cons_cons] at chain
    have closed : List.IsChain (Link f null) (b :: xs ++ s :: [b]) :=
      List.isChain_split.mpr ⟨chain.2, by simpa using chain.1⟩
    simpa using closed
  · exact (List.perm_append_singleton s (b :: xs)).nodup_iff.mpr nodup

/-- The same ring, started one node earlier. -/
theorem rotate_back {p : α} (ring : Ring f null s (xs ++ [p])) : Ring f null p (s :: xs) := by
  obtain ⟨chain, nodup⟩ := ring
  constructor
  · have shape : s :: (xs ++ [p]) ++ [s] = (s :: xs) ++ p :: [s] := by simp
    rw [shape, List.isChain_split] at chain
    rw [List.cons_append, List.cons_append, List.isChain_cons_cons]
    exact ⟨by simpa using chain.2, chain.1⟩
  · exact (List.perm_append_singleton p (s :: xs)).nodup_iff.mp nodup

/-- The node in front of a place in the ring, after `s` and `xs`, is `xs.getLastD s`. -/
theorem front (s : α) (xs : List α) : ∃ before, s :: xs = before ++ [xs.getLastD s] := by
  rcases List.eq_nil_or_concat xs with rfl | ⟨init, last, rfl⟩
  · exact ⟨[], by simp⟩
  · exact ⟨s :: init, by simp [List.getLastD_eq_getLast?]⟩

/-- The node behind a place in the ring, before `ys` and back at `s`, is `ys.headD s`. -/
theorem back (s : α) (ys : List α) : ∃ behind, ys ++ [s] = ys.headD s :: behind := by
  cases ys with
  | nil => exact ⟨[], rfl⟩
  | cons y ys => exact ⟨ys ++ [s], rfl⟩

/-- The links of a node to its two neighbours. -/
theorem neighbours {x : α} (ring : Ring f null s (xs ++ x :: ys)) :
    Link f null (xs.getLastD s) x ∧ Link f null x (ys.headD s) := by
  obtain ⟨before, left⟩ := front s xs
  obtain ⟨behind, right⟩ := back s ys
  have shape : s :: (xs ++ x :: ys) ++ [s]
      = before ++ xs.getLastD s :: x :: ys.headD s :: behind := by
    rw [← List.cons_append, List.append_assoc, left, List.cons_append, right]
    simp
  have chain := ring.chain
  rw [shape, List.isChain_append_cons_cons, List.isChain_cons_cons] at chain
  exact ⟨chain.2.1, chain.2.2.1⟩

/-- The links of the start node to the first and from the last node. -/
theorem ends (ring : Ring f null s xs) :
    Link f null s (xs.headD s) ∧ Link f null (xs.getLastD s) s := by
  obtain ⟨before, left⟩ := front s xs
  obtain ⟨behind, right⟩ := back s xs
  have chain := ring.chain
  constructor
  · rw [List.cons_append, right, List.isChain_cons_cons] at chain
    exact chain.1
  · rw [left, List.append_assoc, List.cons_append, List.nil_append,
      List.isChain_append_cons_cons] at chain
    exact chain.2.1

/-- Where a ring is cut between two neighbours, each of them occurs only once. -/
theorem cut {a b : α} {before behind : List α} (nodup : (s :: (xs ++ ys)).Nodup)
    (left : s :: xs = before ++ [a]) (right : ys ++ [s] = b :: behind) :
    (a ∉ before ∧ a ∉ ys) ∧ b ∉ xs ∧ b ∉ behind := by
  constructor
  · rw [← List.cons_append, left, List.append_assoc] at nodup
    obtain ⟨-, inner, apart⟩ := List.nodup_append.mp nodup
    refine ⟨fun member => apart a member a (by simp) rfl, ?_⟩
    exact (List.nodup_cons.mp inner).1
  · have turned : (xs ++ (ys ++ [s])).Nodup := by
      rw [← List.append_assoc]
      exact (List.perm_append_singleton s (xs ++ ys)).nodup_iff.mpr nodup
    rw [right] at turned
    obtain ⟨-, inner, apart⟩ := List.nodup_append.mp turned
    refine ⟨fun member => apart b member b (by simp) rfl, ?_⟩
    exact (List.nodup_cons.mp inner).1

/-- Unlink `x`: its two neighbours are linked to each other, nothing else changes. -/
theorem remove {x a b : α} (ring : Ring f null s (xs ++ x :: ys))
    (front_eq : a = xs.getLastD s) (back_eq : b = ys.headD s)
    (next_left : a ≠ null → f'.next a = b) (prev_right : b ≠ null → f'.prev b = a)
    (next_frame : ∀ y ∈ s :: (xs ++ ys), y ≠ a → f'.next y = f.next y)
    (prev_frame : ∀ y ∈ s :: (xs ++ ys), y ≠ b → f'.prev y = f.prev y) :
    Ring f' null s (xs ++ ys) := by
  obtain ⟨before, left⟩ := front s xs
  obtain ⟨behind, right⟩ := back s ys
  rw [← front_eq] at left
  rw [← back_eq] at right
  have shape : s :: (xs ++ x :: ys) ++ [s] = before ++ a :: x :: b :: behind := by
    rw [← List.cons_append, List.append_assoc, left, List.cons_append, right]
    simp
  have shape' : s :: (xs ++ ys) ++ [s] = before ++ a :: b :: behind := by
    rw [← List.cons_append, List.append_assoc, left, right]
    simp
  obtain ⟨chain, nodup⟩ := ring
  have nodup' : (s :: (xs ++ ys)).Nodup :=
    nodup.sublist (((List.Sublist.refl xs).append (List.sublist_cons_self x ys)).cons_cons s)
  have apart := cut nodup' left right
  refine ⟨?_, nodup'⟩
  rw [shape, List.isChain_append_cons_cons, List.isChain_cons_cons] at chain
  rw [shape', List.isChain_append_cons_cons]
  obtain ⟨head, -, -, tail⟩ := chain
  refine ⟨?_, ⟨next_left, prev_right⟩, ?_⟩
  · exact link_congr_left head left apart.1.1 apart.2.1
      (fun y member => next_frame y (by simp at member ⊢; tauto))
      (fun y member => prev_frame y (by simp at member ⊢; tauto))
  · exact link_congr_right tail right apart.1.2 apart.2.2
      (fun y member => next_frame y (by simp at member ⊢; tauto))
      (fun y member => prev_frame y (by simp at member ⊢; tauto))

/-- Link a new `x` in between two neighbours. -/
theorem insert {x a b : α} (ring : Ring f null s (xs ++ ys)) (new : x ∉ s :: (xs ++ ys))
    (front_eq : a = xs.getLastD s) (back_eq : b = ys.headD s)
    (next_new : f'.next x = b) (prev_new : f'.prev x = a)
    (next_left : a ≠ null → f'.next a = x) (prev_right : b ≠ null → f'.prev b = x)
    (next_frame : ∀ y ∈ s :: (xs ++ ys), y ≠ a → f'.next y = f.next y)
    (prev_frame : ∀ y ∈ s :: (xs ++ ys), y ≠ b → f'.prev y = f.prev y) :
    Ring f' null s (xs ++ x :: ys) := by
  obtain ⟨before, left⟩ := front s xs
  obtain ⟨behind, right⟩ := back s ys
  rw [← front_eq] at left
  rw [← back_eq] at right
  have shape : s :: (xs ++ x :: ys) ++ [s] = before ++ a :: x :: b :: behind := by
    rw [← List.cons_append, List.append_assoc, left, List.cons_append, right]
    simp
  have shape' : s :: (xs ++ ys) ++ [s] = before ++ a :: b :: behind := by
    rw [← List.cons_append, List.append_assoc, left, right]
    simp
  obtain ⟨chain, nodup⟩ := ring
  have apart := cut nodup left right
  constructor
  · rw [shape', List.isChain_append_cons_cons] at chain
    rw [shape, List.isChain_append_cons_cons, List.isChain_cons_cons]
    obtain ⟨head, -, tail⟩ := chain
    refine ⟨?_, ⟨next_left, fun _ => prev_new⟩, ⟨fun _ => next_new, prev_right⟩, ?_⟩
    · exact link_congr_left head left apart.1.1 apart.2.1
        (fun y member => next_frame y (by simp at member ⊢; tauto))
        (fun y member => prev_frame y (by simp at member ⊢; tauto))
    · exact link_congr_right tail right apart.1.2 apart.2.2
        (fun y member => next_frame y (by simp at member ⊢; tauto))
        (fun y member => prev_frame y (by simp at member ⊢; tauto))
  · have moved : (s :: (xs ++ x :: ys)).Perm (x :: s :: (xs ++ ys)) :=
      (List.perm_middle.cons s).trans (.swap x s _)
    exact moved.nodup_iff.mpr (List.nodup_cons.mpr ⟨new, nodup⟩)

/-- Following `next` from a node of a ring: to the node behind it, or back to the start. -/
theorem next_eq {x : α} {before rest : List α} (ring : Ring f null s xs)
    (split : s :: xs = before ++ x :: rest) (real : x ≠ null) : f.next x = rest.headD s := by
  cases before with
  | nil =>
    cases split
    exact ring.ends.1.1 real
  | cons first before =>
    cases split
    exact ring.neighbours.2.1 real

/-- Following `next` from a node of a list that ends in null. -/
theorem next_mem {x : α} (ring : Ring f null null xs) (member : x ∈ xs) :
    f.next x ∈ null :: xs := by
  obtain ⟨before, after, rfl⟩ := List.append_of_mem member
  have real : x ≠ null := by
    rintro rfl
    exact (List.nodup_cons.mp ring.nodup).1 member
  rw [ring.neighbours.2.1 real]
  cases after with
  | nil => exact List.mem_cons_self
  | cons y after => simp

/-- What holds of the first node and is passed on along `next` holds of all. -/
theorem along (ring : Ring f null null xs) {P : α → Prop} (first : P (xs.headD null))
    (pass : ∀ x ∈ xs, P x → P (f.next x)) : ∀ x ∈ xs, P x := by
  have all : ∀ rest before, xs = before ++ rest → P (rest.headD null) → ∀ x ∈ rest, P x := by
    intro rest
    induction rest with
    | nil => exact fun _ _ _ x member => by simp at member
    | cons y rest ih =>
      intro before split here x member
      have inside : y ∈ xs := by simp [split]
      rcases List.mem_cons.mp member with rfl | later
      · exact here
      · have real : y ≠ null := by
          rintro rfl
          exact (List.nodup_cons.mp ring.nodup).1 inside
        have next := (split ▸ ring).neighbours.2.1 real
        exact ih (before ++ [y]) (by simp [split]) (next ▸ pass y inside here) x later
  exact all xs [] rfl first

end Ring

section Walk

variable [DecidableEq α]

/-- The nodes that a loop over `next` meets before the null node, in so many rounds. -/
def walk (next : α → α) (null : α) : Nat → α → List α
  | 0, _ => []
  | rounds + 1, x => if x = null then [] else x :: walk next null rounds (next x)

theorem Ring.walk_eq {f : Fields α} {null : α} {xs : List α} (ring : Ring f null null xs)
    (rounds : Nat) (enough : xs.length < rounds) : walk f.next null rounds (xs.headD null) = xs := by
  have all : ∀ rest before rounds, xs = before ++ rest → rest.length < rounds →
      walk f.next null rounds (rest.headD null) = rest := by
    intro rest
    induction rest with
    | nil =>
      intro before rounds _ enough
      cases rounds with
      | zero => simp at enough
      | succ rounds => simp [walk]
    | cons y rest ih =>
      intro before rounds split enough
      have real : y ≠ null := by
        rintro rfl
        exact (List.nodup_cons.mp ring.nodup).1 (by simp [split])
      have next := (split ▸ ring).neighbours.2.1 real
      cases rounds with
      | zero => simp at enough
      | succ rounds =>
        rw [walk, List.headD_cons, if_neg real, next,
          ih (before ++ [y]) rounds (by simp [split]) (by simpa using enough)]
  exact all xs [] rounds rfl enough

end Walk

end SysMonitor.Library.LinkedRing
