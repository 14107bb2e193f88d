import Mathlib.Data.List.Nodup
import Mathlib.Logic.Function.Basic

/-!
# A heap of typed blocks and their owners

A block is live while the heap has contents for its address. Addresses are handed out in
ascending order and only once; address 0 is never handed out. An operation that touches
the blocks of one owner and new ones leaves the blocks of all others as they are.
-/

namespace SysMonitor.Library

universe u v

structure BlockHeap (β : Type u) where
  block : Nat → Option β
  fresh : Nat
  nullDead : block 0 = none
  freshDead : ∀ p, fresh ≤ p → block p = none
  freshReal : 0 < fresh

namespace BlockHeap

variable {β : Type u} {h h₁ h₂ : BlockHeap β} {p q : Nat} {b : β}

/-- Nothing was allocated yet. -/
def unused : BlockHeap β where
  block _ := none
  fresh := 1
  nullDead := rfl
  freshDead _ _ := rfl
  freshReal := Nat.zero_lt_one

theorem lt_fresh (live : h.block p ≠ none) : p < h.fresh := by
  by_contra above
  exact live (h.freshDead p (Nat.le_of_not_lt above))

theorem ne_null (live : h.block p ≠ none) : p ≠ 0 := by
  rintro rfl
  exact live h.nullDead

/-- The next block, live from now on. -/
def allocate (h : BlockHeap β) (b : β) : BlockHeap β where
  block := Function.update h.block h.fresh (some b)
  fresh := h.fresh + 1
  nullDead := by rw [Function.update_of_ne (Nat.ne_of_lt h.freshReal), h.nullDead]
  freshDead p above := by
    have past : h.fresh < p := above
    rw [Function.update_of_ne (Nat.ne_of_gt past), h.freshDead p (Nat.le_of_lt past)]
  freshReal := Nat.succ_pos _

/-- The block is not live any more. -/
def release (h : BlockHeap β) (p : Nat) : BlockHeap β where
  block := Function.update h.block p none
  fresh := h.fresh
  nullDead := by
    by_cases same : 0 = p
    · rw [← same, Function.update_self]
    · rw [Function.update_of_ne same, h.nullDead]
  freshDead q above := by
    by_cases same : q = p
    · rw [same, Function.update_self]
    · rw [Function.update_of_ne same, h.freshDead q above]
  freshReal := h.freshReal

/-- Replace the contents of a live block. -/
def store (h : BlockHeap β) (p : Nat) (b : β) : BlockHeap β where
  block := Function.update h.block p ((h.block p).map fun _ => b)
  fresh := h.fresh
  nullDead := by
    by_cases same : 0 = p
    · rw [← same, Function.update_self, h.nullDead]
      rfl
    · rw [Function.update_of_ne same, h.nullDead]
  freshDead q above := by
    by_cases same : q = p
    · rw [same, Function.update_self, h.freshDead p (same ▸ above)]
      rfl
    · rw [Function.update_of_ne same, h.freshDead q above]
  freshReal := h.freshReal

@[simp] theorem allocate_fresh (h : BlockHeap β) (b : β) : (h.allocate b).fresh = h.fresh + 1 := rfl
@[simp] theorem release_fresh (h : BlockHeap β) (p : Nat) : (h.release p).fresh = h.fresh := rfl
@[simp] theorem store_fresh (h : BlockHeap β) (p : Nat) (b : β) :
    (h.store p b).fresh = h.fresh := rfl

theorem allocate_self (h : BlockHeap β) (b : β) : (h.allocate b).block h.fresh = some b :=
  Function.update_self ..

theorem allocate_live (live : h.block q ≠ none) (b : β) : (h.allocate b).block q = h.block q :=
  Function.update_of_ne (Nat.ne_of_lt (lt_fresh live)) ..

theorem release_self (h : BlockHeap β) (p : Nat) : (h.release p).block p = none :=
  Function.update_self ..

theorem release_other (h : BlockHeap β) (other : q ≠ p) : (h.release p).block q = h.block q :=
  Function.update_of_ne other ..

theorem store_self (live : h.block p ≠ none) (b : β) : (h.store p b).block p = some b := by
  obtain ⟨before, found⟩ := Option.ne_none_iff_exists'.mp live
  have stored : (h.store p b).block p = (h.block p).map fun _ => b := Function.update_self ..
  rw [stored, found]
  rfl

theorem store_other (h : BlockHeap β) (other : q ≠ p) (b : β) :
    (h.store p b).block q = h.block q :=
  Function.update_of_ne other ..

/-- These blocks are live and different. -/
structure Owns (h : BlockHeap β) (mine : List Nat) : Prop where
  live : ∀ p ∈ mine, h.block p ≠ none
  nodup : mine.Nodup

theorem Owns.perm {mine mine' : List Nat} (owns : Owns h mine) (same : mine.Perm mine') :
    Owns h mine' :=
  ⟨fun p inside => owns.live p (same.mem_iff.mpr inside), same.nodup_iff.mp owns.nodup⟩

/-- From `h` to `h'` an owner of the blocks `mine` became one of `mine'`; all the other
blocks stayed as they were. -/
structure Changes (h h' : BlockHeap β) (mine mine' : List Nat) : Prop where
  fresh : h.fresh ≤ h'.fresh
  others : ∀ p, p < h.fresh → p ∉ mine → h'.block p = h.block p
  mem : ∀ p ∈ mine', p ∈ mine ∨ h.fresh ≤ p
  tight : ∀ p, p ∈ mine ∨ h.fresh ≤ p → h'.block p ≠ none → p ∈ mine'
  owns : Owns h' mine'

section Rules

variable {mine mine₁ mine₂ : List Nat}

theorem Changes.refl (owns : Owns h mine) : Changes h h mine mine where
  fresh := Nat.le_refl _
  others _ _ _ := rfl
  mem _ inside := .inl inside
  tight p place live := by
    rcases place with inside | above
    · exact inside
    · exact absurd (h.freshDead p above) live
  owns := owns

theorem Changes.trans (first : Changes h h₁ mine mine₁) (second : Changes h₁ h₂ mine₁ mine₂) :
    Changes h h₂ mine mine₂ where
  fresh := Nat.le_trans first.fresh second.fresh
  others p old outside := by
    have still : p ∉ mine₁ := by
      intro inside
      rcases first.mem p inside with before | above
      · exact outside before
      · exact Nat.not_lt_of_le above old
    rw [second.others p (Nat.lt_of_lt_of_le old first.fresh) still, first.others p old outside]
  mem p inside := by
    rcases second.mem p inside with before | above
    · exact first.mem p before
    · exact .inr (Nat.le_trans first.fresh above)
  tight p place live := by
    by_cases inside : p ∈ mine₁
    · exact second.tight p (.inl inside) live
    · by_cases above : h₁.fresh ≤ p
      · exact second.tight p (.inr above) live
      · rw [second.others p (Nat.lt_of_not_le above) inside] at live
        exact absurd (first.tight p place live) inside
  owns := second.owns

theorem Changes.perm (changes : Changes h h₁ mine mine₁) (same : mine₁.Perm mine₂) :
    Changes h h₁ mine mine₂ where
  fresh := changes.fresh
  others := changes.others
  mem p inside := changes.mem p (same.mem_iff.mpr inside)
  tight p place live := same.mem_iff.mp (changes.tight p place live)
  owns := changes.owns.perm same

theorem Changes.allocate (owns : Owns h mine) (b : β) :
    Changes h (h.allocate b) mine (h.fresh :: mine) where
  fresh := Nat.le_succ _
  others p old _ := Function.update_of_ne (Nat.ne_of_lt old) ..
  mem p inside := by
    rcases List.mem_cons.mp inside with rfl | before
    · exact .inr (Nat.le_refl _)
    · exact .inl before
  tight p place live := by
    rcases place with inside | above
    · exact List.mem_cons_of_mem _ inside
    · rcases Nat.eq_or_lt_of_le above with rfl | past
      · exact List.mem_cons_self
      · exact absurd ((h.allocate b).freshDead p past) live
  owns := by
    constructor
    · intro p inside
      rcases List.mem_cons.mp inside with rfl | before
      · rw [allocate_self]
        simp
      · rw [allocate_live (owns.live p before)]
        exact owns.live p before
    · refine List.nodup_cons.mpr ⟨fun inside => ?_, owns.nodup⟩
      exact Nat.lt_irrefl _ (lt_fresh (owns.live _ inside))

theorem Changes.release (owns : Owns h mine) (inside : p ∈ mine) :
    Changes h (h.release p) mine (mine.erase p) where
  fresh := Nat.le_refl _
  others q _ outside := release_other h fun same : q = p => outside (same ▸ inside)
  mem q left := .inl (List.mem_of_mem_erase left)
  tight q place live := by
    have other : q ≠ p := by
      rintro rfl
      exact live (release_self h q)
    rcases place with mine | above
    · exact (List.mem_erase_of_ne other).mpr mine
    · exact absurd ((h.release p).freshDead q above) live
  owns := by
    constructor
    · intro q left
      obtain ⟨other, before⟩ := (owns.nodup.mem_erase_iff).mp left
      rw [release_other h other]
      exact owns.live q before
    · exact owns.nodup.erase p

theorem Changes.store (owns : Owns h mine) (inside : p ∈ mine) (b : β) :
    Changes h (h.store p b) mine mine where
  fresh := Nat.le_refl _
  others q _ outside := store_other h (fun same : q = p => outside (same ▸ inside)) b
  mem q before := .inl before
  tight q place live := by
    rcases place with mine | above
    · exact mine
    · exact absurd ((h.store p b).freshDead q above) live
  owns := by
    refine ⟨fun q before => ?_, owns.nodup⟩
    by_cases same : q = p
    · rw [same, store_self (owns.live p inside)]
      simp
    · rw [store_other h same]
      exact owns.live q before

/-- One live block has other contents, and nothing else is different. -/
structure Rewrites (h h' : BlockHeap β) (p : Nat) (contents : β) : Prop where
  here : h'.block p = some contents
  others : ∀ q, q ≠ p → h'.block q = h.block q
  fresh : h'.fresh = h.fresh

theorem Rewrites.store (live : h.block p ≠ none) (b : β) : Rewrites h (h.store p b) p b :=
  ⟨store_self live b, fun _ other => store_other h other b, rfl⟩

theorem Rewrites.trans {b' : β} (first : Rewrites h h₁ p b) (second : Rewrites h₁ h₂ p b') :
    Rewrites h h₂ p b' where
  here := second.here
  others q other := (second.others q other).trans (first.others q other)
  fresh := second.fresh.trans first.fresh

theorem Rewrites.changes (rewrites : Rewrites h h₁ p b) (owns : Owns h mine) (inside : p ∈ mine) :
    Changes h h₁ mine mine where
  fresh := Nat.le_of_eq rewrites.fresh.symm
  others q _ outside := rewrites.others q fun same : q = p => outside (same ▸ inside)
  mem q before := .inl before
  tight q place live := by
    rcases place with mine | above
    · exact mine
    · rw [← rewrites.fresh] at above
      exact absurd (h₁.freshDead q above) live
  owns := by
    refine ⟨fun q before => ?_, owns.nodup⟩
    by_cases same : q = p
    · rw [same, rewrites.here]
      exact Option.some_ne_none b
    · rw [rewrites.others q same]
      exact owns.live q before

/-- An owner may have blocks that the operation does not touch. -/
theorem Changes.frame {rest : List Nat} (changes : Changes h h₁ mine mine₁)
    (owns : Owns h (mine ++ rest)) : Changes h h₁ (mine ++ rest) (mine₁ ++ rest) := by
  obtain ⟨-, -, apart⟩ := List.nodup_append.mp owns.nodup
  have untouched : ∀ p ∈ rest, h₁.block p = h.block p := by
    intro p inside
    refine changes.others p (lt_fresh (owns.live p (List.mem_append_right _ inside))) ?_
    intro touched
    exact apart p touched p inside rfl
  refine ⟨changes.fresh, ?_, ?_, ?_, ?_, ?_⟩
  · intro p old outside
    exact changes.others p old fun inside => outside (List.mem_append_left _ inside)
  · intro p inside
    rcases List.mem_append.mp inside with new | kept
    · rcases changes.mem p new with before | above
      · exact .inl (List.mem_append_left _ before)
      · exact .inr above
    · exact .inl (List.mem_append_right _ kept)
  · intro p place live
    rw [List.mem_append] at place ⊢
    rcases place with (before | kept) | above
    · exact .inl (changes.tight p (.inl before) live)
    · exact .inr kept
    · exact .inl (changes.tight p (.inr above) live)
  · intro p inside
    rcases List.mem_append.mp inside with new | kept
    · exact changes.owns.live p new
    · rw [untouched p kept]
      exact owns.live p (List.mem_append_right _ kept)
  · refine List.nodup_append.mpr ⟨changes.owns.nodup, (List.nodup_append.mp owns.nodup).2.1, ?_⟩
    rintro p new q kept rfl
    rcases changes.mem p new with before | above
    · exact apart p before p kept rfl
    · exact Nat.not_lt_of_le above (lt_fresh (owns.live p (List.mem_append_right _ kept)))

/-- An owner has taken some more blocks, and has not touched its own. -/
structure Borrows (h h' : BlockHeap β) (mine extra : List Nat) : Prop where
  changes : Changes h h' mine (extra ++ mine)
  kept : ∀ p ∈ mine, h'.block p = h.block p

section Borrowing

variable {extra : List Nat}

theorem Borrows.refl (owns : Owns h mine) : Borrows h h mine [] :=
  ⟨Changes.refl owns, fun _ _ => rfl⟩

theorem Borrows.allocate (borrows : Borrows h h₁ mine extra) (b : β) :
    Borrows h (h₁.allocate b) mine (h₁.fresh :: extra) where
  changes := borrows.changes.trans (Changes.allocate borrows.changes.owns b)
  kept p inside := by
    have live := borrows.changes.owns.live p (List.mem_append_right _ inside)
    rw [allocate_live live, borrows.kept p inside]

theorem Borrows.rewrite (borrows : Borrows h h₁ mine extra) (inside : p ∈ extra)
    (rewrites : Rewrites h₁ h₂ p b) : Borrows h h₂ mine extra where
  changes :=
    borrows.changes.trans (rewrites.changes borrows.changes.owns (List.mem_append_left _ inside))
  kept q own := by
    have apart := (List.nodup_append.mp borrows.changes.owns.nodup).2.2 p inside q own
    rw [rewrites.others q (Ne.symm apart), borrows.kept q own]

theorem Borrows.release (borrows : Borrows h h₁ mine (p :: extra)) :
    Borrows h (h₁.release p) mine extra where
  changes := by
    have gone := Changes.release borrows.changes.owns List.mem_cons_self
    rw [List.cons_append, List.erase_cons_head] at gone
    exact borrows.changes.trans gone
  kept q own := by
    have apart := (List.nodup_cons.mp borrows.changes.owns.nodup).1
    have other : q ≠ p := fun same => apart (same ▸ List.mem_append_right _ own)
    rw [release_other h₁ other, borrows.kept q own]

end Borrowing

end Rules

section Partition

variable {ι : Type v} {h h' : BlockHeap β} {foot : ι → List Nat} {lost : List Nat}

/-- Every owner has blocks of its own, and every live block has an owner or is lost. -/
structure Partitioned (h : BlockHeap β) (foot : ι → List Nat) (lost : List Nat) : Prop where
  owns : ∀ i, Owns h (foot i)
  apart : ∀ i j, i ≠ j → ∀ p ∈ foot i, p ∉ foot j
  covers : ∀ p, h.block p ≠ none → (∃ i, p ∈ foot i) ∨ p ∈ lost

/-- What one owner does leaves the blocks of the others alone. -/
theorem Partitioned.untouched {i j : ι} {mine' : List Nat} (parts : Partitioned h foot lost)
    (changes : Changes h h' (foot i) mine') (other : j ≠ i) (inside : p ∈ foot j) :
    h'.block p = h.block p :=
  changes.others p (lt_fresh ((parts.owns j).live p inside)) (parts.apart j i other p inside)

/-- One owner changed its blocks, and lost some. -/
theorem Partitioned.change {i : ι} {mine' gone : List Nat} (parts : Partitioned h foot lost)
    (changes : Changes h h' (foot i) (mine' ++ gone)) {foot' : ι → List Nat}
    (here : foot' i = mine') (elsewhere : ∀ j, j ≠ i → foot' j = foot j) :
    Partitioned h' foot' (lost ++ gone) := by
  have old : ∀ j, j ≠ i → ∀ p ∈ foot j, p ∉ mine' := by
    intro j other p inside new
    rcases changes.mem p (List.mem_append_left _ new) with before | above
    · exact parts.apart j i other p inside before
    · exact Nat.not_lt_of_le above (lt_fresh ((parts.owns j).live p inside))
  refine ⟨fun j => ?_, fun j k apart p at_j at_k => ?_, fun p live => ?_⟩
  · by_cases same : j = i
    · rw [same, here]
      exact ⟨fun p inside => changes.owns.live p (List.mem_append_left _ inside),
        (List.nodup_append.mp changes.owns.nodup).1⟩
    · rw [elsewhere j same]
      refine ⟨fun p inside => ?_, (parts.owns j).nodup⟩
      rw [parts.untouched changes same inside]
      exact (parts.owns j).live p inside
  · by_cases same_j : j = i <;> by_cases same_k : k = i
    · exact apart (same_j.trans same_k.symm)
    · rw [same_j, here] at at_j
      rw [elsewhere k same_k] at at_k
      exact old k same_k p at_k at_j
    · rw [same_k, here] at at_k
      rw [elsewhere j same_j] at at_j
      exact old j same_j p at_j at_k
    · rw [elsewhere j same_j] at at_j
      rw [elsewhere k same_k] at at_k
      exact parts.apart j k apart p at_j at_k
  · by_cases touched : p ∈ foot i ∨ h.fresh ≤ p
    · rcases List.mem_append.mp (changes.tight p touched live) with mine | gone
      · exact .inl ⟨i, here ▸ mine⟩
      · exact .inr (List.mem_append_right _ gone)
    · rw [not_or, Nat.not_le] at touched
      rw [changes.others p touched.2 touched.1] at live
      rcases parts.covers p live with ⟨j, inside⟩ | gone
      · have other : j ≠ i := fun same => touched.1 (same ▸ inside)
        exact .inl ⟨j, by rw [elsewhere j other]; exact inside⟩
      · exact .inr (List.mem_append_left _ gone)

end Partition

end BlockHeap

end SysMonitor.Library
