import SysMonitor.Library.LinkedRing
import SysMonitor.Source.HotCacheSearch

/-!
# The three structures of the fd cache

`Represents` says which records the full list, the sorted array and the circular list
hold. The lists are rings of `Library.LinkedRing`: the full list one through NULL, the
circular list one without. The other definitions say what a part of an operation may
change, so that each part is followed once and the rest of the invariant is framed.
-/

namespace SysMonitor.Source.FdCache
open SysMonitor.Library.LinkedRing

/-- `next` and `prev` of every record. -/
def linkFields (h : Heap) : Fields Ptr where
  next p := (h.fileFdRecord p).next
  prev p := (h.fileFdRecord p).prev

/-- `time_next` and `time_prev` of every record. -/
def timeFields (h : Heap) : Fields Ptr where
  next p := (h.fileFdRecord p).timeNext
  prev p := (h.fileFdRecord p).timePrev

/-- The slots of the hot cache from `i` on hold these records, which know their slot. -/
def Slots (s : FdState) (i : Int) : List Ptr → Prop
  | [] => True
  | p :: ps =>
    (s.area.hotFdCache i = p ∧ (s.heap.fileFdRecord p).hotIndex = i) ∧ Slots s (i + 1) ps

/-- The circular list from `head`, youngest first; NULL when it is empty. -/
def AgeRing (h : Heap) (head : Ptr) : List Ptr → Prop
  | [] => head = NULL
  | p :: ps => head = p ∧ Ring (timeFields h) NULL p ps

/-- What an fd cache holds: the full list newest first, the array in its order, the
circular list youngest first. -/
structure Contents where
  link : List Ptr
  hot : List Ptr
  age : List Ptr

/-- `fd` of a record. -/
abbrev fdOf (h : Heap) (p : Ptr) : Word := (h.fileFdRecord p).fd

/-- Every one of these is a live record. -/
def Live (h : Heap) (ps : List Ptr) : Prop := ∀ p ∈ ps, h.kind p = some .fileFdRecord

/-- The full list, which runs from `file_fd_head` to NULL. -/
structure LinkRep (s : FdState) (link : List Ptr) : Prop where
  live : Live s.heap link
  names : ∀ p ∈ link, s.heap.kind (s.heap.fileFdRecord p).filename = some .chars
  head : s.area.fileFdHead = link.headD NULL
  ring : Ring (linkFields s.heap) NULL NULL link
  count : s.area.fdCount = link.length

/-- The hot cache: the sorted array and the circular list hold the same records. -/
structure HotRep (s : FdState) (hot age : List Ptr) : Prop where
  live : Live s.heap hot
  count : s.area.hotCount = hot.length
  room : (hot.length : Int) ≤ HOT_FD_CACHE_SIZE
  slots : Slots s 0 hot
  sorted : hot.Pairwise fun p q => fdOf s.heap p ≤ fdOf s.heap q
  ring : AgeRing s.heap s.area.hotFdHead age
  same : age.Perm hot

/-- The representation invariant of the fd cache. -/
structure Represents (s : FdState) (c : Contents) : Prop where
  link : LinkRep s c.link
  hot : HotRep s c.hot c.age
  within : c.hot ⊆ c.link

/-- A field that a store keeps, it keeps in every record. -/
theorem field_modify {β : Type} (h : Heap) (p q : Ptr) {change : FileFdRecord → FileFdRecord}
    (field : FileFdRecord → β) (keeps : ∀ r, field (change r) = field r) :
    field ((h.modify p change).fileFdRecord q) = field (h.fileFdRecord q) := by
  rw [Heap.modify_apply]
  by_cases here : q = p
  · rw [if_pos here, keeps, here]
  · rw [if_neg here]

section Stores

variable (h : Heap) (p q : Ptr) (change : FileFdRecord → FileFdRecord)

theorem next_modify : ((h.modify p change).fileFdRecord q).next
    = if q = p then (change (h.fileFdRecord p)).next else (h.fileFdRecord q).next := by
  rw [Heap.modify_apply, apply_ite FileFdRecord.next]

theorem prev_modify : ((h.modify p change).fileFdRecord q).prev
    = if q = p then (change (h.fileFdRecord p)).prev else (h.fileFdRecord q).prev := by
  rw [Heap.modify_apply, apply_ite FileFdRecord.prev]

theorem timeNext_modify : ((h.modify p change).fileFdRecord q).timeNext
    = if q = p then (change (h.fileFdRecord p)).timeNext else (h.fileFdRecord q).timeNext := by
  rw [Heap.modify_apply, apply_ite FileFdRecord.timeNext]

theorem timePrev_modify : ((h.modify p change).fileFdRecord q).timePrev
    = if q = p then (change (h.fileFdRecord p)).timePrev else (h.fileFdRecord q).timePrev := by
  rw [Heap.modify_apply, apply_ite FileFdRecord.timePrev]

end Stores

theorem linkFields_modify (h : Heap) (p : Ptr) {change : FileFdRecord → FileFdRecord}
    (next : ∀ r, (change r).next = r.next) (prev : ∀ r, (change r).prev = r.prev) :
    linkFields (h.modify p change) = linkFields h := by
  unfold linkFields
  congr 1
  · funext q; exact field_modify h p q FileFdRecord.next next
  · funext q; exact field_modify h p q FileFdRecord.prev prev

theorem timeFields_modify (h : Heap) (p : Ptr) {change : FileFdRecord → FileFdRecord}
    (next : ∀ r, (change r).timeNext = r.timeNext)
    (prev : ∀ r, (change r).timePrev = r.timePrev) :
    timeFields (h.modify p change) = timeFields h := by
  unfold timeFields
  congr 1
  · funext q; exact field_modify h p q FileFdRecord.timeNext next
  · funext q; exact field_modify h p q FileFdRecord.timePrev prev

/-- Only records among `ps` changed, and neither a descriptor nor a path did. -/
structure Edits (ps : List Ptr) (h h' : Heap) : Prop where
  kind : h'.kind = h.kind
  chars : h'.chars = h.chars
  fresh : h'.fresh = h.fresh
  elsewhere : ∀ p ∉ ps, h'.fileFdRecord p = h.fileFdRecord p
  fd : ∀ p, (h'.fileFdRecord p).fd = (h.fileFdRecord p).fd
  filename : ∀ p, (h'.fileFdRecord p).filename = (h.fileFdRecord p).filename

namespace Edits

variable {h h₁ h₂ : Heap} {ps qs : List Ptr}

theorem refl (ps : List Ptr) (h : Heap) : Edits ps h h := by
  constructor <;> intros <;> rfl

theorem trans (first : Edits ps h h₁) (second : Edits ps h₁ h₂) : Edits ps h h₂ where
  kind := second.kind.trans first.kind
  chars := second.chars.trans first.chars
  fresh := second.fresh.trans first.fresh
  elsewhere p out := (second.elsewhere p out).trans (first.elsewhere p out)
  fd p := (second.fd p).trans (first.fd p)
  filename p := (second.filename p).trans (first.filename p)

theorem mono (edits : Edits ps h h₁) (within : ps ⊆ qs) : Edits qs h h₁ where
  kind := edits.kind
  chars := edits.chars
  fresh := edits.fresh
  elsewhere p out := edits.elsewhere p fun member => out (within member)
  fd := edits.fd
  filename := edits.filename

/-- One store that keeps descriptor and path. -/
theorem modify (h : Heap) (p : Ptr) (change : FileFdRecord → FileFdRecord)
    (fd : ∀ r, (change r).fd = r.fd) (filename : ∀ r, (change r).filename = r.filename) :
    Edits [p] h (h.modify p change) where
  kind := rfl
  chars := rfl
  fresh := rfl
  elsewhere q out := by
    rw [Heap.modify_apply, if_neg (by simpa using out)]
  fd q := field_modify h p q FileFdRecord.fd fd
  filename q := field_modify h p q FileFdRecord.filename filename

end Edits

section Slots

variable {s s' : FdState}

theorem slots_append (s : FdState) (i : Int) (ps qs : List Ptr) :
    Slots s i (ps ++ qs) ↔ Slots s i ps ∧ Slots s (i + ps.length) qs := by
  induction ps generalizing i with
  | nil => simp [Slots]
  | cons p ps ih =>
    have shift : i + 1 + (ps.length : Int) = i + (p :: ps).length := by
      rw [List.length_cons]; omega
    rw [List.cons_append, Slots, Slots, ih, shift]
    exact and_assoc.symm

theorem slots_congr {i : Int} {ps : List Ptr} (slots : Slots s i ps)
    (same_slot : ∀ j, i ≤ j → j < i + ps.length → s'.area.hotFdCache j = s.area.hotFdCache j)
    (same_index : ∀ p ∈ ps, (s'.heap.fileFdRecord p).hotIndex = (s.heap.fileFdRecord p).hotIndex) :
    Slots s' i ps := by
  induction ps generalizing i with
  | nil => trivial
  | cons p ps ih =>
    obtain ⟨⟨slot, index⟩, rest⟩ := slots
    rw [List.length_cons] at same_slot
    refine ⟨⟨?_, ?_⟩, ih rest ?_ ?_⟩
    · rw [same_slot i (by omega) (by omega), slot]
    · rw [same_index p List.mem_cons_self, index]
    · intro j above below
      exact same_slot j (by omega) (by omega)
    · intro q member
      exact same_index q (List.mem_cons_of_mem p member)

/-- The record in a slot. -/
theorem slots_at {i : Int} {ps : List Ptr} (slots : Slots s i ps) (j : Nat)
    (inside : j < ps.length) :
    s.area.hotFdCache (i + j) = ps[j] ∧ (s.heap.fileFdRecord ps[j]).hotIndex = i + j := by
  induction ps generalizing i j with
  | nil => simp at inside
  | cons p ps ih =>
    obtain ⟨here, rest⟩ := slots
    cases j with
    | zero => simpa using here
    | succ j =>
      have shift : i + ((j + 1 : Nat) : Int) = i + 1 + (j : Int) := by omega
      rw [shift]
      exact ih rest j (by simpa using inside)

end Slots

/-- Array slots from `lo` up to `hi` and the indices of `ps` may have changed, the rest
of the area and both lists have not. -/
structure Shifted (lo hi : Int) (ps : List Ptr) (s s' : FdState) : Prop where
  edits : Edits ps s.heap s'.heap
  links : linkFields s'.heap = linkFields s.heap
  times : timeFields s'.heap = timeFields s.heap
  area : s'.area = { s.area with hotFdCache := s'.area.hotFdCache }
  slots : ∀ j, j < lo ∨ hi ≤ j → s'.area.hotFdCache j = s.area.hotFdCache j

namespace Shifted

variable {lo hi lo' hi' : Int} {ps qs : List Ptr} {s s₁ s₂ : FdState}

theorem refl (lo hi : Int) (ps : List Ptr) (s : FdState) : Shifted lo hi ps s s :=
  ⟨.refl ps s.heap, rfl, rfl, rfl, fun _ _ => rfl⟩

theorem trans (first : Shifted lo hi ps s s₁) (second : Shifted lo hi ps s₁ s₂) :
    Shifted lo hi ps s s₂ where
  edits := first.edits.trans second.edits
  links := second.links.trans first.links
  times := second.times.trans first.times
  area := by
    rw [second.area, first.area]
  slots j outside := (second.slots j outside).trans (first.slots j outside)

theorem mono (shifted : Shifted lo hi ps s s₁) (below : lo' ≤ lo) (above : hi ≤ hi')
    (within : ps ⊆ qs) : Shifted lo' hi' qs s s₁ where
  edits := shifted.edits.mono within
  links := shifted.links
  times := shifted.times
  area := shifted.area
  slots j outside := shifted.slots j (by omega)

/-- Slots outside the range still hold what they held. -/
theorem keeps {i : Int} (shifted : Shifted lo hi ps s s₁) (slots : Slots s i qs)
    (outside : i + qs.length ≤ lo ∨ hi ≤ i) (apart : ∀ q ∈ qs, q ∉ ps) : Slots s₁ i qs := by
  refine slots_congr slots ?_ ?_
  · intro j above below
    exact shifted.slots j (by omega)
  · intro q member
    rw [shifted.edits.elsewhere q (apart q member)]

/-- The same for a single record that moved. -/
theorem keeps_others {i : Int} {p : Ptr} (shifted : Shifted lo hi [p] s s₁) (slots : Slots s i qs)
    (outside : i + qs.length ≤ lo ∨ hi ≤ i) (fresh : p ∉ qs) : Slots s₁ i qs := by
  apply shifted.keeps slots outside
  intro q member here
  rw [List.mem_singleton.mp here] at member
  exact fresh member

end Shifted

end SysMonitor.Source.FdCache
