import SysMonitor.Source.FdOperations
import SysMonitor.Source.Process

/-!
# Who owns which block of the process table

Every process record owns its two strings, the records of its full list and their
paths. `KernelRep` says that these blocks are live and that no block is owned twice;
what an operation on one record does to the heap is framed by `Touches`, so that the
other records keep what they own.
-/

namespace SysMonitor.Source.Process
open SysMonitor.Library.LinkedRing SysMonitor.Source.FdCache

/-- Blocks from before that are not `mine` are live as before and hold what they held. -/
structure Touches (mine : List Ptr) (h h' : Heap) : Prop where
  fresh : h.fresh ≤ h'.fresh
  kind : ∀ b < h.fresh, b ∉ mine → h'.kind b = h.kind b
  record : ∀ x < h.fresh, x ∉ mine → h'.fileFdRecord x = h.fileFdRecord x
  chars : ∀ b < h.fresh, h'.chars b = h.chars b

namespace Touches

variable {mine others : List Ptr} {h h₁ h₂ : Heap}

theorem refl (mine : List Ptr) (h : Heap) : Touches mine h h :=
  ⟨le_rfl, fun _ _ _ => rfl, fun _ _ _ => rfl, fun _ _ => rfl⟩

theorem trans (first : Touches mine h h₁) (second : Touches others h₁ h₂)
    (within : ∀ b ∈ others, b < h.fresh → b ∈ mine) : Touches mine h h₂ where
  fresh := first.fresh.trans second.fresh
  kind b old out := by
    rw [second.kind b (Nat.lt_of_lt_of_le old first.fresh)
      (fun member => out (within b member old)), first.kind b old out]
  record x old out := by
    rw [second.record x (Nat.lt_of_lt_of_le old first.fresh)
      (fun member => out (within x member old)), first.record x old out]
  chars b old := by
    rw [second.chars b (Nat.lt_of_lt_of_le old first.fresh), first.chars b old]

theorem mono (touches : Touches mine h h₁) (within : mine ⊆ others) : Touches others h h₁ where
  fresh := touches.fresh
  kind b old out := touches.kind b old fun member => out (within member)
  record x old out := touches.record x old fun member => out (within member)
  chars := touches.chars

theorem ofPreserves (preserves : Preserves mine h h₁) : Touches mine h h₁ :=
  ⟨preserves.fresh, fun b old _ => preserves.kind b old, preserves.elsewhere, preserves.chars⟩

theorem release (h : Heap) (p : Ptr) : Touches [p] h (h.release p) where
  fresh := le_rfl
  kind b _ out := Function.update_of_ne (by simpa using out) _ _
  record _ _ _ := rfl
  chars _ _ := rfl

theorem allocate (h : Heap) (k : BlockKind) : Touches [] h (h.allocate k) where
  fresh := Nat.le_succ _
  kind _ old _ := Function.update_of_ne (Nat.ne_of_lt old) _ _
  record _ _ _ := rfl
  chars _ _ := rfl

end Touches

/-- Blocks that have become live are among these. -/
def Leaves (ps : List Ptr) (h h' : Heap) : Prop :=
  ∀ b, h.kind b = none → h'.kind b ≠ none → b ∈ ps

namespace Leaves

variable {ps qs : List Ptr} {h h₁ h₂ : Heap}

theorem same (kind : h₁.kind = h.kind) : Leaves [] h h₁ :=
  fun _ dead live => absurd dead (kind ▸ live)

theorem refl (h : Heap) : Leaves [] h h := same rfl

theorem trans (first : Leaves ps h h₁) (second : Leaves qs h₁ h₂) : Leaves (ps ++ qs) h h₂ := by
  intro b dead live
  by_cases between : h₁.kind b = none
  · exact List.mem_append_right _ (second b between live)
  · exact List.mem_append_left _ (first b dead between)

theorem mono (leaves : Leaves ps h h₁) (within : ps ⊆ qs) : Leaves qs h h₁ :=
  fun b dead live => within (leaves b dead live)

/-- A block that was freed again does not count. -/
theorem drop {p : Ptr} (leaves : Leaves (p :: ps) h h₁) (freed : h₁.kind p = none) :
    Leaves ps h h₁ := by
  intro b dead live
  rcases List.mem_cons.mp (leaves b dead live) with rfl | inside
  · exact absurd freed live
  · exact inside

theorem allocate (h : Heap) (k : BlockKind) : Leaves [h.fresh] h (h.allocate k) := by
  intro b dead live
  by_contra out
  exact live ((Function.update_of_ne (by simpa using out) _ _).trans dead)

theorem release (h : Heap) (p : Ptr) : Leaves [] h (h.release p) := by
  intro b dead live
  refine absurd ?_ live
  by_cases here : b = p
  · rw [here]
    exact Function.update_self ..
  · exact (Function.update_of_ne here _ _).trans dead

/-- Freeing blocks makes none live. -/
theorem ofFreed {mine : List Ptr} (touches : Touches mine h h₁) (fresh : h₁.fresh = h.fresh)
    (gone : ∀ b ∈ mine, h₁.kind b = none) : Leaves [] h h₁ := by
  intro b dead live
  refine absurd ?_ live
  by_cases old : b < h.fresh
  · by_cases inside : b ∈ mine
    · exact gone b inside
    · rw [touches.kind b old inside, dead]
  · exact h₁.freshDead b (fresh ▸ Nat.le_of_not_lt old)

end Leaves

/-- The path of every record of a full list, as blocks. -/
def names (h : Heap) (link : List Ptr) : List Ptr :=
  link.map fun x => (h.fileFdRecord x).filename

/-- The strings a record owns itself. -/
def texts (r : ProcessRecord) : List Ptr := [r.filename, r.argv].filter (· ≠ NULL)

/-- All blocks a record owns. -/
def owned (h : Heap) (r : ProcessRecord) (c : Contents) : List Ptr :=
  texts r ++ (c.link ++ names h c.link)

/-- A string pointer that is NULL or points to a live string. -/
def Readable (h : Heap) (p : Ptr) : Prop := p = NULL ∨ h.kind p = some .chars

/-- One process record between two calls. -/
structure RecordRep (h : Heap) (r : ProcessRecord) (c : Contents) : Prop where
  cache : Represents ⟨h, r.area⟩ c
  filename : Readable h r.filename
  argv : Readable h r.argv
  env : r.env = NULL
  nodup : (owned h r c).Nodup

/-- `next` and `prev` of every process record. -/
def processFields (process : Ptr → ProcessRecord) : Fields Ptr where
  next p := (process p).next
  prev p := (process p).prev

/-- The process table between two calls: the records of the outstanding list, each with
its fd cache. -/
structure KernelRep (k : Kernel) (records : List Ptr) (contents : Ptr → Contents) : Prop where
  table : k.heap.kind k.processCache = some .processCache
  live : ∀ p ∈ records, k.heap.kind p = some .processRecord
  header : k.outstandingHeader = records.headD NULL
  ring : Ring (processFields k.process) NULL NULL records
  slots : ∀ i, k.slots i = NULL ∨ k.slots i ∈ records
  each : ∀ p ∈ records, RecordRep k.heap (k.process p) (contents p)
  apart : ∀ p ∈ records, ∀ q ∈ records, ∀ b ∈ owned k.heap (k.process p) (contents p),
    b ∈ owned k.heap (k.process q) (contents q) → p = q

theorem KernelRep.lenient {k : Kernel} {records : List Ptr} {contents : Ptr → Contents}
    (rep : KernelRep k records contents) : KernelRep k.lenient records contents :=
  ⟨rep.table, rep.live, rep.header, rep.ring, rep.slots, rep.each, rep.apart⟩

/-- The table, the records and what these own. -/
def Used (k : Kernel) (records : List Ptr) (contents : Ptr → Contents) (b : Ptr) : Prop :=
  b = k.processCache ∨ b ∈ records ∨ ∃ p ∈ records, b ∈ owned k.heap (k.process p) (contents p)

/-- A live block that the table does not use. -/
def Lost (k : Kernel) (records : List Ptr) (contents : Ptr → Contents) (b : Ptr) : Prop :=
  k.heap.kind b ≠ none ∧ ¬Used k records contents b

section Frames

variable {h h' : Heap} {r : ProcessRecord} {c : Contents} {mine : List Ptr}

theorem mem_texts {b : Ptr} : b ∈ texts r ↔ (b = r.filename ∨ b = r.argv) ∧ b ≠ NULL := by
  simp [texts]

theorem Readable.kind {p : Ptr} (readable : Readable h p) (real : p ≠ NULL) :
    h.kind p = some .chars := readable.resolve_left real

/-- What a record owns is live and none of it is a process record or the table. -/
theorem RecordRep.owned_live (rep : RecordRep h r c) {b : Ptr} (member : b ∈ owned h r c) :
    h.kind b = some .chars ∨ h.kind b = some .fileFdRecord := by
  rcases List.mem_append.mp member with text | member
  · obtain ⟨rfl | rfl, real⟩ := mem_texts.mp text
    · exact .inl (rep.filename.kind real)
    · exact .inl (rep.argv.kind real)
  · rcases List.mem_append.mp member with record | name
    · exact .inr (rep.cache.link.live b record)
    · obtain ⟨x, inside, rfl⟩ := List.mem_map.mp name
      exact .inl (rep.cache.link.names x inside)

theorem RecordRep.owned_old (rep : RecordRep h r c) {b : Ptr} (member : b ∈ owned h r c) :
    b < h.fresh := by
  rcases rep.owned_live member with live | live
  · exact Heap.live_lt_fresh live
  · exact Heap.live_lt_fresh live

/-- The table and the process records are none of the blocks that records own. -/
theorem RecordRep.not_owned (rep : RecordRep h r c) {b : Ptr} {kind : BlockKind}
    (live : h.kind b = some kind) (sort : kind = .processRecord ∨ kind = .processCache) :
    b ∉ owned h r c := by
  intro member
  rcases rep.owned_live member with other | other
  · rw [live] at other
    rcases sort with rfl | rfl <;> simp at other
  · rw [live] at other
    rcases sort with rfl | rfl <;> simp at other

/-- They stay when blocks are touched that a record owns. -/
theorem RecordRep.kept (rep : RecordRep h r c) (touches : Touches (owned h r c) h h') {b : Ptr}
    {kind : BlockKind} (live : h.kind b = some kind)
    (sort : kind = .processRecord ∨ kind = .processCache) : h'.kind b = some kind := by
  rw [touches.kind b (Heap.live_lt_fresh live) (rep.not_owned live sort), live]

theorem link_owned {x : Ptr} (member : x ∈ c.link) : x ∈ owned h r c := by
  simp [owned, member]

theorem name_owned {x : Ptr} (member : x ∈ c.link) :
    (h.fileFdRecord x).filename ∈ owned h r c := by
  refine List.mem_append_right _ (List.mem_append_right _ ?_)
  exact List.mem_map.mpr ⟨x, member, rfl⟩

/-- An fd record that a record owns is one of its full list. -/
theorem RecordRep.mem_link (rep : RecordRep h r c) {x : Ptr} (member : x ∈ owned h r c)
    (live : h.kind x = some .fileFdRecord) : x ∈ c.link := by
  have no_text : h.kind x ≠ some .chars := by
    rw [live]
    simp
  rcases List.mem_append.mp member with text | member
  · obtain ⟨rfl | rfl, real⟩ := mem_texts.mp text
    · exact absurd (rep.filename.kind real) no_text
    · exact absurd (rep.argv.kind real) no_text
  · rcases List.mem_append.mp member with record | name
    · exact record
    · obtain ⟨y, inside, rfl⟩ := List.mem_map.mp name
      exact absurd (rep.cache.link.names y inside) no_text

theorem names_congr {link : List Ptr}
    (same : ∀ x ∈ link, (h'.fileFdRecord x).filename = (h.fileFdRecord x).filename) :
    names h' link = names h link := List.map_congr_left same

/-- A block of an fd cache is a live record or a live path. -/
theorem cache_block_live {area : FdArea} (cache : Represents ⟨h, area⟩ c) {b : Ptr}
    (inside : b ∈ c.link ++ names h c.link) :
    h.kind b = some .fileFdRecord ∨ h.kind b = some .chars := by
  rcases List.mem_append.mp inside with record | name
  · exact .inl (cache.link.live b record)
  · obtain ⟨x, record, rfl⟩ := List.mem_map.mp name
    exact .inr (cache.link.names x record)

theorem cache_block_old {area : FdArea} (cache : Represents ⟨h, area⟩ c) {b : Ptr}
    (inside : b ∈ c.link ++ names h c.link) : b < h.fresh := by
  rcases cache_block_live cache inside with record | name
  · exact Heap.live_lt_fresh record
  · exact Heap.live_lt_fresh name

/-- A cache stays the same when none of its blocks is touched. -/
theorem cache_frame {area : FdArea} (cache : Represents ⟨h, area⟩ c)
    (touches : Touches mine h h') (apart : ∀ b ∈ c.link ++ names h c.link, b ∉ mine) :
    Represents ⟨h', area⟩ c ∧ names h' c.link = names h c.link := by
  have inside_link : ∀ x ∈ c.link, x ∈ c.link ++ names h c.link := fun x member =>
    List.mem_append_left _ member
  have inside_names : ∀ x ∈ c.link, (h.fileFdRecord x).filename ∈ c.link ++ names h c.link :=
    fun x member => List.mem_append_right _ (List.mem_map.mpr ⟨x, member, rfl⟩)
  have kind : ∀ b ∈ c.link ++ names h c.link, h'.kind b = h.kind b := fun b inside =>
    touches.kind b (cache_block_old cache inside) (apart b inside)
  have record : ∀ x ∈ c.link, h'.fileFdRecord x = h.fileFdRecord x := fun x member =>
    touches.record x (cache_block_old cache (inside_link x member))
      (apart x (inside_link x member))
  refine ⟨cache.frame rfl ?_ record ?_, ?_⟩
  · intro x member; exact kind x (inside_link x member)
  · intro x member; exact kind _ (inside_names x member)
  · exact names_congr fun x member => by rw [record x member]

/-- A record keeps what it owns when none of it is touched. -/
theorem RecordRep.frame (rep : RecordRep h r c) (touches : Touches mine h h')
    (apart : ∀ b ∈ owned h r c, b ∉ mine) :
    RecordRep h' r c ∧ owned h' r c = owned h r c := by
  have kind : ∀ b ∈ owned h r c, h'.kind b = h.kind b := fun b member =>
    touches.kind b (rep.owned_old member) (apart b member)
  obtain ⟨cache, same_names⟩ := cache_frame rep.cache touches fun b inside =>
    apart b (List.mem_append_right _ inside)
  have same : owned h' r c = owned h r c := by
    rw [owned, owned, same_names]
  have text : ∀ p, Readable h p → (p ≠ NULL → p ∈ texts r) → Readable h' p := by
    intro p readable inside
    by_cases null : p = NULL
    · exact .inl null
    · right
      rw [kind p (List.mem_append_left _ (inside null))]
      exact readable.kind null
  refine ⟨⟨cache, ?_, ?_, rep.env, ?_⟩, same⟩
  · exact text _ rep.filename fun real => mem_texts.mpr ⟨.inl rfl, real⟩
  · exact text _ rep.argv fun real => mem_texts.mpr ⟨.inr rfl, real⟩
  · rw [same]; exact rep.nodup

end Frames

section Update

variable {k : Kernel} {records : List Ptr} {contents : Ptr → Contents}

/-- Changing the fields of one process record that are not links. -/
theorem processFields_update (process : Ptr → ProcessRecord) (p : Ptr) (r : ProcessRecord)
    (next : r.next = (process p).next) (prev : r.prev = (process p).prev) :
    processFields (Function.update process p r) = processFields process := by
  unfold processFields
  congr 1
  · funext q
    by_cases here : q = p
    · rw [here, Function.update_self, next]
    · rw [Function.update_of_ne here]
  · funext q
    by_cases here : q = p
    · rw [here, Function.update_self, prev]
    · rw [Function.update_of_ne here]

/-- Blocks that no record owns may come and go. -/
theorem KernelRep.heap (rep : KernelRep k records contents) {h' : Heap} {mine : List Ptr}
    (touches : Touches mine k.heap h')
    (chars : ∀ b ∈ mine, k.heap.kind b ≠ some .processRecord ∧ k.heap.kind b ≠ some .processCache)
    (unowned : ∀ p ∈ records, ∀ b ∈ owned k.heap (k.process p) (contents p), b ∉ mine) :
    KernelRep { k with heap := h' } records contents ∧
      ∀ p ∈ records, owned h' (k.process p) (contents p)
        = owned k.heap (k.process p) (contents p) := by
  have kept : ∀ b kind, k.heap.kind b = some kind →
      (kind = .processRecord ∨ kind = .processCache) → h'.kind b = some kind := by
    intro b kind live sort
    rw [touches.kind b (Heap.live_lt_fresh live), live]
    intro member
    rcases sort with rfl | rfl
    · exact (chars b member).1 live
    · exact (chars b member).2 live
  have frame : ∀ p ∈ records, RecordRep h' (k.process p) (contents p) ∧
      owned h' (k.process p) (contents p) = owned k.heap (k.process p) (contents p) :=
    fun p member => (rep.each p member).frame touches (unowned p member)
  refine ⟨⟨?_, ?_, rep.header, rep.ring, rep.slots, ?_, ?_⟩, fun p member => (frame p member).2⟩
  · exact kept _ _ rep.table (.inr rfl)
  · intro p member; exact kept _ _ (rep.live p member) (.inl rfl)
  · intro p member; exact (frame p member).1
  · intro p member q member' b inside inside'
    rw [(frame p member).2] at inside
    rw [(frame q member').2] at inside'
    exact rep.apart p member q member' b inside inside'

/-- Between two calls every record owns only blocks it owned before and new ones. -/
def Gained (k k' : Kernel) (records : List Ptr) (contents contents' : Ptr → Contents) : Prop :=
  ∀ p ∈ records, ∀ b ∈ owned k'.heap (k'.process p) (contents' p), b < k.heap.fresh →
    b ∈ owned k.heap (k.process p) (contents p)

/-- An operation on one record leaves the others alone. -/
theorem KernelRep.others (rep : KernelRep k records contents) {p : Ptr} (member : p ∈ records)
    {h' : Heap} (touches : Touches (owned k.heap (k.process p) (contents p)) k.heap h') :
    ∀ q ∈ records, q ≠ p → RecordRep h' (k.process q) (contents q) ∧
      owned h' (k.process q) (contents q) = owned k.heap (k.process q) (contents q) := by
  intro q member' other
  refine (rep.each q member').frame touches ?_
  intro b inside mine
  exact other (rep.apart q member' p member b inside mine)

/-- An operation on one record: it may touch what the record owns, and afterwards the
record owns some of that and new blocks. -/
theorem KernelRep.update (rep : KernelRep k records contents) {p : Ptr} (member : p ∈ records)
    {h' : Heap} {r : ProcessRecord} {c : Contents}
    (touches : Touches (owned k.heap (k.process p) (contents p)) k.heap h')
    (next : r.next = (k.process p).next) (prev : r.prev = (k.process p).prev)
    (record : RecordRep h' r c)
    (gained : ∀ b ∈ owned h' r c, b < k.heap.fresh →
      b ∈ owned k.heap (k.process p) (contents p)) :
    KernelRep { k with heap := h', process := Function.update k.process p r } records
        (Function.update contents p c) ∧
      Gained k { k with heap := h', process := Function.update k.process p r } records contents
        (Function.update contents p c) := by
  have each := rep.each p member
  have frame := rep.others member touches
  refine ⟨⟨?_, ?_, rep.header, ?_, rep.slots, ?_, ?_⟩, ?_⟩
  · exact each.kept touches rep.table (.inr rfl)
  · intro q member'; exact each.kept touches (rep.live q member') (.inl rfl)
  · rw [processFields_update k.process p r next prev]
    exact rep.ring
  · intro q member'
    dsimp only
    by_cases here : q = p
    · rw [here, Function.update_self, Function.update_self]
      exact record
    · rw [Function.update_of_ne here, Function.update_of_ne here]
      exact (frame q member' here).1
  · -- what the record owns now, no other record owned before
    have disjoint : ∀ q ∈ records, q ≠ p → ∀ b ∈ owned k.heap (k.process q) (contents q),
        b ∉ owned h' r c := by
      intro q member' other b inside mine
      have old := (rep.each q member').owned_old inside
      exact other (rep.apart q member' p member b inside (gained b mine old))
    intro q member' q' member'' b inside inside'
    by_cases here : q = p
    · by_cases here' : q' = p
      · rw [here, here']
      · dsimp only at inside inside'
        rw [here, Function.update_self, Function.update_self] at inside
        rw [Function.update_of_ne here', Function.update_of_ne here',
          (frame q' member'' here').2] at inside'
        exact absurd inside (disjoint q' member'' here' b inside')
    · dsimp only at inside inside'
      rw [Function.update_of_ne here, Function.update_of_ne here, (frame q member' here).2] at inside
      by_cases here' : q' = p
      · rw [here', Function.update_self, Function.update_self] at inside'
        exact absurd inside' (disjoint q member' here b inside)
      · rw [Function.update_of_ne here', Function.update_of_ne here',
          (frame q' member'' here').2] at inside'
        exact rep.apart q member' q' member'' b inside inside'
  · intro q member' b inside old
    dsimp only at inside
    by_cases here : q = p
    · rw [here, Function.update_self, Function.update_self] at inside
      rw [here]
      exact gained b inside old
    · rw [Function.update_of_ne here, Function.update_of_ne here, (frame q member' here).2] at inside
      exact inside

/-- What an operation on one record loses is what the record owned and does not own now. -/
theorem KernelRep.update_lost (rep : KernelRep k records contents) {p : Ptr}
    (member : p ∈ records) {h' : Heap} {r : ProcessRecord} {c : Contents}
    (touches : Touches (owned k.heap (k.process p) (contents p)) k.heap h')
    (leaves : Leaves (owned h' r c) k.heap h') {b : Ptr}
    (lost : Lost { k with heap := h', process := Function.update k.process p r } records
      (Function.update contents p c) b) :
    Lost k records contents b ∨
      b ∈ owned k.heap (k.process p) (contents p) ∧ b ∉ owned h' r c ∧ h'.kind b ≠ none := by
  obtain ⟨live, unused⟩ := lost
  have not_mine : b ∉ owned h' r c := by
    intro mine
    exact unused (.inr (.inr ⟨p, member, by simpa using mine⟩))
  by_cases old : b ∈ owned k.heap (k.process p) (contents p)
  · exact .inr ⟨old, not_mine, live⟩
  · left
    constructor
    · intro dead
      exact not_mine (leaves b dead live)
    · rintro (table | record | ⟨q, member', inside⟩)
      · exact unused (.inl table)
      · exact unused (.inr (.inl record))
      · by_cases here : q = p
        · exact old (here ▸ inside)
        · refine unused (.inr (.inr ⟨q, member', ?_⟩))
          dsimp only
          rw [Function.update_of_ne here, Function.update_of_ne here,
            (rep.others member touches q member' here).2]
          exact inside

/-- And all of that is lost. -/
theorem KernelRep.update_dropped (rep : KernelRep k records contents) {p : Ptr}
    (member : p ∈ records) {h' : Heap} {r : ProcessRecord} {c : Contents}
    (touches : Touches (owned k.heap (k.process p) (contents p)) k.heap h') {b : Ptr}
    (old : b ∈ owned k.heap (k.process p) (contents p)) (not_mine : b ∉ owned h' r c)
    (live : h'.kind b ≠ none) :
    Lost { k with heap := h', process := Function.update k.process p r } records
      (Function.update contents p c) b := by
  refine ⟨live, ?_⟩
  have each := rep.each p member
  rintro (rfl | record | ⟨q, member', inside⟩)
  · exact each.not_owned rep.table (.inr rfl) old
  · exact each.not_owned (rep.live b record) (.inl rfl) old
  · dsimp only at inside
    by_cases here : q = p
    · rw [here, Function.update_self, Function.update_self] at inside
      exact not_mine inside
    · rw [Function.update_of_ne here, Function.update_of_ne here,
        (rep.others member touches q member' here).2] at inside
      exact here (rep.apart q member' p member b inside old)

/-- Blocks that no record owns and that become live are lost. -/
theorem KernelRep.heap_lost {h' : Heap} {ps : List Ptr}
    (same : ∀ p ∈ records, owned h' (k.process p) (contents p)
      = owned k.heap (k.process p) (contents p))
    (leaves : Leaves ps k.heap h') {b : Ptr}
    (lost : Lost { k with heap := h' } records contents b) :
    Lost k records contents b ∨ b ∈ ps := by
  obtain ⟨live, unused⟩ := lost
  by_cases dead : k.heap.kind b = none
  · exact .inr (leaves b dead live)
  · refine .inl ⟨dead, ?_⟩
    rintro (table | record | ⟨p, member, inside⟩)
    · exact unused (.inl table)
    · exact unused (.inr (.inl record))
    · exact unused (.inr (.inr ⟨p, member, (same p member).symm ▸ inside⟩))

end Update

end SysMonitor.Source.Process
