import SysMonitor.Library.Runs
import SysMonitor.Source.LogEffects

/-!
# Which blocks of driver/log.c are live

Between two calls the slots of `thread_log_cache` reference every live block, as long as no
begin ends early after it copied a path: the copy belongs to nobody then.
-/

namespace SysMonitor.Guarantees.LogBlocks
open SysMonitor.Library SysMonitor.Library.BlockHeap SysMonitor.Source SysMonitor.Source.LogCache

/-- The table, and what its slots reference. -/
def Referenced (s : LogModule) (p : Ptr) : Prop :=
  p = s.threadLogCache ∨
    ∃ i, (0 ≤ i ∧ i < HASH_SLOT_SIZE) ∧ p ∈ blocksOf s.heap (s.slots i)

/-- The live blocks are the referenced ones, and an unload frees them all, each once. -/
def Accounted (_ : LogModule) (_ : Int × LogCall × Answers) (t : LogModule) (_ : LogAnswer) : Prop :=
  (∀ p, t.heap.block p ≠ none ↔ Referenced t p) ∧
    ∃ h, logCleanup t = .ok h ∧ ∀ p, h.block p = none

/-- A begin that copied its path is not made by the reader process and finds an item or room
for one; the array it allocates has all entries; an add that has a text finds a place; a copy of
a user string that fails can be printed. -/
def Frugal (s : LogModule) (e : Int × LogCall × Answers) : Prop :=
  match e with
  | (pid, .begin _ _ path paramCount, answers) =>
    pathDies path answers.pathRoom = false ∧
    (pathCopied path answers.pathRoom = true →
      answers.ours = false ∧ (s.slots (getSlotId pid) ≠ NULL ∨ answers.itemRoom = true)) ∧
    (paramCount < 2 ^ 30 ∨ answers.stringsRoom = false)
  | (pid, .add param, answers) =>
    (s.slots (getSlotId pid) ≠ NULL ∨ answers.itemRoom = true → paramDies param answers = false) ∧
    HasPlace s pid answers
  | (_, .end _, _) => True

theorem frugal_iff (s : LogModule) (e : Int × LogCall × Answers) :
    Frugal s e ↔ Safe s e ∧ ¬Leaks s e := by
  obtain ⟨pid, call, answers⟩ := e
  cases call with
  | begin oper api path paramCount =>
    constructor
    · rintro ⟨lives, kept, wide⟩
      refine ⟨wide, ?_⟩
      rintro (dies | ⟨copied, mine | ⟨null, full⟩⟩)
      · exact absurd dies (by simp [lives])
      · exact absurd mine (by simp [(kept copied).1])
      · rcases (kept copied).2 with slot | room
        · exact slot null
        · exact absurd room (by simp [full])
    · rintro ⟨wide, tight⟩
      obtain ⟨lives, early⟩ := not_or.mp tight
      refine ⟨Bool.eq_false_of_not_eq_true lives, fun copied => ?_, wide⟩
      obtain ⟨other, able⟩ := not_or.mp fun reason => early ⟨copied, reason⟩
      refine ⟨Bool.eq_false_of_not_eq_true other, ?_⟩
      by_contra neither
      rw [not_or, not_not] at neither
      exact able ⟨neither.1, Bool.eq_false_of_not_eq_true neither.2⟩
  | add param =>
    constructor
    · rintro ⟨lives, place⟩
      refine ⟨.inr place, fun ⟨dies, reached⟩ => ?_⟩
      exact absurd dies (by simp [lives reached])
    · rintro ⟨dies | place, tight⟩
      · have unreached := fun reached => tight ⟨dies, reached⟩
        exact ⟨fun reached => absurd reached unreached, fun _ reached => absurd reached unreached⟩
      · exact ⟨fun reached => Bool.eq_false_of_not_eq_true fun dies => tight ⟨dies, reached⟩, place⟩
  | «end» ret => exact ⟨fun _ => ⟨trivial, fun leaks => leaks⟩, fun _ => trivial⟩

section Cleanup

variable {s : LogModule} {lost : List Ptr}

theorem init_rep : Rep (logInit .unused) [] := by
  have table : (logInit .unused).heap.block (logInit .unused).threadLogCache = some .table :=
    allocate_self ..
  refine ⟨⟨fun i => ?_, fun i j apart p at_i at_j => ?_, fun p live => ?_⟩, table,
    fun _ => .inl rfl, fun _ real => absurd rfl real⟩
  · cases i with
    | none =>
      refine ⟨fun p inside => ?_, List.nodup_singleton _⟩
      rw [List.mem_singleton.mp inside, table]
      simp
    | some i =>
      rw [feet, show (logInit .unused).slots i = NULL from rfl, blocksOf_null]
      exact ⟨by simp, List.nodup_nil⟩
  · cases i with
    | none =>
      cases j with
      | none => exact apart rfl
      | some j =>
        rw [feet, show (logInit .unused).slots j = NULL from rfl, blocksOf_null] at at_j
        simp at at_j
    | some i =>
      rw [feet, show (logInit .unused).slots i = NULL from rfl, blocksOf_null] at at_i
      simp at at_i
  · left
    refine ⟨none, List.mem_singleton.mpr ?_⟩
    by_contra other
    exact live (Function.update_of_ne other _ _)

theorem referenced_iff (rep : Rep s lost) (p : Ptr) :
    Referenced s p ↔ ∃ i, p ∈ feet s i := by
  constructor
  · rintro (rfl | ⟨i, -, inside⟩)
    · exact ⟨none, List.mem_singleton_self _⟩
    · exact ⟨some i, inside⟩
  · rintro ⟨none | i, inside⟩
    · exact .inl (List.mem_singleton.mp inside)
    · refine .inr ⟨i, rep.range i fun null => ?_, inside⟩
      rw [feet, null, blocksOf_null] at inside
      simp at inside

/-- A slot was freed and counts as empty from now on. -/
theorem free_slot (rep : Rep s lost) {i : Int} (real : s.slots i ≠ NULL) :
    ∃ it h₁ h₂, readItem s.heap (s.slots i) = .ok it ∧ freeBlocks s.heap it = .ok h₁ ∧
      kfree h₁ (s.slots i) = .ok h₂ ∧
      Rep ⟨h₂, s.threadLogCache, Function.update s.slots i NULL⟩ lost := by
  obtain ⟨it, entries, shape⟩ := (rep.sound i).resolve_left real
  obtain ⟨h₁, freed, changes, -⟩ := freeBlocks_spec shape (rep.owns i)
  have owns : Owns h₁ (LogCache.real [s.slots i] ++ []) := by
    rw [real_one real]
    exact changes.owns
  obtain ⟨h₂, freed₂, changes₂, -⟩ := kfree_spec owns
  rw [real_one real] at changes₂
  refine ⟨it, h₁, h₂, readItem_live shape.item, freed, freed₂, ?_⟩
  let t : LogModule := ⟨h₂, s.threadLogCache, Function.update s.slots i NULL⟩
  have empty : t.slots i = NULL := Function.update_self ..
  have effect : SlotEffect s t i [] := by
    refine ⟨rfl, fun j other => Function.update_of_ne other .., ?_, .inl empty⟩
    rw [empty, blocksOf_null]
    exact changes.trans changes₂
  have rep' := rep.effect (rep.range i real) effect
  rw [List.append_nil] at rep'
  exact rep'

/-- The walk over the slots that are left. `done` is the table with the slots before them
empty: the code leaves dangling pointers there, which it does not read again. -/
theorem cleanupSlots_spec (left : List Int) (nodup : left.Nodup) (h : BlockHeap LogBlock) (table : Ptr)
    (slots done : Int → Ptr) (rep : Rep ⟨h, table, done⟩ lost)
    (same : ∀ i ∈ left, slots i = done i) (valid : ∀ i ∈ left, 0 ≤ i ∧ i < HASH_SLOT_SIZE)
    (rest : ∀ i, done i ≠ NULL → i ∈ left) :
    ∃ h', cleanupSlots ⟨h, table, slots⟩ left = .ok h' ∧ Rep ⟨h', table, fun _ => NULL⟩ lost := by
  induction left generalizing h done with
  | nil =>
    have empty : done = fun _ => NULL := by
      funext i
      by_contra real
      simpa using rest i real
    rw [empty] at rep
    exact ⟨h, rfl, rep⟩
  | cons i left ih =>
    obtain ⟨once, nodup⟩ := List.nodup_cons.mp nodup
    have read : readSlot ⟨h, table, slots⟩ i = .ok (done i) := by
      have found := rep.readSlot (valid i List.mem_cons_self)
      rw [readSlot] at found ⊢
      dsimp only at found ⊢
      rw [same i List.mem_cons_self]
      exact found
    have later : ∀ j ∈ left, j ≠ i := by
      rintro j inside rfl
      exact once inside
    unfold cleanupSlots
    rw [read, ok_bind]
    by_cases null : done i = NULL
    · rw [if_pos null]
      refine ih nodup h done rep (fun j inside => same j (List.mem_cons_of_mem i inside))
        (fun j inside => valid j (List.mem_cons_of_mem i inside)) fun j real => ?_
      refine (List.mem_cons.mp (rest j real)).resolve_left ?_
      rintro rfl
      exact real null
    · obtain ⟨it, h₁, h₂, item, freed, freed₂, rep₂⟩ := free_slot rep null
      dsimp only at item freed freed₂ rep₂
      rw [if_neg null, item, ok_bind, freed, ok_bind, freed₂, ok_bind]
      refine ih nodup h₂ _ rep₂ (fun j inside => ?_)
        (fun j inside => valid j (List.mem_cons_of_mem i inside)) fun j real => ?_
      · rw [Function.update_of_ne (later j inside)]
        exact same j (List.mem_cons_of_mem i inside)
      · have other : j ≠ i := by
          rintro rfl
          exact real (Function.update_self ..)
        rw [Function.update_of_ne other] at real
        exact (List.mem_cons.mp (rest j real)).resolve_left other

/-- After `log_cleanup` only lost blocks are live. -/
theorem logCleanup_spec (rep : Rep s lost) :
    ∃ h, logCleanup s = .ok h ∧ ∀ p, h.block p ≠ none → p ∈ lost := by
  have nodup : ((List.range HASH_SLOT_SIZE.toNat).map (Int.ofNat ·)).Nodup :=
    List.nodup_range.map fun _ _ same => Int.ofNat.inj same
  have valid : ∀ i ∈ (List.range HASH_SLOT_SIZE.toNat).map (Int.ofNat ·),
      0 ≤ i ∧ i < HASH_SLOT_SIZE := by
    intro i inside
    obtain ⟨n, below, rfl⟩ := List.mem_map.mp inside
    rw [List.mem_range] at below
    exact ⟨Int.natCast_nonneg n, Int.lt_toNat.mp below⟩
  have rest : ∀ i, s.slots i ≠ NULL → i ∈ (List.range HASH_SLOT_SIZE.toNat).map (Int.ofNat ·) := by
    intro i real
    obtain ⟨least, below⟩ := rep.range i real
    refine List.mem_map.mpr ⟨i.toNat, List.mem_range.mpr ?_, Int.toNat_of_nonneg least⟩
    exact (Int.toNat_lt_toNat (by decide)).mpr below
  obtain ⟨h₁, walked, rep₁⟩ := cleanupSlots_spec _ nodup s.heap s.threadLogCache s.slots s.slots rep
    (fun _ _ => rfl) valid rest
  have live := rep₁.table
  have table : s.threadLogCache ≠ NULL := ne_null (h := h₁) (by
    rw [show h₁.block s.threadLogCache = some .table from live]; simp)
  have owns : Owns h₁ (real [s.threadLogCache] ++ []) := by
    rw [real_one table]
    exact rep₁.parts.owns none
  obtain ⟨h₂, freed, changes, kept⟩ := kfree_spec owns
  refine ⟨h₂, ?_, fun p live₂ => ?_⟩
  · unfold logCleanup
    rw [if_neg table, walked, ok_bind, freed]
  · have other : p ≠ s.threadLogCache := by
      rintro rfl
      have inside := changes.tight s.threadLogCache (.inl (by simp [real_one table])) live₂
      simp at inside
    rw [kept p other] at live₂
    rcases rep₁.parts.covers p live₂ with ⟨none | i, inside⟩ | gone
    · exact absurd (List.mem_singleton.mp inside) other
    · rw [feet, blocksOf_null] at inside
      simp at inside
    · exact gone

end Cleanup

section Runs

variable {s : LogModule}

theorem accounted (rep : Rep s []) : (∀ p, s.heap.block p ≠ none ↔ Referenced s p) ∧
    ∃ h, logCleanup s = .ok h ∧ ∀ p, h.block p = none := by
  obtain ⟨h, cleaned, dead⟩ := logCleanup_spec rep
  refine ⟨fun p => ?_, h, cleaned, fun p => ?_⟩
  · rw [referenced_iff rep]
    constructor
    · exact fun live => (rep.parts.covers p live).resolve_right List.not_mem_nil
    · rintro ⟨i, inside⟩
      exact (rep.parts.owns i).live p inside
  · by_contra live
    exact List.not_mem_nil (dead p live)

theorem logStep_accounted (memory : Memory) (rep : Rep s []) (e : Int × LogCall × Answers)
    (frugal : Frugal s e) :
    ∃ t answer, logStep memory s e = .ok (t, answer) ∧ Accounted s e t answer ∧ Rep t [] := by
  obtain ⟨safe, tight⟩ := (frugal_iff s e).mp frugal
  obtain ⟨pid, call, answers⟩ := e
  obtain ⟨t, answer, gone, ran, effect, leaks, -⟩ := logStep_spec memory rep pid call answers safe
  have nothing : gone = [] := by
    by_contra some
    exact tight (leaks.mp some)
  have rep' := rep.effect (getSlotId_valid pid) effect
  rw [nothing, List.append_nil] at rep'
  exact ⟨t, answer, ran, accounted rep', rep'⟩

/-- A begin that copied its path and ends early leaves a live block that nothing references, and
so does a task that dies in a copy. -/
theorem logStep_loses (memory : Memory) (rep : Rep s []) (e : Int × LogCall × Answers)
    (safe : Safe s e) (leaks : Leaks s e) :
    ∃ t answer, logStep memory s e = .ok (t, answer) ∧
      ∃ p, t.heap.block p ≠ none ∧ ¬Referenced t p := by
  obtain ⟨pid, call, answers⟩ := e
  obtain ⟨t, answer, gone, ran, effect, lost, -⟩ := logStep_spec memory rep pid call answers safe
  obtain ⟨p, inside⟩ := List.exists_mem_of_ne_nil gone (lost.mpr leaks)
  have rep' := rep.effect (getSlotId_valid pid) effect
  refine ⟨t, answer, ran, p, effect.changes.owns.live p (List.mem_append_right _ inside), ?_⟩
  rw [referenced_iff rep']
  rintro ⟨i, owned⟩
  by_cases here : i = some (getSlotId pid)
  · rw [here] at owned
    exact (List.nodup_append.mp effect.changes.owns.nodup).2.2 p owned p inside rfl
  · have before : feet t i = feet s i := by
      cases i with
      | none => rw [feet, feet, effect.table]
      | some j =>
        have apart : j ≠ getSlotId pid := fun same => here (congrArg some same)
        rw [feet, feet, effect.slots j apart]
        exact ((rep.sound j).frame (rep.untouched effect apart)).2
    rw [before] at owned
    rcases effect.changes.mem p (List.mem_append_right _ inside) with mine | above
    · exact rep.parts.apart i (some (getSlotId pid)) here p owned mine
    · exact Nat.not_lt_of_le above (lt_fresh ((rep.parts.owns i).live p owned))

instance (s : LogModule) (pid : Int) (answers : Answers) : Decidable (HasPlace s pid answers) :=
  have : Decidable (match s.heap.block (s.slots (getSlotId pid)) with
      | some (.item it) => it.paramStrings ≠ NULL ∧ it.currentParam < it.paramCount
      | _ => False) :=
    match s.heap.block (s.slots (getSlotId pid)) with
    | some (.item _) => inferInstanceAs (Decidable (_ ≠ _ ∧ _ < _))
    | some (.strings _) | some (.chars _) | some .table | some .buffer | none =>
      inferInstanceAs (Decidable False)
  (inferInstance : Decidable (_ = true → (_ ≠ _ ∨ _ = true) → _))

instance (s : LogModule) : ∀ e, Decidable (Frugal s e)
  | (_, .begin _ _ _ _, _) =>
    inferInstanceAs (Decidable (_ = _ ∧ (_ = _ → _ = _ ∧ (_ ≠ _ ∨ _ = _)) ∧ (_ < _ ∨ _ = _)))
  | (pid, .add _, answers) =>
    inferInstanceAs (Decidable ((_ ≠ _ ∨ _ = _ → _ = _) ∧ HasPlace s pid answers))
  | (_, .end _, _) => .isTrue trivial

/-- In every run whose calls meet the condition nothing is freed twice or used after it was
freed, and between two calls exactly the referenced blocks are live. -/
theorem blocks_accounted (memory : Memory) (calls : List (Int × LogCall × Answers))
    (admitted : Admitted (logStep memory) Frugal (logInit .unused) calls) :
    (∃ t answers, run (logStep memory) (logInit .unused) calls = .ok (t, answers)) ∧
      EveryStep (logStep memory) Accounted (logInit .unused) calls := by
  obtain ⟨⟨t, answers, ran, -⟩, every⟩ := run_of_admitted (Rep · [])
    (fun s e rep frugal => logStep_accounted memory rep e frugal) calls _ init_rep admitted
  exact ⟨⟨t, answers, ran⟩, every⟩

/-- Memory that was cleared. -/
def cleared : Memory where
  garbage _ := ⟨⟨0, 0, 0, 0, 0, 0, 0, 0, 0, 0⟩, NULL, 0, 0, NULL⟩
  beyond _ := .empty

/-- Room for everything, for a task that is not the reader. -/
def roomy : Answers := ⟨false, true, true, true, true, true, true, true, 0, 0⟩

/-- The text at NULL, or anywhere else in the first page. -/
def firstPage : UserText := .broken .empty true

/-- Two tasks whose calls overlap, a task without a slot of its own, a reader whose call has no
path, a fault in the first page, and blocks that cannot be allocated: an address that cannot be
read does no harm without a holder for the copy. -/
theorem blocks_accounted_overlapping :
    let calls : List (Int × LogCall × Answers) :=
      [(7, .begin .createFile .open (.userPath (some (.whole (.literal "/a")))) 3, roomy),
        (8, .begin .readFile .read (.fd (some (.literal "/b"))) 2, roomy),
        (7, .add (.string "filename" (.whole (.literal "/a"))), roomy),
        (8, .add (.unsignedInt "fd" 3), { roomy with holderRoom := false }),
        (9, .begin .readFile .read (.fd none) 3, { roomy with ours := true }),
        (7, .add (.string "flags" firstPage), roomy),
        (8, .end 0, { roomy with detailsRoom := false }),
        (70000, .begin .execveProc .execve (.userPath (some firstPage)) 4,
          { roomy with stringsRoom := false }),
        (7, .end 0, roomy),
        (7, .begin .createFile .open (.userPath (some (.broken .empty false))) 3,
          { roomy with pathRoom := false }),
        (7, .begin .exitProc .exit .none 1, roomy),
        (-1, .end 0, roomy)]
    (∃ t answers, run (logStep cleared) (logInit .unused) calls = .ok (t, answers)) ∧
      EveryStep (logStep cleared) Accounted (logInit .unused) calls :=
  blocks_accounted cleared _ (by decide +kernel)

/-- When the first call leaks. -/
theorem unaccounted (memory : Memory) (e : Int × LogCall × Answers)
    (safe : Safe (logInit .unused) e) (leaks : Leaks (logInit .unused) e) :
    ¬EveryStep (logStep memory) Accounted (logInit .unused) [e] := by
  intro every
  obtain ⟨t, answer, ran, p, live, unreferenced⟩ := logStep_loses memory init_rep e safe leaks
  rw [EveryStep, ran] at every
  exact unreferenced ((every.1.1 p).mp live)

/-- The reader process reads a file that is cached; a task opens a file and there is no room
for its item; a task opens an address that cannot be read; a call adds one parameter more than it
announced. -/
theorem path_copies_leak :
    ¬EveryStep (logStep cleared) Accounted (logInit .unused)
      [(7, .begin .readFile .read (.fd (some (.literal "/a"))) 3, { roomy with ours := true })] ∧
    ¬EveryStep (logStep cleared) Accounted (logInit .unused)
      [(7, .begin .createFile .open (.userPath (some (.whole (.literal "/a")))) 3,
        { roomy with itemRoom := false })] ∧
    ¬EveryStep (logStep cleared) Accounted (logInit .unused)
      [(7, .begin .createFile .open (.userPath (some (.broken .empty false))) 3, roomy)] ∧
    run (logStep cleared) (logInit .unused)
      [(7, .begin .closeFile .close .none 1, roomy), (7, .add .void, roomy), (7, .add .void, roomy)]
        = .error .outOfBounds :=
  ⟨unaccounted _ _ (.inl (by decide)) (.inr ⟨rfl, .inl rfl⟩),
    unaccounted _ _ (.inl (by decide)) (.inr ⟨by decide, .inr ⟨rfl, rfl⟩⟩),
    unaccounted _ _ (.inl (by decide)) (.inl (by decide)), by rfl⟩

end Runs

end SysMonitor.Guarantees.LogBlocks
