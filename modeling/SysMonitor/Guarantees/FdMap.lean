import Mathlib.Data.Set.Card
import SysMonitor.Guarantees.FdTransparency

/-!
# The fd cache as a map from descriptors to paths

When an insert is only made for a descriptor that is not cached, no descriptor occurs
twice in the full list, so no older record can mislead a lookup and the list is a map.
-/

namespace SysMonitor.Guarantees.FdMap
open SysMonitor.Library SysMonitor.Source SysMonitor.Source.FdCache
open SysMonitor.Guarantees.FdRepresentation SysMonitor.Guarantees.FdTransparency

/-- What the cache is for: the path of every open descriptor. -/
def mapStep (m : Word → Option CString) : FdCall → (Word → Option CString) × FdAnswer
  | .insert fd (some path) true true => (Function.update m fd (some path), .inserted)
  | .insert _ _ _ _ => (m, .inserted)
  | .get fd => (m, .path (m fd))
  | .delete fd => (Function.update m fd none, .deleted (m fd).isSome)

/-- An insert finds its descriptor uncached. -/
def Uncached (m : Word → Option CString) : FdCall → Prop
  | .insert fd _ _ _ => m fd = none
  | .get _ => True
  | .delete _ => True

/-- The path a list gives for a descriptor. -/
def listPath (l : List (Word × CString)) (fd : Word) : Option CString :=
  (l.find? fun e => e.1 = fd).map Prod.snd

/-- A list without repeated descriptors as a map. -/
def Maps (l : List (Word × CString)) (m : Word → Option CString) : Prop :=
  (l.map Prod.fst).Nodup ∧ m = listPath l

theorem listPath_eq_none {l : List (Word × CString)} {fd : Word} :
    listPath l fd = none ↔ fd ∉ l.map Prod.fst := by
  rw [listPath, Option.map_eq_none_iff, List.find?_eq_none]
  constructor
  · intro absent member
    obtain ⟨e, inside, rfl⟩ := List.mem_map.mp member
    exact absent e inside (decide_eq_true rfl)
  · intro out e inside same
    exact out (List.mem_map.mpr ⟨e, inside, of_decide_eq_true same⟩)

theorem listPath_cons (fd fd' : Word) (path : CString) (l : List (Word × CString)) :
    listPath ((fd, path) :: l) fd' = if fd = fd' then some path else listPath l fd' := by
  unfold listPath
  by_cases same : fd = fd'
  · rw [List.find?_cons_of_pos (by simpa using same), if_pos same]
    rfl
  · rw [List.find?_cons_of_neg (by simpa using same), if_neg same]

/-- Deleting the first match of a list without repetitions deletes the key. -/
theorem listPath_eraseP {l : List (Word × CString)} (nodup : (l.map Prod.fst).Nodup)
    (fd : Word) :
    listPath (l.eraseP fun e => e.1 = fd) = Function.update (listPath l) fd none := by
  induction l with
  | nil =>
    funext fd'
    by_cases here : fd' = fd
    · rw [here, Function.update_self]; rfl
    · rw [Function.update_of_ne here]; rfl
  | cons e l ih =>
    obtain ⟨key, path⟩ := e
    obtain ⟨fresh, nodup⟩ := List.nodup_cons.mp nodup
    funext fd'
    by_cases same : key = fd
    · rw [List.eraseP_cons_of_pos (by simpa using same)]
      by_cases here : fd' = fd
      · rw [here, Function.update_self, listPath_eq_none, ← same]
        exact fresh
      · rw [Function.update_of_ne here, listPath_cons, if_neg]
        exact fun eq => here (eq.symm.trans same)
    · rw [List.eraseP_cons_of_neg (by simpa using same), listPath_cons, ih nodup]
      by_cases here : fd' = fd
      · rw [here, if_neg same, Function.update_self, Function.update_self]
      · rw [Function.update_of_ne here, Function.update_of_ne here, listPath_cons]

theorem listPath_of_mem {l : List (Word × CString)} (nodup : (l.map Prod.fst).Nodup) {fd : Word}
    {path : CString} (member : (fd, path) ∈ l) : listPath l fd = some path := by
  induction l with
  | nil => simp at member
  | cons e l ih =>
    obtain ⟨key, text⟩ := e
    obtain ⟨new, nodup⟩ := List.nodup_cons.mp nodup
    rw [listPath_cons]
    rcases List.mem_cons.mp member with same | later
    · cases same
      rw [if_pos rfl]
    · have other : key ≠ fd := by
        rintro rfl
        exact new (List.mem_map.mpr ⟨_, later, rfl⟩)
      rw [if_neg other]
      exact ih nodup later

theorem mapStep_short (m : Word → Option CString) (fd : Word) {path : Option CString}
    {recordRoom nameRoom : Bool} (short : path = none ∨ (recordRoom && nameRoom) = false) :
    mapStep m (.insert fd path recordRoom nameRoom) = (m, .inserted) := by
  rcases short with rfl | full
  · rfl
  · cases path <;> cases recordRoom <;> cases nameRoom <;> first | rfl | simp at full

/-- The list machine is the map machine as long as no descriptor is inserted twice. -/
theorem listStep_maps {l : List (Word × CString)} {m : Word → Option CString} (maps : Maps l m)
    (call : FdCall) (uncached : Uncached m call) :
    (listStep l call).2 = (mapStep m call).2 ∧ Maps (listStep l call).1 (mapStep m call).1 := by
  obtain ⟨nodup, rfl⟩ := maps
  cases call with
  | insert fd path recordRoom nameRoom =>
    rcases insert_cases path recordRoom nameRoom with short | ⟨text, rfl, rfl, rfl⟩
    · rw [listStep_short _ fd short, mapStep_short _ fd short]
      exact ⟨rfl, nodup, rfl⟩
    · refine ⟨rfl, List.nodup_cons.mpr ⟨listPath_eq_none.mp uncached, nodup⟩, ?_⟩
      funext fd'
      simp only [mapStep, listStep]
      rw [listPath_cons]
      by_cases here : fd' = fd
      · rw [here, Function.update_self, if_pos rfl]
      · rw [Function.update_of_ne here, if_neg (fun eq => here eq.symm)]
  | get fd => exact ⟨rfl, nodup, rfl⟩
  | delete fd =>
    refine ⟨?_, ?_, (listPath_eraseP nodup fd).symm⟩
    · simp only [listStep, mapStep]
      congr 1
      cases found : listPath l fd with
      | none =>
        rw [Option.isSome_none, List.any_eq_false]
        intro e member same
        exact listPath_eq_none.mp found
          (List.mem_map.mpr ⟨e, member, of_decide_eq_true same⟩)
      | some path =>
        rw [Option.isSome_some, List.any_eq_true]
        have there : fd ∈ l.map Prod.fst := by
          by_contra out
          rw [listPath_eq_none.mpr out] at found
          simp at found
        obtain ⟨e, member, same⟩ := List.mem_map.mp there
        exact ⟨e, member, decide_eq_true same⟩
    · exact nodup.sublist ((List.eraseP_sublist).map Prod.fst)

/-- Without repeated descriptors every record is the newest of its descriptor. -/
theorem Maps.newest {h : Heap} {link : List Ptr} {m : Word → Option CString} {x : Ptr}
    (maps : Maps (link.map (entry h)) m) (inside : x ∈ link) :
    link.find? (fun q => fdOf h q = fdOf h x) = some x := by
  have nodup : (link.map (fdOf h)).Nodup := by
    have keys := maps.1
    rw [List.map_map] at keys
    exact keys
  cases found : link.find? (fun q => fdOf h q = fdOf h x) with
  | none =>
    have out := List.find?_eq_none.mp found x inside
    simp at out
  | some y =>
    obtain ⟨linked, same⟩ := find?_newest found
    rw [List.inj_on_of_nodup_map nodup linked inside same]

/-- Without repeated descriptors a hot record of a descriptor is its newest. -/
theorem maps_onlyNewestHot {s : FdState} {l : List (Word × CString)}
    {m : Word → Option CString} (lists : Lists s l) (maps : Maps l m) (fd : Word) :
    OnlyNewestHot s fd := by
  obtain ⟨c, rep, rfl⟩ := lists
  intro j inside same
  rw [rep.hot.count, Int.toNat_natCast] at inside
  have slot := (slots_at rep.hot.slots j inside).1
  rw [Int.zero_add] at slot
  rw [slot] at same ⊢
  have newest := maps.newest (rep.within (List.getElem_mem inside))
  rw [same] at newest
  rw [findRecordInLink_spec rep.link.head rep.link.ring rep.link.live, newest, Option.getD_some]

theorem fdStep_maps (s : FdState) (l : List (Word × CString)) (m : Word → Option CString)
    (call : FdCall) (lists : Lists s l) (maps : Maps l m) (uncached : Uncached m call) :
    ∃ t l', fdStep s call = .ok (t, (mapStep m call).2) ∧ Lists t l' ∧
      Maps l' (mapStep m call).1 := by
  have newest : NoOlderHot s call := by
    cases call with
    | insert => trivial
    | get fd => exact maps_onlyNewestHot lists maps fd
    | delete fd => exact maps_onlyNewestHot lists maps fd
  obtain ⟨t, step, lists'⟩ := fdStep_lists s l call lists newest
  obtain ⟨answer, maps'⟩ := listStep_maps maps call uncached
  exact ⟨t, _, answer ▸ step, lists', maps'⟩

/-- The count of the cache is the number of keys. -/
theorem fdCount_eq_ncard {s : FdState} {l : List (Word × CString)} {m : Word → Option CString}
    (lists : Lists s l) (maps : Maps l m) :
    s.area.fdCount = ({fd | m fd ≠ none}.ncard : Int) := by
  obtain ⟨c, rep, rfl⟩ := lists
  obtain ⟨nodup, rfl⟩ := maps
  have keys : {fd | listPath (c.link.map (entry s.heap)) fd ≠ none}
      = ((c.link.map (entry s.heap)).map Prod.fst).toFinset := by
    ext fd
    simp only [Set.mem_ofPred_eq, ne_eq, listPath_eq_none, not_not, List.coe_toFinset]
  rw [keys, Set.ncard_coe_finset, List.toFinset_card_of_nodup nodup, rep.link.count]
  simp

/-- In every run from `fd_cache_initize` that inserts only descriptors that are not
cached, the cache answers as the map does and counts its keys, and an insert without
room leaves the area and every live block as they were. -/
theorem cache_refines_map (h : Heap) (filename : Ptr) (s : FdState)
    (started : fdCacheInitize h filename = .ok s) (calls : List FdCall)
    (uncached : AllSteps mapStep Uncached (fun _ => none) calls) :
    ∃ t, run fdStep s calls = .ok (t, (runSpec mapStep (fun _ => none) calls).2) ∧
      t.area.fdCount = ({fd | (runSpec mapStep (fun _ => none) calls).1 fd ≠ none}.ncard : Int) ∧
      ∀ fd path recordRoom nameRoom, (recordRoom && nameRoom) = false →
        ∃ h', fdStep t (.insert fd (some path) recordRoom nameRoom)
            = .ok ({ t with heap := h' }, .inserted) ∧
          h'.kind = t.heap.kind ∧
          ∀ q, t.heap.kind q ≠ none →
            h'.fileFdRecord q = t.heap.fileFdRecord q ∧ h'.chars q = t.heap.chars q := by
  obtain ⟨t, ran, l, lists, maps, -⟩ := run_simulates
    (fun s m calls => ∃ l, Lists s l ∧ Maps l m ∧ AllSteps mapStep Uncached m calls)
    (fun s m call calls ⟨l, lists, maps, admitted⟩ => by
      obtain ⟨t, l', step, lists', maps'⟩ := fdStep_maps s l m call lists maps admitted.1
      exact ⟨t, step, l', lists', maps', admitted.2⟩)
    calls s (fun _ => none)
    ⟨[], ⟨_, initized_represents started, rfl⟩, ⟨List.nodup_nil, rfl⟩, uncached⟩
  refine ⟨t, ran, fdCount_eq_ncard lists maps, ?_⟩
  intro fd path recordRoom nameRoom short
  obtain ⟨h', step, kind, preserves⟩ :=
    fdStep_insert_fails t fd (some path) recordRoom nameRoom (.inr short)
  refine ⟨h', step, kind, ?_⟩
  intro q live
  obtain ⟨k, live⟩ := Option.ne_none_iff_exists'.mp live
  have old := Heap.live_lt_fresh live
  exact ⟨preserves.elsewhere q old (by simp), preserves.chars q old⟩

/-- A descriptor is opened, closed and opened again. -/
theorem cache_refines_map_reopened :
    fdCacheInitize Heap.unused NULL = .ok unnamed ∧
    ∃ t, run fdStep unnamed
        [.insert 5 (some letterA) true true, .delete 5, .insert 5 (some letterB) true true,
          .get 5, .insert 6 (some letterC) true false, .get 6] =
        .ok (t, [.inserted, .deleted true, .inserted, .path (some letterB), .inserted,
          .path none]) := by
  refine ⟨rfl, ?_⟩
  obtain ⟨t, ran, -⟩ := cache_refines_map Heap.unused NULL unnamed rfl
    [.insert 5 (some letterA) true true, .delete 5, .insert 5 (some letterB) true true,
      .get 5, .insert 6 (some letterC) true false, .get 6]
    (by simp [AllSteps, mapStep, Uncached])
  exact ⟨t, ran⟩

end SysMonitor.Guarantees.FdMap
