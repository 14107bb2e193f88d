import SysMonitor.Guarantees.FdRepresentation

/-!
# When the hot cache cannot be seen

The full list alone is a list of descriptors with their paths, newest first; an insert
puts one in front, a lookup and a delete take the first match. The fd cache answers as
this list does as long as no lookup or delete finds an older record of its descriptor
in the hot cache: the bisection stops at any of several equal keys.
-/

namespace SysMonitor.Guarantees.FdTransparency
open SysMonitor.Library SysMonitor.Library.LinkedRing SysMonitor.Source
open SysMonitor.Source.FdCache SysMonitor.Guarantees.FdRepresentation

/-- The full list without a hot cache. -/
def listStep (l : List (Word × CString)) : FdCall → List (Word × CString) × FdAnswer
  | .insert fd (some path) true true => ((fd, path) :: l, .inserted)
  | .insert _ _ _ _ => (l, .inserted)
  | .get fd => (l, .path ((l.find? fun e => e.1 = fd).map Prod.snd))
  | .delete fd => (l.eraseP fun e => e.1 = fd, .deleted (l.any fun e => e.1 = fd))

/-- Of the records in the hot array only the newest has this descriptor, if any has. -/
def OnlyNewestHot (s : FdState) (fd : Word) : Prop :=
  ∀ i < s.area.hotCount.toNat, fdOf s.heap (s.area.hotFdCache i) = fd →
    findRecordInLink s fd = .ok (s.area.hotFdCache i)

/-- A lookup or a delete that no older hot record can mislead. -/
def NoOlderHot (s : FdState) : FdCall → Prop
  | .insert _ _ _ _ => True
  | .get fd => OnlyNewestHot s fd
  | .delete fd => OnlyNewestHot s fd

instance (s : FdState) (fd : Word) : Decidable (OnlyNewestHot s fd) :=
  inferInstanceAs (Decidable (∀ i < s.area.hotCount.toNat, _ → _))

instance (s : FdState) : ∀ call, Decidable (NoOlderHot s call)
  | .insert _ _ _ _ => .isTrue trivial
  | .get fd => inferInstanceAs (Decidable (OnlyNewestHot s fd))
  | .delete fd => inferInstanceAs (Decidable (OnlyNewestHot s fd))

/-- A record as the list has it. -/
def entry (h : Heap) (p : Ptr) : Word × CString := (fdOf h p, pathOf h p)

/-- The full list of the cache, read off the heap. -/
def Lists (s : FdState) (l : List (Word × CString)) : Prop :=
  ∃ c, Represents s c ∧ c.link.map (entry s.heap) = l

section Step

variable {s : FdState} {c : Contents} {fd : Word} {x : Ptr}

theorem entries_preserved {h' : Heap} {ps : List Ptr} (rep : Represents s c)
    (preserves : Preserves ps s.heap h') :
    c.link.map (entry h') = c.link.map (entry s.heap) := by
  apply List.map_congr_left
  intro q member
  have old := Heap.live_lt_fresh (rep.link.live q member)
  have name_old := Heap.live_lt_fresh (rep.link.names q member)
  simp only [entry, fdOf, pathOf, preserves.fd q old, preserves.filename q old,
    preserves.chars _ name_old]

/-- The chosen record is the newest one when no older one is hot. -/
theorem chosen_newest (rep : Represents s c) (only : OnlyNewestHot s fd)
    (chosen : Chosen s.heap c fd x) :
    c.link.find? (fun q => fdOf s.heap q = fd) = some x := by
  obtain ⟨same, member, cold⟩ := chosen
  by_cases hot : x ∈ c.hot
  · obtain ⟨j, inside, rfl⟩ := List.getElem_of_mem hot
    have slot := (slots_at rep.hot.slots j inside).1
    rw [Int.zero_add] at slot
    have newest := only j (by rw [rep.hot.count]; simpa using inside) (by rw [slot]; exact same)
    rw [findRecordInLink_spec rep.link.head rep.link.ring rep.link.live fd, slot,
      Except.ok.injEq] at newest
    cases found : c.link.find? (fun q => fdOf s.heap q = fd) with
    | none =>
      rw [found, Option.getD_none] at newest
      exact absurd newest.symm (Heap.live_ne_null (rep.hot.live _ hot))
    | some y =>
      rw [found, Option.getD_some] at newest
      rw [newest]
  · exact cold hot

theorem find?_entries (h : Heap) (link : List Ptr) (fd : Word) :
    (link.map (entry h)).find? (fun e => e.1 = fd)
      = (link.find? fun q => fdOf h q = fd).map (entry h) := by
  rw [List.find?_map]
  rfl

/-- Taking the newest record out of the list is erasing the first match. -/
theorem erase_newest {h : Heap} {link : List Ptr}
    (newest : link.find? (fun q => fdOf h q = fd) = some x) :
    (link.erase x).map (entry h) = (link.map (entry h)).eraseP fun e => e.1 = fd := by
  obtain ⟨here, older, younger, rfl, before⟩ := List.find?_eq_some_iff_append.mp newest
  have out : x ∉ older := fun member => by
    simpa [here] using before x member
  rw [erase_middle out, List.map_append, List.map_append, List.map_cons,
    List.eraseP_append_right, List.eraseP_cons_of_pos]
  · exact here
  · intro e member
    obtain ⟨q, inside, rfl⟩ := List.mem_map.mp member
    have other : ¬ fdOf h q = fd := by simpa using before q inside
    exact fun same => other (of_decide_eq_true same)

/-- An insert without a path or without room. -/
theorem listStep_short (l : List (Word × CString)) (fd : Word) {path : Option CString}
    {recordRoom nameRoom : Bool} (short : path = none ∨ (recordRoom && nameRoom) = false) :
    listStep l (.insert fd path recordRoom nameRoom) = (l, .inserted) := by
  rcases short with rfl | full
  · rfl
  · cases path <;> cases recordRoom <;> cases nameRoom <;> first | rfl | simp at full

/-- One operation on the cache is one operation on the list. -/
theorem fdStep_lists (s : FdState) (l : List (Word × CString)) (call : FdCall)
    (lists : Lists s l) (admitted : NoOlderHot s call) :
    ∃ t, fdStep s call = .ok (t, (listStep l call).2) ∧ Lists t (listStep l call).1 := by
  obtain ⟨c, rep, rfl⟩ := lists
  cases call with
  | insert fd path recordRoom nameRoom =>
    rcases insert_cases path recordRoom nameRoom with short | ⟨text, rfl, rfl, rfl⟩
    · obtain ⟨h, run, -, preserves⟩ := fdStep_insert_fails s fd path recordRoom nameRoom short
      rw [listStep_short _ fd short]
      exact ⟨_, run, c, rep.preserved rfl preserves, entries_preserved rep preserves⟩
    · obtain ⟨t, c', run, rep_t, link, new, preserves⟩ := fdStep_insert rep fd text
      refine ⟨t, run, c', rep_t, ?_⟩
      rw [link, List.map_cons, entries_preserved rep preserves]
      simp only [listStep, entry, new.fd, new.path]
  | get fd =>
    rcases fdStep_get rep fd with ⟨t, c', x, run, rep_t, edits, chosen, link⟩ | ⟨run, absent⟩
    · have newest := chosen_newest rep admitted chosen
      refine ⟨t, ?_, c', rep_t, ?_⟩
      · rw [run, listStep, find?_entries, newest]
        rfl
      · rw [link, entries_preserved rep edits.preserves]
        rfl
    · have none_found : c.link.find? (fun q => fdOf s.heap q = fd) = none := by
        simpa using absent
      refine ⟨s, ?_, c, rep, rfl⟩
      rw [run, listStep, find?_entries, none_found]
      rfl
  | delete fd =>
    rcases fdStep_delete rep fd with ⟨t, c', x, run, rep_t, edits, chosen, link⟩ | ⟨run, absent⟩
    · have newest := chosen_newest rep admitted chosen
      have there : (c.link.map (entry s.heap)).any (fun e => e.1 = fd) = true := by
        rw [List.any_map, List.any_eq_true]
        exact ⟨x, chosen.2.1, decide_eq_true chosen.1⟩
      refine ⟨t, ?_, c', rep_t, ?_⟩
      · rw [run, listStep, there]
      · rw [link, listStep, ← erase_newest newest]
        apply List.map_congr_left
        intro q member
        exact congrFun (funext fun q => by
          simp only [entry, fdOf, pathOf, edits.fd, edits.filename, edits.chars]) q
    · have gone : ∀ e ∈ c.link.map (entry s.heap), ¬ e.1 = fd := by
        intro e member
        obtain ⟨q, inside, rfl⟩ := List.mem_map.mp member
        exact absent q inside
      refine ⟨s, ?_, c, rep, ?_⟩
      · rw [run, listStep]
        have none_there : (c.link.map (entry s.heap)).any (fun e => e.1 = fd) = false := by
          rw [List.any_eq_false]
          intro e member
          simpa using gone e member
        rw [none_there]
      · rw [listStep, List.eraseP_of_forall_not]
        intro e member
        simpa using gone e member

end Step

/-- In every run from `fd_cache_initize` in which no lookup or delete finds an older
record of its descriptor in the hot cache, all answers are those of the full list. -/
theorem hot_cache_transparent (h : Heap) (filename : Ptr) (s : FdState)
    (started : fdCacheInitize h filename = .ok s) (calls : List FdCall)
    (admitted : Admitted fdStep NoOlderHot s calls) :
    ∃ t, run fdStep s calls = .ok (t, (runSpec listStep [] calls).2) ∧
      Lists t (runSpec listStep [] calls).1 := by
  obtain ⟨t, ran, lists, -⟩ := run_simulates
    (fun s l calls => Lists s l ∧ Admitted fdStep NoOlderHot s calls)
    (fun s l call calls ⟨lists, admitted⟩ => by
      obtain ⟨t, step, lists'⟩ := fdStep_lists s l call lists admitted.1
      refine ⟨t, step, lists', ?_⟩
      have rest := admitted.2
      rw [step] at rest
      exact rest)
    calls s [] ⟨⟨_, initized_represents started, rfl⟩, admitted⟩
  exact ⟨t, ran, lists⟩

/-- Paths of one letter. -/
def letterA : CString := ⟨[65], by decide, by decide⟩
def letterB : CString := ⟨[66], by decide, by decide⟩
def letterC : CString := ⟨[67], by decide, by decide⟩

/-- A descriptor leaves the hot array before it is inserted again under another path; with the new
record deleted, the older one answers. -/
theorem hot_cache_transparent_reinserted :
    let others : List FdCall := (List.range 16).map fun i =>
      .insert (BitVec.ofNat 32 (i + 6)) (some letterB) true true
    fdCacheInitize Heap.unused NULL = .ok unnamed ∧
    ∃ t, run fdStep unnamed (.insert 5 (some letterA) true true :: others ++
        [.insert 5 (some letterC) true true, .get 5, .delete 5, .get 5, .get 9, .get 4]) =
        .ok (t, List.replicate 18 .inserted ++ [.path (some letterC), .deleted true,
          .path (some letterA), .path (some letterB), .path none]) := by
  refine ⟨rfl, ?_⟩
  obtain ⟨t, ran, -⟩ := hot_cache_transparent Heap.unused NULL unnamed rfl
    (.insert 5 (some letterA) true true :: (List.range 16).map (fun i =>
      .insert (BitVec.ofNat 32 (i + 6)) (some letterB) true true) ++
      [.insert 5 (some letterC) true true, .get 5, .delete 5, .get 5, .get 9, .get 4])
    (by decide +kernel)
  refine ⟨t, ran.trans ?_⟩
  congr 2

/-- Three inserts of one descriptor: the bisection stops at the middle one, so a lookup
answers its path and not the newest. -/
theorem older_path_answered :
    ¬ ∀ (h : Heap) (filename : Ptr) (s : FdState) (calls : List FdCall),
      fdCacheInitize h filename = .ok s →
      ∃ t, run fdStep s calls = .ok (t, (runSpec listStep [] calls).2) := by
  intro transparent
  obtain ⟨t, ran⟩ := transparent Heap.unused NULL unnamed
    [.insert 5 (some letterA) true true, .insert 5 (some letterB) true true,
      .insert 5 (some letterC) true true, .get 5] rfl
  have answered : (run fdStep unnamed [.insert 5 (some letterA) true true,
      .insert 5 (some letterB) true true, .insert 5 (some letterC) true true, .get 5]).map Prod.snd
      = .ok [.inserted, .inserted, .inserted, .path (some letterB)] := by decide +kernel
  rw [ran] at answered
  revert answered
  simp [Except.map, runSpec, listStep, letterB, letterC]

end SysMonitor.Guarantees.FdTransparency
