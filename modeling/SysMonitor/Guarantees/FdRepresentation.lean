import SysMonitor.Library.Runs
import SysMonitor.Source.FdOperations

/-!
# The three structures of the fd cache stay consistent

One step lemma for the three operations on any state that represents something, with
any descriptors, repeated or not; from it every run from `fd_cache_initize` keeps the
representation invariant and never faults, which covers the assertions, the bisections'
and shifts' array indices, and every pointer that is followed.
-/

namespace SysMonitor.Guarantees.FdRepresentation
open SysMonitor.Library SysMonitor.Library.LinkedRing SysMonitor.Source
open SysMonitor.Source.FdCache

/-- Every operation runs without a fault and keeps the invariant. -/
theorem fdStep_represents {s : FdState} {c : Contents} (rep : Represents s c) (call : FdCall) :
    ∃ t answer c', fdStep s call = .ok (t, answer) ∧ Represents t c' := by
  cases call with
  | insert fd path recordRoom nameRoom =>
    rcases insert_cases path recordRoom nameRoom with short | ⟨text, rfl, rfl, rfl⟩
    · obtain ⟨h, run, -, preserves⟩ := fdStep_insert_fails s fd path recordRoom nameRoom short
      exact ⟨_, _, c, run, rep.preserved rfl preserves⟩
    · obtain ⟨t, c', run, rep_t, -⟩ := fdStep_insert rep fd text
      exact ⟨t, _, c', run, rep_t⟩
  | get fd =>
    rcases fdStep_get rep fd with ⟨t, c', x, run, rep_t, -⟩ | ⟨run, -⟩
    · exact ⟨t, _, c', run, rep_t⟩
    · exact ⟨s, _, c, run, rep⟩
  | delete fd =>
    rcases fdStep_delete rep fd with ⟨t, c', x, run, rep_t, -⟩ | ⟨run, -⟩
    · exact ⟨t, _, c', run, rep_t⟩
    · exact ⟨s, _, c, run, rep⟩

/-- The state right after `fd_cache_initize`. -/
theorem initized_represents {h : Heap} {filename : Ptr} {s : FdState}
    (started : fdCacheInitize h filename = .ok s) : Represents s ⟨[], [], []⟩ := by
  have readable : filename = NULL ∨ h.kind filename = some .chars := by
    by_contra unreadable
    rw [not_or] at unreadable
    simp [fdCacheInitize, printChars, follow, unreadable.1, unreadable.2] at started
  obtain ⟨t, run, -, rep⟩ := fdCacheInitize_spec h filename readable
  rw [run, Except.ok.injEq] at started
  exact started ▸ rep

/-- In every run from `fd_cache_initize`, with any descriptors, nothing faults and the
full list, the sorted array and the circular list are well formed and agree. -/
theorem run_keeps_representation (h : Heap) (filename : Ptr) (s : FdState)
    (started : fdCacheInitize h filename = .ok s) (calls : List FdCall) :
    ∃ t answers c, run fdStep s calls = .ok (t, answers) ∧ Represents t c ∧
      0 ≤ t.area.hotCount ∧ t.area.hotCount ≤ HOT_FD_CACHE_SIZE ∧ c.hot.Nodup ∧
      (t.area.hotFdHead = NULL ↔ t.area.hotCount = 0) := by
  obtain ⟨t, answers, ran, c, rep⟩ := run_preserves (fun s => ∃ c, Represents s c)
    (fun s call ⟨c, rep⟩ => by
      obtain ⟨t, answer, c', step, rep'⟩ := fdStep_represents rep call
      exact ⟨t, answer, step, c', rep'⟩) calls s ⟨_, initized_represents started⟩
  refine ⟨t, answers, c, ran, rep, ?_, ?_, rep.hot.nodup, ?_⟩
  · rw [rep.hot.count]; omega
  · rw [rep.hot.count]; exact rep.hot.room
  · have ring := rep.hot.ring
    have length := rep.hot.same.length_eq
    rw [rep.hot.count]
    cases age : c.age with
    | nil =>
      rw [age] at ring length
      apply iff_of_true ring
      rw [← length]
      rfl
    | cons a xs =>
      rw [age] at ring length
      have live := rep.hot.live a (rep.hot.same.mem_iff.mp (by simp [age]))
      refine iff_of_false ?_ ?_
      · rw [ring.1]; exact Heap.live_ne_null live
      · rw [← length]; simp; omega

/-- The cache of a process whose binary path is not known, before anything is in it. -/
def unnamed : FdState := ⟨Heap.unused, ⟨0, 0, NULL, NULL, fun _ => NULL⟩⟩

/-- Two descriptors, one of them twice, looked up and deleted. -/
theorem run_keeps_representation_repeated :
    ∃ t answers c, run fdStep unnamed
        [.insert 5 (some .empty) true true, .insert 3 (some .empty) true true,
          .insert 5 (some .empty) true true, .get 5, .delete 5] = .ok (t, answers) ∧
      Represents t c ∧ 0 ≤ t.area.hotCount ∧ t.area.hotCount ≤ HOT_FD_CACHE_SIZE ∧ c.hot.Nodup ∧
      (t.area.hotFdHead = NULL ↔ t.area.hotCount = 0) :=
  run_keeps_representation Heap.unused NULL unnamed rfl _

end SysMonitor.Guarantees.FdRepresentation
