import SysMonitor.Guarantees.ProcessMaps
import SysMonitor.Source.ThreadedFiles

/-!
# The logged path is the path of the open file

The caches are kept apart by pid but the descriptors are shared. An entry stays right as
long as only its own thread closes the descriptor: a close by another thread leaves it, and
the next file opened under the number is logged under the old path.
-/

namespace SysMonitor.Guarantees.LoggedPath
open SysMonitor.Library SysMonitor.Source SysMonitor.Source.FdCache SysMonitor.Source.Process
open SysMonitor.Guarantees.FdTransparency SysMonitor.Guarantees.FdMap
open SysMonitor.Guarantees.ProcessMaps SysMonitor.Guarantees.HeapSafety

/-- The threads are these, and an open returns an unused descriptor. -/
def Permitted (threads : List Int) (s : Threads) (e : Int × ThreadAct) : Prop :=
  e.1 ∈ threads ∧
  match s.stage e.1, e.2 with
  | .opening _, .go answers => s.table answers.fd = none
  | _, _ => True

/-- A thread is about to cache this descriptor. -/
def holds (stage : Stage) (fd : Word) : Bool :=
  match stage with
  | .opened fd' => fd' = fd
  | .named fd' _ => fd' = fd
  | .found _ fd' _ => fd' = fd
  | _ => false

/-- Whether a task has the descriptor cached. -/
def caches (k : Kernel) (task : Task) (fd : Word) : Bool :=
  (cached k task).any fun x => fdOf k.heap x = fd

/-- A close finds the descriptor in no other thread's cache, unless that thread is about to
delete it or dead, and on no other thread's way there. The allocations for a path succeed: where
an open gets none it falls back on the same path or on nothing, and where a use gets none its
record has none. -/
def Undisturbed (owner : Int → TimeSpec) (threads : List Int) (s : Threads)
    (e : Int × ThreadAct) : Prop :=
  match s.stage e.1, e.2 with
  | .idle, .start (.use _) _ _ room =>
    s.kernel.recordOf e.1 ≠ NULL ∨ ((0 ≤ e.1 ∧ e.1 < HASH_SLOT_SIZE) ∧ room = true)
  | .opened fd, .go answers =>
    (answers.tmpRoom = true ∧ answers.pathRoom = true) ∨
      answers.fallback.all fun text => text = none ∨ text = s.table fd
  | .asking .use _, .go answers => answers.copyRoom = true
  | .missed .use _, .go answers => answers.tmpRoom = true ∧ answers.pathRoom = true
  | .found .use _ _, .go answers => answers.recordRoom = true ∧ answers.nameRoom = true
  | .stored .use _, .go answers => answers.copyRoom = true
  | .closing fd, .go _ => (s.table fd).isSome → ∀ j ∈ threads, j ≠ e.1 →
      (caches s.kernel ⟨j, owner j⟩ fd = true → s.stage j = .closed fd ∨ s.stage j = .dead) ∧
        holds (s.stage j) fd = false
  | _, _ => True

/-- A record that a use of an open descriptor gets has the path that the table has then. -/
def LogsOpenFile (s : Threads) (_ : Int × ThreadAct) (_ : Threads) (record : Option Record) : Prop :=
  ∀ fd path, record = some (fd, path) → s.table fd ≠ none → path = s.table fd

/-- A task's own map, and where it stands. -/
structure Fits (m : PathMaps) (table : Word → Option CString) (pid : Int) (stage : Stage) :
    Prop where
  /-- What is cached is what is open, but for a descriptor that is about to be deleted and for
  what a dead thread has left. -/
  coherent : ∀ fd path, cachedPath m pid fd = some path →
    table fd = some path ∨ stage = .closed fd ∨ stage = .dead
  opened : ∀ fd, stage = .opened fd → table fd ≠ none ∧ cachedPath m pid fd = none
  named : ∀ fd text, stage = .named fd text →
    (text = none ∨ text = table fd) ∧ cachedPath m pid fd = none
  missed : ∀ purpose fd, stage = .missed purpose fd → cachedPath m pid fd = none
  found : ∀ purpose fd text, stage = .found purpose fd text →
    table fd = some text ∧ cachedPath m pid fd = none
  stored : ∀ fd, stage = .stored .use fd → cachedPath m pid fd ≠ none
  record : ∀ fd, (stage = .asking .use fd ∨ stage = .missed .use fd ∨
    ∃ text, stage = .found .use fd text) → (m pid).isSome

/-- The whole system between two steps. -/
def Orderly (owner : Int → TimeSpec) (threads : List Int) (s : Threads) : Prop :=
  ∃ m, Mapped owner s.kernel m ∧ (∀ j, Fits m s.table j (s.stage j)) ∧
    ∀ j, j ∉ threads → (∀ fd, cachedPath m j fd = none) ∧ s.stage j = .idle

section Fitting

variable {owner : Int → TimeSpec} {k : Kernel} {m m' : PathMaps}
  {table : Word → Option CString} {pid : Int} {stage : Stage}

theorem caches_iff (mapped : Mapped owner k m) (task : Task) (fd : Word) :
    caches k task fd = true ↔ cachedPath m task.pid fd ≠ none := by
  obtain ⟨records, contents, holds⟩ := mapped
  rw [caches, List.any_eq_true]
  constructor
  · rintro ⟨x, inside, same⟩
    have found := (holds.cachedPath_mem inside).2.2
    rw [of_decide_eq_true same] at found
    rw [found]
    simp
  · intro there
    by_contra absent
    refine there (holds.cachedPath_none fun x inside same => absent ⟨x, inside, ?_⟩)
    exact decide_eq_true same

/-- A thread that is at none of the places that `Fits` speaks of. -/
theorem fits_quiet (coherent : ∀ fd path, cachedPath m pid fd = some path → table fd = some path)
    (quiet : stage = .idle ∨ (∃ path, stage = .opening path) ∨ (∃ fd, stage = .closing fd) ∨
      ∃ fd, stage = .asking .warn fd ∨ stage = .asking .close fd) : Fits m table pid stage := by
  rcases quiet with rfl | ⟨path, rfl⟩ | ⟨fd, rfl⟩ | ⟨fd, rfl | rfl⟩ <;>
    exact ⟨fun fd path found => .inl (coherent fd path found), by simp, by simp, by simp, by simp,
      by simp, by simp⟩

theorem fits_dead (m : PathMaps) (table : Word → Option CString) (pid : Int) :
    Fits m table pid .dead :=
  ⟨fun _ _ _ => .inr (.inr rfl), by simp, by simp, by simp, by simp, by simp, by simp⟩

/-- A path that `get_absolute_path_by_fd` answers is that of the table. -/
theorem tablePath_text {fd : Word} {answers : StepAnswers} {text : CString}
    (found : tablePath table fd answers = some (some text)) : table fd = some text := by
  unfold tablePath at found
  split at found
  · cases found
  · have path := Option.some.inj found
    unfold FileAnswers.text at path
    split at path
    · exact (Option.filter_eq_some_iff.mp path).1
    · cases path

/-- NULL is answered for an open file only where there is no room. -/
theorem tablePath_null {fd : Word} {answers : StepAnswers}
    (room : answers.tmpRoom = true ∧ answers.pathRoom = true)
    (found : tablePath table fd answers = some none) : table fd = none := by
  by_contra there
  have file : (table fd).isSome := Option.isSome_iff_ne_none.mpr there
  unfold tablePath at found
  split at found
  · cases found
  · rename_i alive
    have path := Option.some.inj found
    rw [FileAnswers.text, if_pos ⟨file, room⟩] at path
    apply alive
    rw [FileAnswers.dies, path]
    simp [fileAnswers, file, room.1]

/-- What fits depends on the thread's own map only. -/
theorem Fits.congr (fits : Fits m table pid stage) (same : m' pid = m pid) :
    Fits m' table pid stage := by
  have paths : ∀ fd, cachedPath m' pid fd = cachedPath m pid fd := fun fd => by
    rw [cachedPath, same, cachedPath]
  refine ⟨?_, ?_, ?_, ?_, ?_, ?_, ?_⟩ <;> simp only [paths, same]
  · exact fits.coherent
  · exact fits.opened
  · exact fits.named
  · exact fits.missed
  · exact fits.found
  · exact fits.stored
  · exact fits.record

/-- Another thread opens an unused descriptor. -/
theorem Fits.opens (fits : Fits m table pid stage) {fd : Word} (unused : table fd = none)
    (path : CString) : Fits m (Function.update table fd (some path)) pid stage where
  coherent fd' text cached := by
    rcases fits.coherent fd' text cached with there | closed
    · have other : fd' ≠ fd := by
        rintro rfl
        rw [unused] at there
        cases there
      rw [Function.update_of_ne other]
      exact .inl there
    · exact .inr closed
  opened fd' at_opened := by
    obtain ⟨there, uncached⟩ := fits.opened fd' at_opened
    have other : fd' ≠ fd := by
      rintro rfl
      exact there unused
    rw [Function.update_of_ne other]
    exact ⟨there, uncached⟩
  named fd' text at_named := by
    obtain ⟨same, uncached⟩ := fits.named fd' text at_named
    refine ⟨?_, uncached⟩
    rcases same with none | same
    · exact .inl none
    · by_cases here : fd' = fd
      · rw [here, unused] at same
        exact .inl same
      · rw [Function.update_of_ne here]
        exact .inr same
  missed := fits.missed
  found purpose fd' text at_found := by
    obtain ⟨there, uncached⟩ := fits.found purpose fd' text at_found
    have other : fd' ≠ fd := by
      rintro rfl
      rw [unused] at there
      cases there
    rw [Function.update_of_ne other]
    exact ⟨there, uncached⟩
  stored := fits.stored
  record := fits.record

/-- Another thread closes a descriptor that this one neither has nor gets. -/
theorem Fits.closes (fits : Fits m table pid stage) {fd : Word}
    (uncached : cachedPath m pid fd ≠ none → stage = .closed fd ∨ stage = .dead)
    (free : holds stage fd = false) :
    Fits m (Function.update table fd none) pid stage where
  coherent fd' text cached := by
    by_cases here : fd' = fd
    · rw [here] at cached
      rw [here]
      exact .inr (uncached (by rw [cached]; simp))
    · rw [Function.update_of_ne here]
      exact fits.coherent fd' text cached
  opened fd' at_opened := by
    have other : fd' ≠ fd := by
      rintro rfl
      simp [at_opened, holds] at free
    rw [Function.update_of_ne other]
    exact fits.opened fd' at_opened
  named fd' text at_named := by
    have other : fd' ≠ fd := by
      rintro rfl
      simp [at_named, holds] at free
    rw [Function.update_of_ne other]
    exact fits.named fd' text at_named
  missed := fits.missed
  found purpose fd' text at_found := by
    have other : fd' ≠ fd := by
      rintro rfl
      simp [at_found, holds] at free
    rw [Function.update_of_ne other]
    exact fits.found purpose fd' text at_found
  stored := fits.stored
  record := fits.record

end Fitting

/-- What a step of one thread leaves. -/
structure Advanced (owner : Int → TimeSpec) (s : Threads) (m : PathMaps) (pid : Int)
    (m' : PathMaps) (k' : Kernel) (table' : Word → Option CString) (stage' : Stage)
    (record : Option Record) : Prop where
  mapped : Mapped owner k' m'
  same : ∀ j, j ≠ pid → m' j = m j
  own : Fits m' table' pid stage'
  others : ∀ j, j ≠ pid → Fits m table' j (s.stage j)
  logs : ∀ fd path, record = some (fd, path) → s.table fd ≠ none → path = s.table fd

/-- A thread at this stage takes a step. -/
def Advances (owner : Int → TimeSpec) (s : Threads) (m : PathMaps) (pid : Int) (stage : Stage)
    (answers : StepAnswers) : Prop :=
  ∃ m' k' table' stage' record,
    goOn s ⟨pid, owner pid⟩ answers stage = .ok (k', table', stage', record) ∧
      Advanced owner s m pid m' k' table' stage' record

section Stages

variable {owner : Int → TimeSpec} {threads : List Int} {s : Threads} {m : PathMaps} {pid : Int}
  {answers : StepAnswers}

theorem no_record {table : Word → Option CString} :
    ∀ fd path, (none : Option Record) = some (fd, path) → table fd ≠ none → path = table fd := by
  simp

/-- A thread goes to another stage and does nothing else. -/
theorem advances_only (mapped : Mapped owner s.kernel m) (fits : ∀ j, Fits m s.table j (s.stage j))
    {stage stage' : Stage} (ran : goOn s ⟨pid, owner pid⟩ answers stage
      = .ok (s.kernel, s.table, stage', none)) (own : Fits m s.table pid stage') :
    Advances owner s m pid stage answers :=
  ⟨m, s.kernel, s.table, stage', none, ran, mapped, fun _ _ => rfl, own, fun j _ => fits j,
    no_record⟩

/-- Everywhere but before a delete, what a thread has cached is open. -/
theorem Fits.cached_open {table : Word → Option CString} {stage : Stage}
    (fits : Fits m table pid stage) (steady : ∀ fd, stage ≠ .closed fd) (alive : stage ≠ .dead) :
    ∀ fd path, cachedPath m pid fd = some path → table fd = some path := by
  intro fd path cached
  rcases fits.coherent fd path cached with there | closed | dead
  · exact there
  · exact absurd closed (steady fd)
  · exact absurd dead alive

theorem Fits.unused {table : Word → Option CString} {stage : Stage}
    (fits : Fits m table pid stage) (steady : ∀ fd, stage ≠ .closed fd) (alive : stage ≠ .dead)
    {fd : Word} (unused : table fd = none) : cachedPath m pid fd = none := by
  rw [Option.eq_none_iff_forall_ne_some]
  intro path cached
  have there := fits.cached_open steady alive fd path cached
  rw [unused] at there
  cases there

theorem opening_advances (mapped : Mapped owner s.kernel m) {path : CString}
    (fits : ∀ j, Fits m s.table j (s.stage j)) (here : s.stage pid = .opening path)
    (unused : s.table answers.fd = none) : Advances owner s m pid (.opening path) answers := by
  have own := (fits pid).opens unused path
  rw [here] at own
  have uncached := (fits pid).unused (by simp [here]) (by simp [here]) unused
  refine ⟨m, _, _, _, _, rfl, mapped, fun _ _ => rfl, ?_, fun j _ => (fits j).opens unused path,
    no_record⟩
  have steady := own.cached_open (by simp) (by simp)
  refine ⟨fun fd text cached => .inl (steady fd text cached), ?_, by simp, by simp, by simp,
    by simp, by simp⟩
  rintro fd ⟨⟩
  rw [Function.update_self]
  exact ⟨by simp, uncached⟩

theorem opened_advances (mapped : Mapped owner s.kernel m) {fd : Word}
    (fits : ∀ j, Fits m s.table j (s.stage j)) (here : s.stage pid = .opened fd)
    (sound : (answers.tmpRoom = true ∧ answers.pathRoom = true) ∨
      answers.fallback.all fun text => text = none ∨ text = s.table fd) :
    Advances owner s m pid (.opened fd) answers := by
  have steady := (fits pid).cached_open (by simp [here]) (by simp [here])
  obtain ⟨there, uncached⟩ := (fits pid).opened fd here
  have named : ∀ text, text = none ∨ text = s.table fd → Fits m s.table pid (.named fd text) := by
    intro text same
    refine ⟨fun fd text cached => .inl (steady fd text cached), by simp, ?_, by simp, by simp,
      by simp, by simp⟩
    rintro fd text ⟨⟩
    exact ⟨same, uncached⟩
  cases found : tablePath s.table fd answers with
  | none => exact advances_only mapped fits (by rw [goOn, found]) (fits_dead m s.table pid)
  | some path =>
    cases path with
    | some text =>
      have same := (tablePath_text found).symm
      exact advances_only mapped fits (by rw [goOn, found]) (named _ (.inr same))
    | none =>
      cases left : answers.fallback with
      | none => exact advances_only mapped fits (by rw [goOn, found, left]) (fits_dead m s.table pid)
      | some text =>
        have short : ¬(answers.tmpRoom = true ∧ answers.pathRoom = true) := fun room =>
          there (tablePath_null room found)
        have same := sound.resolve_left short
        rw [left, Option.all_some, decide_eq_true_iff] at same
        exact advances_only mapped fits (by rw [goOn, found, left]) (named text same)

/-- A cache that gained nothing but the path of an open file. -/
theorem inserted_open {table : Word → Option CString} {fd : Word} {text : Option CString}
    (recordRoom nameRoom : Bool)
    (steady : ∀ fd path, cachedPath m pid fd = some path → table fd = some path)
    (sound : text = none ∨ text = table fd) :
    ∀ fd' path, cachedPath (inserted m pid fd text recordRoom nameRoom) pid fd' = some path →
      table fd' = some path := by
  intro fd' path cached
  rw [cachedPath_inserted] at cached
  split at cached
  · rename_i new
    rw [new.2.1, ← cached]
    exact (sound.resolve_left new.2.2.2.1).symm
  · exact steady fd' path cached

theorem inserted_same (m : PathMaps) (pid : Int) (fd : Word) (text : Option CString)
    (recordRoom nameRoom : Bool) {j : Int} (other : j ≠ pid) :
    inserted m pid fd text recordRoom nameRoom j = m j :=
  Function.update_of_ne other ..

theorem named_advances (mapped : Mapped owner s.kernel m) {fd : Word} {text : Option CString}
    (fits : ∀ j, Fits m s.table j (s.stage j)) (here : s.stage pid = .named fd text) :
    Advances owner s m pid (.named fd text) answers := by
  have steady := (fits pid).cached_open (by simp [here]) (by simp [here])
  obtain ⟨sound, uncached⟩ := (fits pid).named fd text here
  obtain ⟨records, contents, holds⟩ := mapped
  obtain ⟨k', contents', ran, -, kept⟩ := insert_holds holds ⟨pid, owner pid⟩ fd text
    answers.recordRoom answers.nameRoom fun _ _ _ => uncached
  refine ⟨_, k', s.table, .idle, none, ?_, ⟨records, contents', kept⟩,
    fun j other => inserted_same _ _ _ _ _ _ other, ?_, fun j _ => fits j, no_record⟩
  · rw [goOn, ran, ok_bind]
    rfl
  · exact fits_quiet (inserted_open _ _ steady sound) (.inl rfl)

/-- After a lookup a thread is done or goes on to the original close. -/
theorem looked_up {m' : PathMaps} {k' : Kernel} {fd : Word} {path : Option CString}
    (mapped : Mapped owner k' m') (same : ∀ j, j ≠ pid → m' j = m j)
    (steady : ∀ fd path, cachedPath m' pid fd = some path → s.table fd = some path)
    (others : ∀ j, j ≠ pid → Fits m s.table j (s.stage j)) (purpose : Purpose)
    (logs : purpose = .use → s.table fd ≠ none →
      (if answers.copyRoom then path else none) = s.table fd) :
    Advanced owner s m pid m' k' s.table (afterLookup fd path answers purpose).1
      (afterLookup fd path answers purpose).2 := by
  cases purpose with
  | use =>
    refine ⟨mapped, same, fits_quiet steady (.inl rfl), others, ?_⟩
    intro fd' path' logged
    obtain ⟨rfl, rfl⟩ := Prod.mk.inj (Option.some.inj logged)
    exact logs rfl
  | close => exact ⟨mapped, same, fits_quiet steady (.inr (.inr (.inl ⟨fd, rfl⟩))), others, no_record⟩
  | warn => exact ⟨mapped, same, fits_quiet steady (.inl rfl), others, no_record⟩

theorem asking_advances (mapped : Mapped owner s.kernel m) {purpose : Purpose} {fd : Word}
    (fits : ∀ j, Fits m s.table j (s.stage j)) (here : s.stage pid = .asking purpose fd)
    (room : purpose = .use → answers.copyRoom = true) :
    Advances owner s m pid (.asking purpose fd) answers := by
  have steady := (fits pid).cached_open (by simp [here]) (by simp [here])
  obtain ⟨records, contents, holds⟩ := mapped
  obtain ⟨k', path, contents', ran, -, kept, answer, -⟩ := lookup_holds holds ⟨pid, owner pid⟩ fd
  have mapped' : Mapped owner k' m := ⟨records, contents', kept⟩
  unfold Advances
  rw [goOn, ran, ok_bind]
  dsimp only
  rw [answer, ok_bind]
  cases found : cachedPath m pid fd with
  | none =>
    refine ⟨m, k', s.table, .missed purpose fd, none, rfl, mapped', fun _ _ => rfl, ?_,
      fun j _ => fits j, no_record⟩
    refine ⟨fun fd text cached => .inl (steady fd text cached), by simp, by simp, ?_, by simp,
      by simp, ?_⟩
    · rintro purpose' fd' ⟨⟩
      exact found
    · rintro fd' (⟨⟨⟩⟩ | same | ⟨text, ⟨⟩⟩)
      obtain ⟨rfl, rfl⟩ := Stage.missed.inj same
      exact (fits pid).record fd (.inl here)
  | some text =>
    refine ⟨m, k', s.table, _, _, rfl,
      looked_up mapped' (fun _ _ => rfl) steady (fun j _ => fits j) purpose fun use _ => ?_⟩
    rw [room use, steady fd text found]
    rfl

theorem missed_advances (mapped : Mapped owner s.kernel m) {purpose : Purpose} {fd : Word}
    (fits : ∀ j, Fits m s.table j (s.stage j)) (here : s.stage pid = .missed purpose fd)
    (room : purpose = .use → answers.tmpRoom = true ∧ answers.pathRoom = true) :
    Advances owner s m pid (.missed purpose fd) answers := by
  have steady := (fits pid).cached_open (by simp [here]) (by simp [here])
  have uncached := (fits pid).missed purpose fd here
  rcases found : tablePath s.table fd answers with _ | _ | text
  · exact advances_only mapped fits (by rw [goOn, found]) (fits_dead m s.table pid)
  · refine ⟨m, s.kernel, s.table, _, _, by rw [goOn, found],
      looked_up mapped (fun _ _ => rfl) steady (fun j _ => fits j) purpose fun use there => ?_⟩
    exact absurd (tablePath_null (room use) found) there
  · have there := tablePath_text found
    apply advances_only mapped fits (by rw [goOn, found])
    refine ⟨fun fd text cached => .inl (steady fd text cached), by simp, by simp, by simp, ?_,
      by simp, ?_⟩
    · rintro purpose' fd' text' ⟨⟩
      exact ⟨there, uncached⟩
    · rintro fd' (⟨⟨⟩⟩ | ⟨⟨⟩⟩ | ⟨text', same⟩)
      obtain ⟨rfl, rfl, -⟩ := Stage.found.inj same
      exact (fits pid).record fd (.inr (.inl here))

theorem found_advances (mapped : Mapped owner s.kernel m) {purpose : Purpose} {fd : Word}
    {text : CString} (fits : ∀ j, Fits m s.table j (s.stage j))
    (here : s.stage pid = .found purpose fd text)
    (room : purpose = .use → answers.recordRoom = true ∧ answers.nameRoom = true) :
    Advances owner s m pid (.found purpose fd text) answers := by
  have steady := (fits pid).cached_open (by simp [here]) (by simp [here])
  obtain ⟨there, uncached⟩ := (fits pid).found purpose fd text here
  obtain ⟨records, contents, holds⟩ := mapped
  obtain ⟨k', contents', ran, -, kept⟩ := insert_holds holds ⟨pid, owner pid⟩ fd (some text)
    answers.recordRoom answers.nameRoom fun _ _ _ => uncached
  have steady' := inserted_open answers.recordRoom answers.nameRoom steady
    (.inr there.symm)
  refine ⟨_, k', s.table, .stored purpose fd, none, ?_, ⟨records, contents', kept⟩,
    fun j other => inserted_same _ _ _ _ _ _ other, ?_, fun j _ => fits j, no_record⟩
  · rw [goOn, ran, ok_bind]
    rfl
  · refine ⟨fun fd text cached => .inl (steady' fd text cached), by simp, by simp, by simp, by simp,
      ?_, by simp⟩
    intro fd' same
    obtain ⟨rfl, rfl⟩ := Stage.stored.inj same
    have record := (fits pid).record fd (.inr (.inr ⟨text, here⟩))
    rw [cachedPath_inserted, if_pos ⟨rfl, rfl, record, by simp, room rfl⟩]
    simp

theorem stored_advances (mapped : Mapped owner s.kernel m) {purpose : Purpose} {fd : Word}
    (fits : ∀ j, Fits m s.table j (s.stage j)) (here : s.stage pid = .stored purpose fd)
    (room : purpose = .use → answers.copyRoom = true) :
    Advances owner s m pid (.stored purpose fd) answers := by
  have steady := (fits pid).cached_open (by simp [here]) (by simp [here])
  obtain ⟨records, contents, holds⟩ := mapped
  obtain ⟨k', path, contents', ran, -, kept, answer, -⟩ := lookup_holds holds ⟨pid, owner pid⟩ fd
  unfold Advances
  rw [goOn, ran, ok_bind]
  dsimp only
  rw [answer, ok_bind]
  refine ⟨m, k', s.table, _, _, rfl, looked_up ⟨records, contents', kept⟩ (fun _ _ => rfl) steady
    (fun j _ => fits j) purpose fun use _ => ?_⟩
  rw [use] at here
  obtain ⟨text, found⟩ := Option.ne_none_iff_exists'.mp ((fits pid).stored fd here)
  rw [room use, found, steady fd text found]
  rfl

theorem closing_advances (mapped : Mapped owner s.kernel m) {fd : Word}
    (fits : ∀ j, Fits m s.table j (s.stage j)) (here : s.stage pid = .closing fd)
    (apart : (s.table fd).isSome → ∀ j, j ≠ pid →
      (cachedPath m j fd ≠ none → s.stage j = .closed fd ∨ s.stage j = .dead) ∧
        holds (s.stage j) fd = false) :
    Advances owner s m pid (.closing fd) answers := by
  have steady := (fits pid).cached_open (by simp [here]) (by simp [here])
  by_cases there : (s.table fd).isSome
  · refine ⟨m, s.kernel, _, .closed fd, none, by rw [goOn, if_pos there], mapped, fun _ _ => rfl,
      ?_, ?_, no_record⟩
    · refine ⟨?_, by simp, by simp, by simp, by simp, by simp, by simp⟩
      intro fd' text cached
      by_cases same : fd' = fd
      · exact .inr (.inl (by rw [same]))
      · rw [Function.update_of_ne same]
        exact .inl (steady fd' text cached)
    · intro j other
      obtain ⟨uncached, free⟩ := apart there j other
      exact (fits j).closes uncached free
  · exact advances_only mapped fits (by rw [goOn, if_neg there]) (fits_quiet steady (.inl rfl))

theorem closed_advances (mapped : Mapped owner s.kernel m) {fd : Word}
    (fits : ∀ j, Fits m s.table j (s.stage j)) (here : s.stage pid = .closed fd) :
    Advances owner s m pid (.closed fd) answers := by
  obtain ⟨records, contents, holds⟩ := mapped
  obtain ⟨k', contents', ran, -, kept⟩ := delete_holds holds ⟨pid, owner pid⟩ fd
  have mapped' : Mapped owner k' (deleted m pid fd) := ⟨records, contents', kept⟩
  have same : ∀ j, j ≠ pid → deleted m pid fd j = m j :=
    fun j other => Function.update_of_ne other ..
  have steady : ∀ fd' text, cachedPath (deleted m pid fd) pid fd' = some text →
      s.table fd' = some text := by
    intro fd' text cached
    rw [cachedPath_deleted] at cached
    by_cases deleted_here : fd' = fd
    · rw [if_pos ⟨rfl, deleted_here⟩] at cached
      cases cached
    · rw [if_neg fun both => deleted_here both.2] at cached
      rcases (fits pid).coherent fd' text cached with there | closed | dead
      · exact there
      · rw [here] at closed
        exact absurd (Stage.closed.inj closed).symm deleted_here
      · rw [here] at dead
        cases dead
  unfold Advances
  rw [goOn, ran, ok_bind]
  dsimp only
  by_cases found : (cachedPath m pid fd).isSome
  · rw [if_pos found]
    exact ⟨_, k', s.table, .idle, none, rfl, mapped', same, fits_quiet steady (.inl rfl),
      fun j _ => fits j, no_record⟩
  · rw [if_neg found]
    exact ⟨_, k', s.table, .asking .warn fd, none, rfl, mapped', same,
      fits_quiet steady (.inr (.inr (.inr ⟨fd, .inl rfl⟩))), fun j _ => fits j, no_record⟩

/-- One case for each place a thread can be. -/
theorem advances (mapped : Mapped owner s.kernel m) (fits : ∀ j, Fits m s.table j (s.stage j))
    (outside : ∀ j, j ∉ threads → (∀ fd, cachedPath m j fd = none) ∧ s.stage j = .idle)
    {stage : Stage} (here : s.stage pid = stage) (permitted : Permitted threads s (pid, .go answers))
    (undisturbed : Undisturbed owner threads s (pid, .go answers)) :
    Advances owner s m pid stage answers := by
  unfold Permitted at permitted
  unfold Undisturbed at undisturbed
  dsimp only at permitted undisturbed
  rw [here] at permitted undisturbed
  cases stage with
  | idle =>
    have own := here ▸ fits pid
    exact advances_only mapped fits rfl own
  | dead => exact advances_only mapped fits rfl (fits_dead m s.table pid)
  | opening path => exact opening_advances mapped fits here permitted.2
  | opened fd => exact opened_advances mapped fits here undisturbed
  | named fd text => exact named_advances mapped fits here
  | asking purpose fd =>
    refine asking_advances mapped fits here fun use => ?_
    rw [use] at undisturbed
    exact undisturbed
  | missed purpose fd =>
    refine missed_advances mapped fits here fun use => ?_
    rw [use] at undisturbed
    exact undisturbed
  | found purpose fd text =>
    refine found_advances mapped fits here fun use => ?_
    rw [use] at undisturbed
    exact undisturbed
  | stored purpose fd =>
    refine stored_advances mapped fits here fun use => ?_
    rw [use] at undisturbed
    exact undisturbed
  | closing fd =>
    refine closing_advances mapped fits here fun there j other => ?_
    by_cases inside : j ∈ threads
    · obtain ⟨uncached, free⟩ := undisturbed there j inside other
      exact ⟨fun cached => uncached ((caches_iff mapped ⟨j, owner j⟩ fd).mpr cached), free⟩
    · obtain ⟨empty, idle⟩ := outside j inside
      rw [idle]
      exact ⟨fun cached => absurd (empty fd) cached, rfl⟩
  | closed fd => exact closed_advances mapped fits here

end Stages

section Steps

variable {owner : Int → TimeSpec} {threads : List Int} {s : Threads} {m : PathMaps}

/-- After the step of one thread. -/
theorem Advanced.orderly {pid : Int} {m' : PathMaps} {k' : Kernel}
    {table' : Word → Option CString} {stage' : Stage} {record : Option Record}
    (advanced : Advanced owner s m pid m' k' table' stage' record) (member : pid ∈ threads)
    (outside : ∀ j, j ∉ threads → (∀ fd, cachedPath m j fd = none) ∧ s.stage j = .idle) :
    Orderly owner threads ⟨k', table', Function.update s.stage pid stage'⟩ := by
  refine ⟨m', advanced.mapped, fun j => ?_, fun j absent => ?_⟩ <;> dsimp only
  · by_cases here : j = pid
    · rw [here, Function.update_self]
      exact advanced.own
    · rw [Function.update_of_ne here]
      exact (advanced.others j here).congr (advanced.same j here)
  · have other : j ≠ pid := by
      rintro rfl
      exact absent member
    rw [Function.update_of_ne other]
    have kept := advanced.same j other
    refine ⟨fun fd => ?_, (outside j absent).2⟩
    rw [cachedPath, kept]
    exact (outside j absent).1 fd

/-- A call begins. -/
theorem start_advanced {pid : Int} (mapped : Mapped owner s.kernel m)
    (fits : ∀ j, Fits m s.table j (s.stage j)) (idle : s.stage pid = .idle) (call : HookedCall)
    (path : PathAnswers) (arguments : ArgumentAnswers) (room : Bool)
    (known : ∀ fd, call = .use fd → (m pid).isSome ∨
      ((0 ≤ pid ∧ pid < HASH_SLOT_SIZE) ∧ room = true)) :
    ∃ k', notifyEnter s.kernel ⟨pid, owner pid⟩ path arguments room = .ok k' ∧
      Advanced owner s m pid (entered m pid room) k' s.table call.first none := by
  obtain ⟨k', ran, mapped'⟩ := enter_mapped mapped ⟨pid, owner pid⟩ rfl path arguments room
  have steady : ∀ fd text, cachedPath (entered m pid room) pid fd = some text →
      s.table fd = some text := by
    intro fd text cached
    rw [cachedPath_entered] at cached
    exact (fits pid).cached_open (by simp [idle]) (by simp [idle]) fd text cached
  refine ⟨k', ran, mapped', ?_, ?_, fun j _ => fits j, no_record⟩
  · intro j other
    unfold entered
    split
    · exact Function.update_of_ne other ..
    · rfl
  · cases call with
    | «open» path => exact fits_quiet steady (.inr (.inl ⟨path, rfl⟩))
    | close fd => exact fits_quiet steady (.inr (.inr (.inr ⟨fd, .inr rfl⟩)))
    | use fd =>
      refine ⟨fun fd text cached => .inl (steady fd text cached), by simp [HookedCall.first],
        by simp [HookedCall.first], by simp [HookedCall.first], by simp [HookedCall.first],
        by simp [HookedCall.first], fun _ _ => ?_⟩
      unfold entered
      split
      · rw [Function.update_self]
        rfl
      · rename_i old
        rcases known fd rfl with some | ⟨valid, room⟩
        · exact some
        · by_contra none
          exact old ⟨valid, room, by simpa using none⟩

theorem threadStep_go (pid : Int) (answers : StepAnswers) :
    threadStep owner s (pid, .go answers) = (do
      let (k, table, stage, record) ← goOn s ⟨pid, owner pid⟩ answers (s.stage pid)
      return (⟨k, table, Function.update s.stage pid stage⟩, record)) := by
  unfold threadStep
  dsimp only
  cases s.stage pid <;> rfl

theorem threadStep_start {pid : Int} (idle : s.stage pid = .idle) (call : HookedCall)
    (path : PathAnswers) (arguments : ArgumentAnswers) (room : Bool) :
    threadStep owner s (pid, .start call path arguments room) = (do
      let k ← notifyEnter s.kernel ⟨pid, owner pid⟩ path arguments room
      return (⟨k, s.table, Function.update s.stage pid call.first⟩, none)) := by
  unfold threadStep
  dsimp only
  rw [idle]

theorem threadStep_start_busy {pid : Int} (busy : s.stage pid ≠ .idle) (call : HookedCall)
    (path : PathAnswers) (arguments : ArgumentAnswers) (room : Bool) :
    threadStep owner s (pid, .start call path arguments room) = .ok (s, none) := by
  unfold threadStep
  dsimp only
  cases stage : s.stage pid <;> first | rfl | exact absurd stage busy

theorem threadStep_orderly (orderly : Orderly owner threads s) (e : Int × ThreadAct)
    (permitted : Permitted threads s e) (undisturbed : Undisturbed owner threads s e) :
    ∃ t record, threadStep owner s e = .ok (t, record) ∧ LogsOpenFile s e t record ∧
      Orderly owner threads t := by
  obtain ⟨m, mapped, fits, outside⟩ := orderly
  obtain ⟨pid, act⟩ := e
  have member := permitted.1
  cases act with
  | go answers =>
    obtain ⟨m', k', table', stage', record, ran, advanced⟩ :=
      advances mapped fits outside rfl permitted undisturbed
    refine ⟨_, record, ?_, advanced.logs, advanced.orderly member outside⟩
    rw [threadStep_go, ran]
    rfl
  | start call path arguments room =>
    by_cases idle : s.stage pid = .idle
    · obtain ⟨k', ran, advanced⟩ := start_advanced mapped fits idle call path arguments room (by
        rintro fd rfl
        unfold Undisturbed at undisturbed
        dsimp only at undisturbed
        rw [idle] at undisturbed
        refine undisturbed.imp_left fun real => ?_
        rw [Option.isSome_iff_ne_none]
        obtain ⟨records, contents, holds⟩ := mapped
        exact fun none => real ((holds.absent pid).mp none))
      refine ⟨_, none, ?_, advanced.logs, advanced.orderly member outside⟩
      rw [threadStep_start idle, ran]
      rfl
    · exact ⟨s, none, threadStep_start_busy idle call path arguments room, no_record,
        m, mapped, fits, outside⟩

end Steps

instance (threads : List Int) (s : Threads) (e : Int × ThreadAct) :
    Decidable (Permitted threads s e) := by
  unfold Permitted
  cases s.stage e.1 <;> cases e.2 <;> infer_instance

instance (owner : Int → TimeSpec) (threads : List Int) (s : Threads) (e : Int × ThreadAct) :
    Decidable (Undisturbed owner threads s e) := by
  unfold Undisturbed
  cases s.stage e.1 with
  | idle =>
    cases e.2 with
    | go answers => infer_instance
    | start call path arguments room => cases call <;> infer_instance
  | asking purpose fd => cases e.2 <;> cases purpose <;> infer_instance
  | missed purpose fd => cases e.2 <;> cases purpose <;> infer_instance
  | found purpose fd text => cases e.2 <;> cases purpose <;> infer_instance
  | stored purpose fd => cases e.2 <;> cases purpose <;> infer_instance
  | _ => cases e.2 <;> infer_instance

/-- The loaded driver, with no file open and no thread inside a hook. -/
def started (h : Heap) (process : Ptr → ProcessRecord) : Threads :=
  ⟨processMonitorInit h process, fun _ => none, fun _ => .idle⟩

/-- A call of a thread with no file of its own to look up. -/
def starts (pid : Int) (call : HookedCall) : Int × ThreadAct :=
  (pid, .start call ⟨false, true, none, true⟩ ⟨false, 0, true, 0⟩ true)

/-- A step with room for everything; an original open returns this descriptor. -/
def goes (pid : Int) (fd : Word) : Int × ThreadAct :=
  (pid, .go ⟨fd, true, true, some none, true, true, true⟩)

/-- A path of so many letters. -/
def longPath (n : Nat) (short : n < kernelSpace) : CString where
  bytes := List.replicate n 97
  nulFree inside := by cases List.eq_of_mem_replicate inside
  fits := by rwa [List.length_replicate]

instance (s : Threads) (e : Int × ThreadAct) (t : Threads) :
    ∀ record, Decidable (LogsOpenFile s e t record)
  | none => .isTrue fun _ _ logged => by cases logged
  | some (fd, path) => decidable_of_iff (s.table fd ≠ none → path = s.table fd) (by
      constructor
      · intro same fd' path' logged
        obtain ⟨rfl, rfl⟩ := Prod.mk.inj (Option.some.inj logged)
        exact same
      · exact fun logs => logs fd path rfl)

end SysMonitor.Guarantees.LoggedPath
