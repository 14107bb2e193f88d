import Mathlib.Data.Finset.Card
import SysMonitor.Guarantees.ProcessMaps
import SysMonitor.Source.FileHooks

/-!
# Which descriptors are cached

The hooks of open, creat and close over any results of the original calls. A failed open
is told from a successful one by `-1` alone, so the other negative results are cached as
descriptors; as long as none of these occurs the cache holds open descriptors only.
-/

namespace SysMonitor.Guarantees.OpenDescriptors
open SysMonitor.Library SysMonitor.Source SysMonitor.Source.FdCache SysMonitor.Source.Process
open SysMonitor.Guarantees.FdTransparency SysMonitor.Guarantees.FdMap
open SysMonitor.Guarantees.ProcessMaps SysMonitor.Guarantees.HeapSafety

/-- The name that `fullName` comes to. -/
def name (answers : OpenAnswers) : Option CString :=
  if answers.file.dies then none
  else answers.file.text <|>
    if answers.user.dies then none
    else (if answers.user.room then answers.user.text else none) <|>
      (if answers.literalRoom then some nullName else none)

/-- A lookup that finds nothing cached stores what it asks for. -/
def stores (answers : LookupAnswers) : Bool :=
  answers.file.text.isSome && answers.recordRoom && answers.nameRoom

section Names

variable {h : Heap}

theorem copyStringFromUser_spec (h : Heap) (answers : UserString) :
    ∃ answer h', copyStringFromUser h answers = .ok (answer, h') ∧ Touches [] h h' ∧
      (answer = none ↔ answers.dies = true) ∧ ∀ p, answer = some p → NewText h h' p ∧
        pathAt h' p = .ok (if answers.room then answers.text else none) := by
  obtain ⟨room, text, printed⟩ := answers
  unfold copyStringFromUser kmalloc UserString.dies
  cases room with
  | false =>
    refine ⟨some NULL, h, rfl, .refl _ h, by simp, fun p same => ?_⟩
    cases same
    exact ⟨.inl rfl, rfl⟩
  | true =>
    have live : (h.allocate .chars).kind h.fresh = some .chars := Function.update_self ..
    have allocated := Touches.allocate h .chars
    simp only [if_true]
    rw [if_neg (Nat.ne_of_gt h.freshReal)]
    cases text with
    | none =>
      cases printed with
      | false => exact ⟨none, _, rfl, allocated, by simp, nofun⟩
      | true =>
        dsimp only
        rw [if_pos rfl, kfree_live live]
        refine ⟨some NULL, _, rfl, (Touches.release _ h.fresh).through, by simp, fun p same => ?_⟩
        cases same
        exact ⟨.inl rfl, rfl⟩
    | some text =>
      dsimp only
      rw [writeChars_live live]
      refine ⟨some h.fresh, _, rfl, ?_, by simp, fun p same => ?_⟩
      · refine ⟨allocated.fresh, allocated.kind, allocated.record, fun b old => ?_⟩
        exact Function.update_of_ne (Nat.ne_of_lt old) _ _
      · cases same
        refine ⟨.inr ⟨le_rfl, live⟩, ?_⟩
        rw [pathAt_live (by exact live)]
        exact congrArg (fun text => Except.ok (some text)) (Function.update_self ..)

/-- There is no answer when the task dies in `strlen`, or in the message about the user's name. -/
theorem fullName_spec (h : Heap) (answers : OpenAnswers) :
    ∃ answer h', fullName h answers = .ok (answer, h') ∧ Touches [] h h' ∧
      (answer = none ↔ answers.file.dies = true ∨
        answers.file.text = none ∧ answers.user.dies = true) ∧
      ∀ p, answer = some p → NewText h h' p ∧ pathAt h' p = .ok (name answers) := by
  obtain ⟨answer, h₁, found, touches, new, dies, -⟩ := getAbsolutePathByFd_spec h answers.file
  unfold fullName
  rw [found, ok_bind]
  dsimp only
  by_cases null : answer = some NULL
  · obtain ⟨-, text⟩ := new NULL null
    have unnamed : answers.file.text = none := (Except.ok.inj text).symm
    have alive : answers.file.dies = false := by
      rw [null] at dies
      simpa using dies
    obtain ⟨copy, h₂, copied, touches₂, dies₂, new₂⟩ := copyStringFromUser_spec h₁ answers.user
    have both := touches.trans touches₂ (by simp)
    have only : (answers.file.dies = true ∨ answers.file.text = none ∧ answers.user.dies = true)
        ↔ answers.user.dies = true := by simp [alive, unnamed]
    have later : answers.user.dies = false →
        name answers = ((if answers.user.room then answers.user.text else none) <|>
          (if answers.literalRoom then some nullName else none)) := by
      intro lives
      rw [name, alive, unnamed, lives]
      rfl
    rw [if_pos null, copied, ok_bind, only, ← dies₂]
    dsimp only
    by_cases null₂ : copy = some NULL
    · obtain ⟨q, h₃, literal, touches₃, new₃, -, text₃⟩ := copyOut_spec h₂ nullName answers.literalRoom
      have lives : answers.user.dies = false := by simpa [null₂] using dies₂
      have text₂ := (new₂ NULL null₂).2
      rw [if_pos null₂, literal]
      refine ⟨some q, h₃, rfl, both.trans touches₃ (by simp), by simp [null₂], ?_⟩
      intro r same
      cases same
      rw [later lives, ← Except.ok.inj text₂]
      exact ⟨NewText.after both new₃, text₃⟩
    · rw [if_neg null₂]
      refine ⟨copy, h₂, rfl, both, Iff.rfl, ?_⟩
      rintro p rfl
      obtain ⟨new₂, text₂⟩ := new₂ p rfl
      have real : p ≠ NULL := fun same => null₂ (congrArg some same)
      have lives : answers.user.dies = false := by simpa using dies₂
      refine ⟨NewText.after touches new₂, text₂.trans ?_⟩
      rw [pathAt_live (new₂.resolve_left real).2] at text₂
      rw [later lives, ← Except.ok.inj text₂]
      rfl
  · rw [if_neg null]
    refine ⟨answer, h₁, rfl, touches, ?_, ?_⟩
    · rw [dies]
      refine ⟨.inl, fun reason => ?_⟩
      rcases reason with dead | ⟨unnamed, -⟩
      · exact dead
      · cases answer with
        | none => exact dies.mp rfl
        | some p =>
          -- an answer without a text is NULL
          obtain ⟨-, text⟩ := new p rfl
          rw [unnamed] at text
          exact absurd (congrArg some ((pathAt_none text).mpr rfl)) null
    · rintro p rfl
      obtain ⟨new, text⟩ := new p rfl
      have real : p ≠ NULL := fun same => null (congrArg some same)
      have alive : answers.file.dies = false := by simpa using dies
      refine ⟨new, text.trans ?_⟩
      rw [pathAt_live (new.resolve_left real).2] at text
      rw [name, alive, ← Except.ok.inj text]
      rfl

end Names

section Calls

variable {owner : Int → TimeSpec} {k : Kernel} {m : PathMaps}

/-- The maps after an open or a creat. -/
def afterOpen (m : PathMaps) (pid : Int) (answers : OpenAnswers) : PathMaps :=
  if answers.result = -1 then entered m pid answers.room
  else inserted (entered m pid answers.room) pid (BitVec.ofInt 32 answers.result) (name answers)
    answers.recordRoom answers.nameRoom

theorem cacheResult_mapped (mapped : Mapped owner k m) (task : Task) (answers : OpenAnswers)
    (uncached : answers.result ≠ -1 → name answers ≠ none → answers.recordRoom = true →
      answers.nameRoom = true → cachedPath m task.pid (BitVec.ofInt 32 answers.result) = none) :
    ∃ k', cacheResult k task answers = .ok k' ∧
      Mapped owner k' (if answers.result = -1 then m
        else inserted m task.pid (BitVec.ofInt 32 answers.result) (name answers)
          answers.recordRoom answers.nameRoom) := by
  unfold cacheResult
  by_cases failed : answers.result = -1
  · rw [if_pos failed, if_pos failed]
    exact ⟨k, rfl, mapped⟩
  · rw [if_neg failed, if_neg failed]
    obtain ⟨records, contents, holds⟩ := mapped
    obtain ⟨answer, h, found, touches, dead, new⟩ := fullName_spec k.heap answers
    obtain ⟨kept, held⟩ := holds.allocated touches
    rw [found, ok_bind]
    dsimp only
    cases answer with
    | none =>
      have unnamed : name answers = none := by
        rcases dead.mp rfl with dies | ⟨text, dies⟩
        · rw [name, dies]
          rfl
        · cases alive : answers.file.dies <;> simp [name, alive, text, dies]
      rw [inserted_short _ _ _ (.inl unnamed)]
      exact ⟨_, rfl, records, contents, kept⟩
    | some p =>
      obtain ⟨new, text⟩ := new p rfl
      obtain ⟨k', h', contents', ran, freed, kept⟩ := store_holds kept task
        (BitVec.ofInt 32 answers.result) _ (held p new) answers.recordRoom answers.nameRoom
        (uncached failed)
      dsimp only
      rw [text, ok_bind, ran, ok_bind, freed]
      exact ⟨_, rfl, records, contents', kept⟩

theorem open_mapped (mapped : Mapped owner k m) (task : Task)
    (owned : task.realStartTime = owner task.pid) (answers : OpenAnswers)
    (uncached : answers.result ≠ -1 → name answers ≠ none → answers.recordRoom = true →
      answers.nameRoom = true →
      cachedPath (entered m task.pid answers.room) task.pid (BitVec.ofInt 32 answers.result) = none) :
    ∃ k', fakeSysOpen k task answers = .ok k' ∧ Mapped owner k' (afterOpen m task.pid answers) := by
  obtain ⟨k₁, ran, mapped₁⟩ :=
    enter_mapped mapped task owned answers.path answers.arguments answers.room
  obtain ⟨k₂, ran₂, mapped₂⟩ := cacheResult_mapped mapped₁ task answers uncached
  refine ⟨k₂, ?_, mapped₂⟩
  rw [fakeSysOpen, ran, ok_bind, ran₂]

theorem lookUp_mapped (mapped : Mapped owner k m) (task : Task) (fd : Word)
    (answers : LookupAnswers) :
    ∃ k', lookUp k task fd answers = .ok (k', (cachedPath m task.pid fd).isNone && answers.file.dies) ∧
      Mapped owner k' (asked m task.pid fd answers.file answers.recordRoom answers.nameRoom) := by
  obtain ⟨k', path, ran, mapped', answer⟩ :=
    get_mapped mapped task fd answers.file answers.recordRoom answers.nameRoom
  refine ⟨k', ?_, mapped'⟩
  unfold lookUp
  rw [ran, ok_bind]
  have died : (decide (path = NULL) && answers.file.dies)
      = ((cachedPath m task.pid fd).isNone && answers.file.dies) := by
    cases dies : answers.file.dies with
    | false => rw [Bool.and_false, Bool.and_false]
    | true =>
      rw [asked_short _ _ _ (.inl (text_of_dies dies))] at answer
      rw [Bool.and_true, Bool.and_true, Bool.eq_iff_iff, decide_eq_true_iff,
        Option.isNone_iff_eq_none]
      exact pathAt_none answer
  dsimp only
  rw [died]
  rfl

/-- The maps after a close, and whether it returned. -/
def afterClose (m : PathMaps) (pid : Int) (fd : Word) (answers : CloseAnswers) : PathMaps × Bool :=
  let m := entered m pid answers.room
  let before := asked m pid fd answers.before.file answers.before.recordRoom answers.before.nameRoom
  if (cachedPath m pid fd).isNone && answers.before.file.dies then (before, false)
  else if answers.result = 0 then
    let gone := deleted before pid fd
    if (cachedPath before pid fd).isSome then (gone, true)
    else (asked gone pid fd answers.after.file answers.after.recordRoom answers.after.nameRoom,
      !answers.after.file.dies)
  else (before, true)

theorem close_mapped (mapped : Mapped owner k m) (task : Task)
    (owned : task.realStartTime = owner task.pid) (fd : Word) (answers : CloseAnswers) :
    ∃ k', fakeSysClose k task fd answers
        = .ok (k', if (afterClose m task.pid fd answers).2 then some answers.result else none) ∧
      Mapped owner k' (afterClose m task.pid fd answers).1 := by
  obtain ⟨k₁, ran₁, mapped₁⟩ :=
    enter_mapped mapped task owned answers.path answers.arguments answers.room
  obtain ⟨k₂, ran₂, mapped₂⟩ := lookUp_mapped mapped₁ task fd answers.before
  unfold fakeSysClose afterClose
  rw [ran₁, ok_bind, ran₂, ok_bind]
  dsimp only
  by_cases died : ((cachedPath (entered m task.pid answers.room) task.pid fd).isNone &&
      answers.before.file.dies) = true
  · rw [if_pos died, if_pos died]
    exact ⟨k₂, rfl, mapped₂⟩
  · rw [if_neg died, if_neg died]
    by_cases closed : answers.result = 0
    · obtain ⟨records, contents, holds⟩ := mapped₂
      obtain ⟨k₃, contents₃, ran₃, -, kept⟩ := delete_holds holds task fd
      rw [if_pos closed, if_pos closed, ran₃, ok_bind]
      dsimp only
      by_cases cached : (cachedPath (asked (entered m task.pid answers.room) task.pid fd
          answers.before.file answers.before.recordRoom answers.before.nameRoom) task.pid fd).isSome
      · rw [if_pos cached, if_pos cached]
        exact ⟨k₃, rfl, records, contents₃, kept⟩
      · obtain ⟨k₄, ran₄, mapped₄⟩ := lookUp_mapped ⟨records, contents₃, kept⟩ task fd answers.after
        rw [cachedPath_deleted, if_pos (And.intro rfl rfl)] at ran₄
        rw [if_neg cached, if_neg cached, ran₄, ok_bind]
        cases answers.after.file.dies with
        | true => exact ⟨k₄, rfl, mapped₄⟩
        | false => exact ⟨k₄, rfl, mapped₄⟩
    · rw [if_neg closed, if_neg closed]
      exact ⟨k₂, rfl, mapped₂⟩

end Calls

/-- A task's fd cache, read off the process table. -/
def fdPaths (k : Kernel) (task : Task) : Word → Option CString :=
  listPath ((cached k task).map (entry k.heap))

/-- The process table, and the descriptors that hooked opens have returned and hooked closes
have not closed since. -/
structure OpenFiles where
  kernel : Kernel
  opened : Finset Word

inductive FileCall where
  | «open» (answers : OpenAnswers)
  | creat (answers : OpenAnswers)
  | close (fd : Word) (answers : CloseAnswers)

/-- An original open or creat succeeds when its result is a descriptor. -/
def returned (opened : Finset Word) (result : Int) : Finset Word :=
  if 0 ≤ result then insert (BitVec.ofInt 32 result) opened else opened

def fileStep (task : Task) (s : OpenFiles) : FileCall → Except Fault (OpenFiles × Unit)
  | .open answers => do
    let kernel ← fakeSysOpen s.kernel task answers
    return (⟨kernel, returned s.opened answers.result⟩, ())
  | .creat answers => do
    let kernel ← fakeSysCreat s.kernel task answers
    return (⟨kernel, returned s.opened answers.result⟩, ())
  | .close fd answers => do
    let (kernel, result) ← fakeSysClose s.kernel task fd answers
    return (⟨kernel, if result = some 0 then s.opened.erase fd else s.opened⟩, ())

/-- `notify_enter` finds or makes a record. -/
def HasRecord (k : Kernel) (task : Task) (room : Bool) : Prop :=
  k.recordOf task.pid ≠ NULL ∨ ((0 ≤ task.pid ∧ task.pid < HASH_SLOT_SIZE) ∧ room = true)

/-- An open that stores its result returned a descriptor that was not cached. -/
def StoresDescriptor (k : Kernel) (task : Task) (answers : OpenAnswers) : Prop :=
  answers.result ≠ -1 → HasRecord k task answers.room → name answers ≠ none →
    answers.recordRoom = true → answers.nameRoom = true →
    0 ≤ answers.result ∧ fdPaths k task (BitVec.ofInt 32 answers.result) = none

/-- An open stores descriptors only; where a close caches the descriptor itself, that is
one of the open ones or the close succeeds, and it is not found open after that. -/
def Regular (task : Task) (s : OpenFiles) : FileCall → Prop
  | .open answers => StoresDescriptor s.kernel task answers
  | .creat answers => StoresDescriptor s.kernel task answers
  | .close fd answers => HasRecord s.kernel task answers.room → fdPaths s.kernel task fd = none →
      (stores answers.before = true → answers.result ≠ 0 → fd ∈ s.opened) ∧
      (stores answers.before = false → answers.before.file.dies = false → answers.result = 0 →
        stores answers.after = false)

instance (k : Kernel) (task : Task) (room : Bool) : Decidable (HasRecord k task room) :=
  inferInstanceAs (Decidable (_ ≠ _ ∨ (_ ∧ _) ∧ _))

instance (k : Kernel) (task : Task) (answers : OpenAnswers) :
    Decidable (StoresDescriptor k task answers) :=
  inferInstanceAs (Decidable (_ ≠ _ → HasRecord k task answers.room → _ ≠ _ → _ → _ → _ ∧ _ = _))

instance (task : Task) (s : OpenFiles) : ∀ call, Decidable (Regular task s call)
  | .open answers | .creat answers =>
    inferInstanceAs (Decidable (StoresDescriptor s.kernel task answers))
  | .close _ answers => inferInstanceAs (Decidable (HasRecord s.kernel task answers.room → _ = _ →
      (_ → _ ≠ _ → _ ∈ s.opened) ∧ (_ → _ → _ = _ → _)))

/-- The result of an open or creat that failed. -/
def failed : FileCall → Prop
  | .open answers => answers.result < 0
  | .creat answers => answers.result < 0
  | .close _ _ => False

/-- Every cached descriptor is open, there are no more records than open descriptors, and
an open or creat that failed left the cache as it was. -/
def OnlyOpen (task : Task) (s : OpenFiles) (call : FileCall) (t : OpenFiles) (_ : Unit) : Prop :=
  (∀ x ∈ cached t.kernel task, fdOf t.kernel.heap x ∈ t.opened) ∧
  (cached t.kernel task).length ≤ t.opened.card ∧
  (failed call → fdPaths t.kernel task = fdPaths s.kernel task ∧
    (cached t.kernel task).length = (cached s.kernel task).length)

section Step

variable {task : Task} {k : Kernel} {m : PathMaps}

/-- The full list of the task, as its map has it. -/
theorem maps_cached (mapped : Mapped (fun _ => task.realStartTime) k m) :
    Maps ((cached k task).map (entry k.heap)) (cachedPath m task.pid) ∧
      (m task.pid = none ↔ k.recordOf task.pid = NULL) := by
  obtain ⟨records, contents, holds⟩ := mapped
  refine ⟨?_, holds.absent task.pid⟩
  rw [cached_eq holds.rep]
  cases found : m task.pid with
  | none =>
    have empty : cachedPath m task.pid = fun _ => none := by
      funext fd
      rw [cachedPath, found]
      rfl
    rw [if_pos ((holds.absent task.pid).mp found), empty]
    exact ⟨List.nodup_nil, rfl⟩
  | some paths =>
    have whole : cachedPath m task.pid = paths := by
      funext fd
      rw [cachedPath, found]
      rfl
    rw [if_neg (holds.real found), whole]
    exact holds.maps task.pid paths found

theorem fdPaths_eq (mapped : Mapped (fun _ => task.realStartTime) k m) :
    fdPaths k task = cachedPath m task.pid := (maps_cached mapped).1.2.symm

theorem keys_nodup (mapped : Mapped (fun _ => task.realStartTime) k m) :
    ((cached k task).map (fdOf k.heap)).Nodup := by
  have nodup := (maps_cached mapped).1.1
  rw [List.map_map] at nodup
  exact nodup

theorem mem_keys (mapped : Mapped (fun _ => task.realStartTime) k m) (fd : Word) :
    fd ∈ (cached k task).map (fdOf k.heap) ↔ cachedPath m task.pid fd ≠ none := by
  have keys := (@listPath_eq_none ((cached k task).map (entry k.heap)) fd).not
  rw [not_not, List.map_map] at keys
  rw [(maps_cached mapped).1.2]
  exact keys.symm

/-- Between two calls the cache is a map, of open descriptors only. -/
def Regulated (task : Task) (s : OpenFiles) : Prop :=
  ∃ m, Mapped (fun _ => task.realStartTime) s.kernel m ∧
    ∀ fd, cachedPath m task.pid fd ≠ none → fd ∈ s.opened

variable {s : OpenFiles} {opened : Finset Word} {call : FileCall} {k' : Kernel} {m' : PathMaps}

/-- A call that ends in this map. -/
theorem onlyOpen_of_maps (mapped : Mapped (fun _ => task.realStartTime) s.kernel m)
    (mapped' : Mapped (fun _ => task.realStartTime) k' m')
    (within : ∀ fd, cachedPath m' task.pid fd ≠ none → fd ∈ opened)
    (same : failed call → cachedPath m' task.pid = cachedPath m task.pid)
    (step : fileStep task s call = .ok (⟨k', opened⟩, ())) :
    ∃ t answer, fileStep task s call = .ok (t, answer) ∧ OnlyOpen task s call t answer ∧
      Regulated task t := by
  refine ⟨_, (), step, ⟨?_, ?_, fun bad => ?_⟩, m', mapped', within⟩
  · intro x inside
    exact within _ ((mem_keys mapped' _).mp (List.mem_map.mpr ⟨x, inside, rfl⟩))
  · have count := List.toFinset_card_of_nodup (keys_nodup mapped')
    rw [List.length_map] at count
    rw [← count]
    apply Finset.card_le_card
    intro fd inside
    exact within fd ((mem_keys mapped' fd).mp (List.mem_toFinset.mp inside))
  · refine ⟨by rw [fdPaths_eq mapped', fdPaths_eq mapped, same bad], ?_⟩
    have perm : ((cached k' task).map (fdOf k'.heap)).Perm
        ((cached s.kernel task).map (fdOf s.kernel.heap)) := by
      rw [List.perm_ext_iff_of_nodup (keys_nodup mapped') (keys_nodup mapped)]
      intro fd
      rw [mem_keys mapped', mem_keys mapped, same bad]
    simpa using perm.length_eq

/-- After `notify_enter` there is a map exactly when there is a record. -/
theorem entered_isSome (mapped : Mapped (fun _ => task.realStartTime) k m) (room : Bool) :
    (entered m task.pid room task.pid).isSome ↔ HasRecord k task room := by
  have absent := (maps_cached mapped).2
  unfold entered HasRecord
  by_cases new : (0 ≤ task.pid ∧ task.pid < HASH_SLOT_SIZE) ∧ room = true ∧ (m task.pid).isNone
  · rw [if_pos new, Function.update_self]
    exact iff_of_true rfl (.inr ⟨new.1, new.2.1⟩)
  · rw [if_neg new, Option.isSome_iff_ne_none, ne_eq, absent]
    constructor
    · exact .inl
    · rintro (real | ⟨valid, here⟩)
      · exact real
      · intro null
        exact new ⟨valid, here, by rw [absent.mpr null]; rfl⟩

theorem subset_returned (opened : Finset Word) (result : Int) : opened ⊆ returned opened result := by
  unfold returned
  by_cases descriptor : 0 ≤ result
  · rw [if_pos descriptor]
    exact Finset.subset_insert _ _
  · rw [if_neg descriptor]

/-- Where an open stores its result. -/
theorem cachedPath_afterOpen (mapped : Mapped (fun _ => task.realStartTime) k m)
    (answers : OpenAnswers) (fd : Word) :
    cachedPath (afterOpen m task.pid answers) task.pid fd = cachedPath m task.pid fd ∨
      (answers.result ≠ -1 ∧ fd = BitVec.ofInt 32 answers.result ∧ HasRecord k task answers.room ∧
        name answers ≠ none ∧ answers.recordRoom = true ∧ answers.nameRoom = true) := by
  unfold afterOpen
  by_cases failed : answers.result = -1
  · rw [if_pos failed, cachedPath_entered]
    exact .inl rfl
  · rw [if_neg failed, cachedPath_inserted]
    split
    · next stored =>
      obtain ⟨-, same, record, named, room, room'⟩ := stored
      exact .inr ⟨failed, same, (entered_isSome mapped _).mp record, named, room, room'⟩
    · rw [cachedPath_entered]
      exact .inl rfl

/-- `fake_sys_open` and `fake_sys_creat` -/
theorem open_regulated (mapped : Mapped (fun _ => task.realStartTime) s.kernel m)
    (within : ∀ fd, cachedPath m task.pid fd ≠ none → fd ∈ s.opened) (answers : OpenAnswers)
    (stores : StoresDescriptor s.kernel task answers)
    (step : ∀ k', fakeSysOpen s.kernel task answers = .ok k' →
      fileStep task s call = .ok (⟨k', returned s.opened answers.result⟩, ()))
    (bad : failed call → answers.result < 0) :
    ∃ t answer, fileStep task s call = .ok (t, answer) ∧ OnlyOpen task s call t answer ∧
      Regulated task t := by
  have where_stored := cachedPath_afterOpen mapped answers
  obtain ⟨k', ran, mapped'⟩ := open_mapped mapped task rfl answers (by
    intro real named room room'
    rw [cachedPath_entered]
    by_cases record : HasRecord s.kernel task answers.room
    · rw [← fdPaths_eq mapped]
      exact (stores real record named room room').2
    · rw [← entered_isSome mapped, Option.not_isSome_iff_eq_none] at record
      rw [← cachedPath_entered m task.pid answers.room, cachedPath, record]
      rfl)
  refine onlyOpen_of_maps mapped mapped' ?_ ?_ (step k' ran)
  · intro fd there
    rcases where_stored fd with same | ⟨real, rfl, record, named, room, room'⟩
    · exact subset_returned _ _ (within fd (same ▸ there))
    · rw [returned, if_pos (stores real record named room room').1]
      exact Finset.mem_insert_self _ _
  · intro lost
    funext fd
    rcases where_stored fd with same | ⟨real, -, record, named, room, room'⟩
    · exact same
    · have := (stores real record named room room').1
      have := bad lost
      omega

/-- What a lookup finds cached was cached before, or the lookup stored it. -/
theorem asked_cases {m : PathMaps} {pid : Int} {fd fd' : Word} {answers : LookupAnswers}
    (there : cachedPath (asked m pid fd answers.file answers.recordRoom answers.nameRoom) pid fd'
      ≠ none) :
    cachedPath m pid fd' ≠ none ∨
      (fd' = fd ∧ cachedPath m pid fd = none ∧ (m pid).isSome ∧ stores answers = true) := by
  rw [cachedPath_asked] at there
  split at there
  · next stored =>
    obtain ⟨-, same, uncached, record, named, room, room'⟩ := stored
    refine .inr ⟨same, uncached, record, ?_⟩
    rw [stores, room, room', Option.isSome_iff_ne_none.mpr named]
    rfl
  · exact .inl there

/-- A lookup that stores leaves the descriptor cached. -/
theorem asked_stored {m : PathMaps} {pid : Int} {fd : Word} {answers : LookupAnswers}
    (record : (m pid).isSome) (stored : stores answers = true) :
    cachedPath (asked m pid fd answers.file answers.recordRoom answers.nameRoom) pid fd ≠ none := by
  simp only [stores, Bool.and_eq_true] at stored
  obtain ⟨⟨named, room⟩, room'⟩ := stored
  rw [cachedPath_asked]
  split
  · exact Option.isSome_iff_ne_none.mp named
  · next other =>
    intro uncached
    exact other ⟨rfl, rfl, uncached, record, Option.isSome_iff_ne_none.mp named, room, room'⟩

/-- Where a lookup before a close stores what it finds, and where one after it does. -/
theorem cachedPath_afterClose (m : PathMaps) (pid : Int) (fd : Word) (answers : CloseAnswers)
    (fd' : Word) (there : cachedPath (afterClose m pid fd answers).1 pid fd' ≠ none) :
    (cachedPath m pid fd' ≠ none ∧
      (((afterClose m pid fd answers).2 = true ∧ answers.result = 0) → fd' ≠ fd)) ∨
    (fd' = fd ∧ cachedPath m pid fd = none ∧ (entered m pid answers.room pid).isSome ∧
      ((stores answers.before = true ∧ answers.result ≠ 0) ∨
        (stores answers.before = false ∧ answers.before.file.dies = false ∧ answers.result = 0 ∧
          stores answers.after = true))) := by
  have same : ∀ fd', cachedPath (entered m pid answers.room) pid fd' = cachedPath m pid fd' :=
    cachedPath_entered m pid answers.room pid
  unfold afterClose at there ⊢
  dsimp only at there ⊢
  by_cases died : ((cachedPath (entered m pid answers.room) pid fd).isNone &&
      answers.before.file.dies) = true
  · rw [if_pos died] at there ⊢
    rw [asked_short _ _ _ (.inl (text_of_dies (Bool.and_eq_true_iff.mp died).2)), same] at there
    exact .inl ⟨there, by simp⟩
  · rw [if_neg died] at there ⊢
    by_cases closed : answers.result = 0
    · rw [if_pos closed] at there ⊢
      by_cases found : (cachedPath (asked (entered m pid answers.room) pid fd answers.before.file
          answers.before.recordRoom answers.before.nameRoom) pid fd).isSome
      · -- the record is deleted, so what is left is of other descriptors
        rw [if_pos found] at there ⊢
        rw [cachedPath_deleted] at there
        by_cases here : fd' = fd
        · rw [if_pos ⟨rfl, here⟩] at there
          exact absurd rfl there
        · rw [if_neg fun both => here both.2] at there
          rcases asked_cases there with old | ⟨same_fd, -⟩
          · exact .inl ⟨same fd' ▸ old, fun _ => here⟩
          · exact absurd same_fd here
      · rw [if_neg found] at there ⊢
        have unfound := Option.not_isSome_iff_eq_none.mp found
        rcases asked_cases there with old | ⟨here, -, record, stored⟩
        · rw [cachedPath_deleted] at old
          by_cases here : fd' = fd
          · rw [if_pos ⟨rfl, here⟩] at old
            exact absurd rfl old
          · rw [if_neg fun both => here both.2] at old
            rcases asked_cases old with old | ⟨same_fd, -⟩
            · exact .inl ⟨same fd' ▸ old, fun _ => here⟩
            · exact absurd same_fd here
        · -- nothing was cached before, and the first lookup stored nothing
          rw [deleted_isSome, asked_isSome] at record
          have uncached : cachedPath (entered m pid answers.room) pid fd = none := by
            by_contra known
            rw [asked, if_pos (Option.isSome_iff_ne_none.mpr known)] at unfound
            exact known unfound
          have unstored : stores answers.before = false := by
            cases stores_before : stores answers.before with
            | false => rfl
            | true => exact absurd unfound (asked_stored record stores_before)
          have alive : answers.before.file.dies = false := by
            rw [uncached] at died
            simpa using died
          exact .inr ⟨here, same fd ▸ uncached, record, .inr ⟨unstored, alive, closed, stored⟩⟩
    · rw [if_neg closed] at there ⊢
      rcases asked_cases there with old | ⟨same_fd, uncached, record, stored⟩
      · exact .inl ⟨same fd' ▸ old, fun both => absurd both.2 closed⟩
      · exact .inr ⟨same_fd, same fd ▸ uncached, record, .inl ⟨stored, closed⟩⟩

/-- `fake_sys_close` -/
theorem close_regulated (mapped : Mapped (fun _ => task.realStartTime) s.kernel m)
    (within : ∀ fd, cachedPath m task.pid fd ≠ none → fd ∈ s.opened) (fd : Word)
    (answers : CloseAnswers) (regular : Regular task s (.close fd answers)) :
    ∃ t answer, fileStep task s (.close fd answers) = .ok (t, answer) ∧
      OnlyOpen task s (.close fd answers) t answer ∧ Regulated task t := by
  obtain ⟨k', ran, mapped'⟩ := close_mapped mapped task rfl fd answers
  refine onlyOpen_of_maps mapped mapped' ?_ (fun no => no.elim) (by rw [fileStep, ran]; rfl)
  intro fd' there
  rcases cachedPath_afterClose m task.pid fd answers fd' there with
    ⟨old, other⟩ | ⟨rfl, uncached, record, stored⟩
  · by_cases closed : (if (afterClose m task.pid fd answers).2 then some answers.result else none)
        = some 0
    · rw [if_pos closed]
      refine Finset.mem_erase.mpr ⟨other ?_, within fd' old⟩
      cases returns : (afterClose m task.pid fd answers).2 with
      | false => simp [returns] at closed
      | true => exact ⟨rfl, by simpa [returns] using closed⟩
    · rw [if_neg closed]
      exact within fd' old
  · rw [← fdPaths_eq mapped] at uncached
    obtain ⟨before, after⟩ := regular ((entered_isSome mapped _).mp record) uncached
    rcases stored with ⟨stored, result⟩ | ⟨unstored, alive, closed, stored⟩
    · have open_still := before stored result
      rw [if_neg]
      · exact open_still
      · split
        · simpa using result
        · simp
    · rw [after unstored alive closed] at stored
      simp at stored

theorem fileStep_regulated (s : OpenFiles) (call : FileCall) (regulated : Regulated task s)
    (regular : Regular task s call) :
    ∃ t answer, fileStep task s call = .ok (t, answer) ∧ OnlyOpen task s call t answer ∧
      Regulated task t := by
  obtain ⟨m, mapped, within⟩ := regulated
  cases call with
  | «open» answers =>
    exact open_regulated mapped within answers regular
      (fun k' ran => by rw [fileStep, ran]; rfl) id
  | creat answers =>
    exact open_regulated mapped within answers regular
      (fun k' ran => by rw [fileStep, fakeSysCreat, ← fakeSysOpen, ran]; rfl) id
  | close fd answers => exact close_regulated mapped within fd answers regular

end Step

/-- The table of `process_monitor_init`, before any call. -/
def started (h : Heap) (process : Ptr → ProcessRecord) : OpenFiles :=
  ⟨processMonitorInit h process, ∅⟩

/-- Every run of opens, creats and closes of a task that meets the condition goes through,
and at every point between two calls only open descriptors are cached. -/
theorem only_open_descriptors (h : Heap) (process : Ptr → ProcessRecord) (task : Task)
    (calls : List FileCall)
    (regular : Admitted (fileStep task) (Regular task) (started h process) calls) :
    (∃ t answers, run (fileStep task) (started h process) calls = .ok (t, answers)) ∧
      EveryStep (fileStep task) (OnlyOpen task) (started h process) calls := by
  have start : Regulated task (started h process) :=
    ⟨fun _ => none, init_mapped _ h process, fun fd there => absurd rfl there⟩
  obtain ⟨⟨t, answers, ran, -⟩, every⟩ :=
    run_of_admitted (Regulated task) fileStep_regulated calls _ start regular
  exact ⟨⟨t, answers, ran⟩, every⟩

/-- An open with this result by a caller that names the file, where `fget` finds the
descriptor or not. -/
def opens (result : Int) (found : Bool) : OpenAnswers where
  path := ⟨false, true, none, true⟩
  arguments := ⟨false, 0, true, 0⟩
  room := true
  result := result
  file := ⟨found, true, some letterA, true⟩
  user := ⟨true, some letterB, true⟩
  literalRoom := true
  recordRoom := true
  nameRoom := true

/-- A close with this result, of a descriptor that `fget` finds before it. -/
def closes (result : Int) : CloseAnswers where
  path := ⟨false, true, none, true⟩
  arguments := ⟨false, 0, true, 0⟩
  room := true
  before := ⟨⟨true, true, some letterA, true⟩, true, true⟩
  result := result
  after := ⟨⟨false, true, none, true⟩, true, true⟩

/-- Two descriptors, one of them closed and opened again; an open that fails with `-1`, and a
close of a descriptor that no hooked open returned. -/
theorem only_open_descriptors_reopened :
    let calls : List FileCall := [.open (opens 3 true), .creat (opens (-1) false),
      .open (opens 4 true), .close 3 (closes 0), .close 0 (closes 0), .open (opens 3 true)]
    (∃ t answers, run (fileStep ⟨1, ⟨1, 0⟩⟩) (started Heap.unused emptyTable.process) calls
        = .ok (t, answers)) ∧
      EveryStep (fileStep ⟨1, ⟨1, 0⟩⟩) (OnlyOpen ⟨1, ⟨1, 0⟩⟩)
        (started Heap.unused emptyTable.process) calls :=
  only_open_descriptors _ _ _ _ (by decide +kernel)

/-- A file that does not exist: the original open answers `-2` and `0xfffffffe` is cached. -/
theorem missing_file_is_cached :
    ¬EveryStep (fileStep ⟨1, ⟨1, 0⟩⟩) (OnlyOpen ⟨1, ⟨1, 0⟩⟩)
      (started Heap.unused emptyTable.process) [.open (opens (-2) false)] := by
  intro every
  have grown : (fileStep ⟨1, ⟨1, 0⟩⟩ (started Heap.unused emptyTable.process)
      (.open (opens (-2) false))).map (fun r =>
        decide ((cached r.1.kernel ⟨1, ⟨1, 0⟩⟩).length ≤ r.1.opened.card)) = .ok false := by
    decide +kernel
  rw [EveryStep] at every
  revert every grown
  cases fileStep ⟨1, ⟨1, 0⟩⟩ (started Heap.unused emptyTable.process) (.open (opens (-2) false)) with
  | error fault => exact fun _ grown => by cases grown
  | ok r =>
    intro every grown
    exact of_decide_eq_false (Except.ok.inj grown) every.1.2.1

end SysMonitor.Guarantees.OpenDescriptors
