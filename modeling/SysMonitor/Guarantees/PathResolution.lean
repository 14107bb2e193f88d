import SysMonitor.Guarantees.OpenDescriptors
import SysMonitor.Source.AbsolutePath

/-!
# Which files have a path that can be resolved

The path of a descriptor is built in a buffer of 2048 bytes. A path that does not fit is answered
by an error pointer, and the test for it looks at the wrong pointer.
-/

namespace SysMonitor.Guarantees.PathResolution
open SysMonitor.Library (bind_eq_ok)
open SysMonitor.Library.CyclicBuffer SysMonitor.Library.TerminatedStrings
open SysMonitor.Source SysMonitor.Source.KernelStrings SysMonitor.Source.AbsolutePath
open SysMonitor.Source.FdCache (pathAt)
open SysMonitor.Source.Process (fullName getFromSystem getCacheByFd lookUp nullName OpenAnswers
  FileAnswers LookupAnswers getAbsolutePathByFd_spec)
open SysMonitor.Guarantees.OpenDescriptors (fullName_spec)

section Resolve

variable {a : FileByFd} {held : Held} {f : Nat} {tPath : List Byte}

theorem fput_fget (h : Held) (f : Nat) : (h.fget f).fput f = h := by
  simp [Held.fget, Held.fput]

theorem freeTmp_allocateTmp (h : Held) (f : Nat) :
    (((h.fget f).allocateTmp).freeTmp).fput f = h := by
  simp [Held.fget, Held.fput, Held.allocateTmp, Held.freeTmp]

/-- A path that fits is a string in the buffer. -/
theorem dPath_fits {path : CText} {buffer : List Byte} (fits : path.1.length + 1 ≤ buffer.length) :
    stringAtPointer (dPath path buffer).1 (dPath path buffer).2 = .ok path.1 := by
  have start : (buffer.take (buffer.length - (path.1.length + 1))).length
      = buffer.length - (path.1.length + 1) := by
    rw [List.length_take]
    omega
  rw [dPath, if_pos fits]
  show stringIn ((splice buffer (buffer.length - (path.1.length + 1)) (path.1 ++ [0])).drop
    (buffer.length - (path.1.length + 1))) = _
  rw [splice, List.append_assoc, List.drop_append, start, List.drop_of_length_le (by omega),
    Nat.sub_self, List.drop_zero, List.nil_append, List.append_assoc]
  exact stringIn_terminated path.2 _

theorem dPath_long {path : CText} {buffer : List Byte} (long : ¬ path.1.length + 1 ≤ buffer.length) :
    stringAtPointer (dPath path buffer).1 (dPath path buffer).2 = .error .outOfBounds := by
  rw [dPath, if_neg long]
  rfl

/-- A string copied to a block of its own size. -/
theorem strcpy_exact {s block : List Byte} (free : 0 ∉ s) (size : block.length = s.length + 1) :
    strcpy block (s ++ [0]) = .ok (s ++ [0]) := by
  have full : (s ++ [0]).length = block.length := by
    rw [size, List.length_append]
    rfl
  rw [strcpy, stringIn_terminated free [], ok_bind, if_pos (by omega), splice_all _ _ full]
  rfl

theorem ofBytes_terminated {s : List Byte} (free : 0 ∉ s) (small : s.length < kernelSpace) :
    (CString.ofBytes s).terminated = s ++ [0] := by
  have all : s.takeWhile (· ≠ 0) = s := text_of_free free
  have short : s.length ≤ kernelSpace - 1 := by omega
  show (s.takeWhile (· ≠ 0)).take (kernelSpace - 1) ++ [0] = s ++ [0]
  rw [all, List.take_of_length_le short]

/-- Without a file or without a buffer there is no path, and nothing is held. -/
theorem resolve_none (none' : a.file = none ∨ LogStorage.kmalloc tmpSize a.tmpMemory = none) :
    AbsolutePath.getAbsolutePathByFd a held = .ok (none, held) := by
  rw [AbsolutePath.getAbsolutePathByFd]
  cases file : a.file with
  | none => rfl
  | some f =>
    have noRoom := none'.resolve_left (by rw [file]; exact Option.some_ne_none f)
    dsimp only
    rw [noRoom]
    dsimp only
    rw [fput_fget]

theorem resolve_long (file : a.file = some f)
    (room : LogStorage.kmalloc tmpSize a.tmpMemory = some tPath)
    (long : ¬ a.path.1.length + 1 ≤ tmpSize) :
    AbsolutePath.getAbsolutePathByFd a held = .error .outOfBounds := by
  have size := (LogStorage.kmalloc_some room).2
  have unread := @dPath_long a.path tPath (by rwa [size])
  rw [AbsolutePath.getAbsolutePathByFd, file]
  dsimp only
  rw [room]
  simp only [IS_ERR, unread, bind, Except.bind, Bool.not_false, if_true]

/-- The path that fits, as far as there is room for its copy. -/
theorem resolve_fits (file : a.file = some f)
    (room : LogStorage.kmalloc tmpSize a.tmpMemory = some tPath)
    (fits : a.path.1.length + 1 ≤ tmpSize) :
    AbsolutePath.getAbsolutePathByFd a held
      = .ok ((LogStorage.kmalloc (a.path.1.length + 1) a.pathMemory).map fun _ => a.path.1 ++ [0],
          held) := by
  have size := (LogStorage.kmalloc_some room).2
  have read := @dPath_fits a.path tPath (by rwa [size])
  rw [AbsolutePath.getAbsolutePathByFd, file]
  dsimp only
  rw [room]
  simp only [IS_ERR, read, bind, Except.bind, pure, Except.pure, Bool.not_false, if_true]
  cases got : LogStorage.kmalloc (a.path.1.length + 1) a.pathMemory with
  | none =>
    dsimp only
    rw [freeTmp_allocateTmp]
    rfl
  | some path =>
    have copied := strcpy_exact a.path.2 (LogStorage.kmalloc_some got).2
    dsimp only
    rw [copied]
    dsimp only
    rw [freeTmp_allocateTmp]
    rfl

/-- The call is what its callers see of it. -/
theorem resolve_seen (a : FileByFd) (held : Held) :
    AbsolutePath.getAbsolutePathByFd a held =
      if (answersOf a).dies then .error .outOfBounds
      else .ok ((answersOf a).text.map CString.terminated, held) := by
  cases file : a.file with
  | none =>
    rw [resolve_none (.inl file)]
    simp [FileAnswers.dies, FileAnswers.text, answersOf, file]
  | some f =>
    cases room : LogStorage.kmalloc tmpSize a.tmpMemory with
    | none =>
      rw [resolve_none (.inr room)]
      simp [FileAnswers.dies, FileAnswers.text, answersOf, room]
    | some tPath =>
      by_cases fits : a.path.1.length + 1 ≤ tmpSize
      · have small : a.path.1.length < kernelSpace := by
          have below : tmpSize < kernelSpace := by decide
          omega
        rw [resolve_fits file room fits, ← ofBytes_terminated a.path.2 small]
        cases got : LogStorage.kmalloc (a.path.1.length + 1) a.pathMemory with
        | none => simp [FileAnswers.dies, FileAnswers.text, answersOf, file, room, fits, got]
        | some path => simp [FileAnswers.dies, FileAnswers.text, answersOf, file, room, fits, got]
      · rw [resolve_long file room fits]
        simp [FileAnswers.dies, answersOf, file, room, fits]

theorem answersOf_dies (a : FileByFd) : (answersOf a).dies = false ↔
    a.file = none ∨ LogStorage.kmalloc tmpSize a.tmpMemory = none ∨
      a.path.1.length + 1 ≤ tmpSize := by
  cases file : a.file <;> cases room : LogStorage.kmalloc tmpSize a.tmpMemory <;>
    by_cases fits : a.path.1.length + 1 ≤ tmpSize <;>
    simp [FileAnswers.dies, answersOf, file, room, fits]

/-- What is found is the whole path. -/
theorem answersOf_text {text : CString} (found : (answersOf a).text = some text) :
    text.terminated = a.path.1 ++ [0] := by
  unfold FileAnswers.text answersOf at found
  dsimp only at found
  split at found
  · split at found
    · next fits =>
      have small : a.path.1.length < kernelSpace := by
        have below : tmpSize < kernelSpace := by decide
        omega
      rw [← Option.some.inj found, ofBytes_terminated a.path.2 small]
    · cases found
  · cases found

end Resolve

/-- A resolution that goes well, and what it is for its callers. -/
structure Safe (a : FileByFd) : Prop where
  /-- The whole path or NULL, and the file and the buffer are not held any more. -/
  resolves : ∀ held, ∃ path, AbsolutePath.getAbsolutePathByFd a held = .ok (path, held) ∧
    ∀ block, path = some block → block = a.path.1 ++ [0]
  /-- `get_cache_by_fd`, with nothing cached and no path. -/
  lookedUp : ∀ k k₁ task fd recordRoom nameRoom,
    Process.getCacheByFdInternal k task fd = .ok (k₁, NULL) → (answersOf a).text = none →
      ∃ k', getCacheByFd k task fd (answersOf a) recordRoom nameRoom = .ok (k', NULL) ∧
        lookUp k task fd ⟨answersOf a, recordRoom, nameRoom⟩ = .ok (k', false)
  /-- `fake_sys_open` and `fake_sys_creat`, where the copy of the user's name does not kill the
  task -/
  opened : ∀ h answers, answers.file = answersOf a → answers.user.dies = false →
    ∃ p h', fullName h answers = .ok (some p, h') ∧
      pathAt h' p = .ok ((answersOf a).text <|>
        (if answers.user.room then answers.user.text else none) <|>
        (if answers.literalRoom then some nullName else none))

section Callers

variable {a : FileByFd} (alive : (answersOf a).dies = false)

include alive

theorem resolves_alive (held : Held) :
    ∃ path, AbsolutePath.getAbsolutePathByFd a held = .ok (path, held) ∧
      ∀ block, path = some block → block = a.path.1 ++ [0] := by
  refine ⟨_, by rw [resolve_seen, alive]; rfl, fun block found => ?_⟩
  obtain ⟨text, named, rfl⟩ := Option.map_eq_some_iff.mp found
  exact answersOf_text named

theorem lookedUp_alive {k k₁ : Process.Kernel} {task : Process.Task} {fd : Word}
    (recordRoom nameRoom : Bool) (uncached : Process.getCacheByFdInternal k task fd = .ok (k₁, NULL))
    (unnamed : (answersOf a).text = none) :
    ∃ k', getCacheByFd k task fd (answersOf a) recordRoom nameRoom = .ok (k', NULL) ∧
      lookUp k task fd ⟨answersOf a, recordRoom, nameRoom⟩ = .ok (k', false) := by
  obtain ⟨answer, h, found, -, new, dies, -⟩ := getAbsolutePathByFd_spec k₁.heap (answersOf a)
  have null : answer = some NULL := by
    cases answer with
    | none =>
      rw [dies.mp rfl] at alive
      cases alive
    | some p =>
      obtain ⟨-, text⟩ := new p rfl
      rw [unnamed] at text
      rw [(Process.pathAt_none text).mpr rfl]
  have got : getCacheByFd k task fd (answersOf a) recordRoom nameRoom
      = .ok ({ k₁ with heap := h }, NULL) := by
    rw [getCacheByFd, uncached, ok_bind]
    dsimp only
    rw [if_pos rfl, getFromSystem, found, ok_bind, null]
    dsimp only
    rw [if_pos rfl]
    rfl
  refine ⟨_, got, ?_⟩
  rw [lookUp, got, ok_bind, alive]
  rfl

theorem opened_alive (h : Heap) (answers : OpenAnswers) (asked : answers.file = answersOf a)
    (named : answers.user.dies = false) :
    ∃ p h', fullName h answers = .ok (some p, h') ∧
      pathAt h' p = .ok ((answersOf a).text <|>
        (if answers.user.room then answers.user.text else none) <|>
        (if answers.literalRoom then some nullName else none)) := by
  obtain ⟨answer, h', found, -, dies, new⟩ := fullName_spec h answers
  have lives : answer ≠ none := by
    intro dead
    have reason := dies.mp dead
    rw [asked, alive, named] at reason
    simp at reason
  obtain ⟨p, rfl⟩ := Option.ne_none_iff_exists'.mp lives
  refine ⟨p, h', found, ?_⟩
  rw [(new p rfl).2, OpenDescriptors.name, asked, alive, named]
  rfl

end Callers

/-- A descriptor is resolved safely exactly when there is no file, no buffer or no path that is
too long for the buffer. -/
theorem safe_iff (a : FileByFd) :
    Safe a ↔ a.file = none ∨ LogStorage.kmalloc tmpSize a.tmpMemory = none ∨
      a.path.1.length + 1 ≤ tmpSize := by
  rw [← answersOf_dies]
  constructor
  · intro safe
    obtain ⟨path, ran, -⟩ := safe.resolves ⟨fun _ => 0, 0⟩
    rw [resolve_seen] at ran
    cases dies : (answersOf a).dies with
    | false => rfl
    | true =>
      rw [dies] at ran
      cases ran
  · intro alive
    exact ⟨resolves_alive alive, fun k k₁ task fd => lookedUp_alive alive, opened_alive alive⟩

theorem lettersFree (n : Nat) : (0 : Byte) ∉ List.replicate n 97 := by
  intro inside
  cases List.eq_of_mem_replicate inside

/-- A path that fills the buffer without its NUL. -/
def deepPath : CText := ⟨List.replicate 2048 97, lettersFree 2048⟩

/-- The path of an open file that does not fit is read through an error pointer. -/
theorem deep_path_faults :
    ¬Safe ⟨some 0, deepPath, some fun _ => 0, some fun _ => 0⟩ := by
  intro safe
  have long : ¬deepPath.1.length + 1 ≤ tmpSize := by
    rw [deepPath, List.length_replicate]
    decide
  obtain ⟨path, ran, -⟩ := safe.resolves ⟨fun _ => 0, 0⟩
  rw [resolve_long rfl rfl long] at ran
  cases ran

end SysMonitor.Guarantees.PathResolution
