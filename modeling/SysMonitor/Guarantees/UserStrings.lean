import SysMonitor.Source.LogCache
import SysMonitor.Source.UserStrings

/-!
# Which copies of user strings are terminated

`copy_string_from_user` looks for a failure of `strncpy_from_user` only, and its message about one
does not always return. A string that does not end within `STRING_MAX_SIZE` bytes fills the holder,
and every string function that is given the copy then runs off it.
-/

namespace SysMonitor.Guarantees.UserStrings
open SysMonitor.Library.CyclicBuffer SysMonitor.Library.TerminatedStrings SysMonitor.Source
open SysMonitor.Source.KernelStrings SysMonitor.Source.LogText SysMonitor.Source.UserStrings

/-- The copy holds the beginning of the user's string, and whatever is done with it stays
inside and makes strings: as a path, as a name in the fd cache, as a parameter. -/
structure Terminated (source : UserMemory) (buffer : List Byte) : Prop where
  size : buffer.length = STRING_MAX_SIZE
  nul : 0 ∈ buffer
  isPrefix : ∀ i (inside : i < (text buffer).length), source i = some (text buffer)[i]
  path : ∀ detailsSize memory, MakesString (pathInRecord buffer detailsSize memory)
  name : ∀ memory, MakesString (nameInRecord buffer memory)
  param : ∀ name : List Byte, 0 ∉ name → ∀ memory,
    MakesString (textOfParam (name ++ [0]) buffer memory)

section Copy

variable {source : UserMemory} {printed : Bool} {holder : Holder} {buffer : List Byte}

/-- What `strncpy_from_user` stores, with the rest of the holder behind it. -/
theorem copy_eq_some (copied : copyStringFromUser source printed (some holder) = .ok (some buffer)) :
    0 ≤ (strncpyFromUser source STRING_MAX_SIZE).2 ∧
      buffer = (strncpyFromUser source STRING_MAX_SIZE).1
        ++ holder.val.drop (strncpyFromUser source STRING_MAX_SIZE).1.length := by
  unfold copyStringFromUser at copied
  dsimp only at copied
  split at copied
  · split at copied <;> cases copied
  next succeeded =>
    refine ⟨Int.not_lt.mp succeeded, ?_⟩
    rw [← Option.some.inj (Except.ok.inj copied), splice]
    simp

theorem copy_length (copied : copyStringFromUser source printed (some holder) = .ok (some buffer)) :
    buffer.length = STRING_MAX_SIZE := by
  have short : (strncpyFromUser source STRING_MAX_SIZE).1.length ≤ STRING_MAX_SIZE :=
    stored_begins.1
  have size := holder.property
  rw [(copy_eq_some copied).2, List.length_append, List.length_drop]
  omega

/-- A source that ends in time gives a copy with a NUL and the source's bytes before it. -/
theorem copy_of_ends (copied : copyStringFromUser source printed (some holder) = .ok (some buffer))
    (ends : EndsWithin source STRING_MAX_SIZE) : Terminated source buffer := by
  obtain ⟨succeeded, split⟩ := copy_eq_some copied
  have stored := @stored_begins source STRING_MAX_SIZE
  have zero := (stored_zero_iff succeeded).mpr ends
  obtain ⟨rest, parts⟩ := exists_rest zero
  have whole : buffer = text (strncpyFromUser source STRING_MAX_SIZE).1 ++ 0 :: (rest
      ++ holder.val.drop (strncpyFromUser source STRING_MAX_SIZE).1.length) := by
    rw [split, ← List.cons_append, ← List.append_assoc, ← parts]
  have same : text buffer = text (strncpyFromUser source STRING_MAX_SIZE).1 := by
    rw [whole, text_terminated (zero_notMem_text _)]
  have nul : 0 ∈ buffer := by
    rw [whole]
    simp
  have found : stringIn buffer = .ok (text buffer) := stringIn_text nul
  refine ⟨copy_length copied, nul, ?_, fun size memory => pathInRecord_ok found memory size,
    fun memory => nameInRecord_ok found memory,
    fun name free memory => textOfParam_ok found memory free⟩
  rw [same]
  intro i inside
  have below := text_length_lt zero
  rw [stored.2 i (by omega)]
  have taken : text (strncpyFromUser source STRING_MAX_SIZE).1
      <+: (strncpyFromUser source STRING_MAX_SIZE).1 := List.takeWhile_prefix _
  exact congrArg some (taken.getElem inside).symm

/-- A source that does not end in time fills the holder with bytes that are not NUL. -/
theorem copy_of_long (printed : Bool) (holder : Holder)
    (long : ¬ EndsWithin source STRING_MAX_SIZE) :
    ∃ buffer, copyStringFromUser source printed (some holder) = .ok (some buffer) ∧ 0 ∉ buffer := by
  obtain ⟨length, copied⟩ := stored_full long
  have succeeded : 0 ≤ (strncpyFromUser source STRING_MAX_SIZE).2 := by
    rw [copied]
    decide
  refine ⟨(strncpyFromUser source STRING_MAX_SIZE).1, ?_, ?_⟩
  · unfold copyStringFromUser
    dsimp only
    rw [if_neg (Int.not_lt.mpr succeeded), splice_all _ _ (by rw [length, holder.property])]
  · rw [stored_zero_iff succeeded]
    exact long

/-- For every user memory, every copy that `copy_string_from_user` hands out is terminated, a
prefix of the user's string and read inside its block by all its users, if and only if there
is no room for a copy or the string (or the memory that can be read) ends within
`STRING_MAX_SIZE` bytes. -/
theorem copies_terminated_iff (source : UserMemory) (printed : Bool) (holder : Option Holder) :
    (∀ buffer, copyStringFromUser source printed holder = .ok (some buffer) →
        Terminated source buffer)
      ↔ holder = none ∨ EndsWithin source STRING_MAX_SIZE := by
  cases holder with
  | none =>
    apply iff_of_true _ (.inl rfl)
    intro buffer copied
    cases copied
  | some holder =>
    constructor
    · intro terminated
      by_contra neither
      rw [not_or] at neither
      obtain ⟨buffer, copied, noNul⟩ := copy_of_long printed holder neither.2
      exact noNul (terminated buffer copied).nul
    · rintro (none | ends) buffer copied
      · cases none
      · exact copy_of_ends copied ends

end Copy

/-- A block without a NUL is read past its end, whatever becomes of it. -/
theorem uses_fault {buffer : List Byte} (noNul : 0 ∉ buffer) (memory : Option (Nat → Byte)) :
    pathInRecord buffer 1 memory = .error .outOfBounds ∧
    nameInRecord buffer memory = .error .outOfBounds ∧
    textOfParam [97, 0] buffer memory = .error .outOfBounds := by
  have read : strlen buffer = .error .outOfBounds := by
    rw [strlen, stringIn_unterminated noNul]
    rfl
  rw [pathInRecord, nameInRecord, textOfParam, read]
  exact ⟨rfl, rfl, rfl⟩

/-- 256 letters and then a NUL. -/
def longName : UserMemory := fun i => if i < 256 then some 97 else some 0

/-- The copy of a name of 256 characters has no NUL. -/
theorem long_copy_unterminated : ∃ buffer,
    copyStringFromUser longName true (some ⟨List.replicate 256 0, List.length_replicate⟩)
      = .ok (some buffer) ∧
    ¬ Terminated longName buffer ∧
    pathInRecord buffer 1 none = .error .outOfBounds ∧
    nameInRecord buffer none = .error .outOfBounds ∧
    textOfParam [97, 0] buffer none = .error .outOfBounds := by
  have long : ¬ EndsWithin longName STRING_MAX_SIZE := by
    rintro ⟨i, below, ends⟩
    rw [longName, if_pos (show i < 256 from below)] at ends
    revert ends
    decide
  obtain ⟨buffer, copied, noNul⟩ :=
    copy_of_long true ⟨List.replicate 256 0, List.length_replicate⟩ long
  exact ⟨buffer, copied, fun terminated => noNul terminated.nul, uses_fault noNul none⟩

section Blocks

/-- The text lies at the address, with its NUL behind it or the end of what can be read. -/
structure LiesAt (source : UserMemory) (str : UserText) : Prop where
  bytes : ∀ i (inside : i < str.text.bytes.length), source i = some str.text.bytes[i]
  ending : source str.text.strlen = str.string.map fun _ => 0

/-- The bytes of a text are copied as far as the bound goes, and then what follows them. -/
theorem strncpyFromUser_text {source : UserMemory} {s : List Byte} (free : 0 ∉ s)
    (lies : ∀ i (inside : i < s.length), source i = some s[i]) (n : Nat) :
    let rest := strncpyFromUser (fun i => source (i + s.length)) (n - s.length)
    strncpyFromUser source n
      = (s.take n ++ rest.1, if rest.2 < 0 then rest.2 else rest.2 + (min s.length n : Nat)) := by
  induction s generalizing source n with
  | nil => simp
  | cons byte s ih =>
    rw [List.mem_cons, not_or] at free
    cases n with
    | zero => simp [strncpyFromUser]
    | succ n =>
      have rest := @ih (fun i => source (i + 1)) free.2
        (fun i inside => lies (i + 1) (Nat.succ_lt_succ inside)) n
      have after : (fun i => source (i + s.length + 1)) = fun i => source (i + (s.length + 1)) := rfl
      rw [strncpyFromUser, show source 0 = some byte from lies 0 (Nat.succ_pos _)]
      simp only [List.length_cons, Nat.add_sub_add_right, List.take_succ_cons, List.cons_append]
      rw [if_neg (Ne.symm free.1), rest, after]
      dsimp only
      refine Prod.ext rfl ?_
      dsimp only
      split
      · rfl
      · push_cast
        omega

section Texts

variable {source : UserMemory} {text : CString} (printed : Bool) (holder : Holder)

/-- A copy with the text and the NUL that the log module gives it. -/
def HoldsChars (source : UserMemory) (printed : Bool) (holder : Holder) (chars : LogCache.Chars) :
    Prop :=
  ∃ buffer, copyStringFromUser source printed (some holder) = .ok (some buffer) ∧
    (chars.terminated = true ↔ 0 ∈ buffer) ∧ chars.text.bytes = Library.TerminatedStrings.text buffer

theorem holds_cut (lies : ∀ i (inside : i < text.bytes.length), source i = some text.bytes[i])
    (long : ¬ text.strlen < STRING_MAX_SIZE) :
    HoldsChars source printed holder (LogCache.firstChars text) := by
  have stored := strncpyFromUser_text text.nulFree lies STRING_MAX_SIZE
  have length : (text.bytes.take STRING_MAX_SIZE).length = STRING_MAX_SIZE :=
    List.length_take_of_le (Nat.not_lt.mp long)
  have free : 0 ∉ text.bytes.take STRING_MAX_SIZE :=
    fun inside => text.nulFree (List.mem_of_mem_take inside)
  have kept : (CString.ofBytes (text.bytes.take STRING_MAX_SIZE)).bytes
      = text.bytes.take STRING_MAX_SIZE := by
    change (Library.TerminatedStrings.text (text.bytes.take STRING_MAX_SIZE)).take
      (kernelSpace - 1) = _
    rw [text_of_free free]
    exact List.take_of_length_le (by rw [length]; decide)
  rw [show STRING_MAX_SIZE - text.bytes.length = 0 from
    Nat.sub_eq_zero_of_le (Nat.not_lt.mp long)] at stored
  refine ⟨text.bytes.take STRING_MAX_SIZE, ?_, ?_, ?_⟩
  · rw [copyStringFromUser, stored]
    simp [strncpyFromUser, splice_all, length, holder.property]
  · rw [LogCache.firstChars, if_neg long]
    exact iff_of_false Bool.false_ne_true free
  · rw [LogCache.firstChars, if_neg long, text_of_free free]
    exact kept

theorem holds_whole (lies : LiesAt source (.whole text)) (short : text.strlen < STRING_MAX_SIZE) :
    HoldsChars source printed holder (LogCache.firstChars text) := by
  have stored := strncpyFromUser_text text.nulFree lies.bytes STRING_MAX_SIZE
  obtain ⟨more, left⟩ := Nat.exists_eq_add_of_lt short
  have rest : STRING_MAX_SIZE - text.bytes.length = more + 1 := by
    rw [CString.strlen] at left
    omega
  have nul : source (0 + text.bytes.length) = some 0 := by
    rw [Nat.zero_add]
    exact lies.ending
  dsimp only [UserText.text] at stored
  rw [rest, strncpyFromUser, nul, List.take_of_length_le (Nat.le_of_lt short)] at stored
  have whole : splice holder.val 0 (text.bytes ++ [0])
      = text.bytes ++ 0 :: holder.val.drop (text.bytes.length + 1) := by simp [splice]
  refine ⟨splice holder.val 0 (text.bytes ++ [0]), ?_, ?_, ?_⟩
  · rw [copyStringFromUser, stored]
    exact if_neg (by simp)
  · rw [LogCache.firstChars, if_pos short, whole]
    simp
  · rw [LogCache.firstChars, if_pos short, whole, text_terminated text.nulFree]

theorem copy_fails (lies : LiesAt source (.broken text printed))
    (short : text.strlen < STRING_MAX_SIZE) : copyStringFromUser source printed (some holder)
      = if printed then .ok none else .error .badAddress := by
  have stored := strncpyFromUser_text text.nulFree lies.bytes STRING_MAX_SIZE
  obtain ⟨more, left⟩ := Nat.exists_eq_add_of_lt short
  have rest : STRING_MAX_SIZE - text.bytes.length = more + 1 := by
    rw [CString.strlen] at left
    omega
  have unreadable : source (0 + text.bytes.length) = none := by
    rw [Nat.zero_add]
    exact lies.ending
  dsimp only [UserText.text] at stored
  rw [rest, strncpyFromUser, unreadable] at stored
  rw [copyStringFromUser, stored]
  rfl

end Texts

/-- The blocks of the log module hold what is copied here, and it stops where this does. -/
theorem copied_chars {source : UserMemory} {str : UserText} (lies : LiesAt source str)
    (holder : Holder) :
    (∀ chars, LogCache.strncpyFromUser str = some chars →
      HoldsChars source str.prints holder chars) ∧
    (LogCache.strncpyFromUser str = none → copyStringFromUser source str.prints (some holder)
      = if str.prints then .ok none else .error .badAddress) := by
  cases str with
  | whole text =>
    refine ⟨fun chars copied => ?_, nofun⟩
    rw [← Option.some.inj copied]
    by_cases short : text.strlen < STRING_MAX_SIZE
    · exact holds_whole _ holder lies short
    · exact holds_cut _ holder lies.bytes short
  | broken text printed =>
    rw [LogCache.strncpyFromUser]
    by_cases short : text.strlen < STRING_MAX_SIZE
    · rw [if_pos short]
      exact ⟨nofun, fun _ => copy_fails printed holder lies short⟩
    · rw [if_neg short]
      refine ⟨fun chars copied => ?_, nofun⟩
      rw [← Option.some.inj copied]
      exact holds_cut printed holder lies.bytes short

end Blocks

end SysMonitor.Guarantees.UserStrings
