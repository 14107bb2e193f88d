import SysMonitor.Source.ReaderInterface

/-!
# The name of a process is read whole

A monitored program chooses its own name, and the name stands in the stat file between a
pair of parentheses with the other fields around it. The first blank, one character more and
the last closing parenthesis find it in every case.
-/

namespace SysMonitor.Guarantees.ProcessNames
open SysMonitor.Library.CyclicBuffer
open SysMonitor.Source SysMonitor.Source.ReaderInterface SysMonitor.Source.ReaderStrings
open SysMonitor.Source.Reader (stringAt)

/-- `<pid> (<name>) <remainder>`, as the kernel writes it. -/
def statText (pid : Word) (name remainder : List Byte) : List Byte :=
  decimal pid.toInt ++ literal " (" ++ name ++ literal ") " ++ remainder

/-- The command line of the process is empty, or cannot be read. -/
def NoCommandLine (s : Surroundings) (pid : Word) : Prop :=
  readFile s.files (procPath pid "/cmdline") = []

/-- The stat file of the process can be opened and reads so. -/
def StatReads (s : Surroundings) (pid : Word) (stat : List Byte) : Prop :=
  ∃ file, s.files (procPath pid "/stat") = some file ∧ file.delivers = some stat

section Parts

variable {pid : Word} {name remainder rest : List Byte}

theorem notMem_decimal {c : Byte} (other : ¬ IsNumeral c) (value : Int) : c ∉ decimal value :=
  fun inside => other (isNumeral_of_mem_decimal inside)

theorem statText_eq (pid : Word) (name remainder : List Byte) :
    statText pid name remainder
      = decimal pid.toInt ++ 32 :: 40 :: (name ++ 41 :: 32 :: remainder) := by
  have opening : literal " (" = [32, 40] := by decide
  have closing : literal ") " = [41, 32] := by decide
  simp [statText, opening, closing]

/-- A text stored in a longer block, with a NUL behind it. -/
theorem store_behind {block text : List Byte} (room : text.length < block.length) :
    ∃ tail, store (splice block 0 text) text.length 0 = .ok (text ++ 0 :: tail) := by
  obtain ⟨old, tail, rest⟩ : ∃ old tail, block.drop text.length = old :: tail :=
    List.exists_cons_of_length_pos (by rw [List.length_drop]; omega)
  refine ⟨tail, ?_⟩
  rw [splice, Nat.zero_add, rest]
  exact store_between text tail old 0

theorem drop_two (token rest : List Byte) (c d : Byte) :
    (token ++ c :: d :: rest).drop (token.length + 1 + 1) = rest := by
  simp [Nat.add_assoc]

/-- What the remainder adds to the string that starts with the name has no parenthesis. -/
theorem remainder_string (noParen : 41 ∉ remainder) (tail : List Byte) :
    ∃ after behind, 32 :: (remainder ++ 0 :: tail) = after ++ 0 :: behind ∧ 0 ∉ after ∧
      41 ∉ after := by
  have terminated : 0 ∈ 32 :: (remainder ++ [0]) := by simp
  obtain ⟨after, behind, split, free⟩ := List.eq_append_cons_of_mem terminated
  refine ⟨after, behind ++ tail, ?_, free, ?_⟩
  · have extended := congrArg (· ++ tail) split
    simpa using extended
  · intro paren
    have inside : 41 ∈ 32 :: (remainder ++ [0]) := by
      rw [split]
      exact List.mem_append_left _ paren
    rw [List.mem_cons, List.mem_append, List.mem_singleton] at inside
    rcases inside with blank | inside | nul
    · exact absurd blank (by decide)
    · exact noParen inside
    · exact absurd nul (by decide)

/-- `nameFromStat` step by step. -/
theorem nameFromStat_eq {block stat buffer cut ended string : List Byte} {ptr i : Nat}
    (stored : store (splice block 0 stat) stat.length 0 = .ok buffer)
    (first : nexttok buffer 0 = .ok (cut, some ptr))
    (found : stringAt (cut.drop (ptr + 1)) = .ok string) (last : strrchr 41 string = some i)
    (closed : store cut (ptr + 1 + i) 0 = .ok ended) :
    nameFromStat block stat = .ok (ended, ptr + 1) := by
  simp only [nameFromStat, stored, first, found, last, closed, bind, Except.bind, pure, Except.pure]

/-- Of a stat text, the name is found whatever characters it has. -/
theorem nameFromStat_found {block : List Byte} (nulFree : 0 ∉ name) (noParen : 41 ∉ remainder)
    (room : (statText pid name remainder).length < block.length) :
    ∃ found ptr, nameFromStat block (statText pid name remainder) = .ok (found, ptr) ∧
      stringAt (found.drop ptr) = .ok name := by
  obtain ⟨tail, stored⟩ := store_behind room
  obtain ⟨after, behind, split, free, noParen'⟩ := remainder_string noParen tail
  let token := decimal pid.toInt
  have layout : statText pid name remainder ++ 0 :: tail
      = token ++ 32 :: 40 :: (name ++ 41 :: (after ++ 0 :: behind)) := by
    rw [statText_eq, ← split]
    simp [token]
  have first : nexttok (token ++ 32 :: 40 :: (name ++ 41 :: (after ++ 0 :: behind))) 0
      = .ok (token ++ 0 :: 40 :: (name ++ 41 :: (after ++ 0 :: behind)), some (token.length + 1)) :=
    nexttok_first (notMem_decimal (by decide) _) (notMem_decimal (by decide) _) (by simp)
  have string : stringAt (name ++ 41 :: (after ++ 0 :: behind)) = .ok (name ++ 41 :: after) := by
    have whole : 0 ∉ name ++ 41 :: after := by
      simp only [List.mem_append, List.mem_cons, not_or]
      exact ⟨nulFree, by decide, free⟩
    rw [← List.cons_append, ← List.append_assoc]
    exact stringAt_terminated whole behind
  have cut := store_between (token ++ 0 :: 40 :: name) (after ++ 0 :: behind) 41 0
  refine ⟨(token ++ 0 :: 40 :: name) ++ 0 :: (after ++ 0 :: behind), token.length + 1 + 1, ?_, ?_⟩
  · have index : (token ++ 0 :: 40 :: name).length = token.length + 1 + 1 + name.length := by
      simp
      omega
    have same : token ++ 0 :: 40 :: (name ++ 41 :: (after ++ 0 :: behind))
        = (token ++ 0 :: 40 :: name) ++ 41 :: (after ++ 0 :: behind) := by simp
    rw [← same, index] at cut
    exact nameFromStat_eq (stored.trans (congrArg Except.ok layout)) first
      (by rw [drop_two, string]) (strrchr_last name noParen') cut
  · rw [List.append_assoc, List.cons_append, List.cons_append, drop_two]
    exact stringAt_terminated nulFree _

/-- The path of a file of a process is short enough for the local buffers. -/
theorem procPath_string (pid : Word) (file : String) (nulFree : 0 ∉ literal file)
    (short : (literal file).length ≤ 100) (block : List Byte) (room : 1024 ≤ block.length) :
    ∃ stored, snprintfInto block 1024 (procPath pid file) = .ok stored ∧
      stored.length = block.length ∧ stringAt stored = .ok (procPath pid file) := by
  have free : 0 ∉ procPath pid file := by
    simp only [procPath, List.mem_append, not_or]
    exact ⟨⟨by decide, notMem_decimal (by decide) _⟩, nulFree⟩
  have fits : (procPath pid file).length ≤ 1023 := by
    have digits := decimal_length_le pid
    have directory : (literal "/proc/").length = 6 := by decide
    simp only [procPath, List.length_append]
    omega
  have whole : snprintf 1024 (procPath pid file) = procPath pid file := List.take_of_length_le fits
  refine ⟨_, snprintfInto_eq (by decide) room _, ?_, ?_⟩
  · rw [whole]
    apply splice_length
    rw [List.length_append, List.length_singleton]
    omega
  · rw [snprintf_stored free, whole]

end Parts

/-- With an empty command line, a process gets the name that its stat file has, however it is
made up: cut to the buffer it is written to, and its length is returned. -/
theorem processName_exact (s : Surroundings) (pid : Word) (name remainder buffer : List Byte)
    (bufferSize : Nat) (nulFree : 0 ∉ name) (nonEmpty : name ≠ []) (noParen : 41 ∉ remainder)
    (positive : 0 < bufferSize) (room : bufferSize ≤ buffer.length)
    (noCommandLine : NoCommandLine s pid) (reads : StatReads s pid (statText pid name remainder))
    (short : (statText pid name remainder).length ≤ 1023) :
    ∃ written, getProcessFromNative s pid buffer bufferSize = .ok (name.length, written) ∧
      written = splice buffer 0 (name.take (bufferSize - 1) ++ [0]) ∧
      stringAt written = .ok (name.take (bufferSize - 1)) ∧ (name.length : Int) ≠ 0 := by
  obtain ⟨cmdline, path, cmdlineSize, string⟩ := procPath_string pid "/cmdline" (by decide)
    (by decide) s.cmdline (Nat.le_of_eq s.cmdlineSize.symm)
  obtain ⟨block, path', blockSize, string'⟩ := procPath_string pid "/stat" (by decide)
    (by decide) s.name (Nat.le_of_eq s.nameSize.symm)
  have delivered : readFile s.files (procPath pid "/cmdline") = [] := noCommandLine
  obtain ⟨file, opened, delivers⟩ := reads
  have stat : readFile s.files (procPath pid "/stat") = statText pid name remainder := by
    rw [readFile, opened]
    show (if file.fd = 0 then [] else (file.delivers.getD []).take 1023) = _
    rw [if_neg file.notFirst, delivers]
    exact List.take_of_length_le short
  have statNonEmpty : statText pid name remainder ≠ [] := by
    rw [statText_eq]
    simp
  have roomy : (statText pid name remainder).length < block.length := by
    rw [blockSize, s.nameSize]
    omega
  obtain ⟨found, ptr, parsed, ptrName⟩ := nameFromStat_found nulFree noParen roomy
  have cleared : store (splice cmdline 0 []) 0 0 = .ok (cmdline.set 0 0) := by
    rw [splice_nil, store, if_pos (by rw [cmdlineSize, s.cmdlineSize]; decide)]
  have isEmpty : (cmdline.set 0 0).head? = some 0 := by
    rw [List.head?_eq_getElem?, List.getElem?_set_self (by rw [cmdlineSize, s.cmdlineSize]; decide)]
  have nameLength : name.length < 2 ^ 31 := by
    rw [statText_eq] at short
    simp only [List.length_append, List.length_cons] at short
    omega
  refine ⟨_, ?_, rfl, snprintf_stored nulFree, ?_⟩
  · rw [← toInt_small nameLength]
    simp only [getProcessFromNative, path, string, delivered, cleared, path', string', stat,
      statNonEmpty, parsed, isEmpty, ptrName, snprintfInto_eq positive room, bind, Except.bind,
      pure, Except.pure, List.length_nil, if_true, if_false, ne_eq, not_true_eq_false]
    rfl
  · exact_mod_cast (List.length_pos_of_ne_nil nonEmpty).ne'

theorem descriptor_ne_zero : (3 : Nat) ≠ 0 := by decide

/-- The stat file of a process that calls itself `a) (b`. -/
def parenthesisedStat : OpenedFile :=
  ⟨3, some (statText 7 (literal "a) (b") (literal "S 1 7")), descriptor_ne_zero⟩

def parenthesisedFiles (path : List Byte) : Option OpenedFile :=
  if path = procPath 7 "/stat" then some parenthesisedStat else none

def parenthesised : Surroundings := { noProcesses with files := parenthesisedFiles }

theorem parenthesised_stat :
    StatReads parenthesised 7 (statText 7 (literal "a) (b") (literal "S 1 7")) := by
  have opened : parenthesisedFiles (procPath 7 "/stat") = some parenthesisedStat := if_pos rfl
  exact ⟨parenthesisedStat, opened, rfl⟩

theorem parenthesised_noCommandLine : NoCommandLine parenthesised 7 := by
  have absent : parenthesisedFiles (procPath 7 "/cmdline") = none := if_neg (by decide)
  have files : parenthesised.files = parenthesisedFiles := rfl
  rw [NoCommandLine, readFile, files, absent]

theorem processName_exact_parenthesised :
    ∃ written, getProcessFromNative parenthesised 7 [1, 2, 3, 4] 4 = .ok (5, written) ∧
      written = splice [1, 2, 3, 4] 0 ((literal "a) (b").take 3 ++ [0]) ∧
      stringAt written = .ok ((literal "a) (b").take 3) ∧ (5 : Int) ≠ 0 :=
  processName_exact parenthesised 7 (literal "a) (b") (literal "S 1 7") [1, 2, 3, 4] 4 (by decide)
    (by decide) (by decide) (by decide) (by decide) parenthesised_noCommandLine parenthesised_stat
    (by decide)

end SysMonitor.Guarantees.ProcessNames
