import SysMonitor.Source.ReaderOutput

/-!
# When the reader prints the line it composed

The composed line is handed to `printf` as its format, so a percent sign that a monitored
process put into a path, an argument or its name is read as a conversion.
-/

namespace SysMonitor.Guarantees.PrintedLine
open SysMonitor.Library (bind_eq_ok)
open SysMonitor.Source SysMonitor.Source.Filter SysMonitor.Source.ReaderOutput
open SysMonitor.Source.ReaderInterface SysMonitor.Source.ReaderStrings

section Format

variable {s t : List Byte}

theorem printf_plain (free : 37 ∉ s) : printf s = .ok s := by
  induction s with
  | nil => rfl
  | cons c s ih =>
    have other : c ≠ 37 := (List.ne_of_not_mem_cons free).symm
    have rest := ih (List.not_mem_of_not_mem_cons free)
    rw [printf, rest]
    · rfl
    · rintro tail rfl
      exact fun _ => absurd rfl other
    · exact other

/-- Every conversion takes characters away. -/
theorem printf_length (printed : printf s = .ok t) :
    t.length ≤ s.length ∧ (37 ∈ s → t.length < s.length) := by
  fun_induction printf s generalizing t with
  | case1 =>
    obtain rfl := Except.ok.inj printed
    exact ⟨Nat.le_refl _, fun inside => nomatch inside⟩
  | case2 rest ih =>
    obtain ⟨tail, printedTail, same⟩ := bind_eq_ok printed
    obtain rfl := Except.ok.inj same
    have shorter := (ih printedTail).1
    simp only [List.length_cons]
    omega
  | case3 => cases printed
  | case4 c rest _ other ih =>
    obtain ⟨tail, printedTail, same⟩ := bind_eq_ok printed
    obtain rfl := Except.ok.inj same
    obtain ⟨shorter, strictly⟩ := ih printedTail
    refine ⟨Nat.succ_le_succ shorter, fun inside => Nat.succ_lt_succ (strictly ?_)⟩
    exact (List.mem_cons.mp inside).resolve_left fun same => other same.symm

/-- A format is printed as it is exactly when no character of it is a percent sign. -/
theorem printf_eq_self : printf s = .ok s ↔ 37 ∉ s := by
  constructor
  · exact fun printed inside => Nat.lt_irrefl _ ((printf_length printed).2 inside)
  · exact printf_plain

end Format

section Fields

theorem percent_decimal (value : Int) : 37 ∉ decimal value :=
  fun inside => absurd (isNumeral_of_mem_decimal inside) (by decide)

theorem percent_padded (width : Nat) (value : Int) : 37 ∉ padded width value :=
  fun inside => absurd (isNumeral_of_mem_padded inside) (by decide)

theorem percent_getTime (localtime : Word → Tm) (sec nsec : Word) (size : Nat) :
    37 ∉ getTime localtime sec nsec size := by
  have dash : 37 ∉ literal "-" := by decide
  have blank : 37 ∉ literal " " := by decide
  have colon : 37 ∉ literal ":" := by decide
  have dot : 37 ∉ literal "." := by decide
  intro inside
  have written := List.mem_of_mem_take inside
  simp only [timeText, List.mem_append, percent_padded, dash, blank, colon, dot, or_self] at written

theorem percent_operation (operation : Word) : 37 ∉ operationToString operation := by
  rw [operationToString]
  split
  all_goals decide

theorem percent_api (api : Word) : 37 ∉ apiToString api := by
  rw [apiToString]
  split
  all_goals decide

theorem percent_result (result : Word) : 37 ∉ resultText result := by
  rw [resultText, literal_append, List.mem_append]
  rintro (marker | digit)
  · exact absurd marker (by decide)
  · rw [LogText.hex, literal, String.toList_ofList, List.map_map] at digit
    obtain ⟨i, -, written⟩ := List.mem_map.mp digit
    have digits : ∀ k < 16, BitVec.ofNat 8 (Nat.digitChar k).toNat ≠ 37 := by decide
    exact digits _ (Nat.mod_lt _ (by decide)) written

end Fields

section Line

/-- The characters of the line in front of the process name. -/
def beforeProc (time : List Byte) (r : LogRecord) : List Byte :=
  literal "[" ++ time ++ literal "][" ++ decimal r.header.pid.toInt ++ literal "]["

/-- The characters between the process name and the path. -/
def beforePath (r : LogRecord) : List Byte :=
  literal "][" ++ operationToString r.header.operation ++ literal "][" ++
    apiToString r.header.api ++ literal "]["

/-- The characters between the path and the details. -/
def beforeDetails (r : LogRecord) : List Byte :=
  literal "][" ++ resultText r.header.result ++ literal "]["

/-- What there is room for in the buffer of a field with so many characters in front of it. -/
def kept (before : Nat) (field : List Byte) : List Byte := field.take (10240 - 1 - before)

/-- No percent sign in the process name, the path and the details, as far as they are kept. -/
def NoPercent (time proc : List Byte) (r : LogRecord) : Prop :=
  let atProc := (beforeProc time r).length
  let atPath := atProc + proc.length + (beforePath r).length
  let atDetails := atPath + r.path.length + (beforeDetails r).length
  37 ∉ kept atProc proc ∧ 37 ∉ kept atPath r.path ∧ 37 ∉ kept atDetails r.details

theorem mem_take_append {x : Byte} {a b : List Byte} {n : Nat} :
    x ∈ (a ++ b).take n ↔ x ∈ a.take n ∨ x ∈ b.take (n - a.length) := by
  rw [List.take_append, List.mem_append]

theorem mem_take_free {x : Byte} {a b : List Byte} {n : Nat} (free : x ∉ a) :
    x ∈ (a ++ b).take n ↔ x ∈ b.take (n - a.length) := by
  rw [mem_take_append]
  exact or_iff_right fun inside => free (List.mem_of_mem_take inside)

variable {time proc : List Byte} {r : LogRecord}

theorem lineText_eq : lineText time proc r = beforeProc time r ++ (proc ++ (beforePath r ++
    (r.path ++ (beforeDetails r ++ (r.details ++ literal "]\n"))))) := by
  simp only [lineText, beforeProc, beforePath, beforeDetails, List.append_assoc]

theorem percent_line (free : 37 ∉ time) :
    37 ∉ snprintf 10240 (lineText time proc r) ↔ NoPercent time proc r := by
  have bracket : 37 ∉ literal "[" := by decide
  have brackets : 37 ∉ literal "][" := by decide
  have ending : 37 ∉ literal "]\n" := by decide
  have first : 37 ∉ beforeProc time r := by
    simp only [beforeProc, List.mem_append, bracket, brackets, free, percent_decimal, or_self,
      not_false_eq_true]
  have second : 37 ∉ beforePath r := by
    simp only [beforePath, List.mem_append, brackets, percent_operation, percent_api, or_self,
      not_false_eq_true]
  have third : 37 ∉ beforeDetails r := by
    simp only [beforeDetails, List.mem_append, brackets, percent_result, or_self,
      not_false_eq_true]
  have last : ∀ n, 37 ∉ (literal "]\n").take n := fun n inside => ending (List.mem_of_mem_take inside)
  rw [snprintf, lineText_eq, mem_take_free first, mem_take_append, mem_take_free second,
    mem_take_append, mem_take_free third, mem_take_append, or_iff_left (last _), NoPercent]
  simp only [kept, not_or, Nat.sub_sub, Nat.add_assoc]

theorem composeLine_eq {w : World}
    (named : processName w.surroundings r.header.pid w.buffer 256 = .ok proc) :
    composeLine w r = .ok (snprintf 10240
      (lineText (getTime w.localtime r.header.sec r.header.nsec 64) proc r)) := by
  rw [composeLine, named]
  rfl

/-- A composed line comes out of `printf` unchanged exactly when it has no percent sign. -/
theorem composed_printed {composed : Except Fault (List Byte)} {line : List Byte}
    (made : composed = .ok line) :
    (∀ line, composed = .ok line → (composed >>= printf) = .ok line) ↔ 37 ∉ line := by
  subst made
  constructor
  · exact fun exactly => printf_eq_self.mp (exactly line rfl)
  · intro free line' same
    obtain rfl := Except.ok.inj same
    exact printf_plain free

end Line

/-- A record that is shown is printed as the line that was composed exactly when neither the
process name nor the path nor the details have a percent sign. -/
theorem printRecord_iff (worlds : Nat → World) (rules : List FilterItem) (r : LogRecord)
    (shown : filterLog worlds rules r = .ok .resultInclude) :
    (∀ line, composeLine (worlds rules.length) r = .ok line →
        printRecord worlds rules r = .ok line) ↔
      ∀ proc, processName (worlds rules.length).surroundings r.header.pid
          (worlds rules.length).buffer 256 = .ok proc →
        NoPercent (getTime (worlds rules.length).localtime r.header.sec r.header.nsec 64) proc r := by
  have body : printRecord worlds rules r = (composeLine (worlds rules.length) r >>= printf) := by
    rw [printRecord, shown]
    rfl
  rw [body]
  generalize worlds rules.length = w
  cases named : processName w.surroundings r.header.pid w.buffer 256 with
  | error e =>
    rw [composeLine, named]
    exact iff_of_true (fun line found => nomatch found) (fun proc found => nomatch found)
  | ok proc =>
    rw [composed_printed (composeLine_eq named), percent_line (percent_getTime _ _ _ _)]
    constructor
    · intro noPercent proc' same
      rwa [← Except.ok.inj same]
    · exact fun noPercent => noPercent proc rfl

theorem percentPath_nulFree : 0 ∉ literal "/a%b" := by decide

/-- A record with the path `/a%b`. -/
def percentRecord : LogRecord :=
  ⟨⟨0, 0, 0, 0, 0, 0, 0, 0, 0, 0⟩, literal "/a%b", [], percentPath_nulFree, noDetails_nulFree⟩

/-- The line is composed, and printing it is undefined. -/
theorem printRecord_percent :
    filterLog (fun _ => World.empty) [] percentRecord = .ok .resultInclude ∧
      composeLine World.empty percentRecord = .ok (literal ("[1970-01-01 00:00:00.000][0]" ++
        "[PROCESS #0][<Null operation>][<Null api>][/a%b][0x00000000][]\n")) ∧
      printRecord (fun _ => World.empty) [] percentRecord = .error .outOfBounds := by
  refine ⟨rfl, ?_, ?_⟩
  · decide +kernel
  · decide +kernel

theorem printRecord_iff_percentRecord :
    (∀ line, composeLine World.empty percentRecord = .ok line →
        printRecord (fun _ => World.empty) [] percentRecord = .ok line) ↔
      ∀ proc, processName World.empty.surroundings percentRecord.header.pid
          World.empty.buffer 256 = .ok proc →
        NoPercent (getTime World.empty.localtime percentRecord.header.sec
          percentRecord.header.nsec 64) proc percentRecord :=
  printRecord_iff (fun _ => World.empty) [] percentRecord rfl

end SysMonitor.Guarantees.PrintedLine
