import SysMonitor.Library.TerminatedStrings
import SysMonitor.Source.DeelxElements

/-!
# The builder of the regular expression engine: `CBuilderT` of native/jni/deelx.h

The text of a pattern is read character by character, with the two characters behind the
current one known, and elements are built by recursive descent. No flags are given. Comments,
quoted text, numbers of characters in hexadecimal, back references, braces, sets of characters
and the constructs that begin with `(?` come to nothing here, and so do quantifiers that are not
greedy.
-/

namespace SysMonitor.Source.Deelx

/-- `CHART_INFO`, without the place in the pattern. A character of type 1 has a meaning of its
own. -/
structure CharInfo where
  ch : Byte
  type : Nat
  deriving DecidableEq

def ordinary (ch : Char) : CharInfo := ⟨BitVec.ofNat 8 ch.toNat, 0⟩

def special (ch : Char) : CharInfo := ⟨BitVec.ofNat 8 ch.toNat, 1⟩

/-- What stands behind the end of the pattern. -/
def patternEnd : CharInfo := ⟨0, 1⟩

structure Builder where
  pattern : List Byte
  nextPos : Nat
  charsetDepth : Nat
  curr : CharInfo
  next : CharInfo
  nex2 : CharInfo
  maxNumber : Nat

/-- The characters of a literal. -/
def among (chars : String) (ch : Byte) : Bool := (ReaderStrings.literal chars).contains ch

/-- A character behind a backslash, with how many characters were read. -/
def escaped (b : Builder) : Option (CharInfo × Nat) :=
  let ch1 := b.pattern.getD (b.nextPos + 1) 0
  if among "0123456789" ch1 then some (special '\\', 1)
  else if among "AZzwWsSBdDkg" ch1 then some (⟨ch1, 1⟩, 2)
  else if ch1 = 98 then some (if b.charsetDepth > 0 then ⟨8, 0⟩ else ⟨ch1, 1⟩, 2)
  else if ch1 = 71 ∧ b.charsetDepth = 0 then some (⟨ch1, 1⟩, 2)
  else if among "xuLUQEG" ch1 then none
  else if ch1 = 97 then some (⟨7, 0⟩, 2)
  else if ch1 = 102 then some (⟨12, 0⟩, 2)
  else if ch1 = 110 then some (⟨10, 0⟩, 2)
  else if ch1 = 114 then some (⟨13, 0⟩, 2)
  else if ch1 = 116 then some (⟨9, 0⟩, 2)
  else if ch1 = 118 then some (⟨11, 0⟩, 2)
  else if ch1 = 101 then some (⟨27, 0⟩, 2)
  else if ch1 = 0 ∧ b.nextPos + 1 ≥ b.pattern.length then some (ordinary '\\', 1)
  else some (⟨ch1, 0⟩, 2)

/-- `GetNext2` -/
def Builder.getNext2 (b : Builder) : Option Builder :=
  match b.pattern[b.nextPos]? with
  | none => some { b with nex2 := patternEnd }
  | some ch =>
    let read (nex2 : CharInfo) : Builder := { b with nex2, nextPos := b.nextPos + 1 }
    let outside : CharInfo := if b.charsetDepth > 0 then ⟨ch, 0⟩ else ⟨ch, 1⟩
    if ch = 92 then
      (escaped b).map fun (nex2, delta) => { b with nex2, nextPos := b.nextPos + delta }
    else if among "*+?.{})|$" ch then some (read outside)
    else if ch = 45 then some (read (if b.charsetDepth > 0 then ⟨ch, 1⟩ else ⟨ch, 0⟩))
    else if ch = 40 then
      if b.pattern.getD (b.nextPos + 1) 0 = 63 ∧ b.pattern.getD (b.nextPos + 2) 0 = 35 then none
      else some (read outside)
    else if ch = 91 then
      if b.charsetDepth = 0 ∨ b.pattern.getD (b.nextPos + 1) 0 = 58 then
        some { read ⟨ch, 1⟩ with charsetDepth := b.charsetDepth + 1 }
      else some (read ⟨ch, 0⟩)
    else if ch = 93 then
      if b.charsetDepth > 0 then some { read ⟨ch, 1⟩ with charsetDepth := b.charsetDepth - 1 }
      else some (read ⟨ch, 0⟩)
    else if ch = 58 then some (read (if b.next = special '[' then ⟨ch, 1⟩ else ⟨ch, 0⟩))
    else if ch = 94 then
      if b.charsetDepth = 0 ∨ b.next = special '[' ∨ (b.curr = special '[' ∧ b.next = special ':') then
        some (read ⟨ch, 1⟩)
      else some (read ⟨ch, 0⟩)
    else some (read ⟨ch, 0⟩)

/-- `MoveNext` -/
def Builder.moveNext (b : Builder) : Option Builder :=
  { b with curr := b.next, next := b.nex2 }.getNext2

/-- What `GetStockElx` and `BuildCharset` give for a class of characters. -/
def stockRange (ch : Byte) : Option Elx :=
  let word := [((65 : Byte), (90 : Byte)), (97, 122), (48, 57)]
  if ch = 46 then some (.range false [] [10])
  else if ch = 119 then some (.range true word [95])
  else if ch = 87 then some (.range false word [95])
  else if ch = 115 then some (.range true [] [32, 9, 13, 10])
  else if ch = 83 then some (.range false [] [32, 9, 13, 10])
  else if ch = 100 then some (.range true [(48, 57)] [])
  else if ch = 68 then some (.range false [(48, 57)] [])
  else none

/-- What `BuildBoundary` gives. -/
def stockBoundary (ch : Byte) : Option Elx :=
  if ch = 94 then some (.boundary .fileBegin true)
  else if ch = 36 then some (.boundary .fileEnd true)
  else if ch = 98 then some (.boundary .wordEdge true)
  else if ch = 66 then some (.boundary .wordEdge false)
  else if ch = 65 then some (.boundary .fileBegin true)
  else if ch = 90 then some (.boundary .fileEndN true)
  else if ch = 122 then some (.boundary .fileEnd true)
  else if ch = 71 then some .empty
  else none

def quantifiers : List CharInfo := [special '{', special '?', special '*', special '+']

/-- The characters behind which a list ends. -/
def listEnds (info : CharInfo) : Bool :=
  info = patternEnd ∨ info = special '|' ∨ info = special ')'

/-- What `BuildRepeat` makes of an element and the quantifier behind it. -/
def quantified (pSimple : Elx) (b : Builder) : Option (Elx × Builder) :=
  let greedy (nMin nMax : Nat) : Option (Elx × Builder) :=
    b.moveNext.bind fun b =>
      if b.curr = special '?' ∨ b.curr = special '+' then none
      else some (.greedy pSimple nMin nMax, b)
  if b.curr.type = 0 then some (pSimple, b)
  else if b.curr = special '{' then none
  else if b.curr = special '?' then greedy 0 1
  else if b.curr = special '*' then greedy 0 0x7fffffff
  else if b.curr = special '+' then greedy 1 0x7fffffff
  else some (pSimple, b)

/-- The string that `BuildSimple` has collected. -/
def stringOf (fixed : List Byte) : Elx := if fixed = [] then .empty else .string fixed

mutual

/-- `BuildAlternative` -/
def buildAlternative : Nat → Builder → Option (Elx × Builder)
  | 0, _ => none
  | fuel + 1, b =>
    if b.curr = patternEnd then some (.empty, b)
    else
      (buildList fuel b).bind fun (pAlternativeOne, b) =>
        if b.curr = special '|' then
          (alternativesFrom fuel b).map fun (rest, b) => (.alternative (pAlternativeOne :: rest), b)
        else some (pAlternativeOne, b)

/-- The loop of `BuildAlternative`. -/
def alternativesFrom : Nat → Builder → Option (List Elx × Builder)
  | 0, _ => none
  | fuel + 1, b =>
    if b.curr = special '|' then
      b.moveNext.bind fun b =>
        (buildList fuel b).bind fun (pAlternativeOne, b) =>
          (alternativesFrom fuel b).map fun (rest, b) => (pAlternativeOne :: rest, b)
    else some ([], b)

/-- `BuildList` -/
def buildList : Nat → Builder → Option (Elx × Builder)
  | 0, _ => none
  | fuel + 1, b =>
    if listEnds b.curr then some (.empty, b)
    else
      (buildRepeat fuel b).bind fun (pListOne, b) =>
        if listEnds b.curr then some (pListOne, b)
        else (listFrom fuel b).map fun (rest, b) => (.list (pListOne :: rest), b)

/-- The loop of `BuildList`. -/
def listFrom : Nat → Builder → Option (List Elx × Builder)
  | 0, _ => none
  | fuel + 1, b =>
    if listEnds b.curr then some ([], b)
    else
      (buildRepeat fuel b).bind fun (pListOne, b) =>
        (listFrom fuel b).map fun (rest, b) => (pListOne :: rest, b)

/-- `BuildRepeat` -/
def buildRepeat : Nat → Builder → Option (Elx × Builder)
  | 0, _ => none
  | fuel + 1, b => (buildSimple fuel [] b).bind fun (pSimple, b) => quantified pSimple b

/-- The loop of `BuildSimple`, with the characters collected so far. -/
def buildSimple : Nat → List Byte → Builder → Option (Elx × Builder)
  | 0, _, _ => none
  | fuel + 1, fixed, b =>
    if b.curr = patternEnd then some (stringOf fixed, b)
    else if b.curr.type = 0 then
      if b.next ∈ quantifiers then
        -- a quantifier is about the last character alone
        if fixed = [] then b.moveNext.map fun moved => (.string [b.curr.ch], moved)
        else some (.string fixed, b)
      else b.moveNext.bind fun moved => buildSimple fuel (fixed ++ [b.curr.ch]) moved
    else if b.curr = special ')' ∨ b.curr = special '|' ∨ fixed ≠ [] then some (stringOf fixed, b)
    else if b.curr = special '(' then buildRecursive fuel b
    else if b.curr = special '[' ∨ among "\\kg" b.curr.ch then none
    else
      match stockRange b.curr.ch with
      | some elx => b.moveNext.map fun b => (elx, b)
      | none =>
        match stockBoundary b.curr.ch with
        | some elx => b.moveNext.map fun b => (elx, b)
        -- any other character stands for itself
        | none => b.moveNext.bind fun moved => buildSimple fuel (fixed ++ [b.curr.ch]) moved

/-- `BuildRecursive` of a group that is numbered. -/
def buildRecursive : Nat → Builder → Option (Elx × Builder)
  | 0, _ => none
  | fuel + 1, b =>
    b.moveNext.bind fun b =>
      if b.curr = special '?' then none
      else
        let nThisBackref := b.maxNumber + 1
        (buildAlternative fuel { b with maxNumber := nThisBackref }).bind fun (inner, b) =>
          b.moveNext.map fun b => (.list [.left nThisBackref, inner, .right nThisBackref], b)

end

/-- `Build`: the element of a pattern and its greatest group number. -/
def build (pattern : List Byte) (fuel : Nat) : Option (Elx × Nat) :=
  let start : Builder := ⟨pattern, 0, 0, ⟨0, 0⟩, ⟨0, 0⟩, ⟨0, 0⟩, 0⟩
  start.moveNext.bind fun b => b.moveNext.bind fun b => b.moveNext.bind fun b =>
    (buildAlternative fuel b).map fun (pTopElx, b) => (pTopElx, b.maxNumber)

/-- `CRegexpT::Compile` of a string in memory. -/
def regexpCompile (pattern : List Byte) (fuel : Nat) : Option (Elx × Nat) :=
  build (Library.TerminatedStrings.text pattern) fuel

/-- `CRegexpT::Match` of a text with a pattern in memory that was compiled. -/
def compileAndMatch (pattern text : List Byte) (fuel : Nat) : Option (Option MatchResult) :=
  (regexpCompile pattern fuel).bind fun (pTopElx, nMaxNumber) =>
    regexpMatch pTopElx nMaxNumber text fuel

end SysMonitor.Source.Deelx
