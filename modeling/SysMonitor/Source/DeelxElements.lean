import SysMonitor.Library.ResumableSearch
import SysMonitor.Source.ReaderStrings

/-!
# The elements of the regular expression engine: native/jni/deelx.h

A compiled pattern is a tree of elements, and an element is a searcher over the context of a
match. The engine is built for texts in either direction; the reader's pattern has no flags, so
only the direction from left to right is here. The capture stack of the code holds four integers
for every capture. Here it holds records, and its sizes and indices count records. A call that
reads outside a buffer comes to nothing.
-/

namespace SysMonitor.Source.Deelx
open SysMonitor.Library.ResumableSearch

/-- Four integers of `m_capturestack`. -/
structure Capture where
  number : Nat
  start : Int
  stop : Int
  zindex : Int
  deriving DecidableEq

/-- `CContext`, without the text. The last pushed element of the stack stands first. -/
structure Context where
  stack : List Int
  capturestack : List Capture
  captureindex : List Int
  currentPos : Int
  parenZindex : Int
  deriving DecidableEq

/-- `ElxInterface`: `Match` and `MatchNext`. -/
abbrev ElxInterface := Searcher Context

namespace Context

def push (c : Context) (el : Int) : Context := { c with stack := el :: c.stack }

def pop (c : Context) : Option (Int × Context) :=
  match c.stack with
  | [] => none
  | el :: rest => some (el, { c with stack := rest })

/-- `Pop` into a buffer: its size lies above its elements. -/
def popBuffer (c : Context) : Option (List Int × Context) :=
  match c.stack with
  | [] => none
  | size :: rest =>
    if 0 ≤ size ∧ size ≤ rest.length then
      some ((rest.take size.toNat).reverse, { c with stack := rest.drop size.toNat })
    else none

/-- `Push` of a buffer. -/
def pushBuffer (c : Context) (buffer : List Int) : Context :=
  { c with stack := (buffer.length : Int) :: (buffer.reverse ++ c.stack) }

/-- `Restore` of both stacks and of the position. -/
def restore (c : Context) (nsize ncsize currentPos : Int) : Context :=
  { c with
    stack := c.stack.drop (c.stack.length - nsize.toNat)
    capturestack := c.capturestack.take ncsize.toNat
    currentPos }

/-- `m_captureindex.Prepare(number, -1)` -/
def prepare (c : Context) (number : Nat) : Context :=
  { c with captureindex := c.captureindex ++ List.replicate (number + 1 - c.captureindex.length) (-1) }

end Context

/-- The loop of `CheckCaptureIndex`: the nearest capture of a group below an index. -/
def findCapture (captures : List Capture) (number : Nat) : Nat → Option Nat
  | 0 => none
  | index + 1 =>
    if (captures[index]?).any fun capture => capture.number = number then some index
    else findCapture captures number index

/-- `CheckCaptureIndex`. An index that is not in the stack any more becomes that of its end. -/
def checkCaptureIndex (c : Context) (index : Int) (number : Nat) : Option Nat :=
  let index := if index ≥ c.capturestack.length then (c.capturestack.length : Int) - 1 else index
  findCapture c.capturestack number (index + 1).toNat

/-- `CEmptyElxT` -/
def emptyElx : ElxInterface where
  first _ c := some (true, c)
  next _ c := some (false, c)

/-- `nCompare`: the bytes of a buffer and those at a pointer. -/
def nCompare : List Byte → List Byte → Option Int
  | [], _ => some 0
  | _ :: _, [] => none
  | x :: rest, y :: more => if x ≠ y then some (x.toNat - y.toNat) else nCompare rest more

/-- What stands from a position on. -/
def pointer (text : List Byte) (position : Int) : Option (List Byte) :=
  if 0 ≤ position ∧ position ≤ text.length then some (text.drop position.toNat) else none

/-- `CStringElxT` -/
def stringElx (text fixed : List Byte) : ElxInterface where
  first _ c :=
    if c.currentPos + fixed.length > text.length then some (false, c)
    else
      (pointer text c.currentPos).bind fun pcsz =>
        (nCompare fixed pcsz).map fun difference =>
          if difference = 0 then (true, { c with currentPos := c.currentPos + fixed.length })
          else (false, c)
  next _ c := some (false, { c with currentPos := c.currentPos - fixed.length })

/-- What `CRangeElxT` says of a character. -/
def inRange (byes : Bool) (ranges : List (Byte × Byte)) (chars : List Byte) (ch : Byte) : Bool :=
  (ranges.any (fun range => range.1.toNat ≤ ch.toNat ∧ ch.toNat ≤ range.2.toNat) ||
    chars.contains ch) == byes

/-- `CRangeElxT` -/
def rangeElx (text : List Byte) (byes : Bool) (ranges : List (Byte × Byte)) (chars : List Byte) :
    ElxInterface where
  first _ c :=
    if c.currentPos < 0 ∨ c.currentPos ≥ text.length then some (false, c)
    else
      (text[c.currentPos.toNat]?).map fun ch =>
        if inRange byes ranges chars ch then (true, { c with currentPos := c.currentPos + 1 })
        else (false, c)
  next _ c := some (false, { c with currentPos := c.currentPos - 1 })

/-- `BOUNDARY_TYPE` -/
inductive BoundaryType where
  | fileBegin
  | fileEnd
  | fileEndN
  | lineBegin
  | lineEnd
  | wordBegin
  | wordEnd
  | wordEdge
  deriving DecidableEq

/-- `IsWordChar` -/
def isWordChar (ch : Byte) : Bool :=
  (65 ≤ ch.toNat ∧ ch.toNat ≤ 90) ∨ (97 ≤ ch.toNat ∧ ch.toNat ≤ 122) ∨
    (48 ≤ ch.toNat ∧ ch.toNat ≤ 57) ∨ ch = 95

/-- What the `switch` of `CBoundaryElxT` says of a position. -/
def boundary (text : List Byte) (ntype : BoundaryType) (npos : Nat) : Bool :=
  let tlen := text.length
  let chL := if npos > 0 then text.getD (npos - 1) 0 else 0
  let chR := if npos < tlen then text.getD npos 0 else 0
  match ntype with
  | .fileBegin => npos = 0
  | .fileEnd => npos ≥ tlen
  | .fileEndN => npos ≥ tlen ∨ (text.getD (tlen - 1) 0 = 10 ∧
      (npos = tlen - 1 ∨ (text.getD (tlen - 2) 0 = 13 ∧ npos = tlen - 2)))
  | .lineBegin => npos = 0 ∨ chL = 10 ∨ (chL = 13 ∧ chR ≠ 10)
  | .lineEnd => npos ≥ tlen ∨ chR = 13 ∨ (chR = 10 ∧ chL ≠ 13)
  | .wordBegin => !isWordChar chL && isWordChar chR
  | .wordEnd => isWordChar chL && !isWordChar chR
  | .wordEdge => isWordChar chL != isWordChar chR

/-- `CBoundaryElxT` -/
def boundaryElx (text : List Byte) (ntype : BoundaryType) (byes : Bool) : ElxInterface where
  first _ c := if 0 ≤ c.currentPos then some (boundary text ntype c.currentPos.toNat == byes, c) else none
  next _ c := some (false, c)

namespace Context

/-- The four pushes of a bracket on the left. -/
def saveCapture (c : Context) (nnumber : Nat) : Context :=
  { c with
    captureindex := c.captureindex.set nnumber c.capturestack.length
    capturestack := c.capturestack ++ [⟨nnumber, c.currentPos, -1, 0⟩] }

/-- The last capture goes, and `m_captureindex` moves to an earlier one of its group. -/
def dropCapture (c : Context) (nnumber k : Nat) : Context :=
  let c := { c with capturestack := c.capturestack.dropLast }
  let index : Int := match checkCaptureIndex c k nnumber with
    | some earlier => earlier
    | none => -1
  { c with captureindex := c.captureindex.set nnumber index }

/-- The end and the z-index of a capture are written. -/
def markCapture (c : Context) (k : Nat) (stop zindex : Int) : Context :=
  { c with capturestack :=
    c.capturestack.modify k fun capture => { capture with stop, zindex } }

/-- The z-index of a capture that is not the innermost of its group. -/
def shiftCapture (c : Context) (k : Nat) (by' : Int) : Context :=
  { c with capturestack :=
    c.capturestack.modify k fun capture => { capture with zindex := capture.zindex + by' } }

/-- What holds of a capture. -/
def tests (c : Context) (k : Nat) (test : Capture → Bool) : Bool := (c.capturestack[k]?).any test

end Context

/-- `CBracketElxT` on the left of a group. -/
def leftBracket (nnumber : Nat) : ElxInterface where
  first _ c :=
    let c := c.prepare nnumber
    (c.captureindex[nnumber]?).map fun index =>
      match checkCaptureIndex c index nnumber with
      | none => (true, c.saveCapture nnumber)
      | some k =>
        -- the group is open already
        if c.tests k fun capture => capture.stop < 0 then (true, c.shiftCapture k (-1))
        else (true, c.saveCapture nnumber)
  next _ c :=
    (c.captureindex[nnumber]?).map fun index =>
      match checkCaptureIndex c index nnumber with
      | none => (false, c)
      | some k =>
        if c.tests k fun capture => capture.zindex < 0 then (false, c.shiftCapture k 1)
        else (false, c.dropCapture nnumber k)

/-- `CBracketElxT` on the right of a group. -/
def rightBracket (nnumber : Nat) : ElxInterface where
  first _ c :=
    (c.captureindex[nnumber]?).map fun index =>
      match checkCaptureIndex c index nnumber with
      | none => (true, c)
      | some k =>
        if c.tests k fun capture => capture.zindex < 0 then (true, c.shiftCapture k 1)
        else
          (true, { c.markCapture k c.currentPos c.parenZindex with
            parenZindex := c.parenZindex + 1 })
  next _ c :=
    (c.captureindex[nnumber]?).map fun index =>
      match checkCaptureIndex c index nnumber with
      | none => (false, c)
      | some k =>
        if c.tests k fun capture => capture.stop ≥ 0 then (false, c.markCapture k (-1) 0)
        else (false, c.shiftCapture k (-1))

/-- `CListElxT`: its two loops are those of a sequence of searchers. -/
def listElx (elxlist : List ElxInterface) : ElxInterface := Searcher.sequence elxlist

/-- `CAlternativeElxT` -/
def alternativeElx (elxlist : List ElxInterface) : ElxInterface :=
  if elxlist = [] then emptyElx
  else Searcher.alternatives (fun n c => c.push n) (fun c => c.pop.map fun (n, c) => (n.toNat, c)) elxlist

/-- What `CGreedyElxT` keeps on the stack, last pushed first: the count of what varies, where that
begins, the positions it has gone forward to, and the sizes of both stacks. -/
structure GreedyFrame where
  n : Int
  nbegin00 : Int
  nbegin99 : List Int
  nsize : Int
  ncsize : Int

def Context.pushFrame (c : Context) (f : GreedyFrame) : Context :=
  ((((c.push f.ncsize).push f.nsize).pushBuffer f.nbegin99).push f.nbegin00).push f.n

def Context.popFrame (c : Context) : Option (GreedyFrame × Context) := do
  let (n, c) ← c.pop
  let (nbegin00, c) ← c.pop
  let (nbegin99, c) ← c.popBuffer
  let (nsize, c) ← c.pop
  let (ncsize, c) ← c.pop
  return (⟨n, nbegin00, nbegin99, nsize, ncsize⟩, c)

section Greedy

variable (pelx : ElxInterface)

/-- `MatchForward`: a round that moves on. -/
def matchForward (fuel : Nat) (c : Context) : Option (Bool × Context) :=
  (pelx.first fuel c).bind fun (found, moved) =>
    if !found then some (false, moved)
    else if moved.currentPos ≠ c.currentPos then some (true, moved)
    else
      (pelx.next fuel moved).map fun (found, again) =>
        if !found then (false, again)
        else if again.currentPos ≠ c.currentPos then (true, again)
        else (false, again.restore c.stack.length c.capturestack.length c.currentPos)

/-- `while(n < m_nvart && MatchForward(pContext)) n ++;` -/
def forwardFrom (nvart : Nat) : Nat → Nat → Context → Option (Nat × Context)
  | 0, _, _ => none
  | fuel + 1, n, c =>
    if n < nvart then
      (matchForward pelx fuel c).bind fun (moved, c) =>
        if moved then forwardFrom nvart fuel (n + 1) c else some (n, c)
    else some (n, c)

/-- `MatchVart` of `CGreedyElxT`, which never fails. The code pushes the buffer of one position as
two integers. -/
def matchVart (nvart : Nat) (fuel : Nat) (c : Context) : Option Context :=
  (forwardFrom pelx nvart fuel 0 c).map fun (n, moved) =>
    moved.pushFrame ⟨n, c.currentPos, [moved.currentPos], c.stack.length, c.capturestack.length⟩

/-- `MatchNextVart` of `CGreedyElxT` -/
def matchNextVart (nvart : Nat) (fuel : Nat) (c : Context) : Option (Bool × Context) :=
  c.popFrame.bind fun (f, c) =>
    if f.n = 0 then some (false, c)
    else
      (pelx.next fuel c).bind fun (found, c) =>
        if !found then some (true, c.pushFrame { f with n := f.n - 1 })
        -- not to match the same again
        else if c.currentPos = f.nbegin00 then some (false, c.restore f.nsize f.ncsize f.nbegin00)
        else
          (forwardFrom pelx nvart fuel f.n.toNat c).map fun (n, moved) =>
            if f.nbegin99.contains moved.currentPos then
              let shot := moved.restore c.stack.length c.capturestack.length c.currentPos
              (true, shot.pushFrame f)
            else
              let nbegin99 := f.nbegin99.orderedInsert (· ≤ ·) moved.currentPos
              (true, moved.pushFrame { f with n, nbegin99 })

/-- `CRepeatElxT`: its loops are those of a list that holds the element `nfixed` times. -/
def repeatElx (nfixed : Nat) : ElxInterface := Searcher.sequence (List.replicate nfixed pelx)

/-- `CGreedyElxT` -/
def greedyElx (nmin nmax : Nat) : ElxInterface where
  first fuel c :=
    ((repeatElx pelx nmin).first fuel c).bind fun (found, c) =>
      if found then (matchVart pelx (nmax - nmin) fuel c).map (true, ·) else some (false, c)
  next fuel c :=
    (matchNextVart pelx (nmax - nmin) fuel c).bind fun (found, c) =>
      if found then some (true, c)
      else
        ((repeatElx pelx nmin).next fuel c).bind fun (found, c) =>
          if found then (matchVart pelx (nmax - nmin) fuel c).map (true, ·) else some (false, c)

end Greedy

/-- The elements that the builder makes of the constructs of the reader's pattern. -/
inductive Elx where
  | empty
  | string (fixed : List Byte)
  | range (byes : Bool) (ranges : List (Byte × Byte)) (chars : List Byte)
  | boundary (ntype : BoundaryType) (byes : Bool)
  | left (nnumber : Nat)
  | right (nnumber : Nat)
  | list (elxlist : List Elx)
  | alternative (elxlist : List Elx)
  | repeats (pelx : Elx) (nfixed : Nat)
  | greedy (pelx : Elx) (nmin nmax : Nat)

mutual

/-- An element at work on a text. -/
def Elx.on (text : List Byte) : Elx → ElxInterface
  | .empty => emptyElx
  | .string fixed => stringElx text fixed
  | .range byes ranges chars => rangeElx text byes ranges chars
  | .boundary ntype byes => boundaryElx text ntype byes
  | .left nnumber => leftBracket nnumber
  | .right nnumber => rightBracket nnumber
  | .list elxlist => listElx (onEach text elxlist)
  | .alternative elxlist => alternativeElx (onEach text elxlist)
  | .repeats pelx nfixed => repeatElx (pelx.on text) nfixed
  | .greedy pelx nmin nmax => greedyElx (pelx.on text) nmin nmax

def onEach (text : List Byte) : List Elx → List ElxInterface
  | [] => []
  | pelx :: rest => pelx.on text :: onEach text rest

end

/-- `MatchResultT` of a match: the greatest group number, and for every group where it begins and
ends, `-1` for a group that took no part. -/
structure MatchResult where
  maxGroupNumber : Int
  groups : List (Int × Int)
  deriving DecidableEq

def MatchResult.getGroupStart (result : MatchResult) (nGroupNumber : Nat) : Int :=
  (result.groups[nGroupNumber]?).elim (-1) (·.1)

def MatchResult.getGroupEnd (result : MatchResult) (nGroupNumber : Nat) : Int :=
  (result.groups[nGroupNumber]?).elim (-1) (·.2)

/-- What the constructor of `MatchResultT` reads of one group. -/
def groupOf (c : Context) (n : Nat) : Option (Int × Int) :=
  (c.captureindex[n]?).bind fun index =>
    match checkCaptureIndex c index n with
    | none => some (-1, -1)
    | some k => (c.capturestack[k]?).map fun capture =>
      (min capture.start capture.stop, max capture.start capture.stop)

def matchResult (c : Context) (nMaxNumber : Nat) : Option MatchResult :=
  ((List.range (nMaxNumber + 1)).mapM (groupOf c)).map fun groups => ⟨nMaxNumber, groups⟩

/-- The context that a round of the loop of `CRegexpT::Match` begins with. -/
def freshContext (nMaxNumber : Nat) (currentPos parenZindex : Int) : Context where
  stack := []
  capturestack := [⟨0, currentPos, -1, -1⟩]
  captureindex := 0 :: List.replicate nMaxNumber (-1)
  currentPos
  parenZindex

/-- What `CRegexpT::Match` returns after a match: group 0 ends where the context stands. -/
def endMatch (nMaxNumber : Nat) (c : Context) : Option (Option MatchResult) :=
  let capturestack := c.capturestack.modify 0 fun capture => { capture with stop := c.currentPos }
  (matchResult { c with capturestack } nMaxNumber).map some

/-- The loop of `CRegexpT::Match` from a position on. Nothing is the match that failed. -/
def matchFrom (pTopElx : ElxInterface) (nMaxNumber length : Nat) :
    Nat → Int → Int → Option (Option MatchResult)
  | 0, _, _ => none
  | fuel + 1, currentPos, parenZindex =>
    if currentPos = length + 1 then some none
    else
      (pTopElx.first fuel (freshContext nMaxNumber currentPos parenZindex)).bind fun (found, c) =>
        if found then endMatch nMaxNumber c
        else matchFrom pTopElx nMaxNumber length fuel (c.currentPos + 1) c.parenZindex

/-- `CRegexpT::Match` of a text, with the element and the greatest group number that the builder
left. -/
def regexpMatch (pTopElx : Elx) (nMaxNumber : Nat) (text : List Byte) (fuel : Nat) :
    Option (Option MatchResult) :=
  matchFrom (pTopElx.on text) nMaxNumber text.length fuel 0 0

end SysMonitor.Source.Deelx
