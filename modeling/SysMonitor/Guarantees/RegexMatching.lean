import SysMonitor.Source.DeelxPatterns

/-!
# The regular expression engine matches as a backtracking search does

`CRegexpT::Match` of native/jni/deelx.h looks for the first way of a pattern at the leftmost
position that has one, and reports its groups.
-/

namespace SysMonitor.Guarantees.RegexMatching
open SysMonitor.Library.Backtracking SysMonitor.Library.ResumableSearch
open SysMonitor.Source SysMonitor.Source.Deelx

section Elements

variable {room : Nat} {text : List Byte} {e : Elx} {p : Pattern Byte} {v : View} {c : Context}

theorem positions_eq {found : List Context} {views : List View}
    (each : List.Forall₂ (Reads room) found views) :
    found.map (fun c => (c.currentPos, c.capturestack.map Capture.seen))
      = views.map fun v => ((v.pos : Int), v.captures) := by
  induction each with
  | nil => rfl
  | cons here _ ih => rw [List.map_cons, List.map_cons, ih, here.pos, here.captures]

/-- What a round of `CRegexpT::Match` begins with. -/
def freshView (start : Nat) : View := ⟨start, [], [(0, (start : Int), -1)]⟩

theorem reads_fresh (nMaxNumber start : Nat) {parenZindex : Int} (counter : 0 ≤ parenZindex) :
    Reads nMaxNumber (freshContext nMaxNumber start parenZindex) (freshView start) := by
  refine ⟨rfl, rfl, rfl, ?_, ?_, counter, ?_⟩
  · intro k capture here
    cases k with
    | zero =>
      obtain rfl := Option.some.inj here
      exact ⟨0, rfl, Int.le_refl 0⟩
    | succ k => cases here
  · intro capture inside
    rw [List.mem_singleton.mp inside]
    exact fun other => absurd rfl other
  · show nMaxNumber < (_ :: List.replicate _ _).length
    simp

/-- An element whose `Match` and `MatchNext` are called until they fail stands behind every way of
its pattern once, in the order of the ways, and leaves the context as it was. -/
theorem element_enumerates (short : text.length ≤ intMax) (compiles : Compiles e p)
    (seen : Reads room c v) (ready : Ready text p v) :
    ∃ found last,
      Settles (fun fuel => (e.on text).drain fuel ((e.on text).first fuel c)) (found, last) ∧
        found.map (fun c => (c.currentPos, c.capturestack.map Capture.seen))
          = (ways text p v.pos).map (fun way =>
              ((way.1 : Int), v.captures ++ way.2.map closedGroup)) ∧
        last.currentPos = c.currentPos ∧ last.stack = c.stack ∧
        last.capturestack.map Capture.seen = c.capturestack.map Capture.seen := by
  obtain ⟨views, finds⟩ := compiles.finds short
  obtain ⟨describes, shown⟩ := finds v ready
  obtain ⟨found, last, drained, each, back⟩ := describes.enumerates.drain seen
  refine ⟨found, last, drained, ?_, by rw [back.pos, seen.pos], by rw [back.stack, seen.stack],
    by rw [back.captures, seen.captures]⟩
  have whole : (fun shown : Nat × List (Nat × Int × Int) => ((shown.1 : Int), shown.2)) ∘
      View.shown = fun v => ((v.pos : Int), v.captures) := rfl
  rw [positions_eq each, ← whole, ← List.map_map, shown, List.map_map]
  rfl

/-- What is compiled for a group of two words, `(a|ab)` for one. -/
def eitherWord (number : Nat) (one other : List Byte) : Elx :=
  .list [.left number, .alternative [.string one, .string other], .right number]

def eitherPattern (number : Nat) (one other : List Byte) : Pattern Byte :=
  .group number (.anyOf [.word one, .word other])

theorem either_compiles {number : Nat} (positive : number ≠ 0) (one other : List Byte) :
    Compiles (eitherWord number one other) (eitherPattern number one other) := by
  refine .group positive (.alternative (.string one) (.word one) [(.string other, .word other)] ?_)
    List.not_mem_nil
  intro part member
  rcases List.mem_cons.mp member with rfl | second
  · exact .string one
  · rw [List.mem_singleton.mp second]
    exact .string other

/-- `(a|ab)(c|bcd)d*` stands behind `abcd` by either group first, and then before the `d`. -/
theorem groups_enumerate :
    let e : Elx := .list [eitherWord 1 [97] [97, 98], eitherWord 2 [99] [98, 99, 100],
      .greedy (.string [100]) 0 intMax]
    ∃ found last,
      Settles (fun fuel => (e.on [97, 98, 99, 100]).drain fuel
        ((e.on [97, 98, 99, 100]).first fuel (freshContext 2 0 0))) (found, last) ∧
        found.map (fun c => (c.currentPos, c.capturestack.map Capture.seen))
          = [(4, [(0, 0, -1), (1, 0, 1), (2, 1, 4)]), (4, [(0, 0, -1), (1, 0, 2), (2, 2, 3)]),
            (3, [(0, 0, -1), (1, 0, 2), (2, 2, 3)])] ∧
        last.currentPos = (freshContext 2 0 0).currentPos ∧
        last.stack = (freshContext 2 0 0).stack ∧
        last.capturestack.map Capture.seen = (freshContext 2 0 0).capturestack.map Capture.seen :=
  element_enumerates (by decide)
    (.cons (either_compiles (by decide) [97] [97, 98])
      (.cons (either_compiles (by decide) [99] [98, 99, 100]) (.last (.star (.string 100)))
        (List.disjoint_left.mpr (by decide))) (List.disjoint_left.mpr (by decide)))
    (reads_fresh 2 0 (Int.le_refl 0)) ⟨by decide, by decide⟩

end Elements

section Match

/-- Where the leftmost match begins and ends, with its captures. -/
def firstMatch (p : Pattern Byte) (text : List Byte) : Option (Nat × Nat × Captures) :=
  ((List.range (text.length + 1)).flatMap fun i =>
    (ways text p i).map fun way => (i, way.1, way.2)).head?

/-- The result that reports a match. -/
def reported (nMaxNumber start stop : Nat) (captures : Captures) : MatchResult where
  maxGroupNumber := nMaxNumber
  groups := (List.range (nMaxNumber + 1)).map fun n =>
    match Captures.at ((0, start, stop) :: captures) n with
    | some (i, j) => ((i : Int), (j : Int))
    | none => (-1, -1)

theorem search_eq_firstMatch (p : Pattern Byte) (text : List Byte) :
    search p text = (firstMatch p text).map (·.2.2) := by
  rw [search, firstMatch, ← List.head?_map, ← List.head?_map, List.map_flatMap, List.map_flatMap]
  congr 1
  refine List.flatMap_congr fun i _ => ?_
  rw [List.map_map]
  rfl

/-- What the result reports of a group that the context holds once. -/
theorem groupOf_captured {room : Nat} {c : Context} {v : View} (seen : Reads room c v) {n i j : Nat}
    (ordered : i ≤ j) (apart : (v.captures.map (·.1)).Nodup)
    (captured : (n, (i : Int), (j : Int)) ∈ v.captures) : groupOf c n = some ((i : Int), (j : Int)) := by
  obtain ⟨before, inside, shown⟩ := List.append_of_mem captured
  rw [shown, List.map_append, List.map_cons, List.nodup_middle] at apart
  obtain ⟨index, indexed, reached⟩ := seen.find shown (by
    rw [List.map_append]
    exact (List.nodup_cons.mp apart).1)
  obtain ⟨earlier, capture, later, stack, rfl, here, rfl⟩ := seen.split shown
  obtain ⟨-, start, stop⟩ : capture.number = n ∧ capture.start = i ∧ capture.stop = j := by
    simpa [Capture.seen] using here
  have stands : c.capturestack[(earlier.map Capture.seen).length]? = some capture := by
    simp [stack]
  rw [groupOf, indexed, Option.bind_some, reached]
  show (c.capturestack[_]?).map _ = _
  rw [stands, Option.map_some, start, stop]
  congr 2 <;> omega

theorem groupOf_absent {room : Nat} {c : Context} {v : View} (seen : Reads room c v) {n : Nat}
    (prepared : n ≤ room) (free : n ∉ v.captures.map (·.1)) : groupOf c n = some (-1, -1) := by
  have below := seen.room
  rw [groupOf, List.getElem?_eq_getElem (by omega), Option.bind_some,
    checkCaptureIndex_none (seen.absent free)]

theorem mapM_some {α β : Type} {f : α → Option β} {g : α → β} {l : List α}
    (each : ∀ x ∈ l, f x = some (g x)) : l.mapM f = some (l.map g) := by
  induction l with
  | nil => rfl
  | cons x l ih =>
    have rest := ih fun y inside => each y (List.mem_cons_of_mem _ inside)
    rw [List.mapM_cons, each x List.mem_cons_self, rest]
    rfl

variable {text : List Byte} {e : Elx} {p : Pattern Byte} {nMaxNumber : Nat}

/-- The result of a context behind a way reports the groups of the way. -/
theorem matchResult_reported {c : Context} {w : View} {start stop : Nat} {captures : Captures}
    (seen : Reads nMaxNumber c w) (before : start ≤ stop)
    (captured : w.captures = ((0, start, stop) :: captures).map closedGroup)
    (ordered : ∀ n i j, (n, i, j) ∈ captures → i ≤ j)
    (apart : (0 :: captures.map (·.1)).Nodup) :
    matchResult c nMaxNumber = some (reported nMaxNumber start stop captures) := by
  have numbers : w.captures.map (·.1) = 0 :: captures.map (·.1) := by
    rw [captured, List.map_map]
    rfl
  have each : ∀ n ∈ List.range (nMaxNumber + 1), groupOf c n = some
      (match Captures.at ((0, start, stop) :: captures) n with
        | some (i, j) => ((i : Int), (j : Int))
        | none => (-1, -1)) := by
    intro n inside
    have prepared : n ≤ nMaxNumber := Nat.le_of_lt_succ (List.mem_range.mp inside)
    rw [Captures.at]
    cases found : List.lookup n ((0, start, stop) :: captures) with
    | none =>
      refine groupOf_absent seen prepared ?_
      rw [numbers]
      intro member
      obtain ⟨capture, here, rfl⟩ := List.mem_map.mp
        (show n ∈ ((0, start, stop) :: captures).map (·.1) from member)
      have other := List.lookup_eq_none_iff.mp found capture here
      simp at other
    | some positions =>
      obtain ⟨i, j⟩ := positions
      obtain ⟨before', after, split, -⟩ := List.lookup_eq_some_iff.mp found
      have member : (n, i, j) ∈ (0, start, stop) :: captures := by
        rw [split]
        simp
      refine groupOf_captured seen ?_ (by rw [numbers]; exact apart) ?_
      · rcases List.mem_cons.mp member with same | inner
        · obtain ⟨-, rfl, rfl⟩ : n = 0 ∧ i = start ∧ j = stop := by simpa using same
          exact before
        · exact ordered n i j inner
      · rw [captured]
        exact List.mem_map_of_mem (f := closedGroup) member
  rw [matchResult, mapM_some each]
  rfl

/-- The leftmost match, where the positions before `start` have none. -/
def firstMatchFrom (p : Pattern Byte) (text : List Byte) (start count : Nat) :
    Option (Nat × Nat × Captures) :=
  ((List.range' start count).flatMap fun i =>
    (ways text p i).map fun way => (i, way.1, way.2)).head?

theorem firstMatchFrom_succ (start count : Nat) :
    firstMatchFrom p text start (count + 1)
      = match ways text p start with
        | [] => firstMatchFrom p text (start + 1) count
        | way :: _ => some (start, way.1, way.2) := by
  rw [firstMatchFrom, List.range'_succ, List.flatMap_cons]
  cases ways text p start with
  | nil => rfl
  | cons way _ => rfl

theorem firstMatchFrom_none {start count : Nat} (missed : firstMatchFrom p text start count = none) :
    ∀ i, start ≤ i → i < start + count → ways text p i = [] := by
  induction count generalizing start with
  | zero => intro i above below; omega
  | succ count ih =>
    rw [firstMatchFrom_succ] at missed
    cases here : ways text p start with
    | cons way more => rw [here] at missed; cases missed
    | nil =>
      rw [here] at missed
      intro i above below
      rcases Nat.eq_or_lt_of_le above with rfl | later
      · exact here
      · exact ih missed i later (by omega)

/-- The match that is found is the first way at the first position that has one. -/
theorem firstMatchFrom_some {start count i j : Nat} {c : Captures}
    (found : firstMatchFrom p text start count = some (i, j, c)) :
    i < start + count ∧ (∀ k, start ≤ k → k < i → ways text p k = []) ∧
      ∃ more, ways text p i = (j, c) :: more := by
  induction count generalizing start with
  | zero => cases found
  | succ count ih =>
    rw [firstMatchFrom_succ] at found
    cases here : ways text p start with
    | cons way more =>
      rw [here] at found
      obtain ⟨rfl, rfl⟩ : start = i ∧ way = (j, c) := by simpa using found
      exact ⟨by omega, fun k above below => absurd above (by omega), more, here⟩
    | nil =>
      rw [here] at found
      obtain ⟨inside, before, first⟩ := ih found
      refine ⟨by omega, fun k above below => ?_, first⟩
      rcases Nat.eq_or_lt_of_le above with rfl | later
      · exact here
      · exact before k later below

theorem firstMatch_eq_from (p : Pattern Byte) (text : List Byte) :
    firstMatch p text = firstMatchFrom p text 0 (text.length + 1) := by
  rw [firstMatch, firstMatchFrom, List.range_eq_range']

section Round

variable {start : Nat} {parenZindex : Int} {pTopElx : ElxInterface} {c' : Context}
  (inside : start ≤ text.length)

include inside

theorem matchFrom_found (found : Settles
    (fun fuel => pTopElx.first fuel (freshContext nMaxNumber start parenZindex)) (true, c')) :
    Follows (fun fuel => matchFrom pTopElx nMaxNumber text.length fuel start parenZindex)
      (fun _ => endMatch nMaxNumber c') := by
  have going : ¬ (start : Int) = text.length + 1 := by omega
  intro result ended
  exact follows_of_succ (fun _ => if_neg going) result (found.bind ended)

theorem matchFrom_missed (missed : Settles
    (fun fuel => pTopElx.first fuel (freshContext nMaxNumber start parenZindex)) (false, c')) :
    Follows (fun fuel => matchFrom pTopElx nMaxNumber text.length fuel start parenZindex)
      (fun fuel => matchFrom pTopElx nMaxNumber text.length fuel (c'.currentPos + 1)
        c'.parenZindex) := by
  have going : ¬ (start : Int) = text.length + 1 := by omega
  intro result later
  exact follows_of_succ (fun _ => if_neg going) result (missed.bind later)

end Round

/-- A context behind a way ends the match with the groups of the way. -/
theorem endMatch_reported {c : Context} {w : View} {start : Nat} {way : Nat × Captures}
    (seen : Reads nMaxNumber c w) (pos : w.pos = way.1)
    (captured : w.captures = (0, (start : Int), -1) :: way.2.map closedGroup)
    (inside : start ≤ text.length) (member : way ∈ ways text p start) (apart : p.groups.Nodup)
    (named : 0 ∉ p.groups) :
    endMatch nMaxNumber c = some (some (reported nMaxNumber start way.1 way.2)) := by
  have shown : w.captures = [] ++ (0, (start : Int), -1) :: way.2.map closedGroup := captured
  obtain ⟨earlier, capture, later, stack, none_before, -⟩ := seen.split shown
  obtain rfl : earlier = [] := List.map_eq_nil_iff.mp none_before
  have marked : Reads nMaxNumber (c.markCapture 0 c.currentPos capture.zindex)
      { w with captures := [] ++ (0, (start : Int), c.currentPos) :: way.2.map closedGroup } :=
    seen.markCapture shown c.currentPos fun other => absurd rfl other
  have ended : { c with capturestack := c.capturestack.modify 0 fun capture =>
      { capture with stop := c.currentPos } } = c.markCapture 0 c.currentPos capture.zindex := by
    rw [Context.markCapture, stack]
    rfl
  obtain ⟨before, -⟩ := ways_bounds member inside
  have result := matchResult_reported marked before (by rw [seen.pos, pos]; rfl)
    (fun n i j captured => (capture_bounds member inside captured).2.1)
    (List.nodup_cons.mpr ⟨?_, captures_nodup apart member⟩)
  · rw [endMatch, ended, result]
    rfl
  · intro group
    obtain ⟨⟨n, positions⟩, captured, rfl⟩ := List.mem_map.mp group
    exact named (capture_mem_groups member captured)

/-- One round of the loop of `CRegexpT::Match`. -/
theorem matchFrom_round (nMaxNumber : Nat) (short : text.length ≤ intMax) (compiles : Compiles e p)
    (apart : p.groups.Nodup) (named : 0 ∉ p.groups) {start : Nat} {parenZindex : Int}
    (inside : start ≤ text.length) (counter : 0 ≤ parenZindex) :
    match ways text p start with
    | [] => ∃ parenZindex', 0 ≤ parenZindex' ∧
        Follows (fun fuel => matchFrom (e.on text) nMaxNumber text.length fuel start parenZindex)
          (fun fuel => matchFrom (e.on text) nMaxNumber text.length fuel (start + 1 : Nat)
            parenZindex')
    | way :: _ =>
        Settles (fun fuel => matchFrom (e.on text) nMaxNumber text.length fuel start parenZindex)
          (some (reported nMaxNumber start way.1 way.2)) := by
  have seen := reads_fresh nMaxNumber start counter
  have ready : Ready text p (freshView start) := by
    refine ⟨inside, fun number group => ?_⟩
    show number ∉ [0]
    rw [List.mem_singleton]
    rintro rfl
    exact named group
  obtain ⟨views, finds⟩ := compiles.finds short
  obtain ⟨describes, shown⟩ := finds _ ready
  have stands := describes.enumerates.first _ seen
  cases reached : ways text p start with
  | nil =>
    have nothing : views (freshView start) = [] := by
      rw [← List.map_eq_nil_iff (f := View.shown), shown]
      exact List.map_eq_nil_iff.mpr reached
    rw [nothing] at stands
    obtain ⟨c', missed, seen'⟩ := stands
    have position : c'.currentPos + 1 = (start + 1 : Nat) := by
      rw [seen'.pos]
      rfl
    refine ⟨c'.parenZindex, seen'.counter, ?_⟩
    rw [← position]
    exact matchFrom_missed inside missed
  | cons way rest =>
    rw [show ways text p (freshView start).pos = way :: rest from reached] at shown
    obtain ⟨w, others, split, here, -⟩ := List.map_eq_cons_iff.mp shown
    rw [split] at stands
    obtain ⟨c', found, seen'⟩ := stands
    obtain ⟨pos, captured⟩ := Prod.mk.inj here
    have member : way ∈ ways text p start := by rw [reached]; exact List.mem_cons_self
    apply matchFrom_found inside found
    exact settles_of_eq fun _ => endMatch_reported seen' pos captured inside member apart named

/-- `CRegexpT::Match` comes to an end on every text, and reports the leftmost match that has the
first of the ways there, or that there is none. -/
theorem regexpMatch_firstMatch (short : text.length ≤ intMax) (compiles : Compiles e p)
    (apart : p.groups.Nodup) (named : 0 ∉ p.groups) :
    Settles (regexpMatch e nMaxNumber text) ((firstMatch p text).map fun found =>
      reported nMaxNumber found.1 found.2.1 found.2.2) := by
  have loop : ∀ count start parenZindex, start + count = text.length + 1 → 0 ≤ parenZindex →
      Settles (fun fuel => matchFrom (e.on text) nMaxNumber text.length fuel (start : Nat) parenZindex)
        ((firstMatchFrom p text start count).map fun found =>
          reported nMaxNumber found.1 found.2.1 found.2.2) := by
    intro count
    induction count with
    | zero =>
      intro start parenZindex whole counter
      have beyond : (start : Int) = text.length + 1 := by omega
      exact follows_of_succ (fun _ => if_pos beyond) _ (settles_of_eq fun _ => rfl)
    | succ count ih =>
      intro start parenZindex whole counter
      have round := matchFrom_round nMaxNumber short compiles apart named
        (by omega : start ≤ text.length) counter
      rw [firstMatchFrom_succ]
      cases reached : ways text p start with
      | nil =>
        rw [reached] at round
        obtain ⟨parenZindex', counter', goes⟩ := round
        exact goes _ (ih (start + 1) parenZindex' (by omega) counter')
      | cons way rest =>
        rw [reached] at round
        exact round
  have whole := loop (text.length + 1) 0 0 (by omega) (Int.le_refl 0)
  rw [← firstMatch_eq_from] at whole
  exact whole

end Match

end SysMonitor.Guarantees.RegexMatching
