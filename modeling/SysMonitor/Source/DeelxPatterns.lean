import SysMonitor.Library.Backtracking
import SysMonitor.Source.DeelxRepeats

/-!
# Elements and the patterns they stand for

The ways of a pattern, in their order, are what its element finds one after the other.
-/

namespace SysMonitor.Source.Deelx
open SysMonitor.Library.Backtracking SysMonitor.Library.ResumableSearch

/-- `INT_MAX` -/
def intMax : Nat := 0x7fffffff

/-- An element that takes one character of a kind, and its pattern. -/
inductive Single : Elx → Pattern Byte → (Byte → Bool) → Prop where
  | string (ch : Byte) : Single (.string [ch]) (.word [ch]) fun here => here = ch
  | range (byes : Bool) (ranges : List (Byte × Byte)) (chars : List Byte) :
      Single (.range byes ranges chars) (.one (inRange byes ranges chars))
        (inRange byes ranges chars)

/-- The patterns that the elements stand for, where no two groups have the same number. -/
inductive Compiles : Elx → Pattern Byte → Prop where
  | string (fixed : List Byte) : Compiles (.string fixed) (.word fixed)
  | range (byes : Bool) (ranges : List (Byte × Byte)) (chars : List Byte) :
      Compiles (.range byes ranges chars) (.one (inRange byes ranges chars))
  | boundary (ntype : BoundaryType) (byes : Bool) :
      Compiles (.boundary ntype byes) (.assert fun text i => boundary text ntype i == byes)
  | optional {e : Elx} {p : Pattern Byte} {accepts : Byte → Bool} (single : Single e p accepts) :
      Compiles (.greedy e 0 1) (.optional p)
  | many {e : Elx} {p : Pattern Byte} {accepts : Byte → Bool} (single : Single e p accepts) :
      Compiles (.greedy e 1 intMax) (.many accepts)
  | star {e : Elx} {p : Pattern Byte} {accepts : Byte → Bool} (single : Single e p accepts) :
      Compiles (.greedy e 0 intMax) (.optional (.many accepts))
  | group {e : Elx} {p : Pattern Byte} {number : Nat} (positive : number ≠ 0)
      (inner : Compiles e p) (free : number ∉ p.groups) :
      Compiles (.list [.left number, e, .right number]) (.group number p)
  | last {e : Elx} {p : Pattern Byte} (only : Compiles e p) : Compiles (.list [e]) p
  | cons {e f : Elx} {es : List Elx} {p q : Pattern Byte} (first : Compiles e p)
      (rest : Compiles (.list (f :: es)) q) (apart : p.groups.Disjoint q.groups) :
      Compiles (.list (e :: f :: es)) (.seq p q)
  | alternative (e : Elx) (p : Pattern Byte) (parts : List (Elx × Pattern Byte))
      (each : ∀ part ∈ (e, p) :: parts, Compiles part.1 part.2) :
      Compiles (.alternative (e :: parts.map (·.1))) (.anyOf (p :: parts.map (·.2)))

/-- A closed group, as a context holds it. -/
def closedGroup (capture : Nat × Nat × Nat) : Nat × Int × Int :=
  (capture.1, (capture.2.1 : Int), (capture.2.2 : Int))

/-- What a view shows apart from its stack. -/
def View.shown (v : View) : Nat × List (Nat × Int × Int) := (v.pos, v.captures)

/-- What is shown behind a way. -/
def behind (captures : List (Nat × Int × Int)) (way : Nat × Captures) :
    Nat × List (Nat × Int × Int) := (way.1, captures ++ way.2.map closedGroup)

/-- What an element finds. A list is described by its members, so that it can be part of a longer
one. -/
def Describes (room : Nat) (text : List Byte) (e : Elx) (v : View) (views : List View) : Prop :=
  match e with
  | .list es => Completes (Reads room) (onEach text es) v views
  | e => Enumerates (Reads room) (e.on text) v views

theorem Describes.enumerates {room : Nat} {text : List Byte} {e : Elx} {v : View} {views : List View}
    (describes : Describes room text e v views) : Enumerates (Reads room) (e.on text) v views := by
  cases e <;> first | exact describes | exact Completes.enumerates describes

/-- A view from which a pattern can be looked for. -/
structure Ready (text : List Byte) (p : Pattern Byte) (v : View) : Prop where
  inside : v.pos ≤ text.length
  free : ∀ number ∈ p.groups, number ∉ v.captures.map (·.1)

/-- The element finds the ways of the pattern. -/
def Finds (room : Nat) (text : List Byte) (e : Elx) (p : Pattern Byte) : Prop :=
  ∃ views : View → List View, ∀ v, Ready text p v →
    Describes room text e v (views v) ∧
      (views v).map View.shown = (ways text p v.pos).map (behind v.captures)

section Singles

variable {room : Nat} {text : List Byte} {e : Elx} {p : Pattern Byte} {accepts : Byte → Bool}

theorem Single.takesOne (single : Single e p accepts) (room : Nat) (text : List Byte) :
    TakesOne room text (e.on text) accepts := by
  cases single with
  | string ch => exact stringElx_takesOne ch
  | range byes ranges chars => exact rangeElx_takesOne byes ranges chars

theorem Single.ways_eq (single : Single e p accepts) (i : Nat) :
    ways text p i = if (text[i]?).any accepts then [(i + 1, [])] else [] := by
  cases single with
  | range byes ranges chars => rfl
  | string ch =>
    have begins : [ch] <+: text.drop i ↔ (text[i]?).any fun here => here = ch := by
      rw [← List.head?_drop]
      cases text.drop i with
      | nil => simp
      | cons x rest => simp [List.cons_prefix_cons, eq_comm]
    simp [ways, begins]

/-- A greedy repetition, without what it leaves on the stack. -/
theorem greedyWays_shown (nmin nmax : Nat) (v : View) :
    (greedyWays text accepts nmin nmax v).map View.shown
      = if nmin ≤ reach text accepts v.pos then
          (List.range (most text accepts nmin nmax v.pos + 1)).reverse.map
            fun n => (v.pos + nmin + n, v.captures)
        else [] := by
  rw [greedyWays]
  split
  · rw [List.map_map]
    rfl
  · rfl

theorem Finds.greedy (single : Single e p accepts) {q : Pattern Byte} (nmin nmax : Nat)
    (agrees : ∀ v : View, v.pos ≤ text.length →
      (greedyWays text accepts nmin nmax v).map View.shown
        = (ways text q v.pos).map (behind v.captures)) :
    Finds room text (.greedy e nmin nmax) q :=
  ⟨greedyWays text accepts nmin nmax, fun v ready =>
    ⟨greedyElx_enumerates (single.takesOne room text) ready.inside nmax, agrees v ready.inside⟩⟩

/-- `?` -/
theorem Finds.optional (single : Single e p accepts) :
    Finds room text (.greedy e 0 1) (.optional p) := by
  refine Finds.greedy single 0 1 fun v inside => ?_
  rw [greedyWays_shown, if_pos (Nat.zero_le _), ways, single.ways_eq, most]
  by_cases accepted : (text[v.pos]?).any accepts
  · have once : min (1 - 0) (reach text accepts v.pos - 0) + 1 = 2 := by
      rw [reach_step accepted]
      omega
    rw [once, if_pos accepted]
    simp [List.range_succ, behind]
  · rw [reach_stop accepted, if_neg accepted]
    simp [List.range_succ, behind]

/-- `+` -/
theorem Finds.many (single : Single e p accepts) (short : text.length ≤ intMax) :
    Finds room text (.greedy e 1 intMax) (.many accepts) := by
  refine Finds.greedy single 1 intMax fun v inside => ?_
  have below := reach_inside accepts v.pos inside
  have shown : ways text (.many accepts) v.pos
      = (List.range (reach text accepts v.pos)).reverse.map fun n => (v.pos + n + 1, []) := rfl
  rw [greedyWays_shown, shown, List.map_map, most]
  by_cases one : 1 ≤ reach text accepts v.pos
  · have count : min (intMax - 1) (reach text accepts v.pos - 1) + 1 = reach text accepts v.pos := by
      omega
    rw [if_pos one, count]
    refine List.map_congr_left fun n _ => ?_
    simp [behind, Nat.add_right_comm]
  · have none_there : reach text accepts v.pos = 0 := by omega
    rw [if_neg one, none_there]
    rfl

/-- `*` -/
theorem Finds.star (single : Single e p accepts) (short : text.length ≤ intMax) :
    Finds room text (.greedy e 0 intMax) (.optional (.many accepts)) := by
  refine Finds.greedy single 0 intMax fun v inside => ?_
  have below := reach_inside accepts v.pos inside
  have shown : ways text (.optional (.many accepts)) v.pos
      = (List.range (reach text accepts v.pos)).reverse.map (fun n => (v.pos + n + 1, []))
        ++ [(v.pos, [])] := rfl
  have count : min (intMax - 0) (reach text accepts v.pos - 0) = reach text accepts v.pos := by
    omega
  rw [greedyWays_shown, shown, if_pos (Nat.zero_le _), most, count, List.range_succ_eq_map]
  simp [behind, Function.comp_def, Nat.add_assoc]

end Singles

section Leaves

variable {room : Nat} {text : List Byte}

theorem Finds.string (fixed : List Byte) : Finds room text (.string fixed) (.word fixed) := by
  refine ⟨_, fun v ready => ⟨stringElx_enumerates fixed ready.inside, ?_⟩⟩
  rw [ways]
  split <;> simp [behind, View.shown]

theorem Finds.range (byes : Bool) (ranges : List (Byte × Byte)) (chars : List Byte) :
    Finds room text (.range byes ranges chars) (.one (inRange byes ranges chars)) := by
  refine ⟨_, fun v ready => ⟨rangeElx_takesOne byes ranges chars v ready.inside, ?_⟩⟩
  rw [ways]
  split <;> simp [behind, View.shown]

theorem Finds.boundary (ntype : BoundaryType) (byes : Bool) :
    Finds room text (.boundary ntype byes) (.assert fun text i => Deelx.boundary text ntype i == byes) := by
  refine ⟨_, fun v ready => ⟨boundaryElx_enumerates ntype byes v, ?_⟩⟩
  rw [ways]
  split <;> simp [behind, View.shown]

end Leaves

section Parts

variable {room : Nat} {text : List Byte} {e : Elx} {es : List Elx} {p q : Pattern Byte} {v w : View}

/-- What one searcher finds behind each way of another. -/
theorem shown_flatMap {views : List View} {further : View → List View} {ways' : List (Nat × Captures)}
    {captures : List (Nat × Int × Int)} (first : views.map View.shown = ways'.map (behind captures))
    (rest : ∀ w ∈ views, (further w).map View.shown = (ways text q w.pos).map (behind w.captures)) :
    (views.flatMap further).map View.shown
      = (ways'.flatMap fun way => (ways text q way.1).map fun later =>
          (later.1, way.2 ++ later.2)).map (behind captures) := by
  have shownBy : (views.flatMap further).map View.shown = (views.map View.shown).flatMap
      fun shown => (ways text q shown.1).map (behind shown.2) := by
    rw [List.map_flatMap, List.flatMap_map]
    exact List.flatMap_congr fun w found => rest w found
  rw [shownBy, first, List.flatMap_map, List.map_flatMap]
  refine List.flatMap_congr fun way _ => ?_
  rw [List.map_map]
  refine List.map_congr_left fun later _ => ?_
  simp [behind]

/-- A way that was found is one of the ways of the pattern. -/
theorem way_of_shown {views : List View} {captures : List (Nat × Int × Int)} {i : Nat}
    (shown : views.map View.shown = (ways text p i).map (behind captures)) (found : w ∈ views) :
    ∃ way ∈ ways text p i, w.pos = way.1 ∧ w.captures = captures ++ way.2.map closedGroup := by
  have member := List.mem_map_of_mem (f := View.shown) found
  rw [shown] at member
  obtain ⟨way, inside, same⟩ := List.mem_map.mp member
  obtain ⟨pos, captured⟩ := Prod.mk.inj same
  exact ⟨way, inside, pos.symm, captured.symm⟩

/-- Behind a way, a pattern with other groups can be looked for. -/
theorem Ready.behind (ready : Ready text p v) (ready' : Ready text q v)
    (apart : p.groups.Disjoint q.groups) {views : List View}
    (shown : views.map View.shown = (ways text p v.pos).map (behind v.captures))
    (found : w ∈ views) : Ready text q w := by
  obtain ⟨⟨j, c⟩, way, pos, captured⟩ := way_of_shown shown found
  refine ⟨?_, ?_⟩
  · rw [pos]
    exact (ways_bounds way ready.inside).2
  · intro number group inside
    rw [captured, List.map_append, List.mem_append] at inside
    rcases inside with before | later
    · exact ready'.free number group before
    · rw [List.map_map] at later
      obtain ⟨⟨n, positions⟩, capture, rfl⟩ := List.mem_map.mp later
      exact apart (capture_mem_groups way capture) group

theorem Finds.last (only : Finds room text e p) : Finds room text (.list [e]) p := by
  obtain ⟨views, finds⟩ := only
  refine ⟨views, fun v ready => ⟨?_, (finds v ready).2⟩⟩
  have completes := Completes.cons (fun w => [w]) (finds v ready).1.enumerates
    (fun w _ => Completes.nil w)
  rwa [List.flatMap_singleton'] at completes

theorem Finds.cons {f : Elx} (first : Finds room text e p) (rest : Finds room text (.list (f :: es)) q)
    (apart : p.groups.Disjoint q.groups) : Finds room text (.list (e :: f :: es)) (.seq p q) := by
  obtain ⟨views, first⟩ := first
  obtain ⟨further, rest⟩ := rest
  refine ⟨fun v => (views v).flatMap further, fun v ready => ?_⟩
  have readyp : Ready text p v :=
    ⟨ready.inside, fun number group => ready.free number (List.mem_append_left _ group)⟩
  have readyq : Ready text q v :=
    ⟨ready.inside, fun number group => ready.free number (List.mem_append_right _ group)⟩
  obtain ⟨here, shown⟩ := first v readyp
  have later : ∀ w ∈ views v, Ready text q w := fun w found =>
    readyp.behind readyq apart shown found
  refine ⟨Completes.cons further here.enumerates fun w found => (rest w (later w found)).1, ?_⟩
  exact shown_flatMap shown fun w found => (rest w (later w found)).2

/-- A view with the capture at an index ended where the view stands. -/
def View.close (v : View) (k : Nat) : View :=
  { v with captures := v.captures.modify k fun capture => (capture.1, capture.2.1, (v.pos : Int)) }

theorem Finds.group {number : Nat} (positive : number ≠ 0) (inner : Finds room text e p)
    (fresh : number ∉ p.groups) :
    Finds room text (.list [.left number, e, .right number]) (.group number p) := by
  obtain ⟨views, inner⟩ := inner
  let opened (v : View) : View :=
    { v with captures := v.captures ++ [(number, (v.pos : Int), -1)] }
  refine ⟨fun v => (views (opened v)).map (·.close v.captures.length), fun v ready => ?_⟩
  have free : number ∉ v.captures.map (·.1) := ready.free number List.mem_cons_self
  have readyp : Ready text p (opened v) := by
    refine ⟨ready.inside, fun n group => ?_⟩
    have other : n ≠ number := fun same => fresh (same ▸ group)
    have before := ready.free n (List.mem_cons_of_mem _ group)
    show n ∉ (opened v).captures.map (·.1)
    simp only [opened, List.map_append, List.map_cons, List.map_nil, List.mem_append, List.mem_singleton]
    exact fun inside => inside.elim before other
  obtain ⟨here, shown⟩ := inner (opened v) readyp
  have closes : ∀ w ∈ views (opened v), ∃ way ∈ ways text p v.pos,
      w.pos = way.1 ∧ w.captures = v.captures ++ (number, (v.pos : Int), -1) ::
        way.2.map closedGroup ∧ number ∉ (v.captures ++ way.2.map closedGroup).map (·.1) := by
    intro w found
    obtain ⟨⟨j, c⟩, way, pos, captured⟩ := way_of_shown shown found
    refine ⟨(j, c), way, pos, by rw [captured]; simp [opened], ?_⟩
    rw [List.map_append, List.mem_append, List.map_map]
    rintro (before | later)
    · exact free before
    · obtain ⟨⟨n, positions⟩, capture, rfl⟩ := List.mem_map.mp later
      exact fresh (capture_mem_groups way capture)
  have closed : ∀ w ∈ views (opened v),
      Enumerates (Reads room) (rightBracket number) w [w.close v.captures.length] := by
    intro w found
    obtain ⟨way, -, pos, captured, alone⟩ := closes w found
    rw [View.close, captured, modify_middle]
    exact rightBracket_enumerates positive captured alone
  refine ⟨?_, ?_⟩
  · have ends : ∀ w ∈ views (opened v),
        Completes (Reads room) [rightBracket number] w [w.close v.captures.length] := fun w found =>
      .cons (fun x : View => [x]) (closed w found) fun x _ => .nil x
    have completes := Completes.cons
      (fun _ => (views (opened v)).flatMap fun w : View => [w.close v.captures.length])
      (leftBracket_enumerates positive free) (by
        intro w found
        rw [List.mem_singleton.mp found]
        exact .cons _ here.enumerates ends)
    simp only [List.flatMap_cons, List.flatMap_nil, List.append_nil, ← List.map_eq_flatMap]
      at completes
    exact completes
  · let ended (shown : Nat × List (Nat × Int × Int)) : Nat × List (Nat × Int × Int) :=
      (shown.1, shown.2.modify v.captures.length fun capture =>
        (capture.1, capture.2.1, (shown.1 : Int)))
    have closedBy : (views (opened v)).map (View.shown ∘ fun w => w.close v.captures.length)
        = ((views (opened v)).map View.shown).map ended := by
      rw [List.map_map]
      rfl
    rw [ways, List.map_map, List.map_map, closedBy, shown, List.map_map]
    refine List.map_congr_left fun way _ => ?_
    simp only [Function.comp_apply, Deelx.behind, opened, ended, List.map_cons, List.append_assoc,
      List.singleton_append, modify_middle, closedGroup]

theorem marked_each {parts : List (Elx × Pattern Byte)}
    (each : ∀ part ∈ parts, Finds room text part.1 part.2) :
    ∃ views : List (View → List View), ∀ v, (∀ part ∈ parts, Ready text part.2 v) →
      List.Forall₂ (Enumerates (Reads room) · v ·) (onEach text (parts.map (·.1))) (views.map (· v)) ∧
        (views.map (· v)).flatMap (List.map View.shown)
          = parts.flatMap fun part => (ways text part.2 v.pos).map (behind v.captures) := by
  induction parts with
  | nil => exact ⟨[], fun v _ => ⟨.nil, rfl⟩⟩
  | cons part parts ih =>
    obtain ⟨views, rest⟩ := ih fun part inside => each part (List.mem_cons_of_mem _ inside)
    obtain ⟨own, here⟩ := each part List.mem_cons_self
    refine ⟨own :: views, fun v ready => ?_⟩
    obtain ⟨enumerates, shown⟩ := here v (ready part List.mem_cons_self)
    obtain ⟨others, shown'⟩ := rest v fun part inside => ready part (List.mem_cons_of_mem _ inside)
    refine ⟨.cons enumerates.enumerates others, ?_⟩
    rw [List.map_cons, List.flatMap_cons, shown, shown', List.flatMap_cons]

theorem Finds.alternative (e : Elx) (p : Pattern Byte) (parts : List (Elx × Pattern Byte))
    (each : ∀ part ∈ (e, p) :: parts, Finds room text part.1 part.2) :
    Finds room text (.alternative (e :: parts.map (·.1))) (.anyOf (p :: parts.map (·.2))) := by
  obtain ⟨views, finds⟩ := marked_each each
  let mark (n : Nat) (w : View) : View := { w with stack := (n : Int) :: w.stack }
  refine ⟨fun v => marked mark 0 (views.map (· v)), fun v ready => ?_⟩
  have readyEach : ∀ part ∈ (e, p) :: parts, Ready text part.2 v := by
    intro part inside
    refine ⟨ready.inside, fun number group => ready.free number ?_⟩
    rw [groups_anyOf, List.mem_flatMap]
    exact ⟨part.2, List.mem_map_of_mem (f := Prod.snd) inside, group⟩
  obtain ⟨each, shown⟩ := finds v readyEach
  have kept : ∀ (n : Nat) c w, Reads room c w → Reads room (c.push n) (mark n w) := fun n c w seen =>
    ⟨seen.pos, congrArg _ seen.stack, seen.captures, seen.indexed, seen.closed, seen.counter,
      seen.room⟩
  have recalled : ∀ (n : Nat) c w, Reads room c (mark n w) →
      ∃ c', (c.pop.map fun top => (top.1.toNat, top.2)) = some (n, c') ∧ Reads room c' w := by
    intro n c w seen
    refine ⟨{ c with stack := w.stack }, ?_, ⟨seen.pos, rfl, seen.captures, seen.indexed,
      seen.closed, seen.counter, seen.room⟩⟩
    have top : c.stack = (n : Int) :: w.stack := seen.stack
    rw [Context.pop, top]
    rfl
  refine ⟨?_, ?_⟩
  · show Enumerates (Reads room) (Searcher.alternatives (fun n c => c.push n)
      (fun c => c.pop.map fun top => (top.1.toNat, top.2)) _) v _
    exact alternatives_enumerates kept each recalled
  · have unseen : ∀ n w, (mark n w).shown = w.shown := fun n w => rfl
    show (marked mark 0 _).map View.shown = _
    rw [map_marked mark unseen, shown, ways_anyOf, List.map_flatMap]
    exact (List.flatMap_map Prod.snd
      (fun a => (ways text a v.pos).map (behind v.captures)) ((e, p) :: parts)).symm

end Parts

/-- What the engine finds with an element are the ways of its pattern, in their order. -/
theorem Compiles.finds {room : Nat} {text : List Byte} (short : text.length ≤ intMax) {e : Elx}
    {p : Pattern Byte} (compiles : Compiles e p) : Finds room text e p := by
  induction compiles with
  | string fixed => exact .string fixed
  | range byes ranges chars => exact .range byes ranges chars
  | boundary ntype byes => exact .boundary ntype byes
  | optional single => exact .optional single
  | many single => exact .many single short
  | star single => exact .star single short
  | group positive _ free inner => exact .group positive inner free
  | last _ only => exact .last only
  | cons _ _ apart first rest => exact .cons first rest apart
  | alternative e p parts _ each => exact .alternative e p parts each

end SysMonitor.Source.Deelx
