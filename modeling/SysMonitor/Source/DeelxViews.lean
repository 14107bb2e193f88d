import SysMonitor.Source.DeelxElements

/-!
# What the elements of a regular expression find

The context of a match is seen as a position, a stack and the captures. What only
`m_captureindex`, the z-indices and their counter hold is not seen: a failed call may leave other
values there than it met.
-/

namespace SysMonitor.Source.Deelx
open SysMonitor.Library.ResumableSearch

/-- The number of a capture with its two positions. -/
def Capture.seen (capture : Capture) : Nat × Int × Int :=
  (capture.number, capture.start, capture.stop)

structure View where
  pos : Nat
  stack : List Int
  captures : List (Nat × Int × Int)

/-- No index lies below a capture of its group, and no group is open twice. `room` is a group that
`m_captureindex` is prepared for. -/
structure Reads (room : Nat) (c : Context) (v : View) : Prop where
  pos : c.currentPos = v.pos
  stack : c.stack = v.stack
  captures : c.capturestack.map Capture.seen = v.captures
  indexed : ∀ (k : Nat) capture, c.capturestack[k]? = some capture →
    ∃ index : Int, c.captureindex[capture.number]? = some index ∧ k ≤ index
  closed : ∀ capture ∈ c.capturestack, capture.number ≠ 0 → 0 ≤ capture.zindex
  counter : 0 ≤ c.parenZindex
  room : room < c.captureindex.length

section Indices

variable {room : Nat} {c : Context} {v : View} {number : Nat} {captures : List Capture}

theorem findCapture_none (absent : ∀ capture ∈ captures, capture.number ≠ number) (bound : Nat) :
    findCapture captures number bound = none := by
  induction bound with
  | zero => rfl
  | succ index ih =>
    have missed : ¬ (captures[index]?).any fun capture => capture.number = number := by
      cases here : captures[index]? with
      | none => simp
      | some capture => simp [absent capture (List.mem_of_getElem? here)]
    rw [findCapture, if_neg missed, ih]

/-- Where a group has one capture, it is found from every index that does not lie below. -/
theorem findCapture_some {k bound : Nat} {capture : Capture} (here : captures[k]? = some capture)
    (only : ∀ j other, captures[j]? = some other → other.number = capture.number → j = k)
    (below : k < bound) : findCapture captures capture.number bound = some k := by
  induction bound with
  | zero => omega
  | succ index ih =>
    rw [findCapture]
    by_cases reached : index = k
    · subst reached
      rw [if_pos (by simp [here])]
    · have missed : ¬ (captures[index]?).any fun other => other.number = capture.number := by
        cases there : captures[index]? with
        | none => simp
        | some other =>
          simp only [Option.any_some, decide_eq_true_eq]
          exact fun same => reached (only index other there same)
      rw [if_neg missed]
      exact ih (by omega)

theorem checkCaptureIndex_none (absent : ∀ capture ∈ c.capturestack, capture.number ≠ number)
    (index : Int) : checkCaptureIndex c index number = none := findCapture_none absent _

theorem checkCaptureIndex_some {k : Nat} {index : Int} {capture : Capture}
    (here : c.capturestack[k]? = some capture)
    (only : ∀ j other, c.capturestack[j]? = some other → other.number = capture.number → j = k)
    (above : (k : Int) ≤ index) : checkCaptureIndex c index capture.number = some k := by
  have inside := (List.getElem?_eq_some_iff.mp here).1
  rw [checkCaptureIndex]
  refine findCapture_some here only ?_
  split <;> omega

/-- A group that the view does not show has no capture. -/
theorem Reads.absent (seen : Reads room c v) (free : number ∉ v.captures.map (·.1)) :
    ∀ capture ∈ c.capturestack, capture.number ≠ number := by
  rintro capture inside rfl
  apply free
  rw [← seen.captures, List.map_map]
  exact List.mem_map_of_mem (f := (fun x : Nat × Int × Int => x.1) ∘ Capture.seen) inside

end Indices

section Leaves

variable {room : Nat} {text : List Byte} {v : View}

theorem Reads.move {c : Context} (seen : Reads room c v) {pos : Nat} {currentPos : Int}
    (there : currentPos = pos) : Reads room { c with currentPos } { v with pos } :=
  ⟨there, seen.stack, seen.captures, seen.indexed, seen.closed, seen.counter, seen.room⟩

theorem nCompare_prefix {fixed pcsz : List Byte} (fits : fixed.length ≤ pcsz.length) :
    ∃ difference, nCompare fixed pcsz = some difference ∧ (difference = 0 ↔ fixed <+: pcsz) := by
  induction fixed generalizing pcsz with
  | nil => exact ⟨0, rfl, by simp⟩
  | cons x rest ih =>
    cases pcsz with
    | nil => simp at fits
    | cons y more =>
      by_cases same : x = y
      · subst same
        obtain ⟨difference, compared, agrees⟩ := ih (by simpa using fits)
        refine ⟨difference, by rw [nCompare, if_neg (by simp), compared], ?_⟩
        rw [agrees, List.prefix_cons_inj]
      · refine ⟨x.toNat - y.toNat, by rw [nCompare, if_pos same], ?_⟩
        have different : x.toNat ≠ y.toNat := fun equal => same (BitVec.eq_of_toNat_eq equal)
        constructor
        · intro zero
          omega
        · intro begins
          exact absurd (List.cons_prefix_cons.mp begins).1 same

theorem stringElx_enumerates (fixed : List Byte) (inside : v.pos ≤ text.length) :
    Enumerates (Reads room) (stringElx text fixed) v
      (if fixed <+: text.drop v.pos then [{ v with pos := v.pos + fixed.length }] else []) := by
  apply enumerates_single (by split <;> simp)
  · intro c seen
    by_cases short : c.currentPos + fixed.length > text.length
    · have differs : ¬ fixed <+: text.drop v.pos := by
        intro begins
        have length := begins.length_le
        rw [List.length_drop] at length
        rw [seen.pos] at short
        omega
      rw [if_neg differs]
      exact ⟨c, settles_of_eq fun _ => if_pos short, seen⟩
    · have fits : fixed.length ≤ (text.drop v.pos).length := by
        rw [seen.pos] at short
        rw [List.length_drop]
        omega
      obtain ⟨difference, compared, agrees⟩ := nCompare_prefix fits
      have call : ∀ fuel, (stringElx text fixed).first fuel c = some (if difference = 0 then
          (true, { c with currentPos := c.currentPos + fixed.length }) else (false, c)) := by
        intro fuel
        have points : pointer text c.currentPos = some (text.drop v.pos) := by
          rw [pointer, seen.pos, if_pos (by omega), Int.toNat_natCast]
        show (if c.currentPos + fixed.length > text.length then _ else _) = _
        rw [if_neg short, points, Option.bind_some, compared, Option.map_some]
      by_cases equal : difference = 0
      · rw [if_pos (agrees.mp equal)]
        refine ⟨_, settles_of_eq fun fuel => (call fuel).trans (by rw [if_pos equal]), ?_⟩
        exact seen.move (by rw [seen.pos]; omega)
      · rw [if_neg (mt agrees.mpr equal)]
        exact ⟨c, settles_of_eq fun fuel => (call fuel).trans (by rw [if_neg equal]), seen⟩
  · intro w found c seen
    have here : w = { v with pos := v.pos + fixed.length } := by
      split at found <;> simp_all
    subst here
    have stands : c.currentPos = (v.pos + fixed.length : Nat) := seen.pos
    exact ⟨_, settles_of_eq fun _ => rfl, seen.move (by omega)⟩

/-- An element that takes one character, of a kind. -/
def TakesOne (room : Nat) (text : List Byte) (e : ElxInterface) (accepts : Byte → Bool) : Prop :=
  ∀ v : View, v.pos ≤ text.length → Enumerates (Reads room) e v
    (if (text[v.pos]?).any accepts then [{ v with pos := v.pos + 1 }] else [])

theorem rangeElx_takesOne (byes : Bool) (ranges : List (Byte × Byte)) (chars : List Byte) :
    TakesOne room text (rangeElx text byes ranges chars) (inRange byes ranges chars) := by
  intro v inside
  apply enumerates_single (by split <;> simp)
  · intro c seen
    cases here : text[v.pos]? with
    | none =>
      have outside : c.currentPos < 0 ∨ c.currentPos ≥ text.length := by
        have behind := List.getElem?_eq_none_iff.mp here
        rw [seen.pos]
        omega
      exact ⟨c, settles_of_eq fun _ => if_pos outside, seen⟩
    | some ch =>
      have call : ∀ fuel, (rangeElx text byes ranges chars).first fuel c
          = some (if inRange byes ranges chars ch then
            (true, { c with currentPos := c.currentPos + 1 }) else (false, c)) := by
        intro fuel
        have below := (List.getElem?_eq_some_iff.mp here).1
        show (if c.currentPos < 0 ∨ c.currentPos ≥ text.length then _ else _) = _
        rw [if_neg (by rw [seen.pos]; omega), seen.pos, Int.toNat_natCast, here, Option.map_some]
      rw [Option.any_some]
      by_cases accepted : inRange byes ranges chars ch
      · rw [if_pos accepted]
        refine ⟨_, settles_of_eq fun fuel => (call fuel).trans (by rw [if_pos accepted]), ?_⟩
        exact seen.move (by rw [seen.pos]; omega)
      · rw [if_neg accepted]
        exact ⟨c, settles_of_eq fun fuel => (call fuel).trans (by rw [if_neg accepted]), seen⟩
  · intro w found c seen
    have here : w = { v with pos := v.pos + 1 } := by
      split at found <;> simp_all
    subst here
    have stands : c.currentPos = (v.pos + 1 : Nat) := seen.pos
    exact ⟨_, settles_of_eq fun _ => rfl, seen.move (by omega)⟩

/-- A string of one character takes one character. -/
theorem stringElx_takesOne (ch : Byte) :
    TakesOne room text (stringElx text [ch]) fun here => here = ch := by
  intro v inside
  have begins : [ch] <+: text.drop v.pos ↔ (text[v.pos]?).any fun here => here = ch := by
    rw [← List.head?_drop]
    cases text.drop v.pos with
    | nil => simp
    | cons x rest => simp [List.cons_prefix_cons, eq_comm]
  have found : Enumerates (Reads room) (stringElx text [ch]) v _ :=
    stringElx_enumerates [ch] inside
  simp only [begins] at found
  exact found

theorem boundaryElx_enumerates (ntype : BoundaryType) (byes : Bool) (v : View) :
    Enumerates (Reads room) (boundaryElx text ntype byes) v
      (if boundary text ntype v.pos == byes then [v] else []) := by
  apply enumerates_single (by split <;> simp)
  · intro c seen
    have call : ∀ fuel, (boundaryElx text ntype byes).first fuel c
        = some (boundary text ntype v.pos == byes, c) := by
      intro fuel
      show (if 0 ≤ c.currentPos then _ else _) = _
      rw [if_pos (by rw [seen.pos]; omega), seen.pos, Int.toNat_natCast]
    split
    next holds => exact ⟨c, settles_of_eq fun fuel => (call fuel).trans (by rw [holds]), seen⟩
    next fails =>
      rw [Bool.not_eq_true] at fails
      exact ⟨c, settles_of_eq fun fuel => (call fuel).trans (by rw [fails]), seen⟩
  · intro w found c seen
    have here : w = v := by split at found <;> simp_all
    subst here
    exact ⟨c, settles_of_eq fun _ => rfl, seen⟩

end Leaves

section Brackets

variable {room : Nat} {v : View} {c : Context} {number : Nat}

/-- What a view shows of the captures around one of them. -/
theorem Reads.split (seen : Reads room c v) {before inside : List (Nat × Int × Int)} {start stop : Int}
    (shown : v.captures = before ++ (number, start, stop) :: inside) :
    ∃ earlier capture later, c.capturestack = earlier ++ capture :: later ∧
      earlier.map Capture.seen = before ∧ capture.seen = (number, start, stop) ∧
      later.map Capture.seen = inside := by
  have captures := seen.captures
  rw [shown] at captures
  obtain ⟨earlier, rest, split, shown, others⟩ := List.map_eq_append_iff.mp captures
  obtain ⟨capture, later, rfl, here, behind⟩ := List.map_eq_cons_iff.mp others
  exact ⟨earlier, capture, later, split, shown, here, behind⟩

/-- The one capture of a group is found through `m_captureindex`. -/
theorem Reads.find (seen : Reads room c v) {before inside : List (Nat × Int × Int)} {start stop : Int}
    (shown : v.captures = before ++ (number, start, stop) :: inside)
    (alone : number ∉ (before ++ inside).map (·.1)) :
    ∃ index, c.captureindex[number]? = some index ∧
      checkCaptureIndex c index number = some before.length := by
  obtain ⟨earlier, capture, later, stack, rfl, here, rfl⟩ := seen.split shown
  obtain ⟨rfl, -⟩ := Prod.mk.inj here
  have stands : c.capturestack[earlier.length]? = some capture := by simp [stack]
  obtain ⟨index, indexed, above⟩ := seen.indexed _ capture stands
  rw [List.length_map]
  refine ⟨index, indexed, checkCaptureIndex_some stands ?_ above⟩
  intro j other there same
  rw [stack] at there
  by_contra elsewhere
  apply alone
  have member : other ∈ earlier ++ later := by
    rcases Nat.lt_or_gt_of_ne elsewhere with below | beyond
    · rw [List.getElem?_append_left below] at there
      exact List.mem_append_left _ (List.mem_of_getElem? there)
    · rw [List.getElem?_append_right (by omega), List.getElem?_cons, if_neg (by omega)] at there
      exact List.mem_append_right _ (List.mem_of_getElem? there)
  rw [← List.map_append, List.map_map]
  exact List.mem_map.mpr ⟨other, member, same⟩

theorem Reads.prepare (seen : Reads room c v) (number : Nat) : Reads room (c.prepare number) v := by
  refine ⟨seen.pos, seen.stack, seen.captures, ?_, seen.closed, seen.counter, ?_⟩
  · intro k capture here
    obtain ⟨index, indexed, above⟩ := seen.indexed k capture here
    refine ⟨index, ?_, above⟩
    show (c.captureindex ++ _)[capture.number]? = some index
    rw [List.getElem?_append_left (List.getElem?_eq_some_iff.mp indexed).1, indexed]
  · show room < (c.captureindex ++ _).length
    rw [List.length_append]
    exact Nat.lt_add_right _ seen.room

theorem prepare_length (c : Context) (number : Nat) :
    number < (c.prepare number).captureindex.length := by
  show number < (c.captureindex ++ List.replicate _ _).length
  rw [List.length_append, List.length_replicate]
  omega

theorem Reads.saveCapture (seen : Reads room c v) (free : number ∉ v.captures.map (·.1))
    (prepared : number < c.captureindex.length) :
    Reads room (c.saveCapture number)
      { v with captures := v.captures ++ [(number, (v.pos : Int), -1)] } := by
  refine ⟨seen.pos, seen.stack, ?_, ?_, ?_, seen.counter, ?_⟩
  rotate_left 3
  · show room < (c.captureindex.set _ _).length
    rw [List.length_set]
    exact seen.room
  · show (c.capturestack ++ [_]).map Capture.seen = v.captures ++ [_]
    rw [List.map_append, seen.captures, List.map_singleton, Capture.seen, seen.pos]
  · intro k capture here
    show ∃ index, (c.captureindex.set number _)[capture.number]? = some index ∧ _
    by_cases old : k < c.capturestack.length
    · have here' : c.capturestack[k]? = some capture := by
        rw [← List.getElem?_append_left old]
        exact here
      obtain ⟨index, indexed, above⟩ := seen.indexed k capture here'
      have other : capture.number ≠ number :=
        seen.absent free capture (List.mem_of_getElem? here')
      exact ⟨index, by rw [List.getElem?_set_ne other.symm, indexed], above⟩
    · have here' : [(⟨number, c.currentPos, -1, 0⟩ : Capture)][k - c.capturestack.length]?
          = some capture := by
        rw [← List.getElem?_append_right (by omega)]
        exact here
      rw [List.getElem?_singleton] at here'
      split at here'
      next last =>
        rw [← Option.some.inj here']
        exact ⟨_, List.getElem?_set_self prepared, by omega⟩
      next => cases here'
  · intro capture inside
    rcases List.mem_append.mp inside with old | new
    · exact seen.closed capture old
    · rw [List.mem_singleton.mp new]
      exact fun _ => Int.le_refl 0

theorem Reads.dropCapture {captures : List (Nat × Int × Int)} {start stop : Int}
    (seen : Reads room c v) (shown : v.captures = captures ++ [(number, start, stop)])
    (free : number ∉ captures.map (·.1)) (k : Nat) :
    Reads room (c.dropCapture number k) { v with captures } := by
  obtain ⟨earlier, capture, later, stack, rfl, here, nothing⟩ := seen.split shown
  obtain rfl : later = [] := List.map_eq_nil_iff.mp nothing
  have dropped : c.capturestack.dropLast = earlier := by rw [stack, List.dropLast_concat]
  have absent : ∀ capture ∈ earlier, capture.number ≠ number := by
    rintro capture inside rfl
    apply free
    rw [List.map_map]
    exact List.mem_map_of_mem (f := (fun x : Nat × Int × Int => x.1) ∘ Capture.seen) inside
  refine ⟨seen.pos, seen.stack, congrArg _ dropped, ?_, ?_, seen.counter, ?_⟩
  rotate_left 2
  · show room < (c.captureindex.set _ _).length
    rw [List.length_set]
    exact seen.room
  · intro j other there
    have there' : earlier[j]? = some other := by
      rw [← dropped]
      exact there
    have before : c.capturestack[j]? = some other := by
      rw [stack, List.getElem?_append_left (List.getElem?_eq_some_iff.mp there').1, there']
    obtain ⟨index, indexed, above⟩ := seen.indexed j other before
    have different := absent other (List.mem_of_getElem? there')
    refine ⟨index, ?_, above⟩
    show (c.captureindex.set number _)[other.number]? = some index
    rw [List.getElem?_set_ne different.symm, indexed]
  · intro other inside
    have inside' : other ∈ earlier := by
      rw [← dropped]
      exact inside
    exact seen.closed other (by rw [stack]; exact List.mem_append_left _ inside')

theorem modify_middle {α : Type*} (earlier later : List α) (x : α) (f : α → α) :
    (earlier ++ x :: later).modify earlier.length f = earlier ++ f x :: later := by
  induction earlier with
  | nil => rfl
  | cons y earlier ih => rw [List.cons_append, List.length_cons, List.modify_succ_cons, ih]; rfl

theorem Reads.markCapture {before inside : List (Nat × Int × Int)} {start stop : Int}
    (seen : Reads room c v) (shown : v.captures = before ++ (number, start, stop) :: inside)
    (stop' : Int) {zindex : Int} (closed : number ≠ 0 → 0 ≤ zindex) :
    Reads room (c.markCapture before.length stop' zindex)
      { v with captures := before ++ (number, start, stop') :: inside } := by
  obtain ⟨earlier, capture, later, stack, rfl, here, rfl⟩ := seen.split shown
  have marked : (c.markCapture (earlier.map Capture.seen).length stop' zindex).capturestack
      = earlier ++ { capture with stop := stop', zindex } :: later := by
    show c.capturestack.modify _ _ = _
    rw [stack, List.length_map, modify_middle]
  obtain ⟨rfl, rfl, rfl⟩ : capture.number = number ∧ capture.start = start ∧
      capture.stop = stop := by
    simpa [Capture.seen] using here
  refine ⟨seen.pos, seen.stack, ?_, ?_, ?_, seen.counter, seen.room⟩
  · rw [marked, List.map_append, List.map_cons]
    rfl
  · intro k other there
    obtain ⟨old, was, same⟩ : ∃ old, c.capturestack[k]? = some old ∧ old.number = other.number := by
      rw [marked] at there
      rw [stack]
      rcases Nat.lt_trichotomy k earlier.length with below | rfl | beyond
      · rw [List.getElem?_append_left below] at there
        exact ⟨other, by rw [List.getElem?_append_left below, there], rfl⟩
      · rw [List.getElem?_append_right (Nat.le_refl _), Nat.sub_self, List.getElem?_cons_zero]
          at there
        exact ⟨capture, by simp, by rw [← Option.some.inj there]⟩
      · rw [List.getElem?_append_right (by omega), List.getElem?_cons, if_neg (by omega)] at there
        refine ⟨other, ?_, rfl⟩
        rw [List.getElem?_append_right (by omega), List.getElem?_cons, if_neg (by omega), there]
    obtain ⟨index, indexed, above⟩ := seen.indexed k old was
    exact ⟨index, by rw [← same]; exact indexed, above⟩
  · intro other member
    rw [marked] at member
    have old := seen.closed other
    rw [stack] at old
    rcases List.mem_append.mp member with earlier' | rest
    · exact old (List.mem_append_left _ earlier')
    · rcases List.mem_cons.mp rest with rfl | later'
      · exact closed
      · exact old (List.mem_append_right _ (List.mem_cons_of_mem _ later'))

/-- The counter of the z-indices is not seen. -/
theorem Reads.count (seen : Reads room c v) : Reads room { c with parenZindex := c.parenZindex + 1 } v := by
  have counter := seen.counter
  refine ⟨seen.pos, seen.stack, seen.captures, seen.indexed, seen.closed, ?_, seen.room⟩
  show 0 ≤ c.parenZindex + 1
  omega

/-- What the code asks of the capture it found. -/
theorem Reads.tests {before inside : List (Nat × Int × Int)} {start stop : Int}
    (seen : Reads room c v) (shown : v.captures = before ++ (number, start, stop) :: inside) :
    ∃ zindex, (number ≠ 0 → 0 ≤ zindex) ∧ ∀ test : Capture → Bool,
      c.tests before.length test = test ⟨number, start, stop, zindex⟩ := by
  obtain ⟨earlier, capture, later, stack, rfl, here, rfl⟩ := seen.split shown
  obtain ⟨rfl, rfl, rfl⟩ : capture.number = number ∧ capture.start = start ∧
      capture.stop = stop := by
    simpa [Capture.seen] using here
  refine ⟨capture.zindex, seen.closed capture (by rw [stack]; simp), fun test => ?_⟩
  show (c.capturestack[_]?).any test = _
  rw [stack, List.length_map]
  simp

theorem leftBracket_enumerates (positive : number ≠ 0) (free : number ∉ v.captures.map (·.1)) :
    Enumerates (Reads room) (leftBracket number) v
      [{ v with captures := v.captures ++ [(number, (v.pos : Int), -1)] }] := by
  apply enumerates_single (by simp)
  · intro c seen
    have seen' := seen.prepare number
    have prepared := prepare_length c number
    refine ⟨(c.prepare number).saveCapture number, settles_of_eq fun fuel => ?_,
      seen'.saveCapture free prepared⟩
    show ((c.prepare number).captureindex[number]?).map _ = _
    rw [List.getElem?_eq_getElem prepared, Option.map_some,
      checkCaptureIndex_none (seen'.absent free)]
  · intro w found c seen
    rw [List.mem_singleton.mp found] at seen
    obtain ⟨index, indexed, reached⟩ := seen.find rfl (by simpa using free)
    obtain ⟨zindex, closed, tests⟩ := seen.tests rfl
    refine ⟨c.dropCapture number v.captures.length, settles_of_eq fun fuel => ?_,
      seen.dropCapture rfl free _⟩
    show (c.captureindex[number]?).map _ = _
    have innermost : ¬ c.tests v.captures.length fun capture => capture.zindex < 0 := by
      rw [tests]
      simpa using closed positive
    rw [indexed, Option.map_some, reached]
    exact congrArg some (if_neg innermost)

theorem rightBracket_enumerates (positive : number ≠ 0) {before inside : List (Nat × Int × Int)}
    {start : Int} (shown : v.captures = before ++ (number, start, -1) :: inside)
    (alone : number ∉ (before ++ inside).map (·.1)) :
    Enumerates (Reads room) (rightBracket number) v
      [{ v with captures := before ++ (number, start, (v.pos : Int)) :: inside }] := by
  apply enumerates_single (by simp)
  · intro c seen
    obtain ⟨index, indexed, reached⟩ := seen.find shown alone
    obtain ⟨zindex, closed, tests⟩ := seen.tests shown
    have marked := seen.markCapture shown c.currentPos fun _ => seen.counter
    refine ⟨{ c.markCapture before.length c.currentPos c.parenZindex with
      parenZindex := c.parenZindex + 1 }, settles_of_eq fun fuel => ?_, ?_⟩
    · show (c.captureindex[number]?).map _ = _
      have innermost : ¬ c.tests before.length fun capture => capture.zindex < 0 := by
        rw [tests]
        simpa using closed positive
      rw [indexed, Option.map_some, reached]
      exact congrArg some (if_neg innermost)
    · rw [seen.pos] at marked ⊢
      exact marked.count
  · intro w found c seen
    rw [List.mem_singleton.mp found] at seen
    obtain ⟨index, indexed, reached⟩ := seen.find rfl alone
    obtain ⟨zindex, closed, tests⟩ := seen.tests rfl
    have marked := seen.markCapture rfl (-1) fun _ => Int.le_refl 0
    refine ⟨c.markCapture before.length (-1) 0, settles_of_eq fun fuel => ?_, ?_⟩
    · show (c.captureindex[number]?).map _ = _
      have ended : c.tests before.length fun capture => capture.stop ≥ 0 := by
        rw [tests]
        simp
      rw [indexed, Option.map_some, reached]
      exact congrArg some (if_pos ended)
    · rw [← shown] at marked
      exact marked

end Brackets

end SysMonitor.Source.Deelx
