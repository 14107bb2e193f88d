import SysMonitor.Source.DeelxViews

/-!
# What a greedy repetition of one character finds

`CGreedyElxT` keeps six integers on the stack of the context: the sizes of both stacks, a buffer
with the positions it has gone forward to, where the part that varies begins, and how many
characters that part has.
-/

namespace SysMonitor.Source.Deelx
open SysMonitor.Library.ResumableSearch

variable {room : Nat} {text : List Byte} {pelx : ElxInterface} {accepts : Byte → Bool} {c : Context} {v : View}

/-- How many characters of a kind stand from a position on. -/
def reach (text : List Byte) (accepts : Byte → Bool) (pos : Nat) : Nat :=
  ((text.drop pos).takeWhile accepts).length

theorem reach_step {pos : Nat} (accepted : (text[pos]?).any accepts) :
    reach text accepts pos = reach text accepts (pos + 1) + 1 := by
  obtain ⟨ch, here, accepted⟩ := (Option.any_eq_true _ _).mp accepted
  obtain ⟨below, rfl⟩ := List.getElem?_eq_some_iff.mp here
  rw [reach, List.drop_eq_getElem_cons below, List.takeWhile_cons, if_pos accepted,
    List.length_cons, reach]

theorem reach_stop {pos : Nat} (refused : ¬ (text[pos]?).any accepts) :
    reach text accepts pos = 0 := by
  rw [reach]
  cases rest : text.drop pos with
  | nil => rfl
  | cons ch rest' =>
    have here : text[pos]? = some ch := by rw [← List.head?_drop, rest, List.head?_cons]
    rw [here, Option.any_some] at refused
    rw [List.takeWhile_cons, if_neg refused, List.length_nil]

theorem reach_inside (accepts : Byte → Bool) (pos : Nat) (inside : pos ≤ text.length) :
    pos + reach text accepts pos ≤ text.length := by
  have short := (List.takeWhile_prefix accepts (l := text.drop pos)).length_le
  rw [List.length_drop] at short
  rw [reach]
  omega

/-- Within the reach every character is of the kind. -/
theorem accepted_of_lt_reach {pos n : Nat} (below : n < reach text accepts pos) :
    (text[pos + n]?).any accepts := by
  induction n generalizing pos with
  | zero =>
    rw [Nat.add_zero]
    by_contra refused
    rw [reach_stop refused] at below
    omega
  | succ n ih =>
    by_cases accepted : (text[pos]?).any accepts
    · rw [reach_step accepted] at below
      have later := ih (by omega : n < reach text accepts (pos + 1))
      rwa [Nat.add_right_comm, Nat.add_assoc] at later
    · rw [reach_stop accepted] at below
      omega

theorem reach_add {pos n : Nat} (within : n ≤ reach text accepts pos) :
    reach text accepts (pos + n) = reach text accepts pos - n := by
  induction n generalizing pos with
  | zero => rfl
  | succ n ih =>
    have accepted := accepted_of_lt_reach (n := 0) (by omega : 0 < reach text accepts pos)
    rw [Nat.add_zero] at accepted
    have step := reach_step accepted
    have position : pos + (n + 1) = pos + 1 + n := by omega
    rw [position, ih (by omega), step]
    omega

section Fixed

variable (takes : TakesOne room text pelx accepts)

include takes

theorem repeatElx_completes (n : Nat) (inside : v.pos ≤ text.length) :
    Completes (Reads room) (List.replicate n pelx) v
      (if n ≤ reach text accepts v.pos then [{ v with pos := v.pos + n }] else []) := by
  induction n generalizing v with
  | zero =>
    rw [if_pos (Nat.zero_le _)]
    exact .nil v
  | succ n ih =>
    have here := takes v inside
    by_cases accepted : (text[v.pos]?).any accepts
    · rw [if_pos accepted] at here
      have below := reach_inside accepts v.pos inside
      rw [reach_step accepted] at below
      have further := Completes.cons
        (fun w => if n ≤ reach text accepts w.pos then [{ w with pos := w.pos + n }] else [])
        here (by
          intro w found
          rw [List.mem_singleton.mp found]
          exact ih (by show v.pos + 1 ≤ _; omega))
      simp only [List.flatMap_cons, List.flatMap_nil, List.append_nil] at further
      have position : v.pos + (n + 1) = v.pos + 1 + n := by omega
      rw [reach_step accepted, position]
      simp only [Nat.add_le_add_iff_right]
      exact further
    · rw [if_neg accepted] at here
      rw [reach_stop accepted, if_neg (by omega)]
      exact Completes.cons (fun _ => []) here (by simp)

theorem repeatElx_enumerates (n : Nat) (inside : v.pos ≤ text.length) :
    Enumerates (Reads room) (repeatElx pelx n) v
      (if n ≤ reach text accepts v.pos then [{ v with pos := v.pos + n }] else []) :=
  (repeatElx_completes takes n inside).enumerates

end Fixed

section Forward

variable (takes : TakesOne room text pelx accepts) (inside : v.pos ≤ text.length) (seen : Reads room c v)

include takes inside seen

theorem matchForward_step (accepted : (text[v.pos]?).any accepts) :
    ∃ c', Settles (fun fuel => matchForward pelx fuel c) (true, c') ∧
      Reads room c' { v with pos := v.pos + 1 } := by
  have stands := (takes v inside).first c seen
  rw [if_pos accepted] at stands
  obtain ⟨c', found, seen'⟩ := stands
  refine ⟨c', follows_bind found _ (settles_of_eq fun _ => ?_), seen'⟩
  have moves : c'.currentPos ≠ c.currentPos := by
    have there : c'.currentPos = (v.pos + 1 : Nat) := seen'.pos
    rw [seen.pos]
    omega
  simp [moves]

theorem matchForward_stop (refused : ¬ (text[v.pos]?).any accepts) :
    ∃ c', Settles (fun fuel => matchForward pelx fuel c) (false, c') ∧ Reads room c' v := by
  have stands := (takes v inside).first c seen
  rw [if_neg refused] at stands
  obtain ⟨c', missed, seen'⟩ := stands
  exact ⟨c', follows_bind missed _ (settles_of_eq fun _ => rfl), seen'⟩

end Forward

/-- The rounds forward end where the characters end, or with the greatest count. -/
theorem forwardFrom_settles (takes : TakesOne room text pelx accepts) {nvart n : Nat}
    (inside : v.pos ≤ text.length) (seen : Reads room c v) (within : n ≤ nvart) :
    ∃ c', Settles (fun fuel => forwardFrom pelx nvart fuel n c)
        (n + min (nvart - n) (reach text accepts v.pos), c') ∧
      Reads room c' { v with pos := v.pos + min (nvart - n) (reach text accepts v.pos) } := by
  induction length : reach text accepts v.pos generalizing v c n with
  | zero =>
    have refused : ¬ (text[v.pos]?).any accepts := by
      intro accepted
      rw [reach_step accepted] at length
      omega
    obtain ⟨c', stopped, seen'⟩ := matchForward_stop takes inside seen refused
    rw [Nat.min_zero, Nat.add_zero, Nat.add_zero]
    by_cases more : n < nvart
    · refine ⟨c', ?_, seen'⟩
      refine follows_of_succ (fun fuel => if_pos more) _ ?_
      exact stopped.bind (settles_of_eq fun _ => rfl)
    · refine ⟨c, ?_, seen⟩
      exact follows_of_succ (fun fuel => if_neg more) _ (settles_of_eq fun _ => rfl)
  | succ r ih =>
    have accepted : (text[v.pos]?).any accepts := by
      by_contra refused
      rw [reach_stop refused] at length
      omega
    by_cases more : n < nvart
    · obtain ⟨c', moved, seen'⟩ := matchForward_step takes inside seen accepted
      rw [reach_step accepted] at length
      have below := reach_inside accepts v.pos inside
      rw [reach_step accepted] at below
      obtain ⟨c'', rest, seen''⟩ := ih (v := { v with pos := v.pos + 1 }) (n := n + 1)
        (by show v.pos + 1 ≤ _; omega) seen' more (by show reach text accepts (v.pos + 1) = r; omega)
      have count : n + min (nvart - n) (r + 1) = n + 1 + min (nvart - (n + 1)) r := by omega
      have position : v.pos + min (nvart - n) (r + 1) = v.pos + 1 + min (nvart - (n + 1)) r := by
        omega
      rw [count, position]
      exact ⟨c'', follows_of_succ (fun fuel => if_pos more) _ (moved.bind rest), seen''⟩
    · have least : min (nvart - n) (r + 1) = 0 := by omega
      rw [least]
      refine ⟨c, ?_, seen⟩
      exact follows_of_succ (fun fuel => if_neg more) _ (settles_of_eq fun _ => rfl)

def GreedyFrame.onto (f : GreedyFrame) (stack : List Int) : List Int :=
  f.n :: f.nbegin00 :: (f.nbegin99.length : Int) :: (f.nbegin99.reverse ++ f.nsize :: f.ncsize :: stack)

theorem popFrame_onto {f : GreedyFrame} {stack : List Int} (kept : c.stack = f.onto stack) :
    c.popFrame = some (f, { c with stack }) := by
  have buffer : ∀ c : Context, ∀ buffer rest : List Int,
      c.stack = (buffer.length : Int) :: (buffer.reverse ++ rest) →
        c.popBuffer = some (buffer, { c with stack := rest }) := by
    intro c buffer rest kept
    have length : buffer.length = buffer.reverse.length := List.length_reverse.symm
    rw [Context.popBuffer, kept]
    simp only [Int.toNat_natCast]
    rw [if_pos (by simp), length, List.take_left, List.drop_left, List.reverse_reverse]
  have one : ∀ c : Context, ∀ el rest, c.stack = el :: rest →
      c.pop = some (el, { c with stack := rest }) := by
    intro c el rest kept
    rw [Context.pop, kept]
  simp only [Context.popFrame, one c _ _ kept, Option.bind_eq_bind, Option.bind_some]
  rw [one _ _ _ rfl, Option.bind_some, buffer _ _ _ rfl, Option.bind_some, one _ _ _ rfl,
    Option.bind_some, one _ _ _ rfl]
  rfl

theorem Reads.pushFrame (seen : Reads room c v) (f : GreedyFrame) :
    Reads room (c.pushFrame f) { v with stack := f.onto v.stack } :=
  ⟨seen.pos, by rw [← seen.stack]; rfl, seen.captures, seen.indexed, seen.closed, seen.counter,
    seen.room⟩

theorem Reads.captures_length (seen : Reads room c v) : c.capturestack.length = v.captures.length := by
  rw [← seen.captures, List.length_map]

/-- The view behind a repetition with `n` characters more than the least count, where the most
that could be had were `top` more. -/
def counted (v : View) (nmin top n : Nat) : View :=
  { v with
    pos := v.pos + nmin + n
    stack := GreedyFrame.onto ⟨n, (v.pos + nmin : Nat), [((v.pos + nmin + top : Nat) : Int)],
      v.stack.length, v.captures.length⟩ v.stack }

/-- How many more than the least count can be had. -/
def most (text : List Byte) (accepts : Byte → Bool) (nmin nmax pos : Nat) : Nat :=
  min (nmax - nmin) (reach text accepts pos - nmin)

/-- The ways of a greedy repetition, the longest first. -/
def greedyWays (text : List Byte) (accepts : Byte → Bool) (nmin nmax : Nat) (v : View) : List View :=
  if nmin ≤ reach text accepts v.pos then
    (List.range (most text accepts nmin nmax v.pos + 1)).reverse.map
      (counted v nmin (most text accepts nmin nmax v.pos))
  else []

theorem downwards_split {α : Type*} {f : Nat → α} {bound : Nat} {passed left : List α} {w : α}
    (split : (List.range bound).reverse.map f = passed ++ w :: left) :
    left.length < bound ∧ w = f left.length ∧ left = (List.range left.length).reverse.map f := by
  induction bound generalizing passed with
  | zero => simp at split
  | succ bound ih =>
    rw [List.range_succ, List.reverse_append, List.reverse_singleton, List.singleton_append,
      List.map_cons] at split
    cases passed with
    | nil =>
      obtain ⟨rfl, rfl⟩ := List.cons_eq_cons.mp split
      simp
    | cons x passed =>
      obtain ⟨below, here, rest⟩ := ih (List.cons_eq_cons.mp split).2
      exact ⟨by omega, here, rest⟩

/-- Without any more characters the repetition has nothing to give back. -/
theorem matchNextVart_zero {nmin nvart top : Nat} (fuel : Nat) (seen : Reads room c (counted v nmin top 0)) :
    matchNextVart pelx nvart fuel c = some (false, { c with stack := v.stack }) := by
  simp [matchNextVart, popFrame_onto seen.stack]

section Greedy

variable (takes : TakesOne room text pelx accepts) {nmin : Nat} (inside : v.pos ≤ text.length)

include takes inside

theorem matchVart_settles (nmax : Nat) (enough : nmin ≤ reach text accepts v.pos)
    (seen : Reads room c { v with pos := v.pos + nmin }) :
    ∃ c', Settles (fun fuel => matchVart pelx (nmax - nmin) fuel c) c' ∧
      Reads room c' (counted v nmin (most text accepts nmin nmax v.pos)
        (most text accepts nmin nmax v.pos)) := by
  have below := reach_inside accepts v.pos inside
  obtain ⟨c', forward, seen'⟩ := forwardFrom_settles takes (by show v.pos + nmin ≤ _; omega) seen
    (Nat.zero_le (nmax - nmin))
  have left := reach_add enough
  simp only [Nat.sub_zero, Nat.zero_add, left] at forward seen'
  change Reads room c' { v with pos := v.pos + nmin + most text accepts nmin nmax v.pos } at seen'
  change Settles _ (most text accepts nmin nmax v.pos, c') at forward
  refine ⟨_, forward.map _, ?_⟩
  have position := seen'.pos
  show Reads room (c'.pushFrame ⟨_, c.currentPos, [c'.currentPos], c.stack.length,
    c.capturestack.length⟩) _
  rw [seen.pos, position, seen.stack, seen.captures_length]
  exact seen'.pushFrame _

/-- From a count to the one below. -/
theorem matchNextVart_settles (nvart : Nat) {top n : Nat} (within : nmin + n < reach text accepts v.pos)
    (seen : Reads room c (counted v nmin top (n + 1))) :
    ∃ c', Settles (fun fuel => matchNextVart pelx nvart fuel c) (true, c') ∧
      Reads room c' (counted v nmin top n) := by
  have below := reach_inside accepts v.pos inside
  have accepted := accepted_of_lt_reach within
  rw [← Nat.add_assoc] at accepted
  have here := takes { v with pos := v.pos + nmin + n } (by show v.pos + nmin + n ≤ _; omega)
  rw [if_pos accepted] at here
  have popped : Reads room { c with stack := v.stack } { v with pos := v.pos + nmin + n + 1 } :=
    ⟨seen.pos, rfl, seen.captures, seen.indexed, seen.closed, seen.counter, seen.room⟩
  obtain ⟨c', missed, seen'⟩ := here.next [] _ [] rfl _ popped
  refine ⟨_, ?_, seen'.pushFrame ⟨n, (v.pos + nmin : Nat), [((v.pos + nmin + top : Nat) : Int)],
    v.stack.length, v.captures.length⟩⟩
  have some_left : ¬ ((n + 1 : Nat) : Int) = 0 := by omega
  have count : ((n + 1 : Nat) : Int) - 1 = n := by omega
  simp only [matchNextVart, popFrame_onto seen.stack, Option.bind_some, if_neg some_left]
  refine missed.bind (settles_of_eq fun _ => ?_)
  simp only [Bool.not_false, if_true, count]

theorem greedyElx_enumerates (nmax : Nat) :
    Enumerates (Reads room) (greedyElx pelx nmin nmax) v (greedyWays text accepts nmin nmax v) := by
  have fixed := repeatElx_enumerates takes nmin inside
  rw [greedyWays]
  by_cases enough : nmin ≤ reach text accepts v.pos
  · rw [if_pos enough] at fixed ⊢
    refine ⟨?_, ?_⟩
    · intro c seen
      obtain ⟨c', found, seen'⟩ := fixed.first c seen
      obtain ⟨c'', varied, seen''⟩ := matchVart_settles takes inside nmax enough seen'
      rw [List.range_succ, List.reverse_append, List.reverse_singleton, List.singleton_append,
        List.map_cons]
      exact ⟨c'', found.bind (varied.map _), seen''⟩
    · intro passed w left split c seen
      obtain ⟨below, rfl, rest⟩ := downwards_split split
      generalize length : left.length = n at *
      cases n with
      | zero =>
        rw [List.eq_nil_of_length_eq_zero length]
        have popped : Reads room { c with stack := v.stack } { v with pos := v.pos + nmin } :=
          ⟨seen.pos, rfl, seen.captures, seen.indexed, seen.closed, seen.counter, seen.room⟩
        obtain ⟨c', missed, seen'⟩ := fixed.next [] _ [] rfl _ popped
        refine ⟨c', ?_, seen'⟩
        show Settles (fun fuel => (matchNextVart pelx _ fuel c).bind _) _
        simp only [matchNextVart_zero _ seen, Option.bind_some]
        exact missed.bind (settles_of_eq fun _ => rfl)
      | succ n =>
        have within : nmin + n < reach text accepts v.pos := by
          rw [most] at below
          omega
        obtain ⟨c', found, seen'⟩ := matchNextVart_settles takes inside
          (nmax - nmin) within seen
        rw [rest, List.range_succ, List.reverse_append, List.reverse_singleton,
          List.singleton_append, List.map_cons]
        exact ⟨c', found.bind (settles_of_eq fun _ => rfl), seen'⟩
  · rw [if_neg enough] at fixed ⊢
    refine ⟨?_, fun passed w left split => absurd split (by simp)⟩
    intro c seen
    obtain ⟨c', missed, seen'⟩ := fixed.first c seen
    exact ⟨c', missed.bind (settles_of_eq fun _ => rfl), seen'⟩

end Greedy

end SysMonitor.Source.Deelx
