import Mathlib.Data.List.Forall2

/-!
# Searches that can be taken up again

A searcher has two calls. The first looks for a way on from a state; the other takes the search
up where it last succeeded. Either says whether it found a way, and a search that has run out of
ways is back where it began. Loops run on fuel. A state is seen through a view, so that what a
search leaves behind where nobody looks does not count.
-/

namespace SysMonitor.Library.ResumableSearch

variable {σ V α β : Type*}

/-- What a computation on fuel comes to, however much more fuel it gets. -/
def Settles (call : Nat → Option α) (value : α) : Prop :=
  ∃ enough, ∀ fuel, enough ≤ fuel → call fuel = some value

/-- The one comes to whatever the other comes to. -/
def Follows (call call' : Nat → Option α) : Prop :=
  ∀ value, Settles call' value → Settles call value

structure Searcher (σ : Type*) where
  first : Nat → σ → Option (Bool × σ)
  next : Nat → σ → Option (Bool × σ)

section Fuel

variable {call call' call'' : Nat → Option α} {value value' : α}

theorem settles_of_eq (always : ∀ fuel, call fuel = some value) : Settles call value :=
  ⟨0, fun fuel _ => always fuel⟩

/-- A step of a loop, and what the loop comes to behind it. -/
theorem Settles.bind {next : Nat → α → Option β} {b : β} (first : Settles call value)
    (rest : Settles (fun fuel => next fuel value) b) :
    Settles (fun fuel => (call fuel).bind (next fuel)) b := by
  obtain ⟨n, first⟩ := first
  obtain ⟨m, rest⟩ := rest
  refine ⟨n + m, fun fuel enough => ?_⟩
  show (call fuel).bind (next fuel) = some b
  rw [first fuel (by omega), Option.bind_some]
  exact rest fuel (by omega)

theorem Settles.map (f : α → β) (settled : Settles call value) :
    Settles (fun fuel => (call fuel).map f) (f value) := by
  obtain ⟨n, settled⟩ := settled
  exact ⟨n, fun fuel enough => congrArg (Option.map f) (settled fuel enough)⟩

theorem follows_of_succ (step : ∀ fuel, call (fuel + 1) = call' fuel) : Follows call call' := by
  intro value settled
  obtain ⟨n, settled⟩ := settled
  refine ⟨n + 1, fun fuel enough => ?_⟩
  obtain ⟨fuel, rfl⟩ : ∃ k, fuel = k + 1 := ⟨fuel - 1, by omega⟩
  rw [step]
  exact settled fuel (by omega)

theorem Follows.trans (one : Follows call call') (other : Follows call' call'') :
    Follows call call'' := fun value settled => one value (other value settled)

/-- Past a step of a loop that comes to a value. -/
theorem follows_bind {next : Nat → α → Option β} (first : Settles call value) :
    Follows (fun fuel => (call fuel).bind (next fuel)) (fun fuel => next fuel value) :=
  fun _ rest => first.bind rest

end Fuel

section Enumeration

variable (reads : σ → V → Prop)

/-- A call finds the first of the ways that are left, or goes back where there is none. -/
def Stands (base : V) (call : Nat → Option (Bool × σ)) : List V → Prop
  | [] => ∃ s, Settles call (false, s) ∧ reads s base
  | v :: _ => ∃ s, Settles call (true, s) ∧ reads s v

/-- Behind every way the search goes on with the ways after it. -/
def Continues (e : Searcher σ) (base : V) (ways : List V) : Prop :=
  ∀ passed v left, ways = passed ++ v :: left →
    ∀ s, reads s v → Stands reads base (fun fuel => e.next fuel s) left

/-- A searcher finds these ways one after the other and no others, and then it is back. -/
structure Enumerates (e : Searcher σ) (base : V) (ways : List V) : Prop where
  first : ∀ s, reads s base → Stands reads base (fun fuel => e.first fuel s) ways
  next : Continues reads e base ways

variable {reads}

theorem Stands.follow {base : V} {call call' : Nat → Option (Bool × σ)} {ways : List V}
    (follows : Follows call call') (stands : Stands reads base call' ways) :
    Stands reads base call ways := by
  cases ways with
  | nil =>
    obtain ⟨s, settled, seen⟩ := stands
    exact ⟨s, follows _ settled, seen⟩
  | cons v left =>
    obtain ⟨s, settled, seen⟩ := stands
    exact ⟨s, follows _ settled, seen⟩

/-- A searcher with one way at most. -/
theorem enumerates_single {e : Searcher σ} {base : V} {ways : List V} (short : ways.length ≤ 1)
    (first : ∀ s, reads s base → Stands reads base (fun fuel => e.first fuel s) ways)
    (next : ∀ v ∈ ways, ∀ s, reads s v → Stands reads base (fun fuel => e.next fuel s) []) :
    Enumerates reads e base ways := by
  refine ⟨first, ?_⟩
  intro passed v left split s seen
  have none_left : left = [] := by
    rw [split, List.length_append, List.length_cons] at short
    exact List.eq_nil_of_length_eq_zero (by omega)
  subst none_left
  exact next v (by rw [split]; simp) s seen

/-- All the states that a searcher stands in with a way, and the state it ends in. -/
def Searcher.drain (e : Searcher σ) : Nat → Option (Bool × σ) → Option (List σ × σ)
  | 0, _ => none
  | _ + 1, none => none
  | _ + 1, some (false, s) => some ([], s)
  | fuel + 1, some (true, s) =>
    (drain e fuel (e.next fuel s)).map fun (found, last) => (s :: found, last)

theorem Stands.drain {e : Searcher σ} {base : V} {call : Nat → Option (Bool × σ)}
    {ways all : List V} (passed : List V) (next : Continues reads e base all) (split : all = passed ++ ways)
    (stands : Stands reads base call ways) :
    ∃ found last, Settles (fun fuel => e.drain fuel (call fuel)) (found, last) ∧
      List.Forall₂ reads found ways ∧ reads last base := by
  induction ways generalizing call passed with
  | nil =>
    obtain ⟨s, ⟨n, settled⟩, seen⟩ := stands
    refine ⟨[], s, ⟨n + 1, fun fuel enough => ?_⟩, .nil, seen⟩
    obtain ⟨fuel, rfl⟩ : ∃ k, fuel = k + 1 := ⟨fuel - 1, by omega⟩
    show e.drain (fuel + 1) (call (fuel + 1)) = _
    rw [settled _ (by omega), Searcher.drain]
  | cons v left ih =>
    obtain ⟨s, ⟨n, settled⟩, seen⟩ := stands
    obtain ⟨found, last, ⟨m, drained⟩, each, back⟩ :=
      ih (passed ++ [v]) (by rw [split]; simp) (next passed v left split s seen)
    refine ⟨s :: found, last, ⟨n + m + 1, fun fuel enough => ?_⟩, .cons seen each, back⟩
    obtain ⟨fuel, rfl⟩ : ∃ k, fuel = k + 1 := ⟨fuel - 1, by omega⟩
    show e.drain (fuel + 1) (call (fuel + 1)) = _
    have rest : e.drain fuel (e.next fuel s) = some (found, last) := drained fuel (by omega)
    rw [settled _ (by omega), Searcher.drain, rest]
    rfl

/-- A searcher that is asked again and again stands in every way once, in their order, and it is
back in the end. -/
theorem Enumerates.drain {e : Searcher σ} {base : V} {ways : List V} {s : σ}
    (enumerates : Enumerates reads e base ways) (seen : reads s base) :
    ∃ found last, Settles (fun fuel => e.drain fuel (e.first fuel s)) (found, last) ∧
      List.Forall₂ reads found ways ∧ reads last base :=
  (enumerates.first s seen).drain [] enumerates.next rfl

end Enumeration

section Sequence

/-- The searchers that stand before a place, the nearest first, are asked to go on until one of
them does. -/
def stepBack (fuel : Nat) : List (Searcher σ) → List (Searcher σ) → σ →
    Option (Option (List (Searcher σ) × List (Searcher σ)) × σ)
  | [], _, s => some (none, s)
  | e :: before, rest, s =>
    (e.next fuel s).bind fun (found, s) =>
      if found then some (some (e :: before, rest), s) else stepBack fuel before (e :: rest) s

/-- From a place on every searcher in turn looks for a way, with a step back where it has none. -/
def runOn : Nat → List (Searcher σ) → List (Searcher σ) → σ → Option (Bool × σ)
  | 0, _, _, _ => none
  | _ + 1, _, [], s => some (true, s)
  | fuel + 1, before, e :: rest, s =>
    (e.first fuel s).bind fun (found, s) =>
      if found then runOn fuel (e :: before) rest s
      else (stepBack fuel before (e :: rest) s).bind fun
        | (none, s) => some (false, s)
        | (some (before, rest), s) => runOn fuel before rest s

/-- A step back, and on from there. -/
def resume (fuel : Nat) (before rest : List (Searcher σ)) (s : σ) : Option (Bool × σ) :=
  (stepBack fuel before rest s).bind fun
    | (none, s) => some (false, s)
    | (some (before, rest), s) => runOn fuel before rest s

/-- Searchers one after the other. -/
def Searcher.sequence (es : List (Searcher σ)) : Searcher σ where
  first fuel := runOn fuel [] es
  next fuel := resume fuel es.reverse []

variable {e : Searcher σ} {before rest : List (Searcher σ)} {s s' : σ}

theorem runOn_nil : Settles (fun fuel => runOn fuel before [] s) (true, s) := by
  have step : Follows (fun fuel => runOn fuel before [] s) fun _ => some (true, s) :=
    follows_of_succ fun _ => rfl
  exact step _ (settles_of_eq fun _ => rfl)

theorem runOn_found (found : Settles (fun fuel => e.first fuel s) (true, s')) :
    Follows (fun fuel => runOn fuel before (e :: rest) s)
      (fun fuel => runOn fuel (e :: before) rest s') :=
  (follows_of_succ fun _ => rfl).trans (follows_bind found)

theorem runOn_missed (missed : Settles (fun fuel => e.first fuel s) (false, s')) :
    Follows (fun fuel => runOn fuel before (e :: rest) s)
      (fun fuel => resume fuel before (e :: rest) s') :=
  (follows_of_succ fun _ => rfl).trans (follows_bind missed)

theorem resume_nil : Settles (fun fuel => resume fuel [] rest s) (false, s) :=
  settles_of_eq fun _ => rfl

theorem resume_cons (fuel : Nat) : resume fuel (e :: before) rest s
    = (e.next fuel s).bind fun (found, s) =>
        if found then runOn fuel (e :: before) rest s else resume fuel before (e :: rest) s := by
  rw [resume, stepBack, Option.bind_assoc]
  congr 1
  funext (found, s)
  cases found <;> rfl

theorem resume_found (found : Settles (fun fuel => e.next fuel s) (true, s')) :
    Follows (fun fuel => resume fuel (e :: before) rest s)
      (fun fuel => runOn fuel (e :: before) rest s') := by
  simp only [resume_cons]
  exact follows_bind found

theorem resume_missed (missed : Settles (fun fuel => e.next fuel s) (false, s')) :
    Follows (fun fuel => resume fuel (e :: before) rest s)
      (fun fuel => resume fuel before (e :: rest) s') := by
  simp only [resume_cons]
  exact follows_bind missed

variable {reads : σ → V → Prop} {base : V} {es : List (Searcher σ)}

/-- What searchers in a sequence find: behind every way of the first, what the others find from
there. -/
inductive Completes (reads : σ → V → Prop) : List (Searcher σ) → V → List V → Prop where
  | nil (v : V) : Completes reads [] v [v]
  | cons {e : Searcher σ} {es : List (Searcher σ)} {v : V} {ways : List V} (further : V → List V)
      (here : Enumerates reads e v ways)
      (behind : ∀ w ∈ ways, Completes reads es w (further w)) :
      Completes reads (e :: es) v (ways.flatMap further)

/-- A run over a part of a sequence finds the first of the ways that are left, or it steps back
to what stands before the part. -/
def Passes (reads : σ → V → Prop) (before es : List (Searcher σ)) (base : V)
    (call : Nat → Option (Bool × σ)) : List V → Prop
  | [] => ∃ s, reads s base ∧ Follows call (fun fuel => resume fuel before es s)
  | v :: _ => ∃ s, Settles call (true, s) ∧ reads s v

theorem Passes.follow {call call' : Nat → Option (Bool × σ)} {ways : List V}
    (follows : Follows call call') (passes : Passes reads before es base call' ways) :
    Passes reads before es base call ways := by
  cases ways with
  | nil =>
    obtain ⟨s, seen, back⟩ := passes
    exact ⟨s, seen, follows.trans back⟩
  | cons v left =>
    obtain ⟨s, settled, seen⟩ := passes
    exact ⟨s, follows _ settled, seen⟩

section Level

variable {ways : List V} {further : V → List V}
  (here : Enumerates reads e base ways)
  (runs : ∀ w ∈ ways, ∀ s, reads s w →
    Passes reads (e :: before) es w (fun fuel => runOn fuel (e :: before) es s) (further w))

include here runs

/-- A searcher is asked to go on, and from each of its ways that are left the others are run. -/
theorem passes_level (passed : List V) {left : List V} {w : V} (split : ways = passed ++ w :: left)
    (seen : reads s w) :
    Passes reads before (e :: es) base (fun fuel => resume fuel (e :: before) es s)
      (left.flatMap further) := by
  induction left generalizing passed w s with
  | nil =>
    obtain ⟨s', missed, seen'⟩ := here.next passed w [] split s seen
    exact ⟨s', seen', resume_missed missed⟩
  | cons u left ih =>
    obtain ⟨s', found, seen'⟩ := here.next passed w (u :: left) split s seen
    have inside : u ∈ ways := by rw [split]; simp
    have split' : ways = passed ++ [w] ++ u :: left := by rw [split]; simp
    have run := runs u inside s' seen'
    refine Passes.follow (resume_found found) ?_
    rw [List.flatMap_cons]
    cases reached : further u with
    | cons v others =>
      rw [reached] at run
      exact run
    | nil =>
      rw [reached] at run
      obtain ⟨s'', seen'', back⟩ := run
      exact Passes.follow back (ih (passed ++ [w]) split' seen'')

theorem passes_first (seen : reads s base) :
    Passes reads before (e :: es) base (fun fuel => runOn fuel before (e :: es) s)
      (ways.flatMap further) := by
  have stands := here.first s seen
  cases split : ways with
  | nil =>
    rw [split] at stands
    obtain ⟨s', missed, seen'⟩ := stands
    exact ⟨s', seen', runOn_missed missed⟩
  | cons w left =>
    rw [split] at stands
    obtain ⟨s', found, seen'⟩ := stands
    have run := runs w (by rw [split]; simp) s' seen'
    refine Passes.follow (runOn_found found) ?_
    rw [List.flatMap_cons]
    cases reached : further w with
    | cons v others =>
      rw [reached] at run
      exact run
    | nil =>
      rw [reached] at run
      obtain ⟨s'', seen'', back⟩ := run
      exact Passes.follow back (passes_level here runs [] split seen'')

end Level

theorem passes_run {ways : List V} (completes : Completes reads es base ways)
    (seen : reads s base) :
    Passes reads before es base (fun fuel => runOn fuel before es s) ways := by
  induction completes generalizing before s with
  | nil v => exact ⟨s, runOn_nil, seen⟩
  | cons further here behind ih =>
    exact passes_first here (fun w inside s seen => ih w inside seen) seen

/-- Where a member of a joined list comes from, and what stands behind it. -/
theorem flatMap_split {f : α → List β} {l : List α} {passed left : List β} {w : β}
    (split : l.flatMap f = passed ++ w :: left) :
    ∃ earlier u later passed' left', l = earlier ++ u :: later ∧ f u = passed' ++ w :: left' ∧
      left = left' ++ later.flatMap f := by
  induction l generalizing passed with
  | nil => simp at split
  | cons x l ih =>
    have further : ∀ passed, l.flatMap f = passed ++ w :: left →
        ∃ earlier u later passed' left', x :: l = earlier ++ u :: later ∧
          f u = passed' ++ w :: left' ∧ left = left' ++ later.flatMap f := by
      intro passed split
      obtain ⟨earlier, u, later, passed', left', rfl, reached, rest⟩ := ih split
      exact ⟨x :: earlier, u, later, passed', left', rfl, reached, rest⟩
    rw [List.flatMap_cons, List.append_eq_append_iff] at split
    rcases split with ⟨behind, rfl, split⟩ | ⟨behind, reached, split⟩
    · exact further behind split
    · cases behind with
      | nil => exact further [] split.symm
      | cons w' behind =>
        obtain ⟨rfl, rest⟩ := List.cons_eq_cons.mp split
        exact ⟨[], x, l, passed, behind, rfl, reached, rest⟩

/-- From a way of the whole sequence on. -/
theorem passes_resume (before : List (Searcher σ)) {ways passed left : List V} {w : V}
    (completes : Completes reads es base ways)
    (split : ways = passed ++ w :: left) (seen : reads s w) :
    Passes reads before es base (fun fuel => resume fuel (es.reverse ++ before) [] s) left := by
  induction completes generalizing before s passed left with
  | nil v =>
    obtain ⟨rfl, rfl, rfl⟩ : passed = [] ∧ w = v ∧ left = [] := by
      cases passed <;> simp_all
    exact ⟨s, seen, fun _ settled => settled⟩
  | @cons e es v ways further here behind ih =>
    obtain ⟨earlier, u, later, passed', left', rfl, reached, rfl⟩ := flatMap_split split
    have resumed := ih u (by simp) (e :: before) reached seen
    rw [List.reverse_cons, List.append_assoc]
    cases left' with
    | cons w' others => exact resumed
    | nil =>
      obtain ⟨s', seen', back⟩ := resumed
      refine Passes.follow back ?_
      exact passes_level here (fun w inside s seen => passes_run (behind w inside) seen) _ rfl seen'

/-- A sequence finds what its searchers find in turn. -/
theorem Completes.enumerates {ways : List V} (completes : Completes reads es base ways) :
    Enumerates reads (Searcher.sequence es) base ways := by
  have stands : ∀ call, ∀ ways, Passes reads [] es base call ways → Stands reads base call ways := by
    intro call ways passes
    cases ways with
    | cons v left => exact passes
    | nil =>
      obtain ⟨s, seen, back⟩ := passes
      exact ⟨s, back _ resume_nil, seen⟩
  refine ⟨fun s seen => stands _ _ (passes_run completes seen), ?_⟩
  intro passed v left split s seen
  have resumed := passes_resume [] completes split seen
  rw [List.append_nil] at resumed
  exact stands _ _ resumed

end Sequence

section Alternatives

variable (push : Nat → σ → σ) (pop : σ → Option (Nat × σ))

/-- The searchers from a number on, until one finds a way. Its number is kept in the state. -/
def tryFrom (fuel : Nat) : Nat → List (Searcher σ) → σ → Option (Bool × σ)
  | _, [], s => some (false, s)
  | n, e :: rest, s =>
    (e.first fuel s).bind fun (found, s) =>
      if found then some (true, push n s) else tryFrom fuel (n + 1) rest s

/-- Searchers one instead of the other. -/
def Searcher.alternatives (es : List (Searcher σ)) : Searcher σ where
  first fuel := tryFrom push fuel 0 es
  next fuel s :=
    (pop s).bind fun (n, s) =>
      (es[n]?).bind fun e =>
        (e.next fuel s).bind fun (found, s) =>
          if found then some (true, push n s) else tryFrom push fuel (n + 1) (es.drop (n + 1)) s

variable (mark : Nat → V → V)

/-- The ways of searchers that are numbered from `n` on, each with the number it was found by. -/
def marked (n : Nat) (ways : List (List V)) : List V :=
  (ways.zipIdx n).flatMap fun (ways, k) => ways.map (mark k)

theorem map_marked {f : V → β} (unseen : ∀ n v, f (mark n v) = f v) (n : Nat)
    (ways : List (List V)) : (marked mark n ways).map f = ways.flatMap (List.map f) := by
  induction ways generalizing n with
  | nil => rfl
  | cons own ways ih =>
    rw [marked, List.zipIdx_cons, List.flatMap_cons, List.map_append, List.map_map,
      List.flatMap_cons]
    congr 1
    · exact List.map_congr_left fun v _ => unseen n v
    · exact ih (n + 1)

variable {push pop mark} {reads : σ → V → Prop} {base : V} {es : List (Searcher σ)}
  {ways : List (List V)}
  (kept : ∀ n s v, reads s v → reads (push n s) (mark n v))
  (each : List.Forall₂ (Enumerates reads · base ·) es ways)

include kept each

theorem tryFrom_stands (n : Nat) {s : σ} (seen : reads s base) :
    Stands reads base (fun fuel => tryFrom push fuel n es s) (marked mark n ways) := by
  induction each generalizing n s with
  | nil => exact ⟨s, settles_of_eq fun _ => rfl, seen⟩
  | @cons e own es ways here rest ih =>
    have stands := here.first s seen
    rw [marked, List.zipIdx_cons, List.flatMap_cons]
    cases own with
    | nil =>
      obtain ⟨s', missed, seen'⟩ := stands
      exact Stands.follow (follows_bind missed) (ih (n + 1) seen')
    | cons v left =>
      obtain ⟨s', found, seen'⟩ := stands
      refine ⟨push n s', follows_bind found _ (settles_of_eq fun _ => rfl), kept n s' v seen'⟩

/-- Alternatives find what the first finds, then what the second finds, and so on. -/
theorem alternatives_enumerates
    (recalled : ∀ n s v, reads s (mark n v) → ∃ s', pop s = some (n, s') ∧ reads s' v) :
    Enumerates reads (Searcher.alternatives push pop es) base (marked mark 0 ways) := by
  refine ⟨fun s seen => tryFrom_stands kept each 0 seen, ?_⟩
  intro passed v left split s seen
  obtain ⟨earlier, ⟨own, k⟩, later, passed', left', numbered, reached, rfl⟩ := flatMap_split split
  obtain ⟨tried, others, rfl, -, numbered⟩ := List.zipIdx_eq_append_iff.mp numbered
  obtain ⟨own', rest, rfl, same, rfl⟩ := List.zipIdx_eq_cons_iff.mp numbered.symm
  obtain ⟨rfl, rfl⟩ := Prod.mk.inj same
  simp only [Nat.zero_add] at reached seen ⊢
  obtain ⟨e, remaining, here, others, dropped⟩ :=
    List.forall₂_cons_right_iff.mp (List.forall₂_drop_append _ _ _ each)
  have stands : es[tried.length]? = some e := by
    rw [← List.head?_drop, dropped, List.head?_cons]
  have behind : es.drop (tried.length + 1) = remaining := by
    rw [← List.tail_drop, dropped, List.tail_cons]
  obtain ⟨passed'', found, rfl, -, shown⟩ := List.map_eq_append_iff.mp reached
  obtain ⟨u, left'', rfl, rfl, rfl⟩ := List.map_eq_cons_iff.mp shown
  obtain ⟨s', popped, seen'⟩ := recalled _ s u seen
  have again := here.next passed'' u left'' rfl s' seen'
  have call : ∀ fuel, (Searcher.alternatives push pop es).next fuel s
      = (e.next fuel s').bind fun (found, s) =>
          if found then some (true, push tried.length s)
          else tryFrom push fuel (tried.length + 1) remaining s := by
    intro fuel
    rw [← behind]
    simp only [Searcher.alternatives, popped, stands, Option.bind_some]
  simp only [call]
  cases left'' with
  | nil =>
    obtain ⟨s'', missed, seen''⟩ := again
    exact Stands.follow (follows_bind missed) (tryFrom_stands kept others _ seen'')
  | cons v left =>
    obtain ⟨s'', found, seen''⟩ := again
    exact ⟨push _ s'', follows_bind found _ (settles_of_eq fun _ => rfl), kept _ s'' v seen''⟩

end Alternatives

end SysMonitor.Library.ResumableSearch
