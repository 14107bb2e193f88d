import SysMonitor.Guarantees.RegexMatching
import SysMonitor.Source.DeelxTokens

/-!
# The regular expression engine builds the patterns that are written down

`CBuilderT::Build` of native/jni/deelx.h reads the text of a pattern back into its elements.
-/

namespace SysMonitor.Guarantees.RegexBuilding
open SysMonitor.Library SysMonitor.Library.Backtracking SysMonitor.Library.ResumableSearch
open SysMonitor.Library.TerminatedStrings (text_terminated)
open SysMonitor.Guarantees.RegexMatching SysMonitor.Source SysMonitor.Source.Deelx

variable {α β : Type}

/-- A call takes tokens away, counts their groups and comes to a value. -/
def Builds (call : Nat → Builder → Option (α × Builder)) (toks rest : List CharInfo) (n m : Nat)
    (value : α) : Prop :=
  ∀ b, Sees b toks n → ∃ b', Settles (fun fuel => call fuel b) (value, b') ∧ Sees b' rest m

section Calls

variable {call call' : Nat → Builder → Option (α × Builder)} {toks middle rest : List CharInfo}
  {n k m : Nat} {value : α} {f : α → β}

/-- A step that only makes another call. -/
theorem Builds.step (builds : Builds call' toks rest n m value)
    (goes : ∀ b, Sees b toks n → ∀ fuel, call (fuel + 1) b = call' fuel b) :
    Builds call toks rest n m value := by
  intro b sees
  obtain ⟨b', settled, sees'⟩ := builds b sees
  exact ⟨b', follows_of_succ (goes b sees) _ settled, sees'⟩

theorem Builds.congr (builds : Builds call' toks rest n m value)
    (same : ∀ b, Sees b toks n → ∀ fuel, call fuel b = call' fuel b) :
    Builds call toks rest n m value := by
  intro b sees
  obtain ⟨b', settled, sees'⟩ := builds b sees
  have reached : (fun fuel => call fuel b) = fun fuel => call' fuel b := funext (same b sees)
  exact ⟨b', reached ▸ settled, sees'⟩

/-- A call, and another with what it came to. -/
theorem Builds.bind {value' : β} (builds : Builds call toks middle n k value)
    (next : Nat → α → Builder → Option (β × Builder))
    (later : Builds (fun fuel => next fuel value) middle rest k m value') :
    Builds (fun fuel b => (call fuel b).bind fun found => next fuel found.1 found.2) toks rest n m
      value' := by
  intro b sees
  obtain ⟨b', settled, sees'⟩ := builds b sees
  obtain ⟨b'', settled', sees''⟩ := later b' sees'
  exact ⟨b'', settled.bind settled', sees''⟩

theorem Builds.map (f : α → β) (builds : Builds call toks rest n m value) :
    Builds (fun fuel b => (call fuel b).map fun found => (f found.1, found.2)) toks rest n m
      (f value) := by
  intro b sees
  obtain ⟨b', settled, sees'⟩ := builds b sees
  exact ⟨b', settled.map _, sees'⟩

/-- A call behind a token. -/
theorem Builds.moveNext (toks : List CharInfo) {next : Nat → Builder → Option (α × Builder)}
    (builds : Builds next (toks.drop 1) rest n m value) :
    Builds (fun fuel b => b.moveNext.bind (next fuel)) toks rest n m value := by
  intro b sees
  obtain ⟨moved, here, sees'⟩ := moveNext_sees sees
  obtain ⟨b', settled, sees''⟩ := builds moved sees'
  exact ⟨b', by simpa only [here, Option.bind_some] using settled, sees''⟩

theorem builds_now (value : α) : Builds (fun _ b => some (value, b)) toks toks n n value :=
  fun b sees => ⟨b, settles_of_eq fun _ => rfl, sees⟩

theorem builds_take (toks : List CharInfo) (value : α) :
    Builds (fun _ b => b.moveNext.map fun b => (value, b)) toks (toks.drop 1) n n value := by
  intro b sees
  obtain ⟨moved, here, sees'⟩ := moveNext_sees sees
  exact ⟨moved, settles_of_eq fun _ => congrArg _ here, sees'⟩

end Calls

section Simple

/-- Where a string of ordinary characters ends: a token with a meaning of its own follows, or one
that a quantifier is about. -/
structure Stops (rest : List CharInfo) : Prop where
  unquantified : ahead rest ∉ quantifiers
  apart : (ahead rest).type ≠ 0 ∨ ahead (rest.drop 1) ∈ quantifiers

variable {rest : List CharInfo} {n : Nat}

theorem builds_stop (stops : Stops rest) {fixed : List Byte} (some_there : fixed ≠ []) :
    Builds (fun fuel => buildSimple fuel fixed) rest rest n n (.string fixed) := by
  refine (builds_now (Elx.string fixed)).step fun b sees fuel => ?_
  have here := sees.curr
  have behind := sees.next
  have whole : stringOf fixed = Elx.string fixed := if_neg some_there
  rw [buildSimple, whole]
  split
  · rfl
  · split
    next ordinary =>
      have quantified := stops.apart.resolve_left fun other => other (by rw [← here]; exact ordinary)
      rw [← behind] at quantified
      rw [if_pos quantified]
    next => rw [if_pos (Or.inr (Or.inr some_there))]

/-- One more character of a string. -/
theorem builds_char {toks : List CharInfo} {ch : Byte} {fixed : List Byte} {value : Elx}
    (unquantified : ahead toks ∉ quantifiers)
    (later : Builds (fun fuel => buildSimple fuel (fixed ++ [ch])) toks rest n n value) :
    Builds (fun fuel => buildSimple fuel fixed) (⟨ch, 0⟩ :: toks) rest n n value := by
  refine Builds.step (later.moveNext (⟨ch, 0⟩ :: toks)) fun b sees fuel => ?_
  have here : b.curr = ⟨ch, 0⟩ := sees.curr
  have going : b.curr ≠ patternEnd := by simp [here, patternEnd]
  have behind : b.next ∉ quantifiers := by
    rw [sees.next]
    exact unquantified
  rw [buildSimple, if_neg going, here, if_pos rfl, if_neg behind]

/-- The characters up to where a string ends. -/
theorem builds_chars (stops : Stops rest) (ch : Byte) (more fixed : List Byte) :
    Builds (fun fuel => buildSimple fuel fixed) ((ch :: more).map (⟨·, 0⟩) ++ rest) rest n n
      (.string (fixed ++ ch :: more)) := by
  induction more generalizing ch fixed with
  | nil => exact builds_char stops.unquantified (builds_stop stops (by simp))
  | cons second more ih =>
    have later := ih second (fixed ++ [ch])
    rw [List.append_assoc, List.singleton_append] at later
    exact builds_char (ordinary_unquantified second) later

/-- A character that a quantifier is about. -/
theorem builds_quantified_char (ch : Byte) {q : CharInfo} (quantifier : q ∈ quantifiers) :
    Builds (fun fuel => buildSimple fuel []) (⟨ch, 0⟩ :: q :: rest) (q :: rest) n n
      (.string [ch]) := by
  refine Builds.step (builds_take (⟨ch, 0⟩ :: q :: rest) (Elx.string [ch]))
    fun b sees fuel => ?_
  have here : b.curr = ⟨ch, 0⟩ := sees.curr
  have going : b.curr ≠ patternEnd := by simp [here, patternEnd]
  have behind : b.next ∈ quantifiers := by
    rw [sees.next]
    exact quantifier
  rw [buildSimple, if_neg going, here, if_pos rfl, if_pos behind, if_pos rfl]

theorem builds_class (k : CharClass) :
    Builds (fun fuel => buildSimple fuel []) (k.token :: rest) rest n n k.elx := by
  refine Builds.step (builds_take (k.token :: rest) k.elx) fun b sees fuel => ?_
  have here : b.curr = k.token := sees.curr
  rw [buildSimple, here]
  cases k <;> rfl

theorem builds_anchor (a : Anchor) :
    Builds (fun fuel => buildSimple fuel []) (a.token :: rest) rest n n
      (.boundary a.ntype a.byes) := by
  refine Builds.step (builds_take (a.token :: rest) (Elx.boundary a.ntype a.byes))
    fun b sees fuel => ?_
  have here : b.curr = a.token := sees.curr
  rw [buildSimple, here]
  cases a <;> rfl

end Simple

section Repeat

variable {toks rest : List CharInfo} {n m : Nat} {e : Elx}

theorem builds_repeat {middle : List CharInfo} {value : Elx}
    (simple : Builds (fun fuel => buildSimple fuel []) toks middle n m e)
    (later : Builds (fun _ b => quantified e b) middle rest m m value) :
    Builds buildRepeat toks rest n m value :=
  Builds.step (simple.bind (fun _ => quantified) later) fun _ _ _ => rfl

theorem builds_once (simple : Builds (fun fuel => buildSimple fuel []) toks rest n m e)
    (unquantified : ahead rest ∉ quantifiers) : Builds buildRepeat toks rest n m e := by
  refine builds_repeat simple fun b sees => ⟨b, settles_of_eq fun _ => ?_, sees⟩
  rw [← sees.curr] at unquantified
  simp only [quantifiers, List.mem_cons, List.not_mem_nil, or_false, not_or] at unquantified
  simp [quantified, unquantified]

/-- A quantifier is greedy where no other follows. -/
theorem builds_greedy (q : Quantifier)
    (simple : Builds (fun fuel => buildSimple fuel []) toks (q.token :: rest) n m e)
    (unquantified : ahead rest ∉ quantifiers) :
    Builds buildRepeat toks rest n m (.greedy e q.nmin q.nmax) := by
  refine builds_repeat simple fun b sees => ?_
  have here : b.curr = q.token := sees.curr
  obtain ⟨moved, behind, sees'⟩ := moveNext_sees sees
  refine ⟨moved, settles_of_eq fun _ => ?_, sees'⟩
  have alone : ¬ (moved.curr = special '?' ∨ moved.curr = special '+') := by
    have ahead_there : moved.curr = ahead rest := sees'.curr
    rw [ahead_there]
    rintro (same | same) <;> exact unquantified (by rw [same]; decide)
  simp only [quantified, here, behind, Option.bind_some, if_neg alone]
  cases q <;> rfl

end Repeat

section Group

variable {toks rest : List CharInfo} {n m : Nat} {e : Elx}

/-- A group is counted before those inside it. -/
theorem builds_recursive (inner : Builds buildAlternative toks (special ')' :: rest) (n + 1) m e)
    (numbered : ahead toks ≠ special '?') :
    Builds buildRecursive (special '(' :: toks) rest n m
      (.list [.left (n + 1), e, .right (n + 1)]) := by
  have closed := inner.bind (fun _ inner b =>
    b.moveNext.map fun b => (Elx.list [.left (n + 1), inner, .right (n + 1)], b))
    (builds_take (special ')' :: rest) (Elx.list [.left (n + 1), e, .right (n + 1)]))
  intro b sees
  obtain ⟨moved, here, sees'⟩ := moveNext_sees sees
  have counted : moved.maxNumber = n := sees'.counted
  have going : moved.curr ≠ special '?' := by
    rw [sees'.curr]
    exact numbered
  obtain ⟨b', settled, sees''⟩ := closed { moved with maxNumber := n + 1 }
    { sees' with counted := rfl }
  refine ⟨b', follows_of_succ (fun fuel => ?_) _ settled, sees''⟩
  rw [buildRecursive, here, Option.bind_some, if_neg going, counted]

theorem builds_group (inner : Builds buildAlternative toks (special ')' :: rest) (n + 1) m e)
    (numbered : ahead toks ≠ special '?') :
    Builds (fun fuel => buildSimple fuel []) (special '(' :: toks) rest n m
      (.list [.left (n + 1), e, .right (n + 1)]) := by
  refine (builds_recursive inner numbered).step fun b sees fuel => ?_
  have here : b.curr = special '(' := sees.curr
  rw [buildSimple, here]
  rfl

end Group

section Lists

variable {toks middle rest : List CharInfo} {n k m : Nat} {e : Elx} {es : List Elx}

theorem builds_listFrom_nil (ends : listEnds (ahead rest)) : Builds listFrom rest rest n n [] := by
  refine (builds_now []).step fun b sees fuel => ?_
  rw [← sees.curr] at ends
  rw [listFrom, if_pos ends]

theorem builds_listFrom_cons (goes : ¬ listEnds (ahead toks))
    (item : Builds buildRepeat toks middle n k e) (later : Builds listFrom middle rest k m es) :
    Builds listFrom toks rest n m (e :: es) := by
  refine (item.bind (fun fuel pListOne b => (listFrom fuel b).map fun found =>
    (pListOne :: found.1, found.2)) (later.map (e :: ·))).step fun b sees fuel => ?_
  rw [← sees.curr] at goes
  rw [listFrom, if_neg goes]

/-- `BuildList`, which goes on where its first element does not end it. -/
theorem builds_list {value : Elx} (goes : ¬ listEnds (ahead toks))
    (item : Builds buildRepeat toks middle n k e)
    (later : Builds (fun fuel b =>
      if listEnds b.curr then some (e, b)
      else (listFrom fuel b).map fun found => (.list (e :: found.1), found.2)) middle rest k m
        value) :
    Builds buildList toks rest n m value := by
  refine (item.bind (fun fuel pListOne b =>
    if listEnds b.curr then some (pListOne, b)
    else (listFrom fuel b).map fun found => (.list (pListOne :: found.1), found.2)) later).step
      fun b sees fuel => ?_
  rw [← sees.curr] at goes
  rw [buildList, if_neg goes]

theorem builds_list_one (goes : ¬ listEnds (ahead toks)) (item : Builds buildRepeat toks rest n m e)
    (ends : listEnds (ahead rest)) : Builds buildList toks rest n m e := by
  refine builds_list goes item ((builds_now e).congr fun b sees fuel => if_pos ?_)
  rw [sees.curr]
  exact ends

theorem builds_list_more (goes : ¬ listEnds (ahead toks))
    (item : Builds buildRepeat toks middle n k e) (further : ¬ listEnds (ahead middle))
    (later : Builds listFrom middle rest k m es) :
    Builds buildList toks rest n m (.list (e :: es)) := by
  refine builds_list goes item ((later.map fun rest => Elx.list (e :: rest)).congr
    fun b sees fuel => if_neg ?_)
  rw [sees.curr]
  exact further

theorem builds_alternativesFrom_nil (other : ahead rest ≠ special '|') :
    Builds alternativesFrom rest rest n n [] := by
  refine (builds_now []).step fun b sees fuel => ?_
  rw [← sees.curr] at other
  rw [alternativesFrom, if_neg other]

theorem builds_alternativesFrom_cons (one : Builds buildList toks middle n k e)
    (later : Builds alternativesFrom middle rest k m es) :
    Builds alternativesFrom (special '|' :: toks) rest n m (e :: es) := by
  refine ((one.bind (fun fuel pAlternativeOne b => (alternativesFrom fuel b).map
    fun found => (pAlternativeOne :: found.1, found.2)) (later.map (e :: ·))).moveNext
      (special '|' :: toks)).step fun b sees fuel => ?_
  have here : b.curr = special '|' := sees.curr
  rw [alternativesFrom, if_pos here]

/-- `BuildAlternative`, which goes on behind its first list at a bar. -/
theorem builds_alternative {value : Elx} (goes : ¬ listEnds (ahead toks))
    (one : Builds buildList toks middle n k e)
    (later : Builds (fun fuel b =>
      if b.curr = special '|' then
        (alternativesFrom fuel b).map fun found => (.alternative (e :: found.1), found.2)
      else some (e, b)) middle rest k m value) :
    Builds buildAlternative toks rest n m value := by
  refine (one.bind (fun fuel pAlternativeOne b =>
    if b.curr = special '|' then
      (alternativesFrom fuel b).map fun found => (.alternative (pAlternativeOne :: found.1), found.2)
    else some (pAlternativeOne, b)) later).step fun b sees fuel => ?_
  have going : b.curr ≠ patternEnd := by
    rw [sees.curr]
    exact fun same => goes (by simp [listEnds, same])
  rw [buildAlternative, if_neg going]

theorem builds_alternative_one (goes : ¬ listEnds (ahead toks))
    (one : Builds buildList toks rest n m e) (other : ahead rest ≠ special '|') :
    Builds buildAlternative toks rest n m e := by
  refine builds_alternative goes one ((builds_now e).congr fun b sees fuel => if_neg ?_)
  rw [sees.curr]
  exact other

theorem builds_alternative_more (goes : ¬ listEnds (ahead toks))
    (one : Builds buildList toks (special '|' :: middle) n k e)
    (later : Builds alternativesFrom (special '|' :: middle) rest k m es) :
    Builds buildAlternative toks rest n m (.alternative (e :: es)) :=
  builds_alternative goes one ((later.map fun rest => Elx.alternative (e :: rest)).congr
    fun _ sees _ => if_pos sees.curr)

end Lists

section Items

/-- What follows an item leaves it alone. -/
structure Followed (i : Item) (rest : List CharInfo) : Prop where
  unquantified : ahead rest ∉ quantifiers
  apart : i.isWord → (ahead rest).type ≠ 0 ∨ ahead (rest.drop 1) ∈ quantifiers

theorem followed_of_ends (i : Item) {rest : List CharInfo} (ends : listEnds (ahead rest)) :
    Followed i rest :=
  ⟨(ends_unquantified ends).1, fun _ => Or.inl (ends_unquantified ends).2⟩

/-- The first item of a branch that follows a word is none. -/
theorem followed_of_branch {i : Item} {b : Branch} (rest : List CharInfo)
    (alone : !(i.isWord && b.startsWithWord)) : Followed i (b.tokens ++ rest) := by
  refine ⟨(b.opens rest).unquantified, fun word => ?_⟩
  have other : b.startsWithWord ≠ true := by
    intro follows
    simp [word, follows] at alone
  cases b with
  | last j => exact Item.apart other rest
  | cons j later =>
    rw [Branch.tokens, List.append_assoc]
    exact Item.apart other _

theorem closes {rest : List CharInfo} (closed : ahead rest = patternEnd ∨ ahead rest = special ')') :
    listEnds (ahead rest) ∧ ahead rest ≠ special '|' := by
  rcases closed with here | here <;> rw [here] <;> exact ⟨by decide, by decide⟩

theorem bar_ends (rest : List CharInfo) : listEnds (ahead (special '|' :: rest)) := by
  simp [listEnds, ahead]

mutual

/-- `BuildRepeat` on an item. -/
theorem builds_item (i : Item) (formed : i.wellFormed) {rest : List CharInfo}
    (followed : Followed i rest) (n : Nat) :
    Builds buildRepeat (i.tokens ++ rest) rest n (n + i.groups) (i.elx n) := by
  cases i with
  | word first more =>
    have stops : Stops rest := ⟨followed.unquantified, followed.apart rfl⟩
    exact builds_once (builds_chars stops first more []) followed.unquantified
  | one k => exact builds_once (builds_class k) followed.unquantified
  | repeatedChar ch q =>
    exact builds_greedy q (builds_quantified_char ch q.known) followed.unquantified
  | repeatedClass k q => exact builds_greedy q (builds_class k) followed.unquantified
  | anchor a => exact builds_once (builds_anchor a) followed.unquantified
  | group branches =>
    have inner := builds_branches branches formed (special ')' :: rest) (Or.inr rfl) (n + 1)
    have numbered := (branches.opens (special ')' :: rest)).unquestioned
    rw [Item.tokens, List.cons_append, List.append_assoc, Item.groups, ← Nat.add_assoc,
      Nat.add_right_comm]
    exact builds_once (builds_group inner numbered) followed.unquantified

/-- The loop of `BuildList` on a branch. -/
theorem builds_listFrom (b : Branch) (formed : b.wellFormed) {rest : List CharInfo}
    (ends : listEnds (ahead rest)) (n : Nat) :
    Builds listFrom (b.tokens ++ rest) rest n (n + b.groups) (b.elxs n) := by
  cases b with
  | last i =>
    exact builds_listFrom_cons (i.opens rest).goes
      (builds_item i formed (followed_of_ends i ends) n) (builds_listFrom_nil ends)
  | cons i later =>
    rw [Branch.wellFormed, Bool.and_eq_true, Bool.and_eq_true] at formed
    obtain ⟨⟨formed_item, formed_later⟩, alone⟩ := formed
    have item := builds_item i formed_item (followed_of_branch rest alone) n
    have behind := builds_listFrom later formed_later ends (n + i.groups)
    rw [Branch.tokens, List.append_assoc, Branch.groups, ← Nat.add_assoc]
    exact builds_listFrom_cons (i.opens _).goes item behind

/-- `BuildList` on a branch. -/
theorem builds_branch (b : Branch) (formed : b.wellFormed) (rest : List CharInfo)
    (ends : listEnds (ahead rest)) (n : Nat) :
    Builds buildList (b.tokens ++ rest) rest n (n + b.groups) (listOf (b.elxs n)) := by
  cases b with
  | last i =>
    exact builds_list_one (i.opens rest).goes (builds_item i formed (followed_of_ends i ends) n) ends
  | cons i later =>
    rw [Branch.wellFormed, Bool.and_eq_true, Bool.and_eq_true] at formed
    obtain ⟨⟨formed_item, formed_later⟩, alone⟩ := formed
    have item := builds_item i formed_item (followed_of_branch rest alone) n
    have behind := builds_listFrom later formed_later ends (n + i.groups)
    have more := builds_list_more (i.opens _).goes item (later.opens rest).goes behind
    obtain ⟨e, es, shape⟩ := later.elxs_eq_cons (n + i.groups)
    rw [shape] at more
    rw [Branch.tokens, List.append_assoc, Branch.groups, ← Nat.add_assoc, Branch.elxs, shape]
    exact more

/-- The loop of `BuildAlternative` on branches. -/
theorem builds_alternativesFrom (branches : Branches) (formed : branches.wellFormed)
    {rest : List CharInfo} (closed : ahead rest = patternEnd ∨ ahead rest = special ')') (n : Nat) :
    Builds alternativesFrom (special '|' :: (branches.tokens ++ rest)) rest n (n + branches.groups)
      (branches.elxs n) := by
  obtain ⟨ends, other⟩ := closes closed
  cases branches with
  | last b =>
    exact builds_alternativesFrom_cons (builds_branch b formed rest ends n)
      (builds_alternativesFrom_nil other)
  | cons b later =>
    rw [Branches.wellFormed, Bool.and_eq_true] at formed
    obtain ⟨formed_branch, formed_later⟩ := formed
    have one := builds_branch b formed_branch
      (special '|' :: (later.tokens ++ rest)) (bar_ends _) n
    have behind := builds_alternativesFrom later formed_later closed (n + b.groups)
    rw [Branches.tokens, List.append_assoc, Branches.groups, ← Nat.add_assoc]
    exact builds_alternativesFrom_cons one behind

/-- `BuildAlternative` on branches. -/
theorem builds_branches (branches : Branches) (formed : branches.wellFormed) (rest : List CharInfo)
    (closed : ahead rest = patternEnd ∨ ahead rest = special ')') (n : Nat) :
    Builds buildAlternative (branches.tokens ++ rest) rest n (n + branches.groups)
      (alternativeOf (branches.elxs n)) := by
  obtain ⟨ends, other⟩ := closes closed
  cases branches with
  | last b =>
    exact builds_alternative_one (b.opens rest).goes (builds_branch b formed rest ends n) other
  | cons b later =>
    rw [Branches.wellFormed, Bool.and_eq_true] at formed
    obtain ⟨formed_branch, formed_later⟩ := formed
    have one := builds_branch b formed_branch
      (special '|' :: (later.tokens ++ rest)) (bar_ends _) n
    have behind := builds_alternativesFrom later formed_later closed (n + b.groups)
    have more := builds_alternative_more (b.opens _).goes one behind
    obtain ⟨e, es, shape⟩ := later.elxs_eq_cons (n + b.groups)
    rw [shape] at more
    rw [Branches.tokens, List.append_assoc, Branches.groups, ← Nat.add_assoc, Branches.elxs, shape]
    exact more

end

end Items

section Build

/-- Moving on reads the next token, and the others come closer. -/
theorem moveNext_reads {b : Builder} {toks : List CharInfo} (flat : b.charsetDepth = 0)
    (text : b.pattern.drop b.nextPos = toks.flatMap spell) (readable : Readable toks) :
    ∃ b', b.moveNext = some b' ∧ b'.charsetDepth = 0 ∧ b'.curr = b.next ∧ b'.next = b.nex2 ∧
      b'.nex2 = ahead toks ∧ b'.maxNumber = b.maxNumber ∧
      b'.pattern.drop b'.nextPos = (toks.drop 1).flatMap spell := by
  obtain ⟨nextPos, moved, behind⟩ := getNext2_sees
    (b := { b with curr := b.next, next := b.nex2 }) flat text readable
  exact ⟨_, moved, flat, rfl, rfl, rfl, rfl, behind⟩

/-- Three tokens are ahead when the building begins. -/
theorem build_starts {toks : List CharInfo} (readable : Readable toks) (start : Builder)
    (flat : start.charsetDepth = 0)
    (text : start.pattern.drop start.nextPos = toks.flatMap spell) :
    ∃ b₁ b₂ b₃, start.moveNext = some b₁ ∧ b₁.moveNext = some b₂ ∧ b₂.moveNext = some b₃ ∧
      Sees b₃ toks start.maxNumber := by
  obtain ⟨b₁, moved₁, flat₁, -, -, nex2₁, number₁, text₁⟩ := moveNext_reads flat text readable
  obtain ⟨b₂, moved₂, flat₂, -, next₂, nex2₂, number₂, text₂⟩ :=
    moveNext_reads flat₁ text₁ (readable.tail 1)
  rw [List.drop_drop] at text₂
  obtain ⟨b₃, moved₃, flat₃, curr₃, next₃, nex2₃, number₃, text₃⟩ :=
    moveNext_reads flat₂ text₂ (readable.tail 2)
  rw [List.drop_drop] at text₃
  refine ⟨b₁, b₂, b₃, moved₁, moved₂, moved₃, flat₃, ?_, ?_, nex2₃, text₃, readable, ?_⟩
  · rw [curr₃, next₂, nex2₁]
  · rw [next₃, nex2₂]
  · rw [number₃, number₂, number₁]

/-- The text of a pattern is built into the element of the pattern, and its groups are counted. -/
theorem build_text (branches : Branches) (formed : branches.wellFormed) :
    Settles (build branches.text) (branches.elx, branches.groups) := by
  have readable : Readable branches.tokens := by
    have none_left : Readable [] := ⟨by simp, .nil⟩
    have whole := branches.readable none_left
    rwa [List.append_nil] at whole
  obtain ⟨b₁, b₂, b, moved₁, moved₂, moved, sees⟩ := build_starts readable
    ⟨branches.text, 0, 0, ⟨0, 0⟩, ⟨0, 0⟩, ⟨0, 0⟩, 0⟩ rfl rfl
  have built := builds_branches branches formed [] (Or.inl rfl) 0
  rw [List.append_nil, Nat.zero_add] at built
  obtain ⟨b', settled, ended⟩ := built b sees
  obtain ⟨enough, settled⟩ := settled
  refine ⟨enough, fun fuel reached => ?_⟩
  have whole : buildAlternative fuel b = some (alternativeOf (branches.elxs 0), b') :=
    settled fuel reached
  rw [build, moved₁, Option.bind_some, moved₂, Option.bind_some, moved, Option.bind_some, whole,
    Option.map_some]
  show some (branches.elx, b'.maxNumber) = _
  rw [ended.counted]

theorem spell_nulFree {t : CharInfo} (nonzero : t.ch ≠ 0) : 0 ∉ spell t := by
  rw [spell]
  split_ifs <;> simpa using Ne.symm nonzero

mutual

theorem item_nulFree (i : Item) (formed : i.wellFormed) : ∀ t ∈ i.tokens, t.ch ≠ 0 := by
  cases i with
  | word first more =>
    intro t inside
    obtain ⟨ch, member, rfl⟩ := List.mem_map.mp inside
    exact of_decide_eq_true (List.all_eq_true.mp formed ch member)
  | one k => cases k <;> simp [Item.tokens, CharClass.token, special]
  | repeatedChar ch q =>
    have nonzero : ch ≠ 0 := of_decide_eq_true formed
    cases q <;> simpa [Item.tokens, Quantifier.token, special] using nonzero
  | repeatedClass k q =>
    cases k <;> cases q <;> simp [Item.tokens, CharClass.token, Quantifier.token, special]
  | anchor a => cases a <;> simp [Item.tokens, Anchor.token, special]
  | group branches =>
    have inner := branches_nulFree branches formed
    simpa [Item.tokens, special, or_imp, forall_and] using inner

theorem branch_nulFree (b : Branch) (formed : b.wellFormed) : ∀ t ∈ b.tokens, t.ch ≠ 0 := by
  cases b with
  | last i => exact item_nulFree i formed
  | cons i later =>
    rw [Branch.wellFormed, Bool.and_eq_true, Bool.and_eq_true] at formed
    exact List.forall_mem_append.mpr ⟨item_nulFree i formed.1.1, branch_nulFree later formed.1.2⟩

theorem branches_nulFree (branches : Branches) (formed : branches.wellFormed) :
    ∀ t ∈ branches.tokens, t.ch ≠ 0 := by
  cases branches with
  | last b => exact branch_nulFree b formed
  | cons b later =>
    rw [Branches.wellFormed, Bool.and_eq_true] at formed
    have behind := branches_nulFree later formed.2
    have bar : ∀ t ∈ special '|' :: later.tokens, t.ch ≠ 0 :=
      List.forall_mem_cons.mpr ⟨by decide, behind⟩
    exact List.forall_mem_append.mpr ⟨branch_nulFree b formed.1, bar⟩

end

/-- A pattern in memory is compiled as a whole. -/
theorem compile_text (branches : Branches) (formed : branches.wellFormed) (rest : List Byte) :
    Settles (regexpCompile (branches.text ++ 0 :: rest)) (branches.elx, branches.groups) := by
  have free : 0 ∉ branches.text := by
    intro inside
    obtain ⟨t, member, spelled⟩ := List.mem_flatMap.mp inside
    exact spell_nulFree (branches_nulFree branches formed t member) spelled
  have whole := build_text branches formed
  rw [← text_terminated free rest] at whole
  exact whole

end Build

section Search

/-- A pattern that is written down is looked for from the left, and its first way is reported with
the groups of that way. -/
theorem compileAndMatch_settles (branches : Branches) (formed : branches.wellFormed)
    (rest : List Byte) {text : List Byte} (short : text.length ≤ intMax) :
    Settles (compileAndMatch (branches.text ++ 0 :: rest) text)
      ((firstMatch branches.pattern text).map fun found =>
        reported branches.groups found.1 found.2.1 found.2.2) := by
  have apart : branches.pattern.groups.Nodup := by
    rw [branches.pattern_groups]
    exact List.nodup_range'
  have named : 0 ∉ branches.pattern.groups := by
    rw [branches.pattern_groups, List.mem_range'_1]
    omega
  have compiled := compile_text branches formed rest
  have matched : Settles (regexpMatch branches.elx branches.groups text) _ :=
    regexpMatch_firstMatch short branches.compiles apart named
  exact ResumableSearch.Settles.bind compiled matched

/-- No match where no position of the text has a way of the pattern, and otherwise the first way at
the leftmost position that has one, with its groups. -/
def Leftmost (branches : Branches) (text : List Byte) : Option MatchResult → Prop
  | none => ∀ i, i ≤ text.length → ways text branches.pattern i = []
  | some found => ∃ start stop captures more,
      (∀ i, i < start → ways text branches.pattern i = []) ∧
      ways text branches.pattern start = (stop, captures) :: more ∧
      found = reported branches.groups start stop captures ∧
      stop ≤ text.length ∧ Denotes branches.pattern (part text start stop)

/-- The engine comes to an end with every pattern that is written down and on every text, and
reports the leftmost match. -/
theorem compileAndMatch_leftmost (branches : Branches) (formed : branches.wellFormed)
    (rest : List Byte) {text : List Byte} (short : text.length ≤ intMax) :
    ∃ result, Settles (compileAndMatch (branches.text ++ 0 :: rest) text) result ∧
      Leftmost branches text result := by
  have settled := compileAndMatch_settles branches formed rest short
  refine ⟨_, settled, ?_⟩
  cases found : firstMatch branches.pattern text with
  | none =>
    rw [firstMatch_eq_from] at found
    exact fun i inside => firstMatchFrom_none found i (Nat.zero_le i) (by omega)
  | some way =>
    obtain ⟨start, stop, captures⟩ := way
    rw [firstMatch_eq_from] at found
    obtain ⟨below, before, more, first⟩ := firstMatchFrom_some found
    have inside : start ≤ text.length := by omega
    have taken : (stop, captures) ∈ ways text branches.pattern start := by
      rw [first]
      exact List.mem_cons_self
    exact ⟨start, stop, captures, more, fun i earlier => before i (Nat.zero_le i) earlier, first, rfl,
      (ways_bounds taken inside).2, denotes_part taken inside⟩

/-- Digits are looked for. -/
def digits : Branches := .last (.last (.repeatedClass .digit .many))

theorem digits_leftmost : ∃ result,
    Settles (compileAndMatch (digits.text ++ 0 :: []) [97, 49, 50]) result ∧
      Leftmost digits [97, 49, 50] result :=
  compileAndMatch_leftmost digits (by decide) [] (by decide)

end Search

end SysMonitor.Guarantees.RegexBuilding
