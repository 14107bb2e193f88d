import Mathlib.Data.List.Nodup

/-!
# Linked lists with a pointer to the last node

The nodes are met by following `next` from the header to null. A node is put at the end by
pointing the last node to it, so that a list needs no walk to grow.
-/

namespace SysMonitor.Library.TailList

variable {α : Type*} {next next' : α → Option α} {null header tail p q r : α}
  {nodes before after : List α}

/-- From one pointer to another along nodes. There is no next where there is no node. -/
inductive Path (next : α → Option α) : α → List α → α → Prop where
  | stop (p : α) : Path next p [] p
  | step {p q r : α} {nodes : List α} (link : next p = some q) (rest : Path next q nodes r) :
      Path next p (p :: nodes) r

theorem Path.append (first : Path next p before q) (rest : Path next q after r) :
    Path next p (before ++ after) r := by
  induction first with
  | stop p => exact rest
  | step link _ ih => exact .step link (ih rest)

theorem Path.split (path : Path next p (before ++ after) r) :
    ∃ q, Path next p before q ∧ Path next q after r := by
  induction before generalizing p with
  | nil => exact ⟨p, .stop p, path⟩
  | cons node before ih =>
    cases path with
    | step link rest =>
      obtain ⟨q, first, later⟩ := ih rest
      exact ⟨q, .step link first, later⟩

/-- A path depends on its own nodes alone. -/
theorem Path.congr (path : Path next p nodes q) (kept : ∀ node ∈ nodes, next' node = next node) :
    Path next' p nodes q := by
  induction path with
  | stop p => exact .stop p
  | step link _ ih =>
    refine .step ?_ (ih fun node inside => kept node (List.mem_cons_of_mem _ inside))
    rw [kept _ List.mem_cons_self, link]

/-- The nodes between the header and null, the last of which is the tail. -/
structure Linked (next : α → Option α) (null header tail : α) (nodes : List α) : Prop where
  path : Path next header nodes null
  last : ∀ node, nodes.getLast? = some node → node = tail
  nonnull : null ∉ nodes

theorem linked_nil (next : α → Option α) (null tail : α) : Linked next null null tail [] where
  path := .stop null
  last _ none_there := by cases none_there
  nonnull := List.not_mem_nil

theorem Linked.congr (linked : Linked next null header tail nodes)
    (kept : ∀ node ∈ nodes, next' node = next node) : Linked next' null header tail nodes :=
  ⟨linked.path.congr kept, linked.last, linked.nonnull⟩

/-- The header tells whether there are nodes. -/
theorem Linked.header_eq_null (linked : Linked next null header tail nodes) :
    header = null ↔ nodes = [] := by
  cases nodes with
  | nil =>
    have path := linked.path
    cases path
    exact iff_of_true rfl rfl
  | cons node nodes =>
    have path := linked.path
    cases path
    refine iff_of_false (fun same => linked.nonnull ?_) (List.cons_ne_nil _ _)
    rw [same]
    exact List.mem_cons_self

theorem Linked.tail_mem (linked : Linked next null header tail nodes) (some_there : nodes ≠ []) :
    tail ∈ nodes := by
  have last := linked.last _ (List.getLast?_eq_getLast_of_ne_nil some_there)
  rw [← last]
  exact List.getLast_mem some_there

/-- The first node of a list is its header. -/
theorem linked_singleton {node : α} (nonnull : node ≠ null) (ends : next node = some null) :
    Linked next null node node [node] where
  path := .step ends (.stop null)
  last _ only := (Option.some.inj only).symm
  nonnull inside := nonnull (List.mem_singleton.mp inside).symm

/-- A node is put behind the tail. -/
theorem Linked.append (linked : Linked next null header tail nodes) (some_there : nodes ≠ [])
    (apart : nodes.Nodup) {node : α} (nonnull : node ≠ null)
    (kept : ∀ other ∈ nodes, other ≠ tail → next' other = next other)
    (link : next' tail = some node) (ends : next' node = some null) :
    Linked next' null header node (nodes ++ [node]) := by
  obtain ⟨before, last, rfl⟩ := List.eq_nil_or_concat'  nodes |>.resolve_left some_there
  obtain rfl : last = tail := linked.last last (by simp)
  obtain ⟨q, first, here⟩ := linked.path.split
  obtain rfl : q = last := by
    cases here
    rfl
  refine ⟨?_, ?_, ?_⟩
  · have untouched : Path next' header before q := first.congr fun other inside =>
      kept other (List.mem_append_left _ inside) fun same =>
        (List.nodup_append.mp apart).2.2 other inside q (List.mem_singleton_self q) same
    rw [List.append_assoc]
    exact untouched.append (.step link (.step ends (.stop null)))
  · intro other final
    simpa using final.symm
  · intro inside
    rcases List.mem_append.mp inside with old | new
    · exact linked.nonnull old
    · exact nonnull (List.mem_singleton.mp new).symm

end SysMonitor.Library.TailList
