import Mathlib.Algebra.GroupWithZero.Nat
import Mathlib.Data.List.Basic

/-!
# Joins of fields some of which are missing

`settle` moves the fields that are there in front of those that are missing. The join keeps
its length, and stays the same only where nothing had to move.
-/

namespace SysMonitor.Library.SettledJoin

variable {α : Type*} {sep part : List α} {parts : List (List α)}

/-- The length of a join depends only on the parts, not on their order. -/
theorem intercalate_length (sep : List α) (parts : List (List α)) :
    (sep.intercalate parts).length
      = (parts.map List.length).sum + sep.length * (parts.length - 1) := by
  induction parts with
  | nil => simp
  | cons part rest ih =>
    by_cases last : rest = []
    · simp [last]
    · obtain ⟨n, length⟩ : ∃ n, rest.length = n + 1 :=
        Nat.exists_eq_succ_of_ne_zero (mt List.length_eq_zero_iff.mp last)
      rw [List.intercalate_cons_of_ne_nil last, List.length_append, List.length_append, ih, length,
        List.map_cons, List.sum_cons, List.length_cons, length, Nat.add_sub_cancel,
        Nat.add_sub_cancel, Nat.mul_succ]
      omega

theorem intercalate_length_perm {others : List (List α)} (perm : parts.Perm others) :
    (sep.intercalate parts).length = (sep.intercalate others).length := by
  rw [intercalate_length, intercalate_length, perm.length_eq,
    (perm.map List.length).sum_nat]

section Settled

variable {β : Type*} {fields : List (Option β)}

/-- What is there moves to the front. -/
def settle (fields : List (Option β)) : List (Option β) :=
  fields.filter (·.isSome) ++ fields.filter (·.isNone)

theorem settle_perm (fields : List (Option β)) : (settle fields).Perm fields := by
  have split := List.filter_append_perm (·.isSome) fields
  simp only [Option.not_isSome] at split
  exact split

/-- Behind the fields that are there, as many places stay empty as fields are missing. -/
theorem settle_eq (fields : List (Option β)) : settle fields = fields.filter (·.isSome) ++
    List.replicate (fields.length - (fields.filter (·.isSome)).length) none := by
  have count := (settle_perm fields).length_eq
  rw [settle, List.length_append] at count
  rw [settle, ← count, Nat.add_sub_cancel_left]
  congr 1
  refine List.eq_replicate_of_mem fun field inside => ?_
  exact Option.isNone_iff_eq_none.mp (List.mem_filter.mp inside).2

@[simp] theorem settle_some (b : β) (fields : List (Option β)) :
    settle (some b :: fields) = some b :: settle fields := rfl

/-- Nothing that is there comes after something that is missing. -/
def MissingLast (fields : List (Option β)) : Prop :=
  fields.Pairwise fun first later => first = none → later = none

theorem settle_of_missingLast (last : MissingLast fields) : settle fields = fields := by
  induction fields with
  | nil => rfl
  | cons field fields ih =>
    obtain ⟨missing, rest⟩ := List.pairwise_cons.mp last
    cases field with
    | some b => rw [settle_some, ih rest]
    | none =>
      have nothing : ∀ later ∈ fields, later = none := fun later inside => missing later inside rfl
      have front : fields.filter (·.isSome) = [] := by
        rw [List.filter_eq_nil_iff]
        intro later inside
        simp [nothing later inside]
      have back : fields.filter (·.isNone) = fields := by
        rw [List.filter_eq_self]
        intro later inside
        simp [nothing later inside]
      simp [settle, front, back]

theorem exists_some_of_not_missingLast (notLast : ¬ MissingLast fields) :
    ∃ b, some b ∈ fields := by
  by_contra nothing
  apply notLast
  refine List.pairwise_of_forall_mem_list fun first _ later inside missing => ?_
  by_contra some
  obtain ⟨b, rfl⟩ := Option.ne_none_iff_exists'.mp some
  exact nothing ⟨b, inside⟩

/-- Some field is there, so the settled fields begin with one. -/
theorem settle_begins (there : ∃ b, some b ∈ fields) :
    ∃ b rest, some b ∈ fields ∧ settle fields = some b :: rest := by
  obtain ⟨b, inside⟩ := there
  have front : some b ∈ fields.filter (·.isSome) := List.mem_filter.mpr ⟨inside, rfl⟩
  obtain ⟨first, rest, begins⟩ := List.exists_cons_of_ne_nil (List.ne_nil_of_mem front)
  obtain ⟨member, present⟩ := List.mem_filter.mp (begins ▸ List.mem_cons_self : first ∈ _)
  obtain ⟨c, rfl⟩ := Option.isSome_iff_exists.mp present
  exact ⟨c, rest ++ fields.filter (·.isNone), member, by rw [settle, begins, List.cons_append]⟩

theorem intercalate_head {first : α} (begins : part.head? = some first) (rest : List (List α)) :
    (sep.intercalate (part :: rest)).head? = some first := by
  by_cases last : rest = []
  · rw [last, List.intercalate_singleton, begins]
  · rw [List.intercalate_cons_of_ne_nil last, List.append_assoc, List.head?_append, begins]
    rfl

/-- A join does not change when its fields are settled if and only if they were settled, when
a missing field begins with another letter than those that are there. -/
theorem settle_join_iff {render : Option β → List α} {mark : α}
    (missing : (render none).head? = some mark)
    (present : ∀ b, some b ∈ fields →
      ∃ first, (render (some b)).head? = some first ∧ first ≠ mark) :
    sep.intercalate ((settle fields).map render) = sep.intercalate (fields.map render) ↔
      MissingLast fields := by
  constructor
  · intro same
    induction fields with
    | nil => exact List.Pairwise.nil
    | cons field fields ih =>
      cases field with
      | some b =>
        refine List.pairwise_cons.mpr ⟨fun _ _ none => (by cases none), ?_⟩
        by_cases last : fields = []
        · rw [last]
          exact List.Pairwise.nil
        · have rest : (settle fields).map render ≠ [] := by
            rw [ne_eq, List.map_eq_nil_iff, ← List.length_eq_zero_iff,
              (settle_perm fields).length_eq, List.length_eq_zero_iff]
            exact last
          rw [settle_some, List.map_cons, List.map_cons, List.intercalate_cons_of_ne_nil rest,
            List.intercalate_cons_of_ne_nil (by simpa using last)] at same
          exact ih (fun b inside => present b (List.mem_cons_of_mem _ inside))
            (List.append_cancel_left same)
      | none =>
        by_contra notLast
        obtain ⟨b, rest, inside, begins⟩ := settle_begins (exists_some_of_not_missingLast notLast)
        obtain ⟨first, head, other⟩ := present b inside
        have heads := congrArg List.head? same
        rw [begins, List.map_cons, List.map_cons, intercalate_head head, intercalate_head missing]
          at heads
        exact other (Option.some.inj heads)
  · intro last
    rw [settle_of_missingLast last]

end Settled
end SysMonitor.Library.SettledJoin
