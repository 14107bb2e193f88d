import Mathlib.Logic.Function.Basic
import Mathlib.Data.List.Basic

/-!
# Overwriting the entries of a table and putting them back

`SameOutside pending f g` says that two tables agree except at the pending indices. An
overwritten index joins the pending ones and a restored one leaves them, so that a table in
which every overwritten entry was restored is the original one.
-/

namespace SysMonitor.Library.Overwrites

variable {ι α : Type*} [DecidableEq ι] {pending : List ι} {f g : ι → α} {i j : ι} {a : α}

/-- The two tables agree except at these indices. -/
def SameOutside (pending : List ι) (f g : ι → α) : Prop := ∀ i, i ∉ pending → f i = g i

omit [DecidableEq ι] in
theorem SameOutside.refl (pending : List ι) (f : ι → α) : SameOutside pending f f :=
  fun _ _ => rfl

omit [DecidableEq ι] in
/-- With nothing pending the tables are the same. -/
theorem SameOutside.eq (same : SameOutside [] f g) : f = g := by
  funext i
  exact same i List.not_mem_nil

/-- An entry that is overwritten is pending from then on. -/
theorem SameOutside.overwrite (same : SameOutside pending f g) (member : i ∈ pending) :
    SameOutside pending (Function.update f i a) g := by
  intro j out
  have other : j ≠ i := fun here => out (here ▸ member)
  rw [Function.update_of_ne other]
  exact same j out

/-- An entry that gets its old value back is not pending any more. -/
theorem SameOutside.restore (same : SameOutside (i :: pending) f g) :
    SameOutside pending (Function.update f i (g i)) g := by
  intro j out
  by_cases here : j = i
  · rw [here, Function.update_self]
  · rw [Function.update_of_ne here]
    exact same j (by simp [here, out])

end SysMonitor.Library.Overwrites
