import Mathlib.Algebra.Order.Ring.Nat
import Mathlib.Data.Nat.Basic

/-!
# Memory in pages

Pages have one size and are there or missing. A range of addresses can be read up to the first
missing page: `readable` counts the cells in front of it, and a reader that goes from page to
page finds them one chunk after the other.
-/

namespace SysMonitor.Library.PagedMemory

variable {α : Type*} (size : Nat) (pages : Nat → Option (Nat → α))

/-- What lies at an address, none where the page is missing. -/
def cell (address : Nat) : Option α := (pages (address / size)).map (· (address % size))

/-- The number of cells from an address on, at most so many, in front of the first missing page. -/
def readable (address : Nat) : Nat → Nat
  | 0 => 0
  | len + 1 => if (pages (address / size)).isSome then readable (address + 1) len + 1 else 0

/-- The range from an address on meets this page. -/
def Covers (address len page : Nat) : Prop := ∃ i < len, (address + i) / size = page

/-- The first page of the range that is missing. -/
structure FirstMissing (address len page : Nat) : Prop where
  covered : Covers size address len page
  missing : pages page = none
  before : ∀ earlier < page, Covers size address len earlier → pages earlier ≠ none

section Addresses

variable {size} {address i : Nat}

theorem add_eq_offset_add (address i : Nat) :
    address + i = address % size + i + size * (address / size) := by
  have split := Nat.div_add_mod address size
  omega

theorem div_same_page (inside : i < size - address % size) :
    (address + i) / size = address / size := by
  have positive : 0 < size := by omega
  conv_lhs => rw [add_eq_offset_add address i, Nat.add_mul_div_left _ _ positive]
  rw [Nat.div_eq_of_lt (by omega), Nat.zero_add]

theorem mod_same_page (inside : i < size - address % size) :
    (address + i) % size = address % size + i := by
  conv_lhs => rw [add_eq_offset_add address i, Nat.add_mul_mod_self_left]
  exact Nat.mod_eq_of_lt (by omega)

end Addresses

section Readable

variable {size} {pages} {address len n page : Nat}

theorem readable_le (address len : Nat) : readable size pages address len ≤ len := by
  induction len generalizing address with
  | zero => exact Nat.le_refl 0
  | succ len ih =>
    rw [readable]
    split
    · exact Nat.succ_le_succ (ih (address + 1))
    · exact Nat.zero_le _

/-- The cells that are counted are there. -/
theorem readable_present {i : Nat} (below : i < readable size pages address len) :
    (pages ((address + i) / size)).isSome := by
  induction len generalizing address i with
  | zero => cases below
  | succ len ih =>
    rw [readable] at below
    split at below
    · rename_i present
      cases i with
      | zero => exact present
      | succ i =>
        have later := ih (Nat.lt_of_succ_lt_succ below)
        rwa [Nat.add_right_comm, Nat.add_assoc] at later
    · cases below

/-- Counting stops at a missing page. -/
theorem readable_missing (short : readable size pages address len < len) :
    pages ((address + readable size pages address len) / size) = none := by
  induction len generalizing address with
  | zero => cases short
  | succ len ih =>
    rw [readable] at short ⊢
    split at short
    · rename_i present
      rw [if_pos present, Nat.add_comm _ 1, ← Nat.add_assoc]
      exact ih (Nat.lt_of_succ_lt_succ short)
    · rename_i missing
      rw [if_neg missing]
      exact Option.not_isSome_iff_eq_none.mp missing

/-- These facts determine the count. -/
theorem readable_unique (short : n ≤ len)
    (present : ∀ i < n, (pages ((address + i) / size)).isSome)
    (stops : n < len → pages ((address + n) / size) = none) :
    readable size pages address len = n := by
  rcases Nat.lt_trichotomy (readable size pages address len) n with less | same | more
  · have there := present _ less
    rw [readable_missing (Nat.lt_of_lt_of_le less short)] at there
    cases there
  · exact same
  · have there := readable_present more
    rw [stops (Nat.lt_of_lt_of_le more (readable_le address len))] at there
    cases there

theorem readable_of_missing (missing : pages (address / size) = none) :
    readable size pages address len = 0 :=
  readable_unique (Nat.zero_le _) (fun i below => absurd below (Nat.not_lt_zero i))
    (fun _ => missing)

/-- A first part that is there is counted, and what follows it is counted from its end. -/
theorem readable_add (short : n ≤ len)
    (present : ∀ i < n, (pages ((address + i) / size)).isSome) :
    readable size pages address len = n + readable size pages (address + n) (len - n) := by
  have rest : readable size pages (address + n) (len - n) ≤ len - n := readable_le _ _
  apply readable_unique (by omega)
  · intro i below
    by_cases first : i < n
    · exact present i first
    · have inside : i - n < readable size pages (address + n) (len - n) := by omega
      have there := readable_present inside
      rwa [Nat.add_assoc, Nat.add_sub_cancel' (Nat.le_of_not_lt first)] at there
  · intro below
    rw [← Nat.add_assoc]
    exact readable_missing (by omega)

/-- Where no page of the range is missing, all of it can be read. -/
theorem readable_all (present : ∀ page, Covers size address len page → pages page ≠ none) :
    readable size pages address len = len :=
  readable_unique (Nat.le_refl len)
    (fun i below => Option.isSome_iff_ne_none.mpr (present _ ⟨i, below, rfl⟩))
    (fun below => absurd below (Nat.lt_irrefl len))

/-- Reading ends where the first missing page begins, at once where it is the first of all. -/
theorem readable_first (positive : 0 < size) (first : FirstMissing size pages address len page) :
    readable size pages address len = page * size - address := by
  obtain ⟨i, inside, here⟩ := first.covered
  have lower : page * size ≤ address + i := (Nat.le_div_iff_mul_le positive).mp (Nat.le_of_eq here.symm)
  have upper : address + i < (page + 1) * size :=
    (Nat.div_lt_iff_lt_mul positive).mp (by omega)
  rw [Nat.succ_mul] at upper
  apply readable_unique (by omega)
  · intro j below
    have earlier : (address + j) / size < page := (Nat.div_lt_iff_lt_mul positive).mpr (by omega)
    exact Option.isSome_iff_ne_none.mpr (first.before _ earlier ⟨j, by omega, rfl⟩)
  · intro _
    have inPage : (address + (page * size - address)) / size = page := by
      rw [Nat.div_eq_iff positive]
      omega
    rw [inPage]
    exact first.missing

end Readable

end SysMonitor.Library.PagedMemory
