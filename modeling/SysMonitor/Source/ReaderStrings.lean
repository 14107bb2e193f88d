import Mathlib.Data.BitVec
import Mathlib.Data.List.Infix
import SysMonitor.Source.Memory

/-!
# The reader's strings: what native/jni uses of the C library

Strings are lists of bytes without their terminator. The comparisons return an `int` of
which only the sign is specified, and of which the reader only asks whether it is zero.
-/

namespace SysMonitor.Source.ReaderStrings

/-- A string of the reader. The regular expressions count its positions in an `int`. -/
structure UserString where
  bytes : List Byte
  nulFree : 0 ∉ bytes
  fits : bytes.length < 2 ^ 31

/-- A literal of the source. -/
def literal (text : String) : List Byte := text.toList.map fun c => BitVec.ofNat 8 c.toNat

/-- A `size_t` stored in an `int`. -/
def toInt (length : Nat) : Int := (BitVec.ofNat 32 length).toInt

theorem toInt_small {length : Nat} (small : length < 2 ^ 31) : toInt length = length := by
  rw [toInt, BitVec.toInt_eq_toNat_cond, BitVec.toNat_ofNat]
  omega

/-- `tolower` of the C locale. -/
def toLower (c : Byte) : Byte := if 65 ≤ c.toNat ∧ c.toNat ≤ 90 then c + 32#8 else c

/-- `isspace` of the C locale. -/
def isSpace (c : Byte) : Bool := c = 32 ∨ (9 ≤ c.toNat ∧ c.toNat ≤ 13)

def strcasecmp : List Byte → List Byte → Int
  | [], [] => 0
  | [], d :: _ => -(toLower d).toNat
  | c :: _, [] => (toLower c).toNat
  | c :: s, d :: t =>
    if toLower c = toLower d then strcasecmp s t
    else (toLower c).toNat - (toLower d).toNat

def strncasecmp : Nat → List Byte → List Byte → Int
  | 0, _, _ => 0
  | _ + 1, [], [] => 0
  | _ + 1, [], d :: _ => -(toLower d).toNat
  | _ + 1, c :: _, [] => (toLower c).toNat
  | n + 1, c :: s, d :: t =>
    if toLower c = toLower d then strncasecmp n s t
    else (toLower c).toNat - (toLower d).toNat

/-- `strstr`: the rest of the first string from where the second occurs in it. -/
def strstr (haystack needle : List Byte) : Option (List Byte) :=
  if needle <+: haystack then some haystack
  else
    match haystack with
    | [] => none
    | _ :: rest => strstr rest needle

/-- `%d` -/
def decimal (value : Int) : List Byte := literal (toString value)

/-- `%0nd`: zeros between the sign and the digits up to the width. -/
def padded (width : Nat) (value : Int) : List Byte :=
  let sign := if value < 0 then literal "-" else []
  let digits := literal (toString value.natAbs)
  sign ++ List.replicate (width - sign.length - digits.length) 48 ++ digits

/-- What `snprintf` stores, in front of the NUL, when it is asked to write this text. -/
def snprintf (size : Nat) (text : List Byte) : List Byte := text.take (size - 1)

/-- `printf` with a format and no further argument: a conversion that takes one is undefined. -/
def printf : List Byte → Except Fault (List Byte)
  | [] => .ok []
  | 37 :: 37 :: rest => do
    let printed ← printf rest
    return 37 :: printed
  | 37 :: _ => .error .outOfBounds
  | c :: rest => do
    let printed ← printf rest
    return c :: printed

/-- A letter of the C locale. -/
def IsLetter (c : Byte) : Prop :=
  (65 ≤ c.toNat ∧ c.toNat ≤ 90) ∨ (97 ≤ c.toNat ∧ c.toNat ≤ 122)

instance (c : Byte) : Decidable (IsLetter c) :=
  inferInstanceAs (Decidable ((65 ≤ c.toNat ∧ c.toNat ≤ 90) ∨ (97 ≤ c.toNat ∧ c.toNat ≤ 122)))

section Comparisons

variable {s t : List Byte}

/-- Only the terminator is lowered to the terminator. -/
theorem toLower_eq_zero (c : Byte) : toLower c = 0 ↔ c = 0 := by
  revert c
  decide

theorem toLower_toNat_ne_zero {c : Byte} (nonzero : c ≠ 0) : ((toLower c).toNat : Int) ≠ 0 := by
  intro zero
  apply nonzero
  rw [← toLower_eq_zero]
  exact BitVec.eq_of_toNat_eq (Int.ofNat_inj.mp zero)

theorem toLower_sub_eq_zero (c d : Byte) :
    ((toLower c).toNat : Int) - (toLower d).toNat = 0 ↔ toLower c = toLower d := by
  rw [Int.sub_eq_zero, Int.ofNat_inj]
  exact BitVec.toNat_inj

/-- `strcasecmp` finds two strings equal when they are the same in small letters. -/
theorem strcasecmp_eq_zero (free : 0 ∉ s) (free' : 0 ∉ t) :
    strcasecmp s t = 0 ↔ s.map toLower = t.map toLower := by
  induction s generalizing t with
  | nil =>
    cases t with
    | nil => exact iff_of_true rfl rfl
    | cons d t =>
      have nonzero := toLower_toNat_ne_zero (List.ne_of_not_mem_cons free').symm
      exact iff_of_false (fun zero => nonzero (by simpa [strcasecmp] using zero)) (by simp)
  | cons c s ih =>
    cases t with
    | nil =>
      exact iff_of_false (toLower_toNat_ne_zero (List.ne_of_not_mem_cons free).symm) (by simp)
    | cons d t =>
      rw [strcasecmp, List.map_cons, List.map_cons, List.cons.injEq]
      by_cases same : toLower c = toLower d
      · rw [if_pos same, ih (List.not_mem_of_not_mem_cons free) (List.not_mem_of_not_mem_cons free')]
        exact (and_iff_right same).symm
      · rw [if_neg same, toLower_sub_eq_zero]
        exact iff_of_false same (fun equal => same equal.1)

/-- `strncasecmp` compares what the two strings begin with. -/
theorem strncasecmp_eq_zero (n : Nat) (free : 0 ∉ s) (free' : 0 ∉ t) :
    strncasecmp n s t = 0 ↔ (s.take n).map toLower = (t.take n).map toLower := by
  induction n generalizing s t with
  | zero => exact iff_of_true (by rw [strncasecmp]) rfl
  | succ n ih =>
    cases s with
    | nil =>
      cases t with
      | nil => exact iff_of_true rfl rfl
      | cons d t =>
        have nonzero := toLower_toNat_ne_zero (List.ne_of_not_mem_cons free').symm
        exact iff_of_false (fun zero => nonzero (by simpa [strncasecmp] using zero)) (by simp)
    | cons c s =>
      cases t with
      | nil =>
        exact iff_of_false (toLower_toNat_ne_zero (List.ne_of_not_mem_cons free).symm) (by simp)
      | cons d t =>
        rw [strncasecmp, List.take_succ_cons, List.take_succ_cons, List.map_cons, List.map_cons,
          List.cons.injEq]
        by_cases same : toLower c = toLower d
        · rw [if_pos same,
            ih (List.not_mem_of_not_mem_cons free) (List.not_mem_of_not_mem_cons free')]
          exact (and_iff_right same).symm
        · rw [if_neg same, toLower_sub_eq_zero]
          exact iff_of_false same (fun equal => same equal.1)

/-- `strstr` finds a string exactly where it occurs. -/
theorem strstr_isSome (haystack needle : List Byte) :
    (strstr haystack needle).isSome ↔ needle <:+: haystack := by
  induction haystack with
  | nil =>
    rw [strstr]
    split
    · rename_i begins
      exact iff_of_true rfl begins.isInfix
    · rename_i differs
      rw [List.infix_nil, ← List.prefix_nil]
      exact iff_of_false Bool.noConfusion differs
  | cons c rest ih =>
    rw [strstr, List.infix_cons_iff]
    split
    · rename_i begins
      exact iff_of_true rfl (.inl begins)
    · rename_i differs
      rw [ih]
      exact (or_iff_right differs).symm

end Comparisons

section Numbers

/-- A sign or a digit. -/
def IsNumeral (c : Byte) : Prop := c = 45 ∨ (48 ≤ c.toNat ∧ c.toNat ≤ 57)

instance (c : Byte) : Decidable (IsNumeral c) :=
  inferInstanceAs (Decidable (c = 45 ∨ (48 ≤ c.toNat ∧ c.toNat ≤ 57)))

theorem literal_append (s t : String) : literal (s ++ t) = literal s ++ literal t := by
  rw [literal, String.toList_append, List.map_append]
  rfl

theorem isNumeral_of_mem_sign {c : Byte} (inside : c ∈ literal "-") : IsNumeral c := by
  have minus : literal "-" = [45] := by decide
  rw [minus] at inside
  exact .inl (List.mem_singleton.mp inside)

theorem isNumeral_of_mem_digits (n : Nat) {c : Byte} (inside : c ∈ literal (toString n)) :
    IsNumeral c := by
  obtain ⟨digit, written, rfl⟩ := List.mem_map.mp inside
  rw [Nat.toString_eq_repr, Nat.toList_repr] at written
  have isDigit : 48 ≤ digit.toNat ∧ digit.toNat ≤ 57 :=
    Char.isDigit_iff_toNat.mp (Nat.isDigit_of_mem_toDigits (by decide) (by decide) written)
  refine .inr ?_
  rw [BitVec.toNat_ofNat, Nat.mod_eq_of_lt (by omega)]
  exact isDigit

theorem isNumeral_of_mem_decimal {value : Int} {c : Byte} (inside : c ∈ decimal value) :
    IsNumeral c := by
  rw [decimal, Int.toString_eq_repr, Int.repr_eq_if] at inside
  split at inside
  · exact isNumeral_of_mem_digits _ inside
  · rw [literal_append, List.mem_append] at inside
    rcases inside with sign | digit
    · exact isNumeral_of_mem_sign sign
    · exact isNumeral_of_mem_digits _ digit

/-- An `int` has ten digits and a sign at most. -/
theorem decimal_length_le (value : Word) : (decimal value.toInt).length ≤ 11 := by
  have below := BitVec.toInt_lt (x := value)
  have above := BitVec.le_toInt value
  have digits : ∀ n : Nat, n < 10 ^ 10 → n.repr.length ≤ 10 :=
    fun n => (Nat.length_repr_le_iff (by decide)).mpr
  rw [decimal, literal, List.length_map, String.length_toList, Int.toString_eq_repr, Int.repr_eq_if]
  split
  · have short := digits value.toInt.toNat (by omega)
    omega
  · have short := digits (-value.toInt).toNat (by omega)
    have minus : "-".length = 1 := by decide
    rw [String.length_append]
    omega

theorem isNumeral_of_mem_padded {width : Nat} {value : Int} {c : Byte}
    (inside : c ∈ padded width value) : IsNumeral c := by
  rw [padded, List.mem_append, List.mem_append] at inside
  rcases inside with (sign | zero) | digit
  · split at sign
    · exact isNumeral_of_mem_sign sign
    · cases sign
  · rw [List.eq_of_mem_replicate zero]
    exact .inr (by decide)
  · exact isNumeral_of_mem_digits _ digit

end Numbers

end SysMonitor.Source.ReaderStrings
