import Mathlib.Data.List.Rotate

/-!
# Cyclic buffers

A cyclic buffer is a list read from a start index onwards, past the end back to
index zero: `window buf start n`. `overwrite` is the matching store. As a queue it
rests on `window_overwrite` (a store behind a window appends to it) and
`window_advance` (moving the start drops a prefix of it).
-/

namespace SysMonitor.Library.CyclicBuffer

variable {α : Type*}

/-- The `n` elements met when walking `buf` cyclically from index `start`. -/
def window (buf : List α) (start n : Nat) : List α := (buf.rotate start).take n

/-- Replace the elements of `buf` from index `start` on by `xs`. -/
def splice (buf : List α) (start : Nat) (xs : List α) : List α :=
  buf.take start ++ xs ++ buf.drop (start + xs.length)

/-- Store `xs` cyclically from index `start`: the part that does not fit before
the end goes to the beginning. -/
def overwrite (buf : List α) (start : Nat) (xs : List α) : List α :=
  splice (splice buf start (xs.take (buf.length - start))) 0 (xs.drop (buf.length - start))

theorem splice_length (buf : List α) (start : Nat) (xs : List α)
    (fits : start + xs.length ≤ buf.length) : (splice buf start xs).length = buf.length := by
  simp only [splice, List.length_append, List.length_take, List.length_drop]
  omega

theorem mem_splice {x : α} {xs : List α} (inside : x ∈ xs) (buf : List α) (start : Nat) :
    x ∈ splice buf start xs :=
  List.mem_append_left _ (List.mem_append_right _ inside)

@[simp] theorem splice_nil (buf : List α) (start : Nat) : splice buf start [] = buf := by
  simp [splice]

/-- A store behind a first part leaves that part alone. -/
theorem splice_append_left (first rest : List α) (start : Nat) (xs : List α) :
    splice (first ++ rest) (first.length + start) xs = first ++ splice rest start xs := by
  rw [splice, splice, Nat.add_assoc, List.take_length_add_append, List.drop_length_add_append]
  simp [List.append_assoc]

/-- A store inside a first part leaves the rest alone. -/
theorem splice_append_right (first rest : List α) (start : Nat) (xs : List α)
    (fits : start + xs.length ≤ first.length) :
    splice (first ++ rest) start xs = splice first start xs ++ rest := by
  rw [splice, splice, List.take_append_of_le_length (by omega), List.drop_append_of_le_length fits]
  simp [List.append_assoc]

/-- Where a splice differs from the buffer. -/
theorem getElem?_splice {buf : List α} {start : Nat} {xs : List α}
    (fits : start + xs.length ≤ buf.length) (i : Nat) :
    (splice buf start xs)[i]? =
      if start ≤ i ∧ i < start + xs.length then xs[i - start]? else buf[i]? := by
  have front : (buf.take start ++ xs).length = start + xs.length := by
    rw [List.length_append, List.length_take]
    omega
  have first : (buf.take start).length = start := by
    rw [List.length_take]
    omega
  rw [splice]
  by_cases inFront : i < start + xs.length
  · rw [List.getElem?_append_left (by omega)]
    by_cases before : i < start
    · rw [if_neg (by omega), List.getElem?_append_left (by omega), List.getElem?_take_of_lt before]
    · rw [if_pos (by omega), List.getElem?_append_right (by omega), first]
  · rw [if_neg (by omega), List.getElem?_append_right (by omega), List.getElem?_drop, front]
    congr 1
    omega

theorem splice_all (buf xs : List α) (size : xs.length = buf.length) : splice buf 0 xs = xs := by
  simp [splice, size]

theorem window_length (buf : List α) (start n : Nat) (fits : n ≤ buf.length) :
    (window buf start n).length = n := by
  simp [window, fits]

@[simp] theorem window_zero (buf : List α) (start : Nat) : window buf start 0 = [] := by
  simp [window]

theorem window_mod (buf : List α) (start n : Nat) :
    window buf (start % buf.length) n = window buf start n := by
  simp [window, List.rotate_mod]

/-- Before the end of the buffer a window is a plain slice. -/
theorem window_inside (buf : List α) (start n : Nat) (fits : start + n ≤ buf.length) :
    window buf start n = (buf.drop start).take n := by
  rw [window, List.rotate_eq_drop_append_take (by omega), List.take_append_of_le_length]
  rw [List.length_drop]
  omega

/-- A prefix of a window is the shorter window from the same start. -/
theorem window_take (buf : List α) (start n k : Nat) (le : k ≤ n) :
    (window buf start n).take k = window buf start k := by
  simp [window, List.take_take, Nat.min_eq_left le]

/-- Moving the start `k` elements on drops the first `k` of the window. -/
theorem window_advance (buf : List α) (start n k : Nat) (le : k ≤ n) (fits : n ≤ buf.length) :
    window buf (start + k) (n - k) = (window buf start n).drop k := by
  have length : (buf.rotate start).length = buf.length := List.length_rotate ..
  have inside : k ≤ (buf.rotate start).length := by omega
  rw [window, window, ← List.rotate_rotate, List.rotate_eq_drop_append_take inside,
    List.take_append_of_le_length, ← List.drop_take]
  rw [List.length_drop]
  omega

/-- Seen from its own start, a cyclic store replaces a prefix. -/
theorem overwrite_rotate (buf : List α) (start : Nat) (xs : List α) (inside : start ≤ buf.length)
    (fits : xs.length ≤ buf.length) :
    (overwrite buf start xs).rotate start = xs ++ (buf.rotate start).drop xs.length := by
  by_cases straight : start + xs.length ≤ buf.length
  · have short : xs.length ≤ buf.length - start := by omega
    have stored : overwrite buf start xs = splice buf start xs := by
      simp [overwrite, List.take_of_length_le short, List.drop_of_length_le short]
    have before : start ≤ (splice buf start xs).length := by
      rw [splice_length _ _ _ straight]; exact inside
    rw [stored, List.rotate_eq_drop_append_take before, List.rotate_eq_drop_append_take inside]
    have head : (buf.take start).length = start := by simp [inside]
    simp only [splice, List.append_assoc]
    rw [List.drop_append_of_le_length (by omega), List.take_append_of_le_length (by omega),
      List.drop_append_of_le_length (by rw [List.length_drop]; omega)]
    simp [List.append_assoc, inside]
  · have long : buf.length - start < xs.length := by omega
    have stored : overwrite buf start xs =
        xs.drop (buf.length - start) ++
          (buf.take start).drop (xs.length - (buf.length - start)) ++
          xs.take (buf.length - start) := by
      have cut : (xs.take (buf.length - start)).length = buf.length - start := by
        simp; omega
      have rest : (xs.drop (buf.length - start)).length = xs.length - (buf.length - start) := by
        simp
      have top : buf.drop (start + (buf.length - start)) = [] := by
        apply List.drop_of_length_le; omega
      simp only [overwrite, splice, cut, rest, top, List.take_zero, List.nil_append,
        List.append_nil, Nat.zero_add]
      rw [List.drop_append_of_le_length (by simp; omega), List.append_assoc]
    have length : (xs.drop (buf.length - start) ++
        (buf.take start).drop (xs.length - (buf.length - start))).length = start := by
      simp; omega
    have before : start ≤ (overwrite buf start xs).length := by
      rw [stored, List.length_append, length]; omega
    rw [List.rotate_eq_drop_append_take before, stored, List.rotate_eq_drop_append_take inside,
      List.drop_left' length, List.take_left' length, ← List.append_assoc,
      List.take_append_drop, List.drop_append]
    have gone : (buf.drop start).drop xs.length = [] := by
      apply List.drop_of_length_le; simp; omega
    simp [gone]

theorem overwrite_length (buf : List α) (start : Nat) (xs : List α) (inside : start ≤ buf.length)
    (fits : xs.length ≤ buf.length) : (overwrite buf start xs).length = buf.length := by
  have same := congrArg List.length (overwrite_rotate buf start xs inside fits)
  simp only [List.length_rotate, List.length_append, List.length_drop] at same
  omega

/-- A store right behind a window appends to it, as long as both fit together. -/
theorem window_overwrite (buf : List α) (start used : Nat) (xs : List α)
    (fits : used + xs.length ≤ buf.length) :
    window (overwrite buf ((start + used) % buf.length) xs) start (used + xs.length) =
      window buf start used ++ xs := by
  by_cases none : buf.length = 0
  · have used0 : used = 0 := by omega
    have xs0 : xs = [] := List.eq_nil_of_length_eq_zero (by omega)
    subst used0 xs0
    simp
  have inside : (start + used) % buf.length ≤ buf.length :=
    (Nat.mod_lt _ (by omega)).le
  have length := overwrite_length buf _ xs inside (by omega)
  have stored := overwrite_rotate buf ((start + used) % buf.length) xs inside (by omega)
  generalize overwrite buf ((start + used) % buf.length) xs = after at length stored ⊢
  -- both sides are read off the two buffers rotated to `start`
  rw [List.rotate_mod, ← length, List.rotate_mod, ← List.rotate_rotate,
    ← List.rotate_rotate] at stored
  have size : (buf.rotate start).length = buf.length := List.length_rotate ..
  have size' : (after.rotate start).length = buf.length := by rw [List.length_rotate, length]
  have turned' : (after.rotate start).rotate used =
      (after.rotate start).drop used ++ (after.rotate start).take used :=
    List.rotate_eq_drop_append_take (by omega)
  have turned : (buf.rotate start).rotate used =
      (buf.rotate start).drop used ++ (buf.rotate start).take used :=
    List.rotate_eq_drop_append_take (by omega)
  rw [turned', turned, List.drop_append_of_le_length (by rw [List.length_drop]; omega),
    ← List.append_assoc] at stored
  obtain ⟨behind, window_same⟩ := List.append_inj' stored (by simp [length])
  unfold window
  rw [List.take_add, window_same, behind, List.take_left' rfl]

end SysMonitor.Library.CyclicBuffer
