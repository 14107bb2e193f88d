import SysMonitor.Source.RingInvariant

/-!
# Reads whose copy to the user faults

`interface_read` copies a part before the ring's end and a part after it, and either copy
may stop short. What is reported, what is delivered and what is consumed agree, except when
the first of two copies stops in its middle: that read moves no pointer.
-/

namespace SysMonitor.Guarantees.ReadFaults
open SysMonitor.Source SysMonitor.Source.Interface

/-- Unless the call failed, it delivered as many bytes as it reports, and these are what is
gone from the front of the unread contents. -/
def Consumes (d d' : Device) (result : ReadResult) : Prop :=
  0 ≤ result.returned →
    result.returned = result.delivered.length ∧ contents d = result.delivered ++ contents d'

/-- The call does not fault and consumes what it reports. -/
def ReadConsumes (d : Device) (count : Nat) (user : UserCopy) (outcome : Down) : Prop :=
  ∃ d' result, interfaceRead d count user outcome = .ok (d', result) ∧ Consumes d d' result

/-- Of two copies, the first delivers something but not all of its part. -/
def CutInMiddle (d : Device) (count : Nat) (user : UserCopy) : Prop :=
  Across d count ∧ 0 < user.first ∧ user.first < firstPart d

instance (d : Device) (count : Nat) (user : UserCopy) : Decidable (CutInMiddle d count user) :=
  inferInstanceAs (Decidable (_ ∧ _))

section Locked

variable {d : Device} (valid : ValidRing d)
include valid

theorem valid_down : ValidRing (down d) :=
  ⟨valid.size_pos, valid.ring_length, valid.read_low, valid.read_high, valid.write_low,
    valid.write_high⟩

theorem valid_up : ValidRing (up d) :=
  ⟨valid.size_pos, valid.ring_length, valid.read_low, valid.read_high, valid.write_low,
    valid.write_high⟩

/-- Oldest bytes that are delivered and consumed. -/
theorem consumes_afterRead {n : Nat} (le : n ≤ getUsedSize d) :
    Consumes d (afterRead d n) ⟨(n : Nat), (contents d).take n⟩ := by
  intro _
  constructor
  · rw [List.length_take, contents_length valid, Nat.min_eq_left le]
  · rw [contents_afterRead valid n le]
    exact (List.take_append_drop n (contents d)).symm

/-- Every read that is not cut moves the pointer by what it delivers. -/
theorem readLocked_uncut {count : Nat} {user : UserCopy} (uncut : ¬ CutInMiddle d count user) :
    ∃ n ≤ getUsedSize d,
      readLocked d count user = .ok (afterRead d n, ⟨(n : Nat), (contents d).take n⟩) := by
  have asked : min count (getUsedSize d) ≤ getUsedSize d := Nat.min_le_right ..
  by_cases across : Across d count
  · have first := across.2
    rcases Nat.eq_zero_or_pos user.first with whole | short
    · exact ⟨_, by omega, readLocked_across valid across whole⟩
    · have nothing : firstPart d - user.first = 0 := by
        have missed : ¬ user.first < firstPart d := fun middle => uncut ⟨across, short, middle⟩
        omega
      have cut := readLocked_cut valid across short
      rw [nothing] at cut
      exact ⟨0, Nat.zero_le _, by rw [valid.afterRead_zero]; exact cut⟩
  · exact ⟨_, by omega, readLocked_straight valid user across⟩

/-- A cut read reports bytes that stay in the ring. -/
theorem readLocked_cut_keeps {count : Nat} {user : UserCopy} (cut : CutInMiddle d count user) :
    ∃ n, 0 < n ∧ n ≤ getUsedSize d ∧
      readLocked d count user = .ok (d, ⟨(n : Nat), (contents d).take n⟩) := by
  obtain ⟨across, short, middle⟩ := cut
  have first := across.2.trans (Nat.min_le_right count (getUsedSize d))
  exact ⟨firstPart d - user.first, by omega, by omega, readLocked_cut valid across short⟩

/-- A cut read delivers bytes that the next read delivers again. -/
theorem cut_not_consumes {count : Nat} {user : UserCopy} (cut : CutInMiddle d count user) :
    ¬ ReadConsumes d count user .acquired := by
  rintro ⟨d', result, ran, consumes⟩
  obtain ⟨n, positive, le, kept⟩ := readLocked_cut_keeps (valid_down valid) cut
  simp only [interfaceRead, kept, bind, Except.bind, pure, Except.pure, Except.ok.injEq,
    Prod.mk.injEq] at ran
  obtain ⟨rfl, rfl⟩ := ran
  have same : contents (up (down d)) = contents d := rfl
  have delivered : ((contents (down d)).take n).length = n := by
    rw [List.length_take, contents_length (valid_down valid), Nat.min_eq_left le]
  have lengths := congrArg List.length (consumes (Int.natCast_nonneg n)).2
  rw [List.length_append, same, delivered] at lengths
  omega

/-- For every state of the ring, every count and every two points where the copies may stop,
a read consumes exactly what it reports if and only if it is not cut in the middle of its
first part. -/
theorem read_consumes_iff (count : Nat) (user : UserCopy) (outcome : Down) :
    ReadConsumes d count user outcome ↔ outcome = .acquired → ¬ CutInMiddle d count user := by
  cases outcome with
  | interrupted =>
    apply iff_of_true _ (by simp)
    exact ⟨up d, ⟨-EINTR, []⟩, rfl, by intro reported; exact absurd reported (by decide)⟩
  | acquired =>
    constructor
    · intro consumes _ cut
      exact cut_not_consumes valid cut consumes
    · intro uncut
      obtain ⟨n, le, moved⟩ := readLocked_uncut (valid_down valid) (uncut rfl)
      refine ⟨up (afterRead (down d) n), ⟨(n : Nat), (contents (down d)).take n⟩, ?_, ?_⟩
      · simp only [interfaceRead, moved, bind, Except.bind, pure, Except.pure]
      · exact consumes_afterRead (valid_down valid) le

end Locked

/-- A call of `read` as the reader and its pages determine it. -/
structure Read where
  count : Nat
  user : UserCopy
  outcome : Down

/-- Reads one after the other, and the bytes they delivered. -/
def readAll (d : Device) : List Read → Except Fault (Device × List Byte)
  | [] => .ok (d, [])
  | r :: rest => do
    let (d, result) ← interfaceRead d r.count r.user r.outcome
    let (d, later) ← readAll d rest
    return (d, result.delivered ++ later)

/-- No read of the run is cut in the middle of its first part. -/
def NeverCut (d : Device) : List Read → Prop
  | [] => True
  | r :: rest => (r.outcome = .acquired → ¬ CutInMiddle d r.count r.user) ∧
      ∀ d' result, interfaceRead d r.count r.user r.outcome = .ok (d', result) → NeverCut d' rest

/-- A read that is not cut keeps the ring's bounds and only moves bytes to the reader. -/
theorem interfaceRead_uncut {d : Device} (valid : ValidRing d) {r : Read}
    (uncut : r.outcome = .acquired → ¬ CutInMiddle d r.count r.user) :
    ∃ d' result, interfaceRead d r.count r.user r.outcome = .ok (d', result) ∧ ValidRing d' ∧
      contents d = result.delivered ++ contents d' := by
  cases outcome : r.outcome with
  | interrupted => exact ⟨up d, ⟨-EINTR, []⟩, rfl, valid_up valid, rfl⟩
  | acquired =>
    have locked := valid_down valid
    obtain ⟨n, le, moved⟩ := readLocked_uncut locked (uncut outcome)
    refine ⟨up (afterRead (down d) n), ⟨(n : Nat), (contents (down d)).take n⟩, ?_,
      valid_up (locked.afterRead n), ?_⟩
    · simp only [interfaceRead, moved, bind, Except.bind, pure, Except.pure]
    · exact (consumes_afterRead locked le (Int.natCast_nonneg n)).2

/-- Over a whole run the delivered bytes are the front of the unread contents, each once. -/
theorem readAll_uncut {d : Device} (valid : ValidRing d) {reads : List Read}
    (uncut : NeverCut d reads) :
    ∃ d' stream, readAll d reads = .ok (d', stream) ∧ ValidRing d' ∧
      contents d = stream ++ contents d' := by
  induction reads generalizing d with
  | nil => exact ⟨d, [], rfl, valid, rfl⟩
  | cons r rest ih =>
    obtain ⟨now, later⟩ := uncut
    obtain ⟨d', result, ran, valid', split⟩ := interfaceRead_uncut valid now
    obtain ⟨d'', stream, ran', valid'', split'⟩ := ih valid' (later d' result ran)
    refine ⟨d'', result.delivered ++ stream, ?_, valid'', ?_⟩
    · simp only [readAll, ran, ran', bind, Except.bind, pure, Except.pure]
    · rw [split, split', List.append_assoc]

/-- The ring of `begin_interface` with three unread bytes, two of them before its end. -/
def nearEnd : Device :=
  { initial with
    cycleBufferSize := 524288
    cycleBuffer := 0xc1000000
    readPtr := 0xc1000000 + 524286
    writePtr := 0xc1000000 + 1
    ring := List.replicate 524288 7 }

theorem nearEnd_valid : ValidRing nearEnd :=
  ⟨by decide, List.length_replicate, by decide, by decide, by decide, by decide⟩

/-- A copy that fails in the part after the end is consumed as far as it went. -/
theorem nearEnd_second_part : ReadConsumes nearEnd 3 ⟨0, 1⟩ .acquired :=
  (read_consumes_iff nearEnd_valid 3 ⟨0, 1⟩ .acquired).mpr (by decide)

/-- The copy of the two bytes leaves one out, and the next read delivers both. -/
theorem cut_read_delivers_again :
    interfaceRead nearEnd 3 ⟨1, 0⟩ .acquired
      = .ok (up (down nearEnd), ⟨1, (contents nearEnd).take 1⟩) ∧
    interfaceRead (up (down nearEnd)) 3 .complete .acquired
      = .ok (up (afterRead (down nearEnd) 3), ⟨3, (contents nearEnd).take 3⟩) ∧
    ¬ ReadConsumes nearEnd 3 ⟨1, 0⟩ .acquired := by
  have locked := valid_down nearEnd_valid
  refine ⟨?_, ?_, cut_not_consumes nearEnd_valid (by decide)⟩
  · rw [interfaceRead, readLocked_cut locked (by decide) (by decide)]
    rfl
  · have again : down (up (down nearEnd)) = down nearEnd := rfl
    rw [interfaceRead, again, readLocked_complete locked 3]
    rfl

end SysMonitor.Guarantees.ReadFaults
