import Mathlib.Data.Nat.Digits.Defs

/-!
# Little-endian memory images

A number as a fixed count of bytes, least significant first, and a record of 32-bit
words as the concatenation of their images. Decoding inverts encoding and ignores
whatever bytes follow.
-/

namespace SysMonitor.Library.LittleEndian

/-- The `width` low bytes of `n`. -/
def encode : Nat → Nat → List (BitVec 8)
  | 0, _ => []
  | width + 1, n => BitVec.ofNat 8 n :: encode width (n / 256)

def decode : List (BitVec 8) → Nat
  | [] => 0
  | byte :: rest => byte.toNat + 256 * decode rest

@[simp] theorem encode_length (width n : Nat) : (encode width n).length = width := by
  induction width generalizing n with
  | zero => rfl
  | succ width ih => simp [encode, ih]

theorem decode_encode (width n : Nat) (fits : n < 256 ^ width) : decode (encode width n) = n := by
  induction width generalizing n with
  | zero =>
    have zero : n = 0 := by simpa using fits
    simp [encode, decode, zero]
  | succ width ih =>
    have rest : n / 256 < 256 ^ width := by
      apply Nat.div_lt_of_lt_mul
      rwa [Nat.pow_succ, Nat.mul_comm] at fits
    simp only [encode, decode, ih _ rest, BitVec.toNat_ofNat]
    omega

def encodeWord (w : BitVec 32) : List (BitVec 8) := encode 4 w.toNat

def decodeWord (bytes : List (BitVec 8)) : BitVec 32 := BitVec.ofNat 32 (decode (bytes.take 4))

@[simp] theorem encodeWord_length (w : BitVec 32) : (encodeWord w).length = 4 :=
  encode_length 4 w.toNat

/-- The decoder reads exactly one word and ignores what follows. -/
theorem decodeWord_append (w : BitVec 32) (tail : List (BitVec 8)) :
    decodeWord (encodeWord w ++ tail) = w := by
  have head : (encodeWord w ++ tail).take 4 = encode 4 w.toNat :=
    List.take_left' (encodeWord_length w)
  rw [decodeWord, head, decode_encode 4 w.toNat w.isLt]
  simp

def encodeWords (words : List (BitVec 32)) : List (BitVec 8) := words.flatMap encodeWord

/-- Read `count` words. -/
def decodeWords : Nat → List (BitVec 8) → List (BitVec 32)
  | 0, _ => []
  | count + 1, bytes => decodeWord bytes :: decodeWords count (bytes.drop 4)

@[simp] theorem encodeWords_length (words : List (BitVec 32)) :
    (encodeWords words).length = 4 * words.length := by
  induction words with
  | nil => rfl
  | cons w words ih =>
    change (encodeWord w ++ encodeWords words).length = 4 * (words.length + 1)
    rw [List.length_append, encodeWord_length, ih]
    omega

theorem decodeWords_encodeWords (words : List (BitVec 32)) (tail : List (BitVec 8)) :
    decodeWords words.length (encodeWords words ++ tail) = words := by
  induction words with
  | nil => rfl
  | cons w words ih =>
    have shape : encodeWords (w :: words) ++ tail = encodeWord w ++ (encodeWords words ++ tail) := by
      simp [encodeWords, List.append_assoc]
    have rest : (encodeWord w ++ (encodeWords words ++ tail)).drop 4 = encodeWords words ++ tail :=
      List.drop_left' (encodeWord_length w)
    rw [shape, List.length_cons, decodeWords, decodeWord_append, rest, ih]

end SysMonitor.Library.LittleEndian
