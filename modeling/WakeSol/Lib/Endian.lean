import WakeSol.Lib.Radix
import Mathlib.Tactic.Ring
import Mathlib.Tactic.Linarith

/- Little-endian integers of a fixed number of bytes, unsigned or in two's
   complement, and the bit patterns of the two binary float formats. -/
set_option autoImplicit false

namespace EndianLib

open RadixLib

def leBytes : Nat → Nat → Bytes
  | 0, _ => []
  | width + 1, n => UInt8.ofNat n :: leBytes width (n / 256)

def leNat : Bytes → Nat
  | [] => 0
  | byte :: rest => byte.toNat + 256 * leNat rest

theorem le_bytes_length (width n : Nat) : (leBytes width n).length = width := by
  induction width generalizing n with
  | zero => rfl
  | succ w ih => rw [leBytes, List.length_cons, ih]

theorem le_nat_lt (bytes : Bytes) : leNat bytes < 256 ^ bytes.length := by
  induction bytes with
  | nil => simp [leNat]
  | cons byte rest ih =>
    have small := byte.toNat_lt
    rw [leNat, List.length_cons, Nat.pow_succ]
    omega

theorem le_nat_le_bytes (width n : Nat) (fits : n < 256 ^ width) : leNat (leBytes width n) = n := by
  induction width generalizing n with
  | zero =>
    have zero : n = 0 := by simpa using fits
    rw [zero]
    rfl
  | succ w ih =>
    have quotient : n / 256 < 256 ^ w := by
      rw [Nat.pow_succ] at fits
      exact Nat.div_lt_of_lt_mul (by rwa [Nat.mul_comm] at fits)
    have byte : (UInt8.ofNat n).toNat = n % 256 := by simp
    rw [leBytes, leNat, ih _ quotient, byte]
    omega

theorem le_bytes_le_nat (bytes : Bytes) : leBytes bytes.length (leNat bytes) = bytes := by
  induction bytes with
  | nil => rfl
  | cons byte rest ih =>
    have small := byte.toNat_lt
    have quotient : (byte.toNat + 256 * leNat rest) / 256 = leNat rest := by omega
    have low : UInt8.ofNat (byte.toNat + 256 * leNat rest) = byte := by
      apply UInt8.toNat_inj.mp
      have reduced : (UInt8.ofNat (byte.toNat + 256 * leNat rest)).toNat = (byte.toNat + 256 * leNat rest) % 256 := by simp
      rw [reduced]
      omega
    rw [leNat, List.length_cons, leBytes, quotient, ih, low]

def InRange (width : Nat) (signed : Bool) (n : Int) : Prop :=
  if signed then -(256 ^ width : Nat) ≤ 2 * n ∧ 2 * n < (256 ^ width : Nat) else 0 ≤ n ∧ n < (256 ^ width : Nat)

instance (width : Nat) (signed : Bool) (n : Int) : Decidable (InRange width signed n) := by
  unfold InRange
  infer_instance

def unsignedOf (width : Nat) (n : Int) : Nat := if n < 0 then (n + (256 ^ width : Nat)).toNat else n.toNat

def encodeInt (width : Nat) (signed : Bool) (n : Int) : Option Bytes :=
  if InRange width signed n then some (leBytes width (unsignedOf width n)) else none

def decodeInt (signed : Bool) (bytes : Bytes) : Int :=
  if signed && 256 ^ bytes.length ≤ 2 * leNat bytes then (leNat bytes : Int) - (256 ^ bytes.length : Nat)
  else leNat bytes

theorem unsigned_of_lt (width : Nat) (signed : Bool) (n : Int) (range : InRange width signed n) :
    unsignedOf width n < 256 ^ width := by
  cases signed with
  | false =>
    have bounds : 0 ≤ n ∧ n < (256 ^ width : Nat) := by simpa [InRange] using range
    rw [unsignedOf, if_neg (by omega)]
    omega
  | true =>
    have bounds : -(256 ^ width : Nat) ≤ 2 * n ∧ 2 * n < (256 ^ width : Nat) := by simpa [InRange] using range
    rw [unsignedOf]
    generalize (256 ^ width : Nat) = modulus at *
    split <;> omega

theorem decode_encode_int (width : Nat) (signed : Bool) (n : Int) (range : InRange width signed n) :
    decodeInt signed (leBytes width (unsignedOf width n)) = n := by
  have value := le_nat_le_bytes width (unsignedOf width n) (unsigned_of_lt width signed n range)
  have length := le_bytes_length width (unsignedOf width n)
  cases signed with
  | false =>
    have bounds : 0 ≤ n ∧ n < (256 ^ width : Nat) := by simpa [InRange] using range
    rw [decodeInt, value, if_neg (by simp), unsignedOf, if_neg (by omega)]
    omega
  | true =>
    have bounds : -(256 ^ width : Nat) ≤ 2 * n ∧ 2 * n < (256 ^ width : Nat) := by simpa [InRange] using range
    rw [decodeInt, value, length, unsignedOf]
    generalize (256 ^ width : Nat) = modulus at *
    by_cases negative : n < 0
    · rw [if_pos negative, if_pos (by simp; omega)]
      omega
    · rw [if_neg negative, if_neg (by simp; omega)]
      omega

theorem decode_int_range (signed : Bool) (bytes : Bytes) : InRange bytes.length signed (decodeInt signed bytes) := by
  have small := le_nat_lt bytes
  cases signed with
  | false =>
    simp only [InRange, decodeInt, Bool.false_and, Bool.false_eq_true, if_false]
    omega
  | true =>
    simp only [InRange, decodeInt, Bool.true_and, if_true, decide_eq_true_eq]
    generalize (256 ^ bytes.length : Nat) = modulus at *
    split <;> omega

theorem encode_decode_int (signed : Bool) (bytes : Bytes) :
    leBytes bytes.length (unsignedOf bytes.length (decodeInt signed bytes)) = bytes := by
  have small := le_nat_lt bytes
  have same : unsignedOf bytes.length (decodeInt signed bytes) = leNat bytes := by
    cases signed with
    | false =>
      simp only [decodeInt, Bool.false_and, Bool.false_eq_true, if_false]
      rw [unsignedOf, if_neg (by omega)]
      omega
    | true =>
      simp only [decodeInt, Bool.true_and, decide_eq_true_eq]
      rw [unsignedOf]
      generalize (256 ^ bytes.length : Nat) = modulus at *
      by_cases high : modulus ≤ 2 * leNat bytes
      · rw [if_pos high, if_pos (by omega)]
        omega
      · rw [if_neg high, if_neg (by omega)]
        omega
  rw [same, le_bytes_le_nat]

theorem encode_nat (width n : Nat) (small : n < 256 ^ width) : encodeInt width false n = some (leBytes width n) := by
  have range : InRange width false n := by
    simp only [InRange, Bool.false_eq_true, if_false]
    omega
  rw [encodeInt, if_pos range, unsignedOf, if_neg (by omega), Int.toNat_natCast]

theorem encode_nat_large (width n : Nat) (large : 256 ^ width ≤ n) : encodeInt width false n = none := by
  have outside : ¬ InRange width false n := by
    simp only [InRange, Bool.false_eq_true, if_false]
    omega
  rw [encodeInt, if_neg outside]

def isNaN (bits : Bytes) : Bool :=
  if bits.length = 4 then 0x7F800000 < leNat bits % 2 ^ 31 else 0x7FF0000000000000 < leNat bits % 2 ^ 63

end EndianLib
