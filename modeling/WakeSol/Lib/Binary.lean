import WakeSol.Lib.Decimal
import WakeSol.Lib.Endian

/- The numbers of the two binary float formats. A pattern that is not a NaN is an
   infinity or a whole multiple of a power of two; packing rounds half to even
   and overflows past the largest finite number. -/
set_option autoImplicit false

namespace BinaryLib

open RadixLib EndianLib

inductive Number where
  | infinite (negative : Bool)
  | finite (negative : Bool) (significand : Nat) (exponent : Int)
deriving DecidableEq

def fractionBits (width : Nat) : Nat := if width = 4 then 23 else 52

def infinity (width : Nat) : Nat := if width = 4 then 0x7F800000 else 0x7FF0000000000000

def signPlace (width : Nat) : Nat := if width = 4 then 2 ^ 31 else 2 ^ 63

def leastExponent (width : Nat) : Int := if width = 4 then -149 else -1074

def unpack (bits : Bytes) : Number :=
  let width := bits.length
  let negative := decide (signPlace width ≤ leNat bits)
  let magnitude := leNat bits % signPlace width
  let unit := 2 ^ fractionBits width
  if magnitude = infinity width then .infinite negative
  else if magnitude / unit = 0 then .finite negative magnitude (leastExponent width)
  else .finite negative (unit + magnitude % unit) (leastExponent width + (magnitude / unit : Nat) - 1)

def rescaled (significand : Nat) (exponent unit : Int) : Nat :=
  if unit ≤ exponent then significand * 2 ^ (exponent - unit).toNat
  else DecimalLib.halfEven significand (2 ^ (unit - exponent).toNat)

-- Numbers of one sign lie in the order of their patterns, so that a significand
-- rounded up to the next power of two carries into the exponent.
def magnitudeOf (width significand : Nat) (exponent : Int) : Nat :=
  if significand = 0 then 0
  else
    let unit := max (leastExponent width) (exponent + Nat.log2 significand - fractionBits width)
    (unit - leastExponent width).toNat * 2 ^ fractionBits width + rescaled significand exponent unit

def pattern (width : Nat) (negative : Bool) (magnitude : Nat) : Bytes :=
  leBytes width ((if negative then signPlace width else 0) + magnitude)

def pack (width : Nat) : Number → Option Bytes
  | .infinite negative => some (pattern width negative (infinity width))
  | .finite negative significand exponent =>
    let magnitude := magnitudeOf width significand exponent
    if magnitude < infinity width then some (pattern width negative magnitude) else none

def truncate (negative : Bool) (significand : Nat) (exponent : Int) : Int :=
  let whole := if 0 ≤ exponent then significand * 2 ^ exponent.toNat else significand / 2 ^ (-exponent).toNat
  if negative then -whole else whole

theorem le_nat_le_bytes_mod (width n : Nat) : leNat (leBytes width n) = n % 256 ^ width := by
  induction width generalizing n with
  | zero => simp [leBytes, leNat, Nat.mod_one]
  | succ width ih =>
    have byte : (UInt8.ofNat n).toNat = n % 256 := by simp
    rw [leBytes, leNat, ih, byte, Nat.pow_succ, Nat.mul_comm (256 ^ width), Nat.mod_mul]

theorem wide_number (width n : Nat) (small : n % 2 ^ 63 ≤ 0x7FF0000000000000) :
    n % 256 ^ width % 2 ^ 63 ≤ 0x7FF0000000000000 := by
  by_cases short : width < 8
  · have below : n % 256 ^ width < 256 ^ 7 := by
      calc n % 256 ^ width < 256 ^ width := Nat.mod_lt _ (Nat.pow_pos (by omega))
        _ ≤ 256 ^ 7 := Nat.pow_le_pow_right (by omega) (by omega)
    omega
  · have divides : 2 ^ 63 ∣ 256 ^ width := by
      have shift : (256 : Nat) ^ width = 2 ^ (8 * width) := by rw [Nat.pow_mul]
      rw [shift]
      exact Nat.pow_dvd_pow 2 (by omega)
    rwa [Nat.mod_mod_of_dvd n divides]

theorem pattern_number (width : Nat) (negative : Bool) (magnitude : Nat) (small : magnitude ≤ infinity width) :
    isNaN (pattern width negative magnitude) = false := by
  have size : (pattern width negative magnitude).length = width := le_bytes_length width _
  rw [isNaN, size, pattern, le_nat_le_bytes_mod]
  by_cases single : width = 4
  · subst single
    simp only [infinity, if_true] at small
    simp only [signPlace, if_true, decide_eq_false_iff_not]
    split <;> omega
  · simp only [infinity, if_neg single] at small
    simp only [signPlace, if_neg single, decide_eq_false_iff_not, Nat.not_lt]
    refine wide_number width _ ?_
    split <;> omega

theorem pack_number (width : Nat) (number : Number) (raw : Bytes) (packed : pack width number = some raw) :
    raw.length = width ∧ isNaN raw = false := by
  cases number with
  | infinite negative =>
    rw [← Option.some.inj packed]
    exact ⟨le_bytes_length width _, pattern_number width negative _ (Nat.le_refl _)⟩
  | finite negative significand exponent =>
    simp only [pack] at packed
    split at packed
    · rename_i below
      rw [← Option.some.inj packed]
      exact ⟨le_bytes_length width _, pattern_number width negative _ (Nat.le_of_lt below)⟩
    · cases packed

example : pack 4 (unpack (leBytes 8 0x3FB999999999999A)) = some (leBytes 4 0x3DCCCCCD) := by decide

example : pack 8 (.finite true 9007199254740993 0) = some (leBytes 8 0xC340000000000000) := by decide

end BinaryLib
