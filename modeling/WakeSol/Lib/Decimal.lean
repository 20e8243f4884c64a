import Mathlib.Algebra.Order.Field.Power
import Mathlib.Data.Int.Log
import Mathlib.Data.Nat.Digits.Lemmas
import Mathlib.Data.Rat.Floor
import Mathlib.Tactic.Linarith
import Mathlib.Tactic.NormNum
import Mathlib.Tactic.Positivity
import Mathlib.Tactic.Ring

/- Decimal floating-point numbers, rounded half to even to a context's precision
   as the general decimal arithmetic specification has it. -/
set_option autoImplicit false

namespace DecimalLib

structure Decimal where
  negative : Bool
  coefficient : Nat
  exponent : Int
deriving DecidableEq

structure Context where
  prec : Nat
  emin : Int
  emax : Int
  digit : 0 < prec
  ordered : emin ≤ emax

def Context.etiny (ctx : Context) : Int := ctx.emin - ctx.prec + 1

def Context.etop (ctx : Context) : Int := ctx.emax - ctx.prec + 1

def numDigits (c : Nat) : Nat := (Nat.digits 10 c).length

def halfEven (n d : Nat) : Nat :=
  if 2 * (n % d) < d then n / d
  else if d < 2 * (n % d) then n / d + 1
  else n / d + n / d % 2

def Context.unit (ctx : Context) (c : Nat) (e : Int) : Int := max (numDigits c + e - ctx.prec) ctx.etiny

-- A number below the last kept digit altogether is not scaled up to be rounded.
def Context.kept (ctx : Context) (c : Nat) (e : Int) : Nat :=
  let shift := (ctx.unit c e - e).toNat
  if numDigits c < shift then 0 else halfEven c (10 ^ shift)

-- None is the overflow signal. A carry out of the last digit moves the exponent.
def Context.finish (ctx : Context) (d : Decimal) : Option Decimal :=
  if d.coefficient = 0 then some { d with exponent := min (max d.exponent ctx.etiny) ctx.emax }
  else if ctx.etop < numDigits d.coefficient + d.exponent - ctx.prec then none
  else
    let unit := ctx.unit d.coefficient d.exponent
    if d.exponent < unit then
      let kept := ctx.kept d.coefficient d.exponent
      if kept = 10 ^ ctx.prec then
        if ctx.etop < unit + 1 then none else some { d with coefficient := 10 ^ (ctx.prec - 1), exponent := unit + 1 }
      else some { d with coefficient := kept, exponent := unit }
    else some d

def Context.mul (ctx : Context) (a b : Decimal) : Option Decimal :=
  ctx.finish ⟨a.negative != b.negative, a.coefficient * b.coefficient, a.exponent + b.exponent⟩

def Decimal.toIntegralValue (d : Decimal) : Decimal :=
  if 0 ≤ d.exponent then d
  else { d with coefficient := halfEven d.coefficient (10 ^ (-d.exponent).toNat), exponent := 0 }

def Decimal.truncate (d : Decimal) : Int :=
  let size : Nat := if 0 ≤ d.exponent then d.coefficient * 10 ^ d.exponent.toNat
    else d.coefficient / 10 ^ (-d.exponent).toNat
  if d.negative then -size else size

def magnitude (c : Nat) (e : Int) : ℚ := c * 10 ^ e

def Decimal.value (d : Decimal) : ℚ := (if d.negative then -1 else 1) * magnitude d.coefficient d.exponent

def IsHalfEven (x : ℚ) (m : ℤ) : Prop := |m - x| ≤ 1 / 2 ∧ (|m - x| = 1 / 2 → Even m)

theorem nearest_unique (x : ℚ) (m other : ℤ) (first : IsHalfEven x m) (second : IsHalfEven x other) : m = other := by
  obtain ⟨near, tie⟩ := first
  obtain ⟨otherNear, otherTie⟩ := second
  rw [abs_le] at near otherNear
  by_contra different
  have apart : other = m + 1 ∨ m = other + 1 := by
    have below : (m : ℚ) - other ≤ 1 := by linarith
    have above : (other : ℚ) - m ≤ 1 := by linarith
    have below : m - other ≤ 1 := by exact_mod_cast below
    have above : other - m ≤ 1 := by exact_mod_cast above
    omega
  -- Two such numbers are neighbours with x halfway, and only one of them is even.
  rcases apart with rfl | rfl
  · push_cast at otherNear otherTie
    have half : (m : ℚ) - x = -(1 / 2) := by linarith
    have even := tie (by rw [half]; norm_num)
    have otherEven := otherTie (by rw [show (m : ℚ) + 1 - x = 1 / 2 by linarith]; norm_num)
    exact (Int.not_even_iff_odd.mpr even.add_one) otherEven
  · push_cast at near tie
    have half : (other : ℚ) - x = -(1 / 2) := by linarith
    have even := otherTie (by rw [half]; norm_num)
    have otherEven := tie (by rw [show (other : ℚ) + 1 - x = 1 / 2 by linarith]; norm_num)
    exact (Int.not_even_iff_odd.mpr even.add_one) otherEven

theorem nearest_whole (m : ℤ) : IsHalfEven m m := by
  refine ⟨by simp, fun tie => ?_⟩
  norm_num at tie

theorem nearest_neg (x : ℚ) (m : ℤ) (nearest : IsHalfEven x m) : IsHalfEven (-x) (-m) := by
  obtain ⟨near, tie⟩ := nearest
  have mirrored : |((-m : ℤ) : ℚ) - -x| = |m - x| := by
    rw [show ((-m : ℤ) : ℚ) - -x = -(m - x) by push_cast; ring, abs_neg]
  exact ⟨mirrored ▸ near, fun half => (tie (mirrored ▸ half)).neg⟩

theorem nearest_below (q : ℤ) (f : ℚ) (low : 0 ≤ f) (under : f < 1 / 2) : IsHalfEven (q + f) q := by
  have distance : |(q : ℚ) - (q + f)| = f := by
    rw [sub_add_cancel_left, abs_neg, abs_of_nonneg low]
  refine ⟨by linarith, fun tie => ?_⟩
  linarith

theorem nearest_above (q : ℤ) (f : ℚ) (beyond : 1 / 2 < f) (small : f < 1) : IsHalfEven (q + f) (q + 1) := by
  have distance : |((q + 1 : ℤ) : ℚ) - (q + f)| = 1 - f := by
    push_cast
    rw [add_sub_add_left_eq_sub, abs_of_pos (by linarith)]
  refine ⟨by linarith, fun tie => ?_⟩
  linarith

theorem nearest_half (q : ℤ) : IsHalfEven (q + 1 / 2) (q + q % 2) := by
  refine ⟨?_, fun _ => Int.even_iff.mpr (by omega)⟩
  rcases Int.emod_two_eq_zero_or_one q with even | odd
  · rw [even, add_zero, sub_add_cancel_left]
    norm_num
  · rw [odd]
    push_cast
    rw [add_sub_add_left_eq_sub]
    norm_num

theorem half_even_nearest (n d : Nat) (positive : 0 < d) : IsHalfEven (n / d) (halfEven n d) := by
  have whole : (0 : ℚ) < d := by exact_mod_cast positive
  have split : (n : ℚ) / d = ((n / d : ℕ) : ℤ) + (n % d : ℕ) / d := by
    rw [div_eq_iff whole.ne', add_mul, div_mul_cancel₀ _ whole.ne']
    rw [Int.cast_natCast, ← Nat.cast_mul, ← Nat.cast_add, Nat.div_add_mod']
  rw [halfEven, split]
  by_cases under : 2 * (n % d) < d
  · rw [if_pos under]
    refine nearest_below _ _ (by positivity) ?_
    rw [div_lt_div_iff₀ whole (by norm_num)]
    exact_mod_cast (by omega : n % d * 2 < 1 * d)
  · rw [if_neg under]
    by_cases beyond : d < 2 * (n % d)
    · rw [if_pos beyond]
      refine nearest_above _ _ ?_ ?_
      · rw [div_lt_div_iff₀ (by norm_num) whole]
        exact_mod_cast (by omega : 1 * d < n % d * 2)
      · rw [div_lt_one whole]
        exact_mod_cast Nat.mod_lt n positive
    · have half : ((n % d : ℕ) : ℚ) / d = 1 / 2 := by
        rw [div_eq_div_iff whole.ne' (by norm_num)]
        exact_mod_cast (by omega : n % d * 2 = 1 * d)
      rw [if_neg beyond, half]
      exact nearest_half (n / d : ℕ)

theorem digits_positive (c : Nat) (nonzero : c ≠ 0) : 0 < numDigits c := by
  rw [numDigits, List.length_pos_iff]
  exact Nat.digits_ne_nil_iff_ne_zero.mpr nonzero

theorem digits_lower (c : Nat) (nonzero : c ≠ 0) : 10 ^ (numDigits c - 1) ≤ c := by
  have positive := digits_positive c nonzero
  exact (Nat.lt_digits_length_iff (by norm_num) c).mp (Nat.sub_lt positive (by norm_num))

theorem digits_upper (c : Nat) : c < 10 ^ numDigits c := Nat.lt_base_pow_length_digits (by norm_num)

theorem magnitude_log (c : Nat) (e : Int) (nonzero : c ≠ 0) : Int.log 10 (magnitude c e) + 1 = numDigits c + e := by
  have positive : 0 < magnitude c e := by
    have : 0 < c := Nat.pos_of_ne_zero nonzero
    rw [magnitude]
    positivity
  have lower : (10 : ℚ) ^ ((numDigits c : ℤ) - 1 + e) ≤ magnitude c e := by
    rw [zpow_add₀ (by norm_num), magnitude]
    gcongr
    have some := digits_positive c nonzero
    rw [show (numDigits c : ℤ) - 1 = (numDigits c - 1 : ℕ) by omega, zpow_natCast]
    exact_mod_cast digits_lower c nonzero
  have upper : magnitude c e < (10 : ℚ) ^ ((numDigits c : ℤ) + e) := by
    rw [zpow_add₀ (by norm_num), magnitude, zpow_natCast]
    gcongr
    exact_mod_cast digits_upper c
  have above := (Int.zpow_le_iff_le_log (b := 10) (x := numDigits c - 1 + e) (by norm_num) positive).mp lower
  have below := (Int.lt_zpow_iff_log_lt (b := 10) (x := numDigits c + e) (by norm_num) positive).mp upper
  omega

theorem magnitude_shift (c : Nat) (e : Int) (shift : Nat) : magnitude c e / 10 ^ (e + shift) = c / (10 ^ shift : ℕ) := by
  rw [magnitude, zpow_add₀ (by norm_num), zpow_natCast, mul_comm (c : ℚ), mul_div_mul_left _ _ (by positivity)]
  push_cast
  rfl

section Rounding

variable (ctx : Context)

theorem kept_nearest (c : Nat) (e : Int) (rounds : e < ctx.unit c e) :
    IsHalfEven (magnitude c e / 10 ^ ctx.unit c e) (ctx.kept c e) := by
  have shifted : ctx.unit c e = e + (ctx.unit c e - e).toNat := by omega
  have scaled : magnitude c e / 10 ^ ctx.unit c e = c / (10 ^ (ctx.unit c e - e).toNat : ℕ) := by
    conv_lhs => rw [shifted]
    exact magnitude_shift c e _
  rw [scaled, Context.kept]
  by_cases tiny : numDigits c < (ctx.unit c e - e).toNat
  · rw [if_pos tiny]
    have below : c * 2 < 1 * 10 ^ (ctx.unit c e - e).toNat := by
      calc c * 2 < 10 ^ numDigits c * 10 := by have := digits_upper c; omega
        _ = 10 ^ (numDigits c + 1) := (pow_succ _ _).symm
        _ ≤ 10 ^ (ctx.unit c e - e).toNat := Nat.pow_le_pow_right (by norm_num) tiny
        _ = 1 * 10 ^ (ctx.unit c e - e).toNat := (one_mul _).symm
    have half : (c : ℚ) / (10 ^ (ctx.unit c e - e).toNat : ℕ) < 1 / 2 := by
      rw [div_lt_div_iff₀ (by positivity) (by norm_num)]
      exact_mod_cast below
    have nearest := nearest_below 0 _ (by positivity) half
    rwa [Int.cast_zero, zero_add] at nearest
  · rw [if_neg tiny]
    exact half_even_nearest c _ (by positivity)

theorem carry_magnitude (unit : Int) : magnitude (10 ^ (ctx.prec - 1)) (unit + 1) = (10 ^ ctx.prec : ℕ) * 10 ^ unit := by
  have digit := ctx.digit
  rw [magnitude, zpow_add_one₀ (by norm_num), ← Nat.sub_add_cancel digit, Nat.add_sub_cancel, pow_succ]
  push_cast
  ring

theorem unrounded_nearest (c : Nat) (e : Int) (whole : ctx.unit c e ≤ e) :
    ∃ m : ℕ, IsHalfEven (magnitude c e / 10 ^ ctx.unit c e) m ∧ magnitude c e = m * 10 ^ ctx.unit c e := by
  have shifted : e = ctx.unit c e + (e - ctx.unit c e).toNat := by omega
  have multiple : magnitude c e = (c * 10 ^ (e - ctx.unit c e).toNat : ℕ) * 10 ^ ctx.unit c e := by
    rw [magnitude]
    conv_lhs => rw [shifted, zpow_add₀ (by norm_num), zpow_natCast]
    push_cast
    ring
  refine ⟨_, ?_, multiple⟩
  rw [multiple, mul_div_cancel_right₀ _ (by positivity)]
  exact_mod_cast nearest_whole (c * 10 ^ (e - ctx.unit c e).toNat : ℕ)

theorem finish_some (d r : Decimal) (nonzero : d.coefficient ≠ 0) (finished : ctx.finish d = some r) :
    r.negative = d.negative ∧ ∃ m : ℕ, IsHalfEven (magnitude d.coefficient d.exponent / 10 ^ ctx.unit d.coefficient d.exponent) m ∧
      magnitude r.coefficient r.exponent = m * 10 ^ ctx.unit d.coefficient d.exponent := by
  rw [Context.finish, if_neg nonzero] at finished
  split at finished
  · cases finished
  · by_cases rounds : d.exponent < ctx.unit d.coefficient d.exponent
    · have nearest := kept_nearest ctx d.coefficient d.exponent rounds
      simp only [if_pos rounds] at finished
      by_cases carry : ctx.kept d.coefficient d.exponent = 10 ^ ctx.prec
      · rw [if_pos carry] at finished
        split at finished
        · cases finished
        · cases finished
          refine ⟨rfl, 10 ^ ctx.prec, ?_, carry_magnitude ctx _⟩
          rwa [carry] at nearest
      · rw [if_neg carry] at finished
        cases finished
        exact ⟨rfl, _, nearest, rfl⟩
    · simp only [if_neg rounds] at finished
      cases finished
      exact ⟨rfl, unrounded_nearest ctx d.coefficient d.exponent (not_lt.mp rounds)⟩

def Context.limit (ctx : Context) : ℚ := (10 ^ ctx.prec - 1 / 2) * 10 ^ ctx.etop

theorem limit_upper : ctx.limit < 10 ^ (ctx.emax + 1) := by
  have top : ctx.emax + 1 = ctx.prec + ctx.etop := by
    rw [Context.etop]
    ring
  rw [Context.limit, top, zpow_add₀ (by norm_num), zpow_natCast]
  gcongr
  linarith

theorem limit_lower : (10 : ℚ) ^ ctx.emax ≤ ctx.limit := by
  have digit := ctx.digit
  have top : ctx.emax = (ctx.prec - 1 : ℕ) + ctx.etop := by
    rw [Context.etop]
    omega
  rw [Context.limit, top, zpow_add₀ (by norm_num), zpow_natCast]
  gcongr
  have one : (1 : ℚ) ≤ 10 ^ (ctx.prec - 1) := one_le_pow₀ (by norm_num)
  have ten : (10 : ℚ) ^ ctx.prec = 10 ^ (ctx.prec - 1) * 10 := by rw [← pow_succ, Nat.sub_add_cancel digit]
  linarith

theorem magnitude_upper (c : Nat) (e : Int) : magnitude c e < 10 ^ (ctx.prec + ctx.unit c e) := by
  calc magnitude c e < 10 ^ (numDigits c : ℤ) * 10 ^ e := by
        rw [magnitude, zpow_natCast]
        gcongr
        exact_mod_cast digits_upper c
    _ = 10 ^ (numDigits c + e) := (zpow_add₀ (by norm_num) _ _).symm
    _ ≤ 10 ^ (ctx.prec + ctx.unit c e) := zpow_le_zpow_right₀ (by norm_num) (by rw [Context.unit]; omega)

theorem small_unit (c : Nat) (e : Int) (small : ctx.unit c e < ctx.etop) : magnitude c e < ctx.limit := by
  calc magnitude c e < 10 ^ (ctx.prec + ctx.unit c e) := magnitude_upper ctx c e
    _ ≤ 10 ^ ctx.emax := zpow_le_zpow_right₀ (by norm_num) (by rw [Context.etop] at small; omega)
    _ ≤ ctx.limit := limit_lower ctx

theorem large_exponent (c : Nat) (e : Int) (nonzero : c ≠ 0) (large : ctx.etop < numDigits c + e - ctx.prec) :
    ctx.limit ≤ magnitude c e := by
  have positive := digits_positive c nonzero
  have lower : (10 : ℚ) ^ (numDigits c - 1 : ℕ) ≤ c := by exact_mod_cast digits_lower c nonzero
  calc ctx.limit ≤ 10 ^ (ctx.emax + 1) := (limit_upper ctx).le
    _ ≤ 10 ^ (((numDigits c - 1 : ℕ) : ℤ) + e) := zpow_le_zpow_right₀ (by norm_num) (by rw [Context.etop] at large; omega)
    _ = 10 ^ (numDigits c - 1 : ℕ) * 10 ^ e := by rw [zpow_add₀ (by norm_num), zpow_natCast]
    _ ≤ magnitude c e := by
        rw [magnitude]
        gcongr

theorem unit_top (c : Nat) (e : Int) (small : ¬ ctx.etop < numDigits c + e - ctx.prec) : ctx.unit c e ≤ ctx.etop := by
  have ordered := ctx.ordered
  rw [Context.unit, Context.etiny]
  rw [Context.etop] at small ⊢
  omega

theorem top_carries (c : Nat) (e : Int) (rounds : e < ctx.unit c e) (top : ctx.unit c e = ctx.etop) :
    ctx.kept c e = 10 ^ ctx.prec ↔ ctx.limit ≤ magnitude c e := by
  have nearest := kept_nearest ctx c e rounds
  have upper := magnitude_upper ctx c e
  rw [zpow_add₀ (by norm_num), zpow_natCast, ← div_lt_iff₀ (by positivity)] at upper
  rw [Context.limit, ← top, ← le_div_iff₀ (by positivity)]
  constructor
  · intro carry
    have near := (abs_le.mp nearest.1).2
    rw [carry] at near
    push_cast at near
    linarith
  · intro last
    have carry : IsHalfEven (magnitude c e / 10 ^ ctx.unit c e) (10 ^ ctx.prec : ℕ) := by
      refine ⟨?_, fun _ => ?_⟩
      · push_cast
        rw [abs_le]
        constructor <;> linarith
      · exact_mod_cast (Nat.even_pow.mpr ⟨by decide, ctx.digit.ne'⟩ : Even (10 ^ ctx.prec))
    exact_mod_cast nearest_unique _ _ _ nearest carry

theorem finish_none (d : Decimal) (nonzero : d.coefficient ≠ 0) :
    ctx.finish d = none ↔ ctx.limit ≤ magnitude d.coefficient d.exponent := by
  rw [Context.finish, if_neg nonzero]
  by_cases large : ctx.etop < numDigits d.coefficient + d.exponent - ctx.prec
  · rw [if_pos large]
    exact ⟨fun _ => large_exponent ctx _ _ nonzero large, fun _ => rfl⟩
  · have top := unit_top ctx _ _ large
    have smaller := small_unit ctx d.coefficient d.exponent
    rw [if_neg large]
    by_cases rounds : d.exponent < ctx.unit d.coefficient d.exponent
    · simp only [if_pos rounds]
      by_cases atTop : ctx.unit d.coefficient d.exponent = ctx.etop
      · have last : ctx.etop < ctx.unit d.coefficient d.exponent + 1 := by omega
        rw [← top_carries ctx _ _ rounds atTop, if_pos last]
        by_cases carry : ctx.kept d.coefficient d.exponent = 10 ^ ctx.prec
        · simp [carry]
        · simp [carry]
      · have below := smaller (by omega)
        have more : ¬ ctx.etop < ctx.unit d.coefficient d.exponent + 1 := by omega
        rw [if_neg more]
        constructor
        · intro overflowed
          split at overflowed <;> cases overflowed
        · intro above
          linarith
    · simp only [if_neg rounds, reduceCtorEq, false_iff, not_le]
      by_cases atTop : ctx.unit d.coefficient d.exponent = ctx.etop
      · obtain ⟨m, _, multiple⟩ := unrounded_nearest ctx d.coefficient d.exponent (not_lt.mp rounds)
        have upper := magnitude_upper ctx d.coefficient d.exponent
        rw [multiple, zpow_add₀ (by norm_num), zpow_natCast, mul_lt_mul_iff_left₀ (by positivity)] at upper
        rw [multiple, Context.limit, atTop]
        gcongr
        have fits : m + 1 ≤ 10 ^ ctx.prec := by exact_mod_cast upper
        have fits : (m : ℚ) + 1 ≤ 10 ^ ctx.prec := by exact_mod_cast fits
        linarith
      · exact smaller (by omega)

def Context.spacing (ctx : Context) (x : ℚ) : ℚ := 10 ^ max (Int.log 10 |x| + 1 - ctx.prec) ctx.etiny

theorem spacing_positive (x : ℚ) : 0 < ctx.spacing x := by
  rw [Context.spacing]
  positivity

theorem magnitude_nonneg (c : Nat) (e : Int) : 0 ≤ magnitude c e := by
  rw [magnitude]
  positivity

theorem value_abs (d : Decimal) : |d.value| = magnitude d.coefficient d.exponent := by
  rw [Decimal.value, abs_mul, abs_of_nonneg (magnitude_nonneg _ _)]
  split <;> simp

theorem unit_spacing (d : Decimal) (nonzero : d.coefficient ≠ 0) :
    (10 : ℚ) ^ ctx.unit d.coefficient d.exponent = ctx.spacing d.value := by
  rw [Context.unit, Context.spacing, value_abs, magnitude_log _ _ nonzero]

theorem finish_rounds (d r : Decimal) (nonzero : d.coefficient ≠ 0) (finished : ctx.finish d = some r) :
    ∃ m : ℤ, IsHalfEven (d.value / ctx.spacing d.value) m ∧ r.value = m * ctx.spacing d.value := by
  obtain ⟨sign, m, nearest, multiple⟩ := finish_some ctx d r nonzero finished
  rw [← unit_spacing ctx d nonzero, Decimal.value, Decimal.value, sign, multiple]
  cases d.negative with
  | false => exact ⟨m, by simpa using nearest, by simp⟩
  | true =>
    refine ⟨-m, ?_, by simp⟩
    simpa [neg_div] using nearest_neg _ _ nearest

theorem finish_overflows (d : Decimal) (nonzero : d.coefficient ≠ 0) : ctx.finish d = none ↔ ctx.limit ≤ |d.value| := by
  rw [value_abs]
  exact finish_none ctx d nonzero

theorem finish_exact_iff (d r : Decimal) (nonzero : d.coefficient ≠ 0) (finished : ctx.finish d = some r) :
    r.value = d.value ↔ ∃ m : ℤ, d.value = m * ctx.spacing d.value := by
  obtain ⟨m, nearest, rounded⟩ := finish_rounds ctx d r nonzero finished
  have positive := spacing_positive ctx d.value
  constructor
  · intro same
    exact ⟨m, same ▸ rounded⟩
  · rintro ⟨k, multiple⟩
    rw [(eq_div_iff positive.ne').mpr multiple.symm |>.symm] at nearest
    rw [nearest_unique _ _ _ nearest (nearest_whole k)] at rounded
    rw [rounded, multiple.symm]

theorem ten_whole (s : Int) (natural : 0 ≤ s) : ((10 ^ s.toNat : ℤ) : ℚ) = 10 ^ s := by
  push_cast
  rw [← zpow_natCast, Int.toNat_of_nonneg natural]

theorem finish_whole_iff (d r : Decimal) (nonzero : d.coefficient ≠ 0) (finished : ctx.finish d = some r) :
    (∃ n : ℤ, r.value = n) ↔ ∃ n : ℤ, |n - d.value| ≤ ctx.spacing d.value / 2 := by
  obtain ⟨m, nearest, rounded⟩ := finish_rounds ctx d r nonzero finished
  have positive := spacing_positive ctx d.value
  -- Both sides in multiples of the spacing.
  have scale (x : ℚ) : |x * ctx.spacing d.value - d.value| = |x - d.value / ctx.spacing d.value| * ctx.spacing d.value := by
    rw [← abs_of_pos positive, ← abs_mul, abs_of_pos positive, sub_mul, div_mul_cancel₀ _ positive.ne']
  constructor
  · rintro ⟨n, whole⟩
    refine ⟨n, ?_⟩
    rw [← whole, rounded, scale]
    linarith [mul_le_mul_of_nonneg_right nearest.1 positive.le]
  · rintro ⟨n, close⟩
    by_cases coarse : 0 ≤ max (Int.log 10 |d.value| + 1 - ctx.prec) ctx.etiny
    · refine ⟨m * 10 ^ (max (Int.log 10 |d.value| + 1 - ctx.prec) ctx.etiny).toNat, ?_⟩
      rw [Int.cast_mul, ten_whole _ coarse, rounded, Context.spacing]
    · -- The whole number is a multiple of ten spacings, hence an even one.
      let fine := -max (Int.log 10 |d.value| + 1 - ctx.prec) ctx.etiny
      have multiple : (n : ℚ) = ((n * 10 ^ fine.toNat : ℤ) : ℚ) * ctx.spacing d.value := by
        rw [Int.cast_mul, ten_whole fine (by omega), Context.spacing, mul_assoc, ← zpow_add₀ (by norm_num),
          neg_add_cancel, zpow_zero, mul_one]
      have even : Even (n * 10 ^ fine.toNat) := by
        refine Even.mul_left (Int.even_pow.mpr ⟨by decide, ?_⟩) n
        omega
      rw [multiple, scale] at close
      have near : IsHalfEven (d.value / ctx.spacing d.value) (n * 10 ^ fine.toNat) := by
        refine ⟨?_, fun _ => even⟩
        have half : |((n * 10 ^ fine.toNat : ℤ) : ℚ) - d.value / ctx.spacing d.value| * ctx.spacing d.value ≤
            1 / 2 * ctx.spacing d.value := by linarith
        exact le_of_mul_le_mul_right half positive
      exact ⟨n, by rw [rounded, nearest_unique _ _ _ nearest near, ← multiple]⟩

def Short (prec : Nat) (p : ℤ) : Prop := ∃ q k : Nat, q < 10 ^ prec ∧ p.natAbs = q * 10 ^ k

theorem whole_log (p : ℤ) (nonzero : p ≠ 0) : 0 ≤ Int.log 10 |(p : ℚ)| := by
  have one : (1 : ℚ) ≤ |(p : ℚ)| := by exact_mod_cast Int.one_le_abs nonzero
  have power : ((10 : ℕ) : ℚ) ^ (0 : ℤ) ≤ |(p : ℚ)| := by rwa [zpow_zero]
  exact (Int.zpow_le_iff_le_log (by norm_num) (by linarith)).mp power

theorem whole_size (p : ℤ) : ((p.natAbs : ℕ) : ℚ) = |(p : ℚ)| := by
  rw [Nat.cast_natAbs, Int.cast_abs]

theorem multiple_short (prec : Nat) (s p m : ℤ) (multiple : (p : ℚ) = m * 10 ^ s) (below : |(p : ℚ)| < 10 ^ (prec + s)) :
    Short prec p := by
  by_cases coarse : 0 ≤ s
  · rw [← ten_whole _ coarse] at multiple
    have integers : p = m * 10 ^ s.toNat := by exact_mod_cast multiple
    have scaled : p.natAbs = m.natAbs * 10 ^ s.toNat := by
      rw [integers, Int.natAbs_mul, Int.natAbs_pow]
      rfl
    refine ⟨m.natAbs, s.toNat, ?_, scaled⟩
    have natural : (10 : ℚ) ^ (prec + s) = (10 ^ prec * 10 ^ s.toNat : ℕ) := by
      rw [zpow_add₀ (by norm_num), zpow_natCast, ← ten_whole _ coarse]
      push_cast
      rfl
    rw [← whole_size, natural, scaled] at below
    exact lt_of_mul_lt_mul_right (Nat.cast_lt.mp below) (Nat.zero_le _)
  · refine ⟨p.natAbs, 0, ?_, by simp⟩
    have bound : ((p.natAbs : ℕ) : ℚ) < 10 ^ (prec : ℤ) := by
      rw [whole_size]
      exact below.trans_le (zpow_le_zpow_right₀ (by norm_num) (by omega))
    rw [zpow_natCast] at bound
    exact_mod_cast bound

theorem short_multiple (prec : Nat) (s p : ℤ) (short : Short prec p) (above : (10 : ℚ) ^ (prec + s - 1) ≤ |(p : ℚ)|) :
    ∃ m : ℤ, (p : ℚ) = m * 10 ^ s := by
  obtain ⟨q, k, digits, scaled⟩ := short
  have under : |(p : ℚ)| < 10 ^ ((prec : ℤ) + k) := by
    rw [← whole_size, scaled, zpow_add₀ (by norm_num), zpow_natCast, zpow_natCast]
    exact_mod_cast Nat.mul_lt_mul_of_pos_right digits (by positivity)
  have exponents : prec + s - 1 < prec + k := (zpow_lt_zpow_iff_right₀ (by norm_num : (1 : ℚ) < 10)).mp (above.trans_lt under)
  refine ⟨p.sign * (q * 10 ^ (k - s).toNat), ?_⟩
  have power : ((10 ^ (k - s).toNat : ℤ) : ℚ) * 10 ^ s = 10 ^ k := by
    rw [ten_whole _ (by omega), ← zpow_add₀ (by norm_num), sub_add_cancel, zpow_natCast]
  calc (p : ℚ) = ((p.sign * p.natAbs : ℤ) : ℚ) := by rw [Int.sign_mul_natAbs]
    _ = p.sign * (q * 10 ^ k) := by
        rw [scaled]
        push_cast
        rfl
    _ = _ := by
        rw [← power]
        push_cast
        ring

theorem whole_short_iff (fine : ctx.emin ≤ 0) (p : ℤ) (nonzero : p ≠ 0) :
    (∃ m : ℤ, (p : ℚ) = m * ctx.spacing p) ↔ Short ctx.prec p := by
  have positive : 0 < |(p : ℚ)| := by exact_mod_cast abs_pos.mpr nonzero
  have log := whole_log p nonzero
  have unit : max (Int.log 10 |(p : ℚ)| + 1 - ctx.prec) ctx.etiny = Int.log 10 |(p : ℚ)| + 1 - ctx.prec := by
    rw [Context.etiny]
    omega
  rw [Context.spacing, unit]
  constructor
  · rintro ⟨m, multiple⟩
    refine multiple_short ctx.prec _ p m multiple ?_
    rw [add_sub_cancel]
    exact Int.lt_zpow_succ_log_self (b := 10) (by norm_num) |(p : ℚ)|
  · intro short
    refine short_multiple ctx.prec _ p short ?_
    rw [add_sub_cancel, add_sub_cancel_right]
    exact Int.zpow_log_le_self (b := 10) (by norm_num) positive

theorem short_limit (large : 0 ≤ ctx.etop) (p : ℤ) (short : Short ctx.prec p) :
    |(p : ℚ)| < ctx.limit ↔ p.natAbs < 10 ^ (ctx.emax + 1).toNat := by
  obtain ⟨q, k, digits, scaled⟩ := short
  have size : |(p : ℚ)| = q * 10 ^ k := by
    rw [← whole_size, scaled]
    push_cast
    rfl
  have digit := ctx.digit
  have top : (ctx.emax + 1).toNat = ctx.prec + ctx.etop.toNat := by
    rw [Context.etop] at large ⊢
    omega
  have natural : (10 : ℚ) ^ ctx.etop = 10 ^ ctx.etop.toNat := by
    rw [← zpow_natCast, Int.toNat_of_nonneg large]
  rw [top, scaled, pow_add]
  constructor
  · intro under
    have upper : (q : ℚ) * 10 ^ k < 10 ^ ctx.prec * 10 ^ ctx.etop.toNat := by
      calc (q : ℚ) * 10 ^ k = |(p : ℚ)| := size.symm
        _ < (10 ^ ctx.prec - 1 / 2) * 10 ^ ctx.etop := under
        _ ≤ 10 ^ ctx.prec * 10 ^ ctx.etop.toNat := by
            rw [natural]
            gcongr
            linarith
    exact_mod_cast upper
  · intro under
    rw [size]
    by_cases long : ctx.etop.toNat ≤ k
    · obtain ⟨more, rfl⟩ := Nat.exists_eq_add_of_le' long
      rw [pow_add, ← mul_assoc, Nat.mul_lt_mul_right (by positivity)] at under
      have room : (q : ℚ) * 10 ^ more + 1 ≤ 10 ^ ctx.prec := by exact_mod_cast under
      rw [Context.limit, natural, pow_add, ← mul_assoc]
      gcongr
      linarith
    · have fits : (q : ℚ) < 10 ^ ctx.prec := by exact_mod_cast digits
      calc (q : ℚ) * 10 ^ k < 10 ^ ctx.prec * 10 ^ k := by gcongr
        _ = 10 ^ ((ctx.prec + k : ℕ) : ℤ) := by rw [zpow_natCast, pow_add]
        _ ≤ 10 ^ ctx.emax := zpow_le_zpow_right₀ (by norm_num) (by rw [Context.etop] at long; omega)
        _ ≤ ctx.limit := limit_lower ctx

end Rounding

theorem whole_multiple (c k : Nat) (n : ℕ) (whole : magnitude c (-k) = n) : c = n * 10 ^ k := by
  rw [magnitude, zpow_neg, zpow_natCast, ← div_eq_mul_inv, div_eq_iff (by positivity)] at whole
  exact_mod_cast whole

theorem integral_iff (d : Decimal) : d.value = d.toIntegralValue.value ↔ ∃ n : ℤ, d.value = n := by
  rw [Decimal.toIntegralValue]
  by_cases scaled : 0 ≤ d.exponent
  · rw [if_pos scaled]
    refine ⟨fun _ => ⟨(if d.negative then -1 else 1) * (d.coefficient * 10 ^ d.exponent.toNat), ?_⟩, fun _ => rfl⟩
    rw [Decimal.value, magnitude, Int.cast_mul, Int.cast_mul, ten_whole _ scaled]
    split <;> simp
  · rw [if_neg scaled]
    let places := (-d.exponent).toNat
    have exponent : d.exponent = -(places : ℤ) := by omega
    constructor
    · intro same
      refine ⟨(if d.negative then -1 else 1) * halfEven d.coefficient (10 ^ places), ?_⟩
      rw [same, Decimal.value, magnitude, zpow_zero, mul_one]
      split <;> simp [places]
    · rintro ⟨n, whole⟩
      have size : magnitude d.coefficient (-places) = n.natAbs := by
        rw [← exponent, ← value_abs, whole, whole_size]
      have exact : halfEven d.coefficient (10 ^ places) = n.natAbs := by
        have nearest := half_even_nearest d.coefficient (10 ^ places) (by positivity)
        have quotient : (d.coefficient : ℚ) / (10 ^ places : ℕ) = (n.natAbs : ℤ) := by
          rw [div_eq_iff (by positivity), whole_multiple _ _ _ size, Nat.cast_mul, Int.cast_natCast]
        rw [quotient] at nearest
        exact_mod_cast nearest_unique _ _ _ nearest (nearest_whole n.natAbs)
      change d.value = _ * magnitude (halfEven d.coefficient (10 ^ places)) 0
      rw [exact, Decimal.value, exponent, size, magnitude, zpow_zero, mul_one]

theorem truncate_whole (d : Decimal) (n : ℤ) (whole : d.value = n) : d.truncate = n := by
  have size : magnitude d.coefficient d.exponent = n.natAbs := by
    rw [← value_abs, whole, whole_size]
  rw [Decimal.truncate]
  have quotient : (if 0 ≤ d.exponent then d.coefficient * 10 ^ d.exponent.toNat
      else d.coefficient / 10 ^ (-d.exponent).toNat) = n.natAbs := by
    by_cases scaled : 0 ≤ d.exponent
    · rw [if_pos scaled]
      rw [magnitude, ← ten_whole _ scaled] at size
      have same : ((d.coefficient * 10 ^ d.exponent.toNat : ℕ) : ℚ) = n.natAbs := by
        rw [← size]
        push_cast
        rfl
      exact Nat.cast_injective same
    · rw [if_neg scaled]
      rw [show d.exponent = -((-d.exponent).toNat : ℤ) by omega] at size
      conv_lhs => rw [whole_multiple _ _ _ size]
      exact Nat.mul_div_cancel _ (by positivity)
  rw [quotient]
  rw [Decimal.value, size] at whole
  have signed : ((if d.negative then -(n.natAbs : ℤ) else n.natAbs : ℤ) : ℚ) = n := by
    rw [← whole]
    split <;> simp
  exact_mod_cast signed

end DecimalLib
