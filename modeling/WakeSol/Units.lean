import WakeSol.Lib.Decimal
import WakeSol.Lib.Text

/- The conversion of SOL amounts to lamports. The product is taken in the default
   decimal context, and only the rounded product is checked for being whole. -/
set_option autoImplicit false

namespace WakeSol.Units

open TextLib DecimalLib

def lamportsPerSol : Nat := 1000000000

def scale : Decimal := ⟨false, lamportsPerSol, 0⟩

def defaultContext : Context := ⟨28, -999999, 999999, by decide, by decide⟩

-- The limits of a decimal object on a 64-bit platform.
def maxPrec : Nat := 999999999999999999

def Representable (d : Decimal) : Prop :=
  numDigits d.coefficient ≤ maxPrec ∧ numDigits d.coefficient + d.exponent ≤ maxPrec + 1 ∧ d.exponent ≤ maxPrec ∧
    -(2 * maxPrec - 1) ≤ d.exponent

instance (d : Decimal) : Decidable (Representable d) := inferInstanceAs (Decidable (_ ∧ _ ∧ _ ∧ _))

structure Unicode where
  isSpace : Char → Bool
  decimalDigit : Char → Option (Fin 10)

inductive Literal where
  | finite (d : Decimal)
  | infinite
  | nan
deriving DecidableEq

inductive Number where
  | finite (d : Decimal) (held : Representable d)
  | infinite
  | nan

-- Anything else the caller can pass is one no decimal can be made of.
inductive Amount where
  | int (n : Int)
  | str (text : Text)
  | decimal (number : Number)
  | float
  | other

-- The first is a type error, the last is decimal.Overflow, the others are value errors.
inductive SolError where
  | floatRefused
  | unreadable
  | notFinite
  | notWhole (lamports : Decimal)
  | overflow
deriving DecidableEq

def asciiOf (unicode : Unicode) (c : Char) : Option Char :=
  if 0 < c.toNat ∧ c.toNat ≤ 127 then some c
  else if unicode.isSpace c then some ' '
  else (unicode.decimalDigit c).map fun d => digitChar d

def numericAsAscii (unicode : Unicode) (text : Text) : Option Text :=
  (((text.rdropWhile unicode.isSpace).dropWhile unicode.isSpace).filter fun c => c ≠ '_').mapM (asciiOf unicode)

def splitSign : Text → Bool × Text
  | '-' :: rest => (true, rest)
  | '+' :: rest => (false, rest)
  | text => (false, text)

def isDigit (c : Char) : Bool := (digitValue c).isSome

def readExponent : Text → Option Int
  | [] => some 0
  | c :: rest =>
    let (negative, digits) := splitSign rest
    if c.toLower ≠ 'e' ∨ digits = [] then none
    else (digitsValue 0 digits).map fun n => if negative then -n else n

def readFinite (negative : Bool) (text : Text) : Option Literal := do
  let (whole, rest) := text.span isDigit
  let (fraction, rest) := match rest with
    | '.' :: more => more.span isDigit
    | _ => ([], rest)
  let coefficient ← if whole ++ fraction = [] then none else digitsValue 0 (whole ++ fraction)
  let exponent ← readExponent rest
  return .finite ⟨negative, coefficient, exponent - fraction.length⟩

def readLiteral (text : Text) : Option Literal :=
  let (negative, rest) := splitSign text
  let lower := rest.map Char.toLower
  if lower = "inf".toList ∨ lower = "infinity".toList then some .infinite
  else if lower.take 3 = "nan".toList ∧ (lower.drop 3).all isDigit = true then some .nan
  else if lower.take 4 = "snan".toList ∧ (lower.drop 4).all isDigit = true then some .nan
  else readFinite negative rest

def ofInt (n : Int) : Decimal := ⟨decide (n < 0), n.natAbs, 0⟩

def literal (unicode : Unicode) : Amount → Option Literal
  | .int n => some (.finite (ofInt n))
  | .str text => (numericAsAscii unicode text).bind readLiteral
  | .decimal (.finite d _) => some (.finite d)
  | .decimal .infinite => some .infinite
  | .decimal .nan => some .nan
  | .float => none
  | .other => none

def toDecimal (unicode : Unicode) (amount : Amount) : Option Number :=
  (literal unicode amount).bind fun read => match read with
    | .finite d => if held : Representable d then some (.finite d held) else none
    | .infinite => some .infinite
    | .nan => some .nan

def checkWhole : Option Decimal → Except SolError Int
  | none => .error .overflow
  | some lamports =>
    if lamports.value ≠ lamports.toIntegralValue.value then .error (.notWhole lamports) else .ok lamports.truncate

def convertNumber : Option Number → Except SolError Int
  | none => .error .unreadable
  | some (.finite asDecimal _) => checkWhole (defaultContext.mul asDecimal scale)
  | some .infinite => .error .notFinite
  | some .nan => .error .notFinite

def sol (unicode : Unicode) : Amount → Except SolError Int
  | .float => .error .floatRefused
  | amount => convertNumber (toDecimal unicode amount)

def Exact (result : Except SolError Int) (product : ℚ) : Prop := ∀ n : ℤ, result = .ok n ↔ product = n

def lamports (d : Decimal) : ℚ := d.value * lamportsPerSol

-- A whole product survives when its digits fit the context, another one when no
-- whole number lies within half a unit in its last place; amounts that no decimal
-- object can hold and products past the largest exponent raise whatever they are.
structure Faithful (d : Decimal) : Prop where
  whole : ∀ p : ℤ, lamports d = p → Representable d ∧ (p = 0 ∨ Short 28 p ∧ p.natAbs < 10 ^ 1000000)
  fraction : (∀ n : ℤ, lamports d ≠ n) → Representable d → defaultContext.limit ≤ |lamports d| ∨
    ∀ n : ℤ, defaultContext.spacing (lamports d) / 2 < |n - lamports d|

def product (d : Decimal) : Decimal := ⟨d.negative, d.coefficient * lamportsPerSol, d.exponent⟩

theorem mul_scale (d : Decimal) : defaultContext.mul d scale = defaultContext.finish (product d) := by
  simp [Context.mul, scale, product]

theorem product_value (d : Decimal) : (product d).value = lamports d := by
  have size : magnitude (d.coefficient * lamportsPerSol) d.exponent = magnitude d.coefficient d.exponent * lamportsPerSol := by
    rw [magnitude, magnitude, Nat.cast_mul]
    ring
  rw [lamports, Decimal.value, Decimal.value, mul_assoc, ← size]
  rfl

theorem decimal_read (unicode : Unicode) (amount : Amount) (d : Decimal)
    (isDecimal : literal unicode amount = some (.finite d)) (held : Representable d) :
    toDecimal unicode amount = some (.finite d held) := by
  rw [toDecimal, isDecimal, Option.bind_some]
  exact dif_pos held

theorem decimal_refused (unicode : Unicode) (amount : Amount) (d : Decimal)
    (isDecimal : literal unicode amount = some (.finite d)) (large : ¬ Representable d) : toDecimal unicode amount = none := by
  rw [toDecimal, isDecimal, Option.bind_some]
  exact dif_neg large

theorem check_whole_iff (rounded : Option Decimal) (n : ℤ) :
    checkWhole rounded = .ok n ↔ ∃ r, rounded = some r ∧ r.value = n := by
  cases rounded with
  | none => simp [checkWhole]
  | some r =>
    by_cases whole : r.value = r.toIntegralValue.value
    · obtain ⟨m, isWhole⟩ := (integral_iff r).mp whole
      simp [checkWhole, ← whole, truncate_whole r m isWhole, isWhole]
    · have fraction : r.value ≠ n := fun isWhole => whole ((integral_iff r).mpr ⟨n, isWhole⟩)
      simp [checkWhole, whole, fraction]

theorem sol_returns_iff (unicode : Unicode) (amount : Amount) (d : Decimal)
    (isDecimal : literal unicode amount = some (.finite d)) (n : ℤ) :
    sol unicode amount = .ok n ↔ Representable d ∧ ∃ r, defaultContext.finish (product d) = some r ∧ r.value = n := by
  have converted : sol unicode amount = convertNumber (toDecimal unicode amount) := by
    cases amount with
    | float => cases isDecimal
    | _ => rfl
  rw [converted]
  by_cases held : Representable d
  · rw [decimal_read unicode amount d isDecimal held, convertNumber, check_whole_iff, mul_scale]
    exact ⟨fun rounded => ⟨held, rounded⟩, fun rounded => rounded.2⟩
  · rw [decimal_refused unicode amount d isDecimal held, convertNumber]
    simp [held]

theorem product_zero (d : Decimal) : (product d).coefficient = 0 ↔ lamports d = 0 := by
  have size := value_abs (product d)
  rw [product_value] at size
  rw [← abs_eq_zero, size, magnitude, mul_eq_zero, Nat.cast_eq_zero]
  simp [zpow_ne_zero]

theorem zero_finish (d : Decimal) (zero : (product d).coefficient = 0) :
    ∃ r, defaultContext.finish (product d) = some r ∧ r.value = 0 := by
  rw [Context.finish, if_pos zero]
  exact ⟨_, rfl, by simp [Decimal.value, magnitude, zero]⟩

theorem whole_exact_iff (d : Decimal) (p : ℤ) (whole : lamports d = p) :
    (∃ r, defaultContext.finish (product d) = some r ∧ r.value = p) ↔
      p = 0 ∨ Short 28 p ∧ p.natAbs < 10 ^ 1000000 := by
  by_cases zero : p = 0
  · rw [zero] at whole ⊢
    have empty : (product d).coefficient = 0 := (product_zero d).mpr (by simpa using whole)
    exact iff_of_true (by simpa using zero_finish d empty) (Or.inl rfl)
  · have nonzero : (product d).coefficient ≠ 0 := by
      rw [ne_eq, product_zero, whole]
      exact_mod_cast zero
    have overflow := finish_overflows defaultContext (product d) nonzero
    have exact (r : Decimal) := finish_exact_iff defaultContext (product d) r nonzero
    rw [product_value, whole] at overflow
    simp only [product_value, whole, whole_short_iff defaultContext (by decide) p zero] at exact
    have limit (short : Short 28 p) : |(p : ℚ)| < defaultContext.limit ↔ p.natAbs < 10 ^ 1000000 := by
      have top : (defaultContext.emax + 1).toNat = 1000000 := by decide
      rw [← top]
      exact short_limit defaultContext (by decide) p short
    rw [or_iff_right zero]
    constructor
    · rintro ⟨r, finished, same⟩
      have short := (exact r finished).mp same
      refine ⟨short, (limit short).mp (not_le.mp fun large => ?_)⟩
      rw [overflow.mpr large] at finished
      cases finished
    · rintro ⟨short, small⟩
      cases finished : defaultContext.finish (product d) with
      | none => exact absurd (overflow.mp finished) (not_le.mpr ((limit short).mpr small))
      | some r => exact ⟨r, rfl, (exact r finished).mpr short⟩

theorem fraction_exact_iff (d : Decimal) (fraction : ∀ n : ℤ, lamports d ≠ n) :
    (∀ n : ℤ, ¬ ∃ r, defaultContext.finish (product d) = some r ∧ r.value = n) ↔
      defaultContext.limit ≤ |lamports d| ∨ ∀ n : ℤ, defaultContext.spacing (lamports d) / 2 < |n - lamports d| := by
  have nonzero : (product d).coefficient ≠ 0 := by
    rw [ne_eq, product_zero]
    exact_mod_cast fraction 0
  have overflow := finish_overflows defaultContext (product d) nonzero
  rw [product_value] at overflow
  rw [← overflow]
  cases finished : defaultContext.finish (product d) with
  | none => simp
  | some r =>
    have whole := finish_whole_iff defaultContext (product d) r nonzero finished
    rw [product_value] at whole
    simp only [reduceCtorEq, false_or, Option.some.injEq, exists_eq_left', ← not_exists, whole, ← not_le]

theorem sol_exact_iff (unicode : Unicode) (amount : Amount) (d : Decimal)
    (isDecimal : literal unicode amount = some (.finite d)) :
    Exact (sol unicode amount) (d.value * lamportsPerSol) ↔ Faithful d := by
  change (∀ n : ℤ, sol unicode amount = .ok n ↔ lamports d = n) ↔ Faithful d
  simp only [sol_returns_iff unicode amount d isDecimal]
  constructor
  · intro exact
    constructor
    · intro p whole
      obtain ⟨held, rounded⟩ := (exact p).mpr whole
      exact ⟨held, (whole_exact_iff d p whole).mp rounded⟩
    · intro fraction held
      refine (fraction_exact_iff d fraction).mp fun n rounded => ?_
      exact fraction n ((exact n).mp ⟨held, rounded⟩)
  · rintro ⟨whole, fraction⟩ n
    by_cases isWhole : ∃ p : ℤ, lamports d = p
    · obtain ⟨p, same⟩ := isWhole
      obtain ⟨held, fits⟩ := whole p same
      obtain ⟨r, finished, value⟩ := (whole_exact_iff d p same).mpr fits
      simp [held, finished, value, same]
    · rw [not_exists] at isWhole
      simp only [isWhole n, iff_false]
      rintro ⟨held, rounded⟩
      exact (fraction_exact_iff d isWhole).mpr (fraction isWhole held) n rounded

def asciiTable : Unicode := ⟨fun c => c == ' ', fun _ => none⟩

def oneAndHalf : Amount := .str "1.5".toList

theorem sol_exact_half : literal asciiTable oneAndHalf = some (.finite ⟨false, 15, -1⟩) ∧
    (Exact (sol asciiTable oneAndHalf) ((⟨false, 15, -1⟩ : Decimal).value * lamportsPerSol) ↔ Faithful ⟨false, 15, -1⟩) :=
  ⟨by decide +kernel, sol_exact_iff asciiTable oneAndHalf ⟨false, 15, -1⟩ (by decide +kernel)⟩

def oneOver : Amount := .int (10 ^ 28 + 1)

def barelyOver : Amount := .str "1.00000000000000000000000000000000001".toList

-- The product of the first has 38 digits and loses the last ten; the product of
-- the second is no whole number of lamports, but its rounding is.
theorem sol_rounds : sol asciiTable oneOver = .ok (10 ^ 37) ∧
    literal asciiTable oneOver = some (.finite ⟨false, 10 ^ 28 + 1, 0⟩) ∧
    ¬ Exact (sol asciiTable oneOver) ((⟨false, 10 ^ 28 + 1, 0⟩ : Decimal).value * lamportsPerSol) ∧
    sol asciiTable barelyOver = .ok 1000000000 ∧
    literal asciiTable barelyOver = some (.finite ⟨false, 10 ^ 35 + 1, -35⟩) ∧
    ¬ Exact (sol asciiTable barelyOver) ((⟨false, 10 ^ 35 + 1, -35⟩ : Decimal).value * lamportsPerSol) := by
  have first : sol asciiTable oneOver = .ok (10 ^ 37) := by
    refine (sol_returns_iff asciiTable oneOver ⟨false, 10 ^ 28 + 1, 0⟩ (by decide +kernel) _).mpr ⟨by decide +kernel, ?_⟩
    refine ⟨⟨false, 10 ^ 27, 10⟩, by decide +kernel, ?_⟩
    norm_num [Decimal.value, magnitude]
  have second : sol asciiTable barelyOver = .ok 1000000000 := by
    refine (sol_returns_iff asciiTable barelyOver ⟨false, 10 ^ 35 + 1, -35⟩ (by decide +kernel) _).mpr ⟨by decide +kernel, ?_⟩
    refine ⟨⟨false, 10 ^ 27, -18⟩, by decide +kernel, ?_⟩
    norm_num [Decimal.value, magnitude]
  refine ⟨first, by decide +kernel, fun exact => ?_, second, by decide +kernel, fun exact => ?_⟩
  · have same := (exact _).mp first
    norm_num [Decimal.value, magnitude, lamportsPerSol] at same
  · have same := (exact _).mp second
    norm_num [Decimal.value, magnitude, lamportsPerSol] at same

end WakeSol.Units
