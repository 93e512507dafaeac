import EmbeddingAttack.Scalar
import Mathlib.Data.Nat.Sqrt
import Mathlib.Data.Rat.Floor

/-!
# Fractions as scalars

Fractions carry the numeric side where a run is to be evaluated: their sums, products, quotients and
comparisons are exact.  Roots are rounded down to a multiple of `2⁻³²` over the denominator, and
powers of two and logarithms are interpolated linearly between the integers.  The integers are the
words of 64 bits.
-/

namespace EmbeddingAttack

/-- A fraction, as a scalar. -/
def Fraction : Type := ℚ

namespace Fraction

/-- The nearest integer and, from halfway, the one away from zero. -/
def round (x : ℚ) : ℤ :=
  if 0 ≤ x then ⌊x + 1 / 2⌋ else -⌊1 / 2 - x⌋

/-- The integer part, the fraction being cut off. -/
def truncate (x : ℚ) : ℤ :=
  if 0 ≤ x then ⌊x⌋ else -⌊-x⌋

def sqrt (x : ℚ) : ℚ :=
  (Nat.sqrt (x.num.toNat * x.den * 4 ^ 32) : ℚ) / (x.den * 2 ^ 32)

/-- The exponent of the largest power of two up to a positive fraction. -/
def exponent (x : ℚ) : ℤ :=
  let k : ℤ := (Nat.log2 x.num.toNat : ℤ) - Nat.log2 x.den
  if x < 2 ^ k then k - 1 else k

def exp2 (x : ℚ) : ℚ :=
  (1 + (x - ⌊x⌋)) * 2 ^ ⌊x⌋

def log2 (x : ℚ) : ℚ :=
  exponent x + (x / 2 ^ exponent x - 1)

/-- The natural logarithm of two. -/
def logTwo : ℚ := 0.693147180559945

/-- Stirling's approximation of the logarithm of the gamma function. -/
def logGamma (x : ℚ) : ℚ :=
  (x - 1 / 2) * (log2 x * logTwo) - x + 0.918938533204673

instance scalar : Scalar Fraction where
  zero := (0 : ℚ)
  one := (1 : ℚ)
  natCast n := (n : ℚ)
  intCast n := (n : ℚ)
  ofScientific m s e := (OfScientific.ofScientific m s e : ℚ)
  add := fun (x y : ℚ) => x + y
  sub := fun (x y : ℚ) => x - y
  mul := fun (x y : ℚ) => x * y
  div := fun (x y : ℚ) => x / y
  neg := fun (x : ℚ) => -x
  le := fun (x y : ℚ) => x ≤ y
  lt := fun (x y : ℚ) => x < y
  decidableLE := fun (x y : ℚ) => inferInstanceAs (Decidable (x ≤ y))
  decidableLT := fun (x y : ℚ) => inferInstanceAs (Decidable (x < y))
  isFinite _ := true
  abs := fun (x : ℚ) => if 0 ≤ x then x else -x
  sqrt := sqrt
  round := fun (x : ℚ) => (round x : ℚ)
  floor := fun (x : ℚ) => (⌊x⌋ : ℚ)
  exp := fun (x : ℚ) => exp2 (x / logTwo)
  exp2 := exp2
  log := fun (x : ℚ) => log2 x * logTwo
  log2 := log2
  pow := fun (x y : ℚ) => exp2 (y * log2 x)
  logGamma := logGamma
  pi := (3.141592653589793 : ℚ)
  e := (2.718281828459045 : ℚ)
  toInt := truncate
  toNat := fun (x : ℚ) => (truncate x).toNat
  integers := .words

instance : DecidableEq Fraction :=
  inferInstanceAs (DecidableEq ℚ)

end Fraction

end EmbeddingAttack
