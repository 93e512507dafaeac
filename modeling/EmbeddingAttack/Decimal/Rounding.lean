/-!
# Rounding fractions to decimal grids

A fraction of natural numbers is rounded to a multiple of a power of ten.  A number halfway
between two multiples goes to the even one.
-/

namespace EmbeddingAttack.Decimal

/-- The integer nearest to `numerator / denominator`, the even one of two. -/
def roundHalfEven (numerator denominator : Nat) : Nat :=
  let quotient := numerator / denominator
  let twice := 2 * (numerator % denominator)
  if twice < denominator then quotient
  else if denominator < twice then quotient + 1
  else quotient + quotient % 2

/-- Whether `10 ^ k ≤ numerator / denominator`. -/
def powerAtMost (k : Int) (numerator denominator : Nat) : Bool :=
  denominator * Nat.pow 10 k.toNat ≤ numerator * Nat.pow 10 (-k).toNat

/-- The greatest `k` with `10 ^ k ≤ numerator / denominator` that is at most `k + steps`, found
upwards from `k`. -/
def leadingFrom (numerator denominator : Nat) : (steps : Nat) → (k : Int) → Int
  | 0, k => k
  | steps + 1, k =>
    if powerAtMost (k + 1) numerator denominator then
      leadingFrom numerator denominator steps (k + 1)
    else k

/-- The exponent of the leading decimal digit of a positive fraction.  The search starts at an
estimate from the binary logarithms that is too low by three at most. -/
def leadingExponent (numerator denominator : Nat) : Int :=
  let estimate := ((numerator.log2 : Int) - denominator.log2 - 1) * 30103 / 100000 - 1
  leadingFrom numerator denominator 5 estimate

/-- The multiple of `10 ^ k` nearest to the fraction, as the number of such steps. -/
def roundToPower (numerator denominator : Nat) (k : Int) : Nat :=
  roundHalfEven (numerator * Nat.pow 10 (-k).toNat) (denominator * Nat.pow 10 k.toNat)

end EmbeddingAttack.Decimal
