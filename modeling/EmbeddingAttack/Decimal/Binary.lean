/-!
# Binary64 numbers as exact values

The bits of a binary64 number say which number it is.  All decimal texts of numbers are computed
from that exact value in integer arithmetic.
-/

namespace EmbeddingAttack

/-- A finite number `mantissa * 2 ^ exponent`, up to its sign.  Below a power of two the distance
to the next number is half the distance above it, which `narrowBelow` marks. -/
structure BinaryFraction where
  mantissa : Nat
  exponent : Int
  narrowBelow : Bool
deriving DecidableEq

/-- What a binary64 number stands for. -/
inductive BinaryValue where
  | undefined
  | infinite (negative : Bool)
  | finite (negative : Bool) (magnitude : BinaryFraction)
deriving DecidableEq

namespace BinaryValue

/-- The bit before the fraction field, `2 ^ 52`, which is not stored. -/
def leadingBit : Nat := 4503599627370496

/-- The value with the given sign, exponent field and fraction field. -/
def ofFields (negative : Bool) (exponent fraction : Nat) : BinaryValue :=
  if exponent = 2047 then
    if fraction = 0 then .infinite negative else .undefined
  else if exponent = 0 then .finite negative ⟨fraction, -1074, false⟩
  else .finite negative ⟨leadingBit + fraction, (exponent : Int) - 1075, fraction = 0 ∧ 1 < exponent⟩

/-- The value of a number: a sign bit, eleven bits for the exponent and 52 for the fraction. -/
def ofFloat (x : Float) : BinaryValue :=
  let bits := x.toBits.toNat
  ofFields (bits / leadingBit / 2048 = 1) (bits / leadingBit % 2048) (bits % leadingBit)

end BinaryValue

namespace BinaryFraction

/-- The numerator of the value as a fraction. -/
def numerator (x : BinaryFraction) : Nat :=
  x.mantissa * Nat.pow 2 x.exponent.toNat

/-- The denominator of the value as a fraction. -/
def denominator (x : BinaryFraction) : Nat :=
  Nat.pow 2 (-x.exponent).toNat

end BinaryFraction

end EmbeddingAttack
