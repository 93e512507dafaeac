import EmbeddingAttack.Decimal.Binary
import EmbeddingAttack.Decimal.Rounding

/-!
# The fewest digits that identify a number

The real numbers that round to a binary64 number form an interval around it, ends included exactly
when its mantissa is even.  Among the decimals in the interval those with the fewest digits are
sought, and of these the one closest to the number; of two equally close the greater is taken.
-/

namespace EmbeddingAttack.Decimal

/-- The decimal `digits * 10 ^ exponent`. -/
structure Digits where
  digits : Nat
  exponent : Int
deriving DecidableEq, Repr

/-- Whether `lower < x < upper`, or the ends hold too where `inclusive`. -/
def within (inclusive : Bool) (lower x upper : Nat) : Bool :=
  if inclusive then lower ≤ x && x ≤ upper else lower < x && x < upper

/-- The closest multiple of `10 ^ k` that identifies the number, if one does. -/
def nearestOnGrid? (x : BinaryFraction) (k : Int) : Option Nat :=
  -- quarters of the last binary place, so that the ends of the interval are whole
  let place := Nat.pow 2 (x.exponent - 2).toNat * Nat.pow 10 (-k).toNat
  let unit := Nat.pow 2 (2 - x.exponent).toNat * Nat.pow 10 k.toNat
  let value := 4 * x.mantissa * place
  let lower := (4 * x.mantissa - if x.narrowBelow then 1 else 2) * place
  let upper := (4 * x.mantissa + 2) * place
  let below := value / unit
  let hits := fun d => within (x.mantissa % 2 == 0) lower (d * unit) upper
  match hits below, hits (below + 1) with
  | true, true =>
    some (if value - below * unit < (below + 1) * unit - value then below else below + 1)
  | true, false => some below
  | false, true => some (below + 1)
  | false, false => none

/-- The shortest decimal found on the grids `10 ^ k`, `10 ^ (k - 1)`, …; on the last one the
decimal nearest to the number. -/
def searchGrids (x : BinaryFraction) : (grids : Nat) → (k : Int) → Digits
  | 0, k => ⟨roundToPower x.numerator x.denominator k, k⟩
  | grids + 1, k =>
    match nearestOnGrid? x k with
    | some d => ⟨d, k⟩
    | none => searchGrids x grids (k - 1)

/-- The shortest decimal that identifies the number.  The first grid has no point between zero and
the number, so that a power of ten above it is found first.  Seventeen digits always identify a
number. -/
def shortest (x : BinaryFraction) : Digits :=
  if x.mantissa = 0 then ⟨0, 0⟩
  else searchGrids x 18 (leadingExponent x.numerator x.denominator + 1)

end EmbeddingAttack.Decimal
