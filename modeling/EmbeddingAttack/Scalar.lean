import EmbeddingAttack.Arithmetic.Words

/-!
# Numbers of the numeric side

Basis vectors are exact integers; lengths, norms, times and volumes are not.  All code that
handles the latter is written once, over a type `α` of scalars, and uses only the operations of
`Scalar`.  Programs run it on `Float`; a statement about exact arithmetic takes the reals.

The class has no laws on purpose.  A fact proved for every `Scalar α` holds whatever the numeric
operations answer, rounding and undefined values included.

An instance also says which integers the program works with, in its bases and where it cuts a
scalar to an integer.  Programs run on words of 64 bits.
-/

namespace EmbeddingAttack

/-- The operations on scalars.  `toInt` and `toNat` cut off the fraction; `round` goes to the
nearest integer and, from halfway, away from zero; `logGamma` is the logarithm of the gamma
function. -/
class Scalar (α : Type) extends Zero α, One α, NatCast α, IntCast α, OfScientific α,
    Add α, Sub α, Mul α, Div α, Neg α, LE α, LT α where
  decidableLE : DecidableLE α
  decidableLT : DecidableLT α
  isFinite : α → Bool
  abs : α → α
  sqrt : α → α
  round : α → α
  floor : α → α
  exp : α → α
  exp2 : α → α
  log : α → α
  log2 : α → α
  pow : α → α → α
  logGamma : α → α
  pi : α
  e : α
  toInt : α → Int
  toNat : α → Nat
  integers : Integers

namespace Scalar

variable {α : Type} [Scalar α]

@[inline] instance : DecidableLE α := decidableLE

@[inline] instance : DecidableLT α := decidableLT

/-- Equality as the order sees it: an undefined value equals nothing. -/
@[inline] def equal (x y : α) : Bool :=
  decide (x ≤ y) && decide (y ≤ x)

/-- The sum from left to right. -/
@[specialize] def sum (xs : List α) : α :=
  xs.foldl (· + ·) 0

/-- The integer that a scalar is cut to. -/
@[inline] def toWord (x : α) : Int :=
  (integers α).clamp (toInt x)

/-- The size that a scalar is cut to. -/
@[inline] def toSize (x : α) : Nat :=
  min (toNat x) maxWord64

end Scalar

/-! ## Binary64 -/

/-- The coefficients of the fractions in the series of `floatLogGamma`. -/
def gammaTerms : List Float :=
  [1.05142378581721974210, -3.45687097222016235469, 4.51227709466894823700,
    -2.98285225323576655721, 1.05639711577126713077, -1.95428773191645869583e-1,
    1.70970543404441224307e-2, -5.71926117404305781283e-4, 4.63399473359905636708e-6,
    -2.71994908488607703910e-9]

/-- The logarithm of the gamma function at `x ≥ 1`, by a series of eleven terms. -/
def floatLogGamma (x : Float) : Float :=
  let series := (gammaTerms.zipIdx 1).foldl (fun s (d, k) => s + d / (x + Float.ofNat k - 1))
    2.48574089138753565546e-5
  series.log + 0.6207822376352452223455184457816472122518527279025978 +
    (x - 0.5) * ((x - 0.5 + 10.900511) / 2.718281828459045).log

/-- Binary64 arithmetic.  Conversion to an integer clamps to the range of 64-bit words and takes an
undefined value to zero. -/
@[inline] instance : Scalar Float where
  zero := 0
  one := 1
  natCast := Float.ofNat
  intCast := Float.ofInt
  decidableLE := fun x y => Float.decLe x y
  decidableLT := fun x y => Float.decLt x y
  isFinite := Float.isFinite
  abs := Float.abs
  sqrt := Float.sqrt
  round := Float.round
  floor := Float.floor
  exp := Float.exp
  exp2 := Float.exp2
  log := Float.log
  log2 := Float.log2
  pow := Float.pow
  logGamma := floatLogGamma
  pi := 3.141592653589793
  e := 2.718281828459045
  toInt := fun x => x.toInt64.toInt
  toNat := fun x => x.toUInt64.toNat
  integers := .words

end EmbeddingAttack
