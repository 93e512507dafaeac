import EmbeddingAttack.Scalar

/-!
# Dimensions for free

How many dimensions of a block a search gets for free by lifting: a function of the blocksize.
-/

namespace EmbeddingAttack

/-- The ways to compute the number of free dimensions: the usual linear rule, the asymptotic
estimate, and a linear rule of one's own. -/
inductive FreeDimensions (α : Type) where
  | standard
  | asymptotic
  | linear (intercept slope : α)
deriving BEq

namespace FreeDimensions

variable {α : Type} [Scalar α]

/-- The value of the rule before it is cut to a number of dimensions. -/
@[specialize] def value (f : FreeDimensions α) (blocksize : Nat) : α :=
  let b : α := blocksize
  match f with
  | .standard => 11.5 + 0.075 * b
  | .asymptotic =>
    let growth := Scalar.log (b / (2.0 * Scalar.pi * Scalar.e))
    if 0 < growth then b * Scalar.log (4.0 / 3.0) / growth else 0
  | .linear intercept slope => intercept + slope * b

/-- The number of free dimensions at a blocksize, zero where the rule has no positive value. -/
@[specialize] def count (f : FreeDimensions α) (blocksize : Nat) : Nat :=
  let x := f.value blocksize
  if Scalar.isFinite x = true ∧ 0 < x then Scalar.toSize (Scalar.floor x) else 0

end FreeDimensions

end EmbeddingAttack
