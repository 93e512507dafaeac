import EmbeddingAttack.Profile.Basic

/-!
# Volumes of balls and the Gaussian heuristic

The Gaussian heuristic predicts the squared length of a shortest vector of a lattice: that of the
radius of the ball whose volume is the volume of the lattice.
-/

namespace EmbeddingAttack

variable {α : Type} [Scalar α]

/-- The logarithm of the volume of the unit ball in dimension `n`. -/
@[specialize] def ballLogVolume (n : Nat) : α :=
  let x : α := n
  x / 2.0 * Scalar.log Scalar.pi - Scalar.logGamma (x / 2.0 + 1)

/-- The Gaussian heuristic for a lattice with the given squared orthogonalised lengths. -/
@[specialize] def gaussianHeuristic (lengths : List α) : α :=
  if lengths.isEmpty then 0
  else
    let n := lengths.length
    let logVolume := Scalar.sum (lengths.map Scalar.log)
    Scalar.exp ((logVolume - 2.0 * ballLogVolume n) / (n : α))

namespace Profile

/-- The Gaussian heuristic for the projected lattice from row `start` on, which is zero at the
dimension itself; none beyond it. -/
@[specialize] def suffixGaussianHeuristic? (p : Profile α) (start : Nat) : Option α :=
  if start ≤ p.dimension then some (gaussianHeuristic (p.lengths.drop start)) else none

/-- The Gaussian heuristic for the projected lattice from row `start` on. -/
@[specialize] def suffixGaussianHeuristic (p : Profile α) (start : Nat) : α :=
  gaussianHeuristic (p.lengths.drop start)

end Profile

end EmbeddingAttack
