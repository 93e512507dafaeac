import EmbeddingAttack.Lattice.Basis

/-!
# Nearest-plane lifting

A vector of a projected block is lifted to the whole lattice row by row: each earlier row is added
as often as brings the sum closest to its hyperplane.
-/

namespace EmbeddingAttack

/-- A lifted vector: its coefficients on the rows from the first on, and the squared lengths of its
projections at the indices `0, …, start`, where `start` is the index that it was lifted from. -/
structure Lift (α : Type) where
  coefficients : List Int
  norms : List α
deriving DecidableEq

namespace LatticeBasis

variable {α : Type} [Scalar α] {n m : Nat}

/-- The coefficient along row `j` of the combination of the rows from `i` on with the given
coefficients. -/
@[specialize] def offset (L : LatticeBasis α n m) (j : Nat) : (i : Nat) → List Int → α → α
  | _, [], y => y
  | i, x :: xs, y =>
    offset L j (i + 1) xs (if x = 0 then y else y + (x : α) * L.coefficient i j)

/-- Lifts the combination of the rows from `j` on over the rows `j - 1`, …, `0`.  `norm` is the
squared length of its projection at `j`, and `norms` are those at the later indices. -/
@[specialize] def liftOver (L : LatticeBasis α n m) :
    (j : Nat) → (coefficients : List Int) → (norm : α) → (norms : List α) → Lift α
  | 0, coefficients, norm, norms => ⟨coefficients, norm :: norms⟩
  | j + 1, coefficients, norm, norms =>
    let y := offset L j (j + 1) coefficients 0
    let x := Scalar.round (-y)
    let residual := x + y
    liftOver L j (Scalar.toWord x :: coefficients) (norm + residual * residual * L.length j)
      (norm :: norms)

/-- Lifts the combination of the rows from `start` on with the given coefficients, the squared
length of whose projection at `start` is `norm`. -/
@[specialize] def nearestPlaneLift (L : LatticeBasis α n m) (start : Nat) (coefficients : List Int)
    (norm : α) : Lift α :=
  liftOver L start coefficients norm []

/-- The same for a caller who may name rows beyond the basis.  Without rows to lift over, no row is
looked at; else all rows that take part must be there. -/
@[specialize] def tryNearestPlaneLift (L : LatticeBasis α n m) (start : Nat)
    (coefficients : List Int) (norm : α) : Except (Failure α) (Lift α) :=
  if 0 < start ∧ (n < start ∨ (coefficients.drop (n - start)).any (· ≠ 0)) then throw .outOfRange
  else return L.nearestPlaneLift start coefficients norm

end LatticeBasis

end EmbeddingAttack
