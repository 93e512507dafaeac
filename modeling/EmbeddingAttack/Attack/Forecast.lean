import EmbeddingAttack.Attack.CostModel
import EmbeddingAttack.Profile.GaussianHeuristic

/-!
# Forecasts of the search dimension

Which dimension a search can afford, and which it needs.
-/

namespace EmbeddingAttack

/-- What the forecasts of one run have in common: the cost model, the squared length of an
acceptable vector, and the margin contained in it. -/
structure Forecaster (α : Type) where
  cost : CostModel α
  targetNorm : α
  goalMargin : α

namespace Forecaster

variable {α : Type} [Scalar α]

/-- The greatest search dimension affordable in a multiple of the elapsed time. -/
@[specialize] def attainable (f : Forecaster α) (elapsed factor : α) : Nat :=
  f.cost.attainable (factor * elapsed)

/-- Whether the projection of the error vector on the last `k` dimensions is expected to be the
shortest vector there. -/
@[specialize] def isSuccess (f : Forecaster α) (p : Profile α) (k : Nat) : Bool :=
  let d := p.dimension
  let projected := f.targetNorm / f.goalMargin * (k : α) / (d : α)
  decide (projected < 4.0 / 3.0 * gaussianHeuristic (p.lengths.drop (d - k)))

/-- The least search dimension from two to below the dimension of the basis that is expected to
find the error vector. -/
@[specialize] def successDimension (f : Forecaster α) (p : Profile α) :
    Except (Failure α) Nat :=
  match (List.range' 2 (p.dimension - 2)).find? (f.isSuccess p) with
  | some k => return k
  | none => throw (.degenerateProfile p.dimension f.targetNorm)

end Forecaster

end EmbeddingAttack
