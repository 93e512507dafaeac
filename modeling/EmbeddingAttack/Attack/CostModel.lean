import EmbeddingAttack.Scalar

/-!
# The cost of searches

The time of a search grows exponentially with its dimension: `2 ^ (exponent * (dim - offset))`
seconds on one thread.
-/

namespace EmbeddingAttack

/-- A cost model: the exponent, the dimension that takes one second on one thread, and the number
of threads. -/
structure CostModel (α : Type) where
  exponent : α
  offset : α
  threads : Nat

namespace CostModel

variable {α : Type} [Scalar α]

/-- The model for the given number of threads, at least one. -/
def of (exponent offset : α) (threads : Nat) : CostModel α :=
  ⟨exponent, offset, max threads 1⟩

/-- The expected time of a search. -/
@[specialize] def searchTime (model : CostModel α) (dim : α) : α :=
  Scalar.exp2 (model.exponent * (dim - model.offset)) / (model.threads : α)

/-- How much longer work in dimension `target` takes than in dimension `source`. -/
@[specialize] def ratio (model : CostModel α) (target source : α) : α :=
  Scalar.exp2 (model.exponent * (target - source))

/-- The greatest dimension whose expected search time is within the budget, or zero. -/
@[specialize] def attainable (model : CostModel α) (budget : α) : Nat :=
  if 0 < budget then
    let dim := model.offset + Scalar.log2 (budget * (model.threads : α)) / model.exponent
    if Scalar.isFinite dim = true ∧ 0 < dim then Scalar.toSize (Scalar.floor dim) else 0
  else 0

end CostModel

end EmbeddingAttack
