import EmbeddingAttack.Attack.Loop
import EmbeddingAttack.Embedding
import EmbeddingAttack.Estimate
import EmbeddingAttack.Instance.Basic

/-!
# Preparing an attack

Everything that is settled before an engine starts to work: the instance, the predicted parameters,
the goal, the schedule and the basis.
-/

namespace EmbeddingAttack

/-- An attack: its parameters, where its instances come from, and how its parameters are
predicted. -/
structure Attack (α : Type) where
  parameters : AttackParameters α
  source : InstanceSource α
  estimator : Estimator α

/-- What is settled before the first tour. -/
structure Preparation (α : Type) where
  parameters : InstanceParameters α
  prediction : Prediction
  targetNorm : α
  schedule : Schedule
  basis : SomeLatticeBasis α

namespace Attack

variable {α : Type} [Scalar α]

/-- Prepares the attack on the instance for a dimension and a seed. -/
@[specialize] def prepare (A : Attack α) (n seed : Nat) : Except (Failure α) (Preparation α) := do
  let p := A.parameters
  p.validate
  let I ← A.source n p.alpha seed
  let decouple := decide (0 < p.searchTimeFactor)
  let prediction ← A.estimator I.n I.alpha I.q decouple (some I.samples)
  let m := p.samples.getD prediction.samples
  let parameters ← I.parameters m
  let target := targetNorm p.goalMargin parameters.alpha parameters.q m
  let schedule ← Schedule.build p.blocksizes prediction.blocksize
  if schedule.blocksizes.isEmpty then
    throw (.parameters .emptySchedule)
  let basis ← I.primalBasis m
  return ⟨parameters, prediction, target, schedule, basis⟩

end Attack

end EmbeddingAttack
