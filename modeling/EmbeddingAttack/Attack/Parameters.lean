import EmbeddingAttack.Failure
import EmbeddingAttack.Lattice.FreeDimensions

/-!
# Attack parameters
-/

namespace EmbeddingAttack

/-- Everything that one attack is told. -/
structure AttackParameters (α : Type) where
  /-- The noise rate of the instance. -/
  alpha : α
  /-- The number of samples to use; the predicted number where there is none. -/
  samples : Option Nat
  /-- The margin in the squared length of an acceptable vector. -/
  goalMargin : α
  /-- The time for searches as a multiple of the time for reduction; zero allows no search. -/
  searchTimeFactor : α
  /-- An explicit range of blocksizes. -/
  blocksizes : Option String
  /-- Tours per blocksize. -/
  tours : Nat
  /-- Rows between the windows of a jumping tour. -/
  jump : Nat
  /-- Further free dimensions of the windows of a jumping tour. -/
  extraFreeDimensions : Nat
  /-- Blocksizes below this one use enumeration tours. -/
  enumerationCrossover : Nat
  freeDimensions : FreeDimensions α
  /-- Collect no statistics. -/
  dummyTracer : Bool
  verbose : Bool
  threads : Nat
  /-- Blocksizes to look ahead before a search. -/
  lookaheadSteps : Nat
  /-- Dimensions that a search gets beyond those that it can afford. -/
  searchDimensionMargin : Nat
  costExponent : α
  costOffset : α
  /-- The directory of solutions. -/
  solutionDirectory : String

namespace AttackParameters

variable {α : Type} [Scalar α]

/-- The parameters of an attack that is told nothing. -/
def standard : AttackParameters α where
  alpha := 0.005
  samples := none
  goalMargin := 1.5
  searchTimeFactor := 1
  blocksizes := none
  tours := 1
  jump := 1
  extraFreeDimensions := 12
  enumerationCrossover := 51
  freeDimensions := .standard
  dummyTracer := true
  verbose := true
  threads := 1
  lookaheadSteps := 2
  searchDimensionMargin := 1
  costExponent := 0.292
  costOffset := 64.0
  solutionDirectory := "lwechallenge"

/-- Checks that the parameters make sense; the first that does not is reported. -/
def validate (p : AttackParameters α) : Except (Failure α) Unit := do
  if ¬ (0 < p.alpha ∧ p.alpha < 1) then
    throw (.parameters (.alpha p.alpha))
  if ¬ 0 < p.goalMargin ∨ Scalar.isFinite p.goalMargin = false then
    throw (.parameters (.goalMargin p.goalMargin))
  if ¬ 0 ≤ p.searchTimeFactor ∨ Scalar.isFinite p.searchTimeFactor = false then
    throw (.parameters (.timeFactor p.searchTimeFactor))
  if p.tours = 0 then
    throw (.parameters .noTours)
  if p.jump = 0 then
    throw (.parameters .noJump)
  if p.threads = 0 then
    throw (.parameters .noThreads)
  if ¬ 0 < p.costExponent ∨ Scalar.isFinite p.costExponent = false then
    throw (.parameters (.costExponent p.costExponent))
  if p.samples = some 0 then
    throw (.parameters .noSamples)

end AttackParameters

end EmbeddingAttack
