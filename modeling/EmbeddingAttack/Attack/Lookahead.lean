import EmbeddingAttack.Attack.Forecast
import EmbeddingAttack.Attack.TimingTable
import EmbeddingAttack.Engine.Basic

/-!
# Looking ahead

Before a search, the next blocksizes of the schedule are simulated.  If some of them would make the
search cheaper by more than they cost, reduction goes on.
-/

namespace EmbeddingAttack

/-- A simulated tour: its own time, the time of all simulated tours up to it, the search dimension
expected after it, and whether it pays to go on up to it. -/
structure LookaheadStep (α : Type) where
  blocksize : Nat
  tourTime : α
  extraTime : α
  successDimension : Nat
  moreReduction : Bool

/-- Whether some simulated tour pays for itself. -/
def moreReduction {α : Type} (steps : List (LookaheadStep α)) : Bool :=
  steps.any (·.moreReduction)

namespace CostModel

variable {α : Type} [Scalar α]

/-- Whether it pays to spend some time on reduction that takes the search dimension from `current`
to `simulated`. -/
def paysOff (cost : CostModel α) (current simulated : Nat) (extraTime : α) : Bool :=
  if current ≤ simulated then false
  else
    let difference := ((current - simulated : Nat) : α)
    let saved := (1 - Scalar.exp2 (-cost.exponent * difference)) * cost.searchTime (current : α)
    decide (extraTime < saved)

end CostModel

/-- What stays fixed while looking ahead: the forecaster, the search dimension without further
tours, and the number of tours to simulate at each blocksize. -/
structure Lookahead (α : Type) where
  forecaster : Forecaster α
  currentDimension : Nat
  tours : Nat

namespace Lookahead

variable {α σ β : Type} [Scalar α]

/-- Simulates the given blocksizes one after the other.  The time of a tour is extrapolated from
that of the tour before it. -/
def simulate (engine : Engine α σ β) (s : Lookahead α) :
    List Nat → (timings : TimingTable α) → (previous : Nat) → Profile α → (extraTime : α) →
      EStateM (Failure α) σ (List (LookaheadStep α))
  | [], _, _, _, _ => return []
  | b :: rest, timings, previous, profile, extraTime => do
    let profile ← engine.simulate profile b s.tours
    let some time := timings.get? previous
      | throw (.parameters (.noTourTime previous))
    let tourTime := time * s.forecaster.cost.ratio (b : α) (previous : α)
    let extraTime := extraTime + tourTime
    let dimension ← ofExcept (s.forecaster.successDimension profile)
    let step : LookaheadStep α :=
      ⟨b, tourTime, extraTime, dimension,
        s.forecaster.cost.paysOff s.currentDimension dimension extraTime⟩
    return step :: (← simulate engine s rest (timings.insert b tourTime) b profile extraTime)

/-- Simulates the upcoming blocksizes after `blocksize`, for which a time is recorded. -/
def run (engine : Engine α σ β) (s : Lookahead α) (timings : TimingTable α) (blocksize : Nat)
    (profile : Profile α) (upcoming : List Nat) :
    EStateM (Failure α) σ (List (LookaheadStep α)) :=
  simulate engine s upcoming timings blocksize profile 0

end Lookahead

end EmbeddingAttack
