import EmbeddingAttack.Engine.Journal
import EmbeddingAttack.Profile.Simulation

/-!
# Scripted engines

An engine that works on no lattice but follows a script, to rehearse a schedule: the script says
which profile the basis has, how tours change it, and when the basis counts as solved.
-/

namespace EmbeddingAttack

/-- How a simulation changes a profile. -/
inductive SimulationScript (α : Type) where
  /-- Not at all. -/
  | identity
  /-- As the simulator does. -/
  | simulator
  /-- Each length is multiplied so that the slope changes by the amount given, for blocksizes up to
  the bound where there is one. -/
  | tilt (amount : α) (bound : Option Nat)

/-- The squared lengths with their slope changed by some amount, the middle staying as it is. -/
def tiltLengths {α : Type} [Scalar α] (amount : α) (lengths : List α) : List α :=
  let d : α := lengths.length
  lengths.zipIdx.map fun (x, i) => x * Scalar.exp (amount * ((i : α) - (d - 1) / 2.0))

namespace SimulationScript

variable {α : Type} [Scalar α]

/-- Simulates tours as the script says. -/
def run (script : SimulationScript α) (p : Profile α) (blocksize tours : Nat) :
    Except (Failure α) (Profile α) :=
  match script with
  | .identity => return p
  | .simulator => p.simulate blocksize tours
  | .tilt amount bound =>
    if bound.any (· < blocksize) then return p
    else Profile.ofLengths (tiltLengths amount p.lengths)

/-- An engine that only simulates. -/
def engine (script : SimulationScript α) : Engine α Unit Unit where
  load _ := pure ()
  tour _ := pure ()
  search _ _ := return ⟨none, false, false⟩
  simulate profile blocksize tours := ofExcept (script.run profile blocksize tours)
  clean := pure ()
  profile _ := .error (.parameters .emptyProfile)
  firstLength _ := .error .outOfRange
  firstRow _ := []

end SimulationScript

structure Script (α : Type) where
  lengths : List α
  pace : Pace α
  failingTour : Option Nat
  tourTilt : Option α
  solvingBlocksize : Option Nat
  solvingSearch : Option Nat
  solvedNorm : α
  simulation : SimulationScript α

/-- A basis of a scripted engine: its squared lengths and whether it is solved. -/
structure ScriptedBasis (α : Type) where
  lengths : List α
  solved : Bool

namespace ScriptedBasis

variable {α : Type}

/-- The squared length of the first row. -/
def firstLength (script : Script α) (basis : ScriptedBasis α) : Except (Failure α) α :=
  if basis.solved then .ok script.solvedNorm
  else
    match basis.lengths.head? with
    | some r => .ok r
    | none => .error .outOfRange

/-- The first row: zeros, or once the basis is solved a one at the front and a minus one at the
end. -/
def firstRow (basis : ScriptedBasis α) : List Int :=
  let d := basis.lengths.length
  let zeros := List.replicate d (0 : Int)
  if basis.solved then (zeros.set 0 1).set (d - 1) (-1) else zeros

end ScriptedBasis

namespace Script

variable {α : Type} [Scalar α]

def basis (script : Script α) : ScriptedBasis α :=
  ⟨script.lengths, false⟩

def afterTour (script : Script α) (blocksize : Nat) (basis : ScriptedBasis α) :
    ScriptedBasis α :=
  { lengths := match script.tourTilt with
      | some amount => tiltLengths amount basis.lengths
      | none => basis.lengths
    solved := basis.solved || script.solvingBlocksize.any (· ≤ blocksize) }

/-- The engine that follows the script. -/
def engine (script : Script α) : Engine α (Journal α) (ScriptedBasis α) where
  load basis := do
    modify (·.write (.load basis.rank))
    return script.basis
  tour order := do
    let (before, _) ← get
    modify fun (journal, basis) =>
      ((journal.write (.tour order none)).passTour script.pace, basis)
    if script.failingTour = some before.tours then
      throw (.numerical (.other "scripted tour failure"))
    modify fun (journal, basis) => (journal, script.afterTour order.blocksize basis)
  search window goal := do
    let (before, _) ← get
    let solves := script.solvingSearch = some before.searches
    let outcome : SearchOutcome α := ⟨some goal, solves, solves⟩
    modify fun (journal, basis) =>
      ((journal.passSearch script.pace).write (.search window goal outcome none),
        { basis with solved := basis.solved || solves })
    return outcome
  simulate profile blocksize tours := do
    modify (·.write (.simulate blocksize tours))
    ofExcept (script.simulation.run profile blocksize tours)
  clean := modify fun (journal, basis) => (journal.write .clean, basis)
  profile basis := Profile.ofLengths basis.lengths
  firstLength := ScriptedBasis.firstLength script
  firstRow := ScriptedBasis.firstRow

end Script

end EmbeddingAttack
