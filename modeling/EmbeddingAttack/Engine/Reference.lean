import EmbeddingAttack.Engine.Basic
import EmbeddingAttack.Profile.Simulation

/-!
# The reference engine

The engine that works on the lattice bases of this library and simulates with its simulator.  Its
state holds the counters of all work done so far.
-/

namespace EmbeddingAttack

namespace ReferenceEngine

variable {α : Type} [Scalar α]

/-- Runs a reduction on the basis in the second place. -/
@[specialize] def onBasis {τ : Type} (work : {n m : Nat} → Reduction α n m τ) :
    Work α Statistics (SomeLatticeBasis α) τ := fun (totals, ⟨L⟩) =>
  match work L with
  | .ok x L => .ok x (totals, ⟨L⟩)
  | .error e L => .error e (totals, ⟨L⟩)

/-- Adds to the counters. -/
def charge (work : Statistics) : Work α Statistics (SomeLatticeBasis α) Unit :=
  modify fun (totals, basis) => (totals.add work, basis)

@[specialize] def runTour {n m : Nat} (p : BlockReduction α) :
    TourOrder α → Reduction α n m Statistics
  | .enumeration b => p.enumerationTour b
  | .jumping b jump extra free goal => p.jumpingTour ⟨b, jump, free.count b, extra, goal⟩

/-- Searches a window, cut to the rank of the basis and to at least two enumerated rows, and lifts
to its start. -/
@[specialize] def runSearch {n m : Nat} (p : BlockReduction α) (w : Window) (goal : α) :
    Reduction α n m (WindowFindings α) :=
  let length := min w.length (n - min w.start n)
  let free := min w.free (length - 2)
  LatticeBasis.searchWindow p.limits w.start length free w.start goal

/-- The engine with the given reduction parameters. -/
@[specialize] def engine (p : BlockReduction α) :
    Engine α Statistics (SomeLatticeBasis α) where
  load basis := pure basis
  tour order := do
    let work ← onBasis (runTour p order)
    charge work
  search w goal := do
    let findings ← onBasis (runSearch p w goal)
    charge ⟨if findings.insertedAt.isSome then 1 else 0, 1, findings.nodes⟩
    return ⟨findings.bestProjected, findings.insertedAt.isSome, findings.reachedGoal⟩
  simulate profile blocksize tours := ofExcept (profile.simulate blocksize tours)
  clean := discard <| onBasis (LLL.standard : LLL α).reduce
  profile basis := basis.basis.profile
  firstLength basis :=
    match basis.basis.length? 0 with
    | some r => .ok r
    | none => .error .outOfRange
  firstRow basis := basis.basis.firstRow

end ReferenceEngine

end EmbeddingAttack
