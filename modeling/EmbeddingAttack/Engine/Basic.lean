import EmbeddingAttack.Lattice.Basis
import EmbeddingAttack.Lattice.FreeDimensions
import EmbeddingAttack.Lattice.Tour

/-!
# Engines

An engine does the work on a basis that an attack orders: tours and searches.  The attack sees only
what is written here, so that it runs with any engine.  The bases of an engine are of a type `β` of
its own, and whatever else its work changes is a state in `σ`.
-/

namespace EmbeddingAttack

/-- An order for one tour. -/
inductive TourOrder (α : Type) where
  | enumeration (blocksize : Nat)
  | jumping (blocksize jump extraFreeDimensions : Nat) (freeDimensions : FreeDimensions α)
      (goal : α)

def TourOrder.blocksize {α : Type} : TourOrder α → Nat
  | .enumeration b => b
  | .jumping b .. => b

/-- The result of a search: the least squared length found for a projection at the start of the
window, whether a vector was inserted, and whether the goal was reached. -/
structure SearchOutcome (α : Type) where
  projectedNorm : Option α
  inserted : Bool
  reachedGoal : Bool

/-- Work of an engine on a basis.  Where it fails, the changes made so far remain. -/
abbrev Work (α σ β : Type) :=
  EStateM (Failure α) (σ × β)

structure Engine (α σ β : Type) [Scalar α] where
  /-- Takes over a basis. -/
  load : SomeLatticeBasis α → EStateM (Failure α) σ β
  tour : TourOrder α → Work α σ β Unit
  /-- Searches a window for a vector whose projection at its start meets the goal. -/
  search : Window → (goal : α) → Work α σ β (SearchOutcome α)
  /-- The profile expected after tours at a blocksize. -/
  simulate : Profile α → (blocksize tours : Nat) → EStateM (Failure α) σ (Profile α)
  /-- Tidies a basis up after a tour or a search. -/
  clean : Work α σ β Unit
  profile : β → Except (Failure α) (Profile α)
  /-- The squared length of the first row. -/
  firstLength : β → Except (Failure α) α
  firstRow : β → List Int

end EmbeddingAttack
