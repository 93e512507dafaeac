import EmbeddingAttack.Lattice.Enumeration
import EmbeddingAttack.Lattice.Insertion
import EmbeddingAttack.Lattice.NearestPlane

/-!
# Searching a block for a better row

Two uses of the enumeration.  `improveBlock` replaces the first row of a projected block by a
shorter vector of the block.  `searchWindow` enumerates only the end of a window, lifts what it
finds over the rows before it, and inserts the best lift where it is shorter than the row that
stands there.
-/

namespace EmbeddingAttack

namespace LatticeBasis

variable {α : Type} [Scalar α] {n m : Nat}

/-- Makes the shortest vector found in the projected block the row `start`, if one is below the
radius.  Returns whether there was one and the nodes visited. -/
@[specialize] def improveBlock (p : SearchLimits α) (start stop : Nat) :
    Reduction α n m (Bool × Nat) := do
  let L ← get
  let some length := L.length? start | throw .outOfRange
  let findings ← ofExcept (L.enumerate p start stop (p.radiusFactor * length))
  match findings.best? with
  | none => return (false, findings.nodes)
  | some best =>
    insertCombination start best.coefficients
    return (true, findings.nodes)

end LatticeBasis

/-- The result of a windowed search: the least squared length of a lift at the index searched for,
none if nothing was found; where a lift was inserted; whether the length meets the goal; and the
nodes visited. -/
structure WindowFindings (α : Type) where
  bestProjected : Option α
  insertedAt : Option Nat
  reachedGoal : Bool
  nodes : Nat
deriving DecidableEq

namespace LatticeBasis

variable {α : Type} [Scalar α] {n m : Nat}

/-- The earliest of the lifts whose squared length at index `j` is least, with that length. -/
@[specialize] def shortestAt (j : Nat) (lifts : List (Lift α)) : Option (Lift α × α) :=
  lifts.foldl (fun best lift =>
    let norm := lift.norms.getD j 0
    match best with
    | none => some (lift, norm)
    | some (_, least) => if norm < least then some (lift, norm) else best) none

/-- Searches the window of `window` rows from `first` on: enumerates all but its first `free` rows
and lifts what is found.  A lift that shortens the first row of the basis is inserted there;
failing that, one that shortens the row `liftTo` is inserted at that row.  The goal is a squared
length at `liftTo`. -/
@[specialize] def searchWindow (p : SearchLimits α) (first window free liftTo : Nat) (goal : α) :
    Reduction α n m (WindowFindings α) := do
  let stop := first + window
  if n < stop ∨ first < liftTo ∨ window < free + 2 then
    throw (.parameters (.searchWindow first window free liftTo n))
  let start := first + free
  let L ← get
  let findings ← ofExcept (L.enumerate p start stop (L.length start * (1 + 1e-9)))
  let lifts := findings.candidates.map fun c =>
    L.nearestPlaneLift start c.coefficients c.normSquared
  let insertedFirst ←
    match shortestAt 0 lifts with
    | some (lift, norm) =>
      if 0.5 < norm ∧ norm < L.length 0 * (1 - 1e-9) ∧ lift.coefficients.any (· ≠ 0) then
        insertCombination 0 lift.coefficients
        pure true
      else pure false
    | none => pure false
  match shortestAt liftTo lifts with
  | none => return ⟨none, if insertedFirst then some 0 else none, false, findings.nodes⟩
  | some (lift, norm) =>
    let reached := decide (norm ≤ goal)
    if insertedFirst then
      return ⟨some norm, some 0, reached, findings.nodes⟩
    else if norm < L.length liftTo * (1 - 1e-9) then
      insertCombination liftTo (lift.coefficients.drop liftTo)
      return ⟨some norm, some liftTo, reached, findings.nodes⟩
    else
      return ⟨some norm, none, reached, findings.nodes⟩

end LatticeBasis

end EmbeddingAttack
