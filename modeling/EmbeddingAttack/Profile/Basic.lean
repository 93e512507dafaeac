import EmbeddingAttack.Failure
import EmbeddingAttack.Scalar

/-!
# Basis profiles

The squared lengths of the orthogonalised rows of a basis, from the first to the last.  They are
all that the schedule, the forecasts and the simulator look at.
-/

namespace EmbeddingAttack

variable {α : Type} [Scalar α]

/-- A profile is not empty, and its lengths are positive and finite. -/
structure Profile (α : Type) [Scalar α] where
  lengths : List α
  nonempty : lengths ≠ []
  proper : ∀ x ∈ lengths, Scalar.isFinite x = true ∧ ¬ x ≤ 0

namespace Profile

/-- Whether a scalar can be a squared length. -/
@[inline] def isLength (x : α) : Bool :=
  Scalar.isFinite x && !decide (x ≤ 0)

@[specialize] def ofLengths (lengths : List α) : Except (Failure α) (Profile α) :=
  if nonempty : lengths = [] then throw (.parameters .emptyProfile)
  else
    match h : lengths.findIdx? (!isLength ·) with
    | some i => throw (.numerical (.profileLength i (lengths.getD i 0)))
    | none => return ⟨lengths, nonempty, by
        intro x hx
        have := List.findIdx?_eq_none_iff.mp h x hx
        simpa [isLength] using this⟩

@[inline] def dimension (p : Profile α) : Nat :=
  p.lengths.length

/-- The squared length of the orthogonalised row `i`, if there is one. -/
@[specialize] def get? (p : Profile α) (i : Nat) : Option α :=
  p.lengths[i]?

/-- The last `k` squared lengths, or all if there are fewer. -/
@[specialize] def tail (p : Profile α) (k : Nat) : List α :=
  p.lengths.drop (p.dimension - k)

/-- The slope of the least-squares line through the logarithms of the squared lengths. -/
@[specialize] def slope (p : Profile α) : α :=
  let d := p.dimension
  if d < 2 then 0
  else
    let logs := p.lengths.map Scalar.log
    let middle := ((d - 1 : Nat) : α) / 2.0
    let mean := Scalar.sum logs / (d : α)
    let (numerator, denominator) := logs.zipIdx.foldl
      (fun (numerator, denominator) (x, i) =>
        let distance := (i : α) - middle
        (numerator + distance * (x - mean), denominator + distance * distance))
      ((0 : α), (0 : α))
    numerator / denominator

end Profile

end EmbeddingAttack
