import EmbeddingAttack.Failure
import EmbeddingAttack.Lattice.IntMatrix
import EmbeddingAttack.Profile.Basic

/-!
# Lattice bases with their Gram–Schmidt data

A lattice is given by the rows of an integer matrix.  Beside the rows, which are exact, a
`LatticeBasis` caches two tables of scalars: `mu i j` for `j < i`, the coefficient of the `j`-th
orthogonalised row in row `i`, and `r i`, the squared length of the `i`-th orthogonalised row.

The cache is only as good as the operation that wrote it last: `orthogonalize` recomputes it from
the rows, the reduction algorithms update it in place.
-/

namespace EmbeddingAttack

/-- A basis of `n` rows of length `m`, with its Gram–Schmidt coefficients and lengths. -/
@[ext] structure LatticeBasis (α : Type) (n m : Nat) where
  basis : IntMatrix n m
  mu : Vector (Vector α n) n
  r : Vector α n
deriving DecidableEq

/-- A computation that changes a basis.  Where it fails, the changes made so far remain. -/
abbrev Reduction (α : Type) (n m : Nat) :=
  EStateM (Failure α) (LatticeBasis α n m)

namespace LatticeBasis

variable {α : Type} [Scalar α] {n m : Nat}

/-- The Gram–Schmidt coefficient of row `i` along row `j`. -/
@[inline] def coefficient (L : LatticeBasis α n m) (i j : Nat) : α :=
  if hi : i < n then if hj : j < n then L.mu[i][j] else 0 else 0

/-- The squared length of the orthogonalised row `i`. -/
@[inline] def length (L : LatticeBasis α n m) (i : Nat) : α :=
  if h : i < n then L.r[i] else 0

/-- The squared length of the orthogonalised row `i`, if there is such a row. -/
def length? (L : LatticeBasis α n m) (i : Nat) : Option α :=
  L.r[i]?

def firstRow (L : LatticeBasis α n m) : List Int :=
  (L.basis.row 0).toList

@[specialize] def profile (L : LatticeBasis α n m) : Except (Failure α) (Profile α) :=
  Profile.ofLengths L.r.toList

@[inline] def setBasis (L : LatticeBasis α n m) (f : IntMatrix n m → IntMatrix n m) :
    LatticeBasis α n m :=
  { L with basis := f L.basis }

@[inline] def modifyCoefficients (L : LatticeBasis α n m) (i : Nat)
    (f : Vector α n → Vector α n) : LatticeBasis α n m :=
  let ⟨basis, mu, r⟩ := L
  ⟨basis, ⟨mu.toArray.modify i f, by simp⟩, r⟩

@[inline] def setLength (L : LatticeBasis α n m) (i : Nat) (x : α) : LatticeBasis α n m :=
  let ⟨basis, mu, r⟩ := L
  ⟨basis, mu, r.setIfInBounds i x⟩

/-! ## Orthogonalisation -/

/-- What is left of the product of the rows `i` and `j` after the directions `0, …, j - 1`, the
coefficients of row `i` along them being given. -/
@[specialize] def residue (L : LatticeBasis α n m) (i j : Nat) (row : Array α) : α :=
  Nat.fold j (fun k _ s => s - L.coefficient j k * row.getD k 0 * L.length k)
    (IntMatrix.dot (L.basis.row i) (L.basis.row j))

/-- The coefficients of row `i` along the rows `0, …, j - 1`. -/
@[specialize] def projections (L : LatticeBasis α n m) (i : Nat) : (j : Nat) → Array α
  | 0 => #[]
  | j + 1 =>
    let row := projections L i j
    row.push (residue L i j row / L.length j)

/-- What is left of the square of row `i` after the directions `0, …, i - 1`. -/
@[specialize] def residualSquare (L : LatticeBasis α n m) (i : Nat) (row : Array α) : α :=
  Nat.fold i (fun k _ s => s - row.getD k 0 * row.getD k 0 * L.length k)
    (IntMatrix.dot (L.basis.row i) (L.basis.row i))

/-- Recomputes the Gram–Schmidt data of row `i` from those of the rows before it. -/
@[specialize] def orthogonalizeRow (i : Nat) : Reduction α n m Unit := do
  let L ← get
  let row := projections L i i
  let square := residualSquare L i row
  modify fun L => L.modifyCoefficients i fun old =>
    old.mapIdx fun j x => if j < i then row.getD j x else x
  if ¬ 0 < square ∨ Scalar.isFinite square = false then
    throw (.numerical (.orthogonalLength i square))
  modify fun L => (L.setLength i square).modifyCoefficients i (·.setIfInBounds i 1)

/-- Recomputes the Gram–Schmidt data of the first `k` rows. -/
@[specialize] def orthogonalizeRows : (k : Nat) → Reduction α n m Unit
  | 0 => pure ()
  | k + 1 => do
    orthogonalizeRows k
    orthogonalizeRow k

/-- Recomputes all Gram–Schmidt data.  Fails at the first row that has no positive finite length
left: it depends on its predecessors, or the numbers have run out of range. -/
@[specialize] def orthogonalize : Reduction α n m Unit :=
  orthogonalizeRows n

@[specialize] def ofMatrix (M : IntMatrix n m) : Except (Failure α) (LatticeBasis α n m) :=
  if n = 0 ∨ m = 0 then throw (.parameters .emptyBasis)
  else if m < n then throw (.dimensions (m, m) (n, m))
  else
    let blank : LatticeBasis α n m :=
      ⟨M, Vector.replicate n (Vector.replicate n 0), Vector.replicate n 0⟩
    match orthogonalize blank with
    | .ok _ L => pure L
    | .error e _ => throw e

end LatticeBasis

/-- A lattice basis together with its dimensions. -/
structure SomeLatticeBasis (α : Type) where
  {rank : Nat}
  {ambient : Nat}
  basis : LatticeBasis α rank ambient
deriving DecidableEq

namespace SomeLatticeBasis

variable {α : Type} [Scalar α]

/-- The basis with the given rows, which must be independent. -/
@[specialize] def ofRows (rows : List (List Int)) : Except (Failure α) (SomeLatticeBasis α) := do
  let M ← SomeIntMatrix.ofRows rows
  return ⟨← LatticeBasis.ofMatrix M.matrix⟩

end SomeLatticeBasis

end EmbeddingAttack
