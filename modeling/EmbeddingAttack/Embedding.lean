import EmbeddingAttack.Arithmetic.Modular
import EmbeddingAttack.Instance.Basic
import EmbeddingAttack.Lattice.Basis

/-!
# Kannan's embedding

The vectors `x` that agree modulo `q` with `A s` for some `s` form a lattice, and so do the pairs
`(x, t)` that agree with `A s + t c`.  The second lattice contains the error vector of the
instance, extended by a one, which is short.

A basis of the first lattice comes from `A` by column operations modulo `q`: once they have turned
`n` rows into those of the identity, the columns, together with `q` times the unit vectors of the
other rows, generate the lattice.
-/

namespace EmbeddingAttack

namespace Embedding

variable {m : Nat}

/-- A column of a matrix with `m` rows. -/
abbrev Column (m : Nat) := Vector Int m

/-- Columns under reduction: those that have a pivot row, in the order of their pivots, and those
that have none yet. -/
structure Columns (m : Nat) where
  reduced : List (Column m)
  pending : List (Column m)
  pivots : List Nat

/-- The first column whose entry in the given row has an inverse modulo `q`, with the inverse and
the other columns.  The first column takes the place of the one found. -/
def takeInvertible? (q : Int) (row : Nat) :
    List (Column m) → Option (Int × Column m × List (Column m))
  | [] => none
  | first :: rest =>
    match modInverse? (first.getD row 0) q with
    | some inverse => some (inverse, first, rest)
    | none =>
      match rest.findIdx? fun column => (modInverse? (column.getD row 0) q).isSome with
      | none => none
      | some i =>
        let column := rest.getD i first
        (modInverse? (column.getD row 0) q).map fun inverse => (inverse, column, rest.set i first)

/-- Subtracts the multiple of the pivot column that clears the given row. -/
def clearRow (Z : Integers) (q : Int) (row : Nat) (pivot column : Column m) : Column m :=
  let factor := column.getD row 0
  if factor = 0 then column else column.zipWith (fun x y => Z.keep (x - factor * y) % q) pivot

/-- Makes the given row a pivot row, if one of the pending columns allows it: the entry of that
column becomes one and those of all others become zero. -/
def Columns.addPivot (Z : Integers) (q : Int) (columns : Columns m) (row : Nat) : Columns m :=
  match takeInvertible? q row columns.pending with
  | none => columns
  | some (inverse, column, rest) =>
    let pivot := column.map fun x => (Z.keep (x * inverse)).tmod q
    ⟨columns.reduced.map (clearRow Z q row pivot) ++ [pivot],
      rest.map (clearRow Z q row pivot), columns.pivots ++ [row]⟩

/-- Reduces columns modulo `q`, with the rows as pivot rows wherever possible. -/
def reduceColumns (Z : Integers) (q : Int) (columns : List (Column m)) : Columns m :=
  (List.range m).foldl (Columns.addPivot Z q)
    ⟨[], columns.map (·.map (· % q)), []⟩

/-- The row with the entry `x` in one place and zeros elsewhere. -/
def unitRow (length place : Nat) (x : Int) : List Int :=
  (List.replicate length 0).set place x

/-- The rows of the embedding: `q` times the unit vectors at the rows that are no pivots, the
reduced columns, and the vector `c` extended by a one.  Residues are taken closest to zero. -/
def rows (q : Int) (columns : Columns m) (c : List Int) : List (List Int) :=
  ((List.range m).filter (!columns.pivots.contains ·)).map (unitRow (m + 1) · q) ++
  columns.reduced.map (fun column => column.toList.map (centeredResidue · q) ++ [0]) ++
  [c.map (centeredResidue · q) ++ [1]]

end Embedding

namespace LweInstance

variable {α : Type} [Scalar α]

/-- The columns of the first `m` rows of `a`. -/
def columns (I : LweInstance α) (m : Nat) : List (Embedding.Column m) :=
  (List.range I.n).map fun j => Vector.ofFn fun i => (I.a.getD i []).getD j 0

/-- Whether the first `m` samples are there in full and the modulus is not zero. -/
def hasSamples (I : LweInstance α) (m : Nat) : Bool :=
  I.q ≠ 0 && m ≤ I.a.length && (I.a.take m).all (I.n ≤ ·.length)

/-- The basis of the embedding of the first `m` samples. -/
@[specialize] def primalBasis (I : LweInstance α) (m : Nat) :
    Except (Failure α) (SomeLatticeBasis α) := do
  if I.samples < m then
    throw (.parameters (.samplesAvailable I.samples))
  if m ≤ I.n then
    throw (.parameters (.tooFewSamples m I.n))
  if I.hasSamples m = false then
    throw .outOfRange
  let columns := Embedding.reduceColumns (Scalar.integers α) I.q (I.columns m)
  if columns.reduced.length < I.n then
    throw (.parameters (.noInvertibleSubsystem m I.n I.q))
  SomeLatticeBasis.ofRows (Embedding.rows I.q columns (I.c.take m))

end LweInstance

end EmbeddingAttack
