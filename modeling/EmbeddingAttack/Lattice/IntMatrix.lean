import EmbeddingAttack.Failure
import EmbeddingAttack.Scalar

/-!
# Integer matrices

A basis is the list of rows of an integer matrix.  It changes only through the elementary
operations of this module, each of which keeps the set of integer combinations of the rows
whenever its coefficients form a matrix of determinant `1` or `-1`.

The operations that compute entries take the integers to work with.

Rows and columns are numbered from `0`.  An operation that names a row beyond the matrix changes
nothing there, and reading beyond the matrix gives zero.
-/

namespace EmbeddingAttack

/-- An integer matrix with `n` rows of length `m`. -/
@[ext] structure IntMatrix (n m : Nat) where
  rows : Vector (Vector Int m) n
deriving DecidableEq

namespace IntMatrix

variable {n m : Nat}

/-- Row `i`. -/
@[inline] def row (M : IntMatrix n m) (i : Nat) : Vector Int m :=
  if h : i < n then M.rows[i] else Vector.replicate m 0

def get? (M : IntMatrix n m) (i j : Nat) : Option Int := do
  (← M.rows[i]?)[j]?

/-- Replaces row `i` by its image. -/
@[inline] def modifyRow (M : IntMatrix n m) (i : Nat) (f : Vector Int m → Vector Int m) :
    IntMatrix n m :=
  ⟨⟨M.rows.toArray.modify i f, by simp⟩⟩

def set (M : IntMatrix n m) (i j : Nat) (x : Int) : IntMatrix n m :=
  M.modifyRow i fun r => r.setIfInBounds j x

def swapRows (M : IntMatrix n m) (i j : Nat) : IntMatrix n m :=
  ⟨M.rows.swapIfInBounds i j⟩

/-- Subtracts `c` times the row `source` from the row `target`. -/
def subScaledRow (M : IntMatrix n m) (Z : Integers) (target source : Nat) (c : Int) :
    IntMatrix n m :=
  if c = 0 ∨ target = source then M
  else
    let s := M.row source
    M.modifyRow target fun t => t.zipWith (fun x y => Z.keep (x - c * y)) s

/-- Replaces the rows `i` and `j` by `a` and `b`, then `c` and `d` times them. -/
def combineRows (M : IntMatrix n m) (Z : Integers) (i j : Nat) (a b c d : Int) : IntMatrix n m :=
  let x := M.row i
  let y := M.row j
  (M.modifyRow i fun _ => x.zipWith (fun u v => Z.keep (a * u + b * v)) y).modifyRow j fun _ =>
    x.zipWith (fun u v => Z.keep (c * u + d * v)) y

def negateRow (M : IntMatrix n m) (Z : Integers) (i : Nat) : IntMatrix n m :=
  M.modifyRow i fun r => r.map fun x => Z.keep (-x)

/-- Moves row `source` to position `target` in front of it; the rows between move down by one. -/
def rotateRowUp (M : IntMatrix n m) : (source target : Nat) → IntMatrix n m
  | 0, _ => M
  | source + 1, target =>
    if target < source + 1 then (M.swapRows source (source + 1)).rotateRowUp source target else M

def toLists (M : IntMatrix n m) : List (List Int) :=
  M.rows.toList.map Vector.toList

/-- The rows, each in brackets on a line of its own, in brackets on lines of their own. -/
def text (M : IntMatrix n m) : String :=
  let rows := M.toLists.map fun row => "[" ++ " ".intercalate (row.map toString) ++ "]\n"
  "[\n" ++ String.join rows ++ "]"

/-! ## Checked operations

The same operations for a caller who may name a row or a column that is not there. -/

section Checked

variable {α : Type}

def row? (M : IntMatrix n m) (i : Nat) : Except (Failure α) (Vector Int m) :=
  if h : i < n then return M.rows[i] else throw .outOfRange

def trySet (M : IntMatrix n m) (i j : Nat) (x : Int) : Except (Failure α) (IntMatrix n m) :=
  if n ≤ i ∨ m ≤ j then throw (.dimensions (n, m) (i + 1, j + 1)) else return M.set i j x

def trySwapRows (M : IntMatrix n m) (i j : Nat) : Except (Failure α) (IntMatrix n m) :=
  if n ≤ i ∨ n ≤ j then throw (.dimensions (n, m) (max i j + 1, m)) else return M.swapRows i j

/-- Subtracting nothing, or a row from itself, needs no row. -/
def trySubScaledRow [Scalar α] (M : IntMatrix n m) (target source : Nat) (c : Int) :
    Except (Failure α) (IntMatrix n m) :=
  if c ≠ 0 ∧ target ≠ source ∧ n ≤ max target source then throw .outOfRange
  else return M.subScaledRow (Scalar.integers α) target source c

/-- Combining rows of length zero needs no row. -/
def tryCombineRows [Scalar α] (M : IntMatrix n m) (i j : Nat) (a b c d : Int) :
    Except (Failure α) (IntMatrix n m) :=
  if m ≠ 0 ∧ n ≤ max i j then throw .outOfRange
  else return M.combineRows (Scalar.integers α) i j a b c d

/-- Moving a row down or not at all changes nothing and needs no row. -/
def tryRotateRowUp (M : IntMatrix n m) (source target : Nat) :
    Except (Failure α) (IntMatrix n m) :=
  if target < source ∧ n ≤ source then throw .outOfRange else return M.rotateRowUp source target

end Checked

variable {α : Type} [Scalar α]

/-- The product of two integer vectors, each entry and each product taken as a scalar. -/
@[specialize] def dot (x y : Vector Int m) : α :=
  Nat.fold m (fun i _ s => s + (x[i] : α) * (y[i] : α)) 0

@[specialize] def rowNormSquared (M : IntMatrix n m) (i : Nat) : α :=
  dot (M.row i) (M.row i)

@[specialize] def rowNormSquared? (M : IntMatrix n m) (i : Nat) : Except (Failure α) α := do
  let row ← M.row? i
  return dot row row

end IntMatrix

/-- An integer matrix together with its dimensions. -/
structure SomeIntMatrix where
  {rowCount : Nat}
  {columnCount : Nat}
  matrix : IntMatrix rowCount columnCount

namespace SomeIntMatrix

/-- The matrix with the given rows: at least one, and all of the length of the first. -/
def ofRows {α : Type} : List (List Int) → Except (Failure α) SomeIntMatrix
  | [] => throw (.parameters .emptyMatrix)
  | first :: rest =>
    let rows := first :: rest
    match rows.findIdx? (·.length ≠ first.length) with
    | some i => throw (.dimensions (rows.length, first.length) (i + 1, (rows.getD i []).length))
    | none =>
      return ⟨⟨Vector.ofFn fun i : Fin rows.length =>
        Vector.ofFn fun j : Fin first.length => (rows[i]).getD j 0⟩⟩

end SomeIntMatrix

end EmbeddingAttack
