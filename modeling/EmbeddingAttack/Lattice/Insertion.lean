import EmbeddingAttack.Arithmetic.Bezout
import EmbeddingAttack.Lattice.Basis

/-!
# Inserting a combination of rows

A vector of the lattice, given by its coefficients on consecutive rows of the basis, becomes a row
of a new basis of the same lattice.  Where the coefficients have a common divisor, the row is the
vector divided by it.
-/

namespace EmbeddingAttack

namespace IntMatrix

variable {n m : Nat}

/-- Gathers a combination in one row.  The row `at` holds `1 / weight` of the combination gathered
so far; each pair of a row and its coefficient adds another row by a transformation of determinant
one, which leaves the sum in that row.  Returns the matrix, the row reached and its weight. -/
def gather (M : IntMatrix n m) (Z : Integers) (position : Nat) (weight : Int) :
    List (Nat × Int) → IntMatrix n m × Nat × Int
  | [] => (M, position, weight)
  | (i, x) :: rest =>
    let d := Bezout.of x weight
    let g := Z.keep d.gcd
    let combined := M.combineRows Z i position (x.tdiv g) (weight.tdiv g) (-d.right) d.left
    combined.gather Z i g rest

/-- Makes the combination of the given rows, which are listed from the last to the first, the row
`start`.  The combination of no rows changes nothing. -/
def insertCombination (M : IntMatrix n m) (Z : Integers) (start : Nat) :
    List (Nat × Int) → IntMatrix n m
  | [] => M
  | (i, x) :: rest =>
    let (gathered, position, weight) := M.gather Z i x rest
    let oriented := if weight < 0 then gathered.negateRow Z position else gathered
    oriented.rotateRowUp position start

end IntMatrix

/-- Whether the divisions by which a combination is gathered have quotients, from a weight on.  The
division of two numbers and their remainders by each other leads to the least word over minus one
only where these are the two numbers, in some order. -/
def hasQuotientsFrom (Z : Integers) (weight : Int) : List (Nat × Int) → Bool
  | [] => true
  | (_, x) :: rest =>
    Z.hasQuotient x weight && Z.hasQuotient weight x &&
      hasQuotientsFrom Z (Z.keep (Bezout.of x weight).gcd) rest

/-- Whether the divisions by which a combination is gathered have quotients. -/
def hasQuotients (Z : Integers) : List (Nat × Int) → Bool
  | [] => true
  | (_, weight) :: rest => hasQuotientsFrom Z weight rest

namespace LatticeBasis

variable {α : Type} [Scalar α] {n m : Nat}

/-- The rows from `start` on with their coefficients, those with coefficient zero left out, from
the last to the first. -/
def support (start : Nat) (coefficients : List Int) : List (Nat × Int) :=
  ((coefficients.zipIdx start).filterMap fun (x, i) => if x = 0 then none else some (i, x)).reverse

/-- Makes the combination of the rows from `start` on with the given coefficients, divided by
their greatest common divisor, the row `start` of a basis of the same lattice. -/
@[specialize] def insertCombination (start : Nat) (coefficients : List Int) :
    Reduction α n m Unit := do
  let stop := start + coefficients.length
  if n < stop then
    throw (.dimensions (n, m) (stop, m))
  let rows := support start coefficients
  if rows.isEmpty then
    throw (.parameters .zeroCombination)
  if hasQuotients (Scalar.integers α) rows = false then
    throw .noQuotient
  modify (·.setBasis (·.insertCombination (Scalar.integers α) start rows))
  orthogonalize

end LatticeBasis

end EmbeddingAttack
