import EmbeddingAttack.Arithmetic.Modular
import EmbeddingAttack.Arithmetic.Prime
import EmbeddingAttack.Instance.Basic

/-!
# Generated instances

Instances of the shape of the challenges, with a known secret: the modulus is the least prime from
`n ^ 2` on, the secret and the matrix are uniform, and the errors are rounded normal values.
-/

namespace EmbeddingAttack

/-- A source of random numbers with states in `ρ`: uniform numbers `0 ≤ x < q`, and integers that
are distributed like rounded normal values of a given standard deviation. -/
structure Randomness (α ρ : Type) where
  uniform : Int → ρ → Int × ρ
  roundedNormal : α → ρ → Int × ρ

namespace Synthetic

variable {α ρ : Type} [Scalar α]

def uniformVector (R : Randomness α ρ) (q : Int) : (length : Nat) → ρ → List Int × ρ
  | 0, s => ([], s)
  | length + 1, s =>
    let (x, s) := R.uniform q s
    let (xs, s) := uniformVector R q length s
    (x :: xs, s)

def dotMod (Z : Integers) (q : Int) (x y : List Int) : Int :=
  (x.zip y).foldl (fun sum (u, v) => (Z.keep (sum + u * v)).tmod q) 0

/-- Samples for a secret: the rows of the matrix and the entries of the vector. -/
def samples (R : Randomness α ρ) (q : Int) (sigma : α) (secret : List Int) :
    (count : Nat) → ρ → List (List Int) × List Int
  | 0, _ => ([], [])
  | count + 1, s =>
    let (row, s) := uniformVector R q secret.length s
    let (error, s) := R.roundedNormal sigma s
    let (a, c) := samples R q sigma secret count s
    let Z := Scalar.integers α
    (row :: a, Z.keep (dotMod Z q row secret + error) % q :: c)

/-- An instance with secrets of length `n`.  There are `n ^ 2` samples unless another number is
asked for. -/
def generate (R : Randomness α ρ) (count : Option Nat) (n : Nat) (alpha : α) (s : ρ) :
    Except (Failure α) (LweInstance α) := do
  if n < 2 then
    throw (.parameters (.dimension n))
  if ¬ (0 < alpha ∧ alpha < 1) then
    throw (.parameters (.noiseRange alpha))
  let q := nextPrime (n * n)
  let (secret, s) := uniformVector R q n s
  let (a, c) := samples R q (alpha * (q : α)) secret (count.getD (n * n)) s
  return ⟨n, q, alpha, a, c, some secret⟩

end Synthetic

/-- The errors of the samples for a secret, taken closest to zero. -/
def LweInstance.errors {α : Type} (I : LweInstance α) (secret : List Int) : List Int :=
  I.a.zipWith (fun row c => centeredResidue (c - Synthetic.dotMod .unbounded I.q row secret) I.q)
    I.c

end EmbeddingAttack
