import EmbeddingAttack.Failure
import EmbeddingAttack.Scalar

/-!
# Instances of learning with errors

An instance holds samples `(a, c)` with `c = ⟨a, s⟩ + e` modulo `q` for one secret `s` and small
errors `e`.  The size of the errors is given by their rate `alpha`: their standard deviation is
`alpha * q`.
-/

namespace EmbeddingAttack

/-- An instance with secrets of length `n`.  The `i`-th sample is the `i`-th row of `a` with the
`i`-th entry of `c`.  The secret is known for generated instances only. -/
structure LweInstance (α : Type) where
  n : Nat
  q : Int
  alpha : α
  a : List (List Int)
  c : List Int
  secret : Option (List Int)
deriving BEq

/-- The public parameters of an attack that uses the first `m` samples of an instance. -/
structure InstanceParameters (α : Type) where
  n : Nat
  alpha : α
  q : Int
  m : Nat

/-- Where instances come from: by dimension, noise rate and seed. -/
abbrev InstanceSource (α : Type) :=
  Nat → α → Nat → Except (Failure α) (LweInstance α)

namespace LweInstance

variable {α : Type} [Scalar α]

def samples (I : LweInstance α) : Nat :=
  I.c.length

/-- The parameters of an attack with the first `m` samples. -/
def parameters (I : LweInstance α) (m : Nat) : Except (Failure α) (InstanceParameters α) :=
  if m = 0 ∨ I.samples < m then throw (.parameters (.samplesRequested I.samples m))
  else return ⟨I.n, I.alpha, I.q, m⟩

/-- The standard deviation of the errors. -/
def sigma (I : LweInstance α) : α :=
  I.alpha * (I.q : α)

/-- Checks that the modulus is at least two, that there is one row for each sample, and that all
rows have the length of the secret. -/
def validate (I : LweInstance α) : Except (Failure α) Unit := do
  if I.q < 2 then
    throw (.parse (.modulus I.q))
  if I.a.length ≠ I.c.length then
    throw (.dimensions (I.c.length, I.n) (I.a.length, I.n))
  if let some row := I.a.find? (·.length ≠ I.n) then
    throw (.dimensions (I.c.length, I.n) (I.a.length, row.length))

end LweInstance

/-- The noise rate in thousandths, as it appears in file names, cut to an unsigned 32-bit
number. -/
def alphaCode {α : Type} [Scalar α] (alpha : α) : Nat :=
  min (Scalar.toNat (Scalar.round (alpha * 1000.0))) 4294967295

end EmbeddingAttack
