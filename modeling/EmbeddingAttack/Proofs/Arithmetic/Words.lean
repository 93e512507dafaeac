import EmbeddingAttack.Scalar
import Mathlib.Algebra.Group.Nat.Defs

/-!
# Computations whose integers fit in words

A program works with words of 64 bits.  What its algorithms do is a matter of exact integers: it is
proved for integers of any size, and it is true of the words wherever the computation gives the same
with either.
-/

namespace EmbeddingAttack

theorem wrapSize_eq {n : Nat} (h : n < 2 ^ 64) : wrapSize n = n :=
  Nat.mod_eq_of_lt h

variable {α : Type}

/-- The same numbers with integers of any size. -/
abbrev Scalar.unbounded (S : Scalar α) : Scalar α :=
  { S with integers := .unbounded }

/-- Whether the integers of a computation fit in words: the computation gives the same with integers
of any size.  This is so wherever none of its operations on integers leaves the range of words. -/
def FitsWords {τ : Type} (S : Scalar α) (x : Scalar α → τ) : Prop :=
  x S = x S.unbounded

instance {τ : Type} [DecidableEq τ] (S : Scalar α) (x : Scalar α → τ) :
    Decidable (FitsWords S x) :=
  inferInstanceAs (Decidable (x S = x S.unbounded))

/-- A computation fits in words where its first step and what follows this step do. -/
theorem FitsWords.bind {ε σ τ ρ : Type} {S : Scalar α} {x : Scalar α → EStateM ε σ τ}
    {g : Scalar α → τ → EStateM ε σ ρ} {s : σ} (hx : FitsWords S fun S => x S s)
    (hg : ∀ a s', x S s = .ok a s' → FitsWords S fun S => g S a s') :
    FitsWords S fun S => (x S >>= g S) s := by
  have hx : x S s = x S.unbounded s := hx
  change EStateM.bind (x S) (g S) s = EStateM.bind (x S.unbounded) (g S.unbounded) s
  rw [EStateM.bind, EStateM.bind, ← hx]
  cases h : x S s with
  | ok a s' => exact hg a s' h
  | error e s' => rfl

/-- Numbers in whose computations integers are of any size. -/
class ExactIntegers (α : Type) [Scalar α] : Prop where
  integers_eq : Scalar.integers α = .unbounded

export ExactIntegers (integers_eq)

attribute [simp] integers_eq

instance (S : Scalar α) : @ExactIntegers α S.unbounded :=
  @ExactIntegers.mk α S.unbounded rfl

end EmbeddingAttack
