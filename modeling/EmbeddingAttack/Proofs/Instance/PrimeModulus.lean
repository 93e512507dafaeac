import EmbeddingAttack.Proofs.Instance.Generated

/-!
# The modulus of a generated instance

The modulus is found by a search for the next prime.  A prime shares no divisor with a number that
it does not divide, so that every residue but zero has an inverse.
-/

namespace EmbeddingAttack

/-- Modulo a prime, the numbers without an inverse are its multiples. -/
theorem exists_modInverse?_of_prime {p : Nat} (hp : p.Prime) {a : Int} (ha : ¬ (p : Int) ∣ a) :
    ∃ x, modInverse? a p = some x ∧ (0 ≤ x ∧ x < p) ∧ a * x ≡ 1 [ZMOD p] := by
  have hcoprime : IsCoprime a (p : Int) := by
    rw [Int.isCoprime_iff_gcd_eq_one, Int.gcd_comm]
    exact hp.coprime_iff_not_dvd.mpr (Int.natCast_dvd.not.mp ha)
  obtain ⟨x, hx⟩ := exists_modInverse?_iff.mpr hcoprime
  exact ⟨x, hx, (modInverse?_eq_some_iff (Int.natCast_pos.mpr hp.pos)).mp hx⟩

namespace Synthetic

variable {α ρ : Type} [Scalar α]

theorem modulus_of_generate {R : Randomness α ρ} {count : Option Nat} {n : Nat} {alpha : α} {s : ρ}
    {I : LweInstance α} (h : generate R count n alpha s = .ok I) : I.q = nextPrime (n * n) := by
  unfold generate at h
  obtain ⟨-, h⟩ := guard_eq_ok.mp h
  obtain ⟨-, h⟩ := guard_eq_ok.mp h
  cases h
  rfl

end Synthetic

open Synthetic in
/-- Trial division tells the primes among all integers.  The search for a prime ends, whatever
number it starts from, and it ends at the least prime from that number on.  So the modulus of a
generated instance is a prime, and modulo it every number but its multiples has an inverse. -/
theorem primeSearch_yields_inverses :
    (∀ x : Int, isPrime x = true ↔ ∃ p : Nat, p.Prime ∧ x = p) ∧
    (∀ x : Int, (∀ y, PrimeSearch (max x 2) y ↔ y = nextPrime x) ∧
      ∃ p : Nat, nextPrime x = p ∧ IsLeast {k : Nat | k.Prime ∧ max x 2 ≤ k} p) ∧
    ∀ {α ρ : Type} [Scalar α] (R : Randomness α ρ) (count : Option Nat) (n : Nat) (alpha : α)
      (s : ρ) (I : LweInstance α), generate R count n alpha s = .ok I →
      I.q = nextPrime (n ^ 2) ∧ ∀ a : Int, ¬ I.q ∣ a →
        ∃ x, modInverse? a I.q = some x ∧ (0 ≤ x ∧ x < I.q) ∧ a * x ≡ 1 [ZMOD I.q] := by
  refine ⟨fun x => isPrime_iff_exists, fun x => ⟨fun y => primeSearch_iff, isLeast_nextPrime_max x⟩,
    fun R count n alpha s I hI => ?_⟩
  have hq := modulus_of_generate hI
  rw [← pow_two] at hq
  obtain ⟨p, hp, hleast⟩ := isLeast_nextPrime_max (n ^ 2)
  refine ⟨hq, fun a ha => ?_⟩
  rw [hq, hp] at ha ⊢
  exact exists_modInverse?_of_prime hleast.1.1 ha

open Synthetic in
theorem primeSearch_yields_inverses_mod_five :
    ∃ I : LweInstance Fraction, generate counting none 2 0.05 0 = .ok I ∧ I.q = 5 ∧ ¬ I.q ∣ 8 ∧
      ∃ x, modInverse? 8 I.q = some x ∧ (0 ≤ x ∧ x < I.q) ∧ 8 * x ≡ 1 [ZMOD I.q] := by
  have hok : (generate counting none 2 0.05 0).isOk = true := by decide +kernel
  obtain ⟨I, hI⟩ := exists_eq_ok hok
  obtain ⟨-, -, hmodulus⟩ := primeSearch_yields_inverses
  obtain ⟨hq, hinverse⟩ := hmodulus counting none 2 0.05 0 I hI
  have hfive : I.q = 5 := hq.trans (by decide +kernel)
  have hnot : ¬ I.q ∣ 8 := by
    rw [hfive]
    decide
  exact ⟨I, hI, hfive, hnot, hinverse 8 hnot⟩

end EmbeddingAttack
