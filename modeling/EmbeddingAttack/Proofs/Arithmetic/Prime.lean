import EmbeddingAttack.Arithmetic.Prime
import Mathlib.NumberTheory.Bertrand

/-!
# Trial division

Trial division up to the square root decides whether a number is prime.  By Bertrand's postulate the
search for the next prime ends before its steps run out, so that it finds the least one.
-/

namespace EmbeddingAttack

theorem noDivisorFrom_iff {x d : Nat} (hd : 0 < d) :
    noDivisorFrom x d = true ↔ ∀ k, d ≤ k → k * k ≤ x → ¬ k ∣ x := by
  fun_induction noDivisorFrom x d with
  | case1 d h hdivides =>
      refine iff_of_false Bool.false_ne_true fun hnone => ?_
      exact hnone d le_rfl h.2 (Nat.dvd_of_mod_eq_zero hdivides)
  | case2 d h hdivides ih =>
      rw [ih d.succ_pos]
      refine ⟨fun hnone k hk => ?_, fun hnone k hk => hnone k (Nat.le_of_succ_le hk)⟩
      rcases Nat.eq_or_lt_of_le hk with rfl | hlt
      · exact fun _ hdvd => hdivides (Nat.mod_eq_zero_of_dvd hdvd)
      · exact hnone k hlt
  | case3 d h =>
      refine iff_of_true rfl fun k hk hsquare => absurd ⟨hd, ?_⟩ h
      exact (Nat.mul_le_mul hk hk).trans hsquare

theorem isPrime_iff {x : Nat} : isPrime x = true ↔ x.Prime := by
  have htwo : (2 : Int) ≤ x ↔ 2 ≤ x := by omega
  rw [isPrime, Bool.and_eq_true, decide_eq_true_iff, htwo, Int.toNat_natCast,
    noDivisorFrom_iff (by omega), Nat.prime_def_le_sqrt]
  simp only [Nat.le_sqrt]

theorem isPrime_iff_exists {x : Int} : isPrime x = true ↔ ∃ p : Nat, p.Prime ∧ x = p := by
  constructor
  · intro h
    have htwo : 2 ≤ x := by
      rw [isPrime, Bool.and_eq_true, decide_eq_true_iff] at h
      exact h.1
    obtain ⟨p, rfl⟩ := Int.eq_ofNat_of_zero_le (show 0 ≤ x by omega)
    exact ⟨p, isPrime_iff.mp h, rfl⟩
  · rintro ⟨p, hp, rfl⟩
    exact isPrime_iff.mpr hp

/-! ## The search for a prime -/

/-- The search without a bound on its steps, from a number to the one at which it ends: a number
that is not prime leads on to the next. -/
inductive PrimeSearch : Int → Int → Prop where
  | found {x : Int} (h : isPrime x = true) : PrimeSearch x x
  | next {x y : Int} (h : isPrime x = false) (rest : PrimeSearch (x + 1) y) : PrimeSearch x y

/-- Where the search ends, there is the least prime. -/
theorem PrimeSearch.isLeast {x y : Int} (h : PrimeSearch x y) :
    IsLeast {z : Int | isPrime z = true ∧ x ≤ z} y := by
  induction h with
  | found h => exact ⟨⟨h, le_rfl⟩, fun z hz => hz.2⟩
  | @next x y h _ ih =>
      obtain ⟨⟨hy, hle⟩, hlower⟩ := ih
      refine ⟨⟨hy, by omega⟩, fun z ⟨hz, hxz⟩ => hlower ⟨hz, ?_⟩⟩
      have hne : z ≠ x := fun heq => Bool.false_ne_true (h.symm.trans (heq ▸ hz))
      omega

/-- The steps do not run out where there is a prime among the numbers that they try. -/
theorem primeSearch_firstPrimeFrom {x p : Int} {steps : Nat} (hp : isPrime p = true) (hx : x ≤ p)
    (hlt : p < x + steps) : PrimeSearch x (firstPrimeFrom x steps) := by
  induction steps generalizing x with
  | zero => omega
  | succ steps ih =>
      unfold firstPrimeFrom
      split
      · exact .found ‹_›
      · rename_i hprime
        have hne : p ≠ x := fun heq => hprime (heq ▸ hp)
        exact .next (Bool.eq_false_of_not_eq_true hprime) (ih (by omega) (by omega))

theorem primeSearch_nextPrime (x : Int) : PrimeSearch (max x 2) (nextPrime x) := by
  obtain ⟨start, hstart⟩ := Int.eq_ofNat_of_zero_le (show 0 ≤ max x 2 by omega)
  obtain ⟨p, hp, hlt, hle⟩ := Nat.exists_prime_lt_and_le_two_mul start (by omega)
  unfold nextPrime
  dsimp only
  rw [hstart, Int.toNat_natCast]
  exact primeSearch_firstPrimeFrom (isPrime_iff.mpr hp) (by omega) (by omega)

theorem primeSearch_iff {x y : Int} : PrimeSearch (max x 2) y ↔ y = nextPrime x :=
  ⟨fun h => h.isLeast.unique (primeSearch_nextPrime x).isLeast,
    fun h => h ▸ primeSearch_nextPrime x⟩

theorem isLeast_nextPrime_max (x : Int) :
    ∃ p : Nat, nextPrime x = p ∧ IsLeast {k : Nat | k.Prime ∧ max x 2 ≤ k} p := by
  obtain ⟨⟨hprime, hle⟩, hlower⟩ := (primeSearch_nextPrime x).isLeast
  obtain ⟨p, hp, heq⟩ := isPrime_iff_exists.mp hprime
  rw [heq] at hle hlower
  refine ⟨p, heq, ⟨hp, hle⟩, fun k hk => ?_⟩
  exact Int.ofNat_le.mp (hlower ⟨isPrime_iff.mpr hk.1, hk.2⟩)

theorem isLeast_nextPrime (n : Nat) :
    ∃ p : Nat, nextPrime n = p ∧ IsLeast {p | p.Prime ∧ n ≤ p} p := by
  have hsame : {p : Nat | p.Prime ∧ max (n : Int) 2 ≤ p} = {p | p.Prime ∧ n ≤ p} := by
    ext p
    exact and_congr_right fun hp => by
      have := hp.two_le
      omega
  rw [← hsame]
  exact isLeast_nextPrime_max n

end EmbeddingAttack
