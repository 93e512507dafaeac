import EmbeddingAttack.Arithmetic.Modular
import Mathlib.Data.Int.ModEq
import Mathlib.RingTheory.Coprime.Lemmas
import Mathlib.Tactic.LinearCombination
import Mathlib.Tactic.Ring

/-!
# Division with remainder and inverses

Each step of the division keeps the set of common divisors and expresses both remainders as
combinations of the two integers given.
-/

namespace EmbeddingAttack

namespace Bezout

/-- The remainder is the combination of `a` and `b` with the coefficients beside it. -/
def Represents (a b : Int) (d : Bezout) : Prop :=
  d.left * a + d.right * b = d.gcd

theorem represents_reduce {a b : Int} (current next : Bezout) (hcurrent : current.Represents a b)
    (hnext : next.Represents a b) : (reduce current next).Represents a b := by
  fun_induction reduce current next with
  | case1 current next h => exact hcurrent
  | case2 current next h q ih =>
      apply ih hnext
      unfold Represents at *
      rw [← hcurrent, ← hnext]
      ring

theorem natAbs_gcd_reduce (current next : Bezout) :
    (reduce current next).gcd.natAbs = Int.gcd current.gcd next.gcd := by
  fun_induction reduce current next with
  | case1 current next h => rw [h, Int.gcd_zero_right]
  | case2 current next h q ih =>
      rw [ih]
      dsimp only
      rw [Int.gcd_comm next.gcd, Int.gcd_sub_mul_right_left]

theorem represents_of (a b : Int) : (of a b).Represents a b := by
  have h : (reduce ⟨a, 1, 0⟩ ⟨b, 0, 1⟩).Represents a b :=
    represents_reduce _ _ (by simp [Represents]) (by simp [Represents])
  unfold of
  dsimp only
  split
  · unfold Represents at *
    dsimp only
    rw [← h]
    ring
  · exact h

theorem gcd_of (a b : Int) : (of a b).gcd = Int.gcd a b := by
  have h := natAbs_gcd_reduce ⟨a, 1, 0⟩ ⟨b, 0, 1⟩
  unfold of
  dsimp only at h ⊢
  rw [← h]
  split
  · dsimp only
    omega
  · omega

/-- A pair of integers, not both zero, divided by the common divisor: the coefficients belong to a
matrix of determinant one. -/
theorem det_of {a b : Int} (h : a ≠ 0 ∨ b ≠ 0) :
    a.tdiv (of a b).gcd * (of a b).left + b.tdiv (of a b).gcd * (of a b).right = 1 := by
  have hg : (of a b).gcd ≠ 0 := by
    rw [gcd_of, Ne, Int.natCast_eq_zero, Int.gcd_eq_zero_iff]
    omega
  have hr : (of a b).left * a + (of a b).right * b = (of a b).gcd := represents_of a b
  have ha : a.tdiv (of a b).gcd * (of a b).gcd = a := by
    apply Int.tdiv_mul_cancel
    rw [gcd_of]
    exact Int.gcd_dvd_left a b
  have hb : b.tdiv (of a b).gcd * (of a b).gcd = b := by
    apply Int.tdiv_mul_cancel
    rw [gcd_of]
    exact Int.gcd_dvd_right a b
  apply mul_right_cancel₀ hg
  calc
    _ = (of a b).left * (a.tdiv (of a b).gcd * (of a b).gcd) +
        (of a b).right * (b.tdiv (of a b).gcd * (of a b).gcd) := by ring
    _ = _ := by rw [ha, hb, hr, one_mul]

end Bezout

/-- An inverse modulo `q` multiplies to one. -/
theorem modEq_of_modInverse? {a q x : Int} (h : modInverse? a q = some x) :
    a * x ≡ 1 [ZMOD q] := by
  unfold modInverse? at h
  dsimp only at h
  split at h
  · rename_i hone
    have hx : (Bezout.of (a % q) q).left % q = x := by simpa using h
    have hr : (Bezout.of (a % q) q).left * (a % q) + (Bezout.of (a % q) q).right * q = 1 := by
      rw [← hone]
      exact Bezout.represents_of (a % q) q
    calc
      a * x ≡ (a % q) * (Bezout.of (a % q) q).left [ZMOD q] := by
        rw [← hx]
        exact (Int.mod_modEq a q).symm.mul (Int.mod_modEq _ q)
      _ ≡ (Bezout.of (a % q) q).left * (a % q) + (Bezout.of (a % q) q).right * q [ZMOD q] := by
        apply (Int.modEq_iff_dvd).mpr
        exact ⟨(Bezout.of (a % q) q).right, by ring⟩
      _ = 1 := hr
  · simp at h

/-- A residue has an inverse unless it shares a divisor with the modulus. -/
theorem modInverse?_eq_none_iff {a q : Int} : modInverse? a q = none ↔ ¬ IsCoprime a q := by
  have hresidue : IsCoprime (a % q) q ↔ IsCoprime a q := by
    nth_rewrite 2 [← Int.emod_add_mul_ediv a q]
    exact IsCoprime.add_mul_left_left_iff.symm
  have hgcd : (Bezout.of (a % q) q).gcd = 1 ↔ IsCoprime a q := by
    rw [← hresidue, Bezout.gcd_of, Int.isCoprime_iff_gcd_eq_one]
    omega
  unfold modInverse?
  dsimp only
  rw [← hgcd]
  split <;> simp_all

theorem exists_modInverse?_iff {a q : Int} : (∃ x, modInverse? a q = some x) ↔ IsCoprime a q := by
  rw [← Option.ne_none_iff_exists', Ne, modInverse?_eq_none_iff, not_not]

theorem range_of_modInverse? {a q x : Int} (hq : 0 < q) (h : modInverse? a q = some x) :
    0 ≤ x ∧ x < q := by
  unfold modInverse? at h
  dsimp only at h
  split at h
  · cases h
    exact ⟨Int.emod_nonneg _ hq.ne', Int.emod_lt_of_pos _ hq⟩
  · cases h

/-- The inverse is the one residue that multiplies to one. -/
theorem modInverse?_eq_some_iff {a q x : Int} (hq : 0 < q) :
    modInverse? a q = some x ↔ (0 ≤ x ∧ x < q) ∧ a * x ≡ 1 [ZMOD q] := by
  refine ⟨fun h => ⟨range_of_modInverse? hq h, modEq_of_modInverse? h⟩, fun ⟨⟨hx, hlt⟩, hone⟩ => ?_⟩
  have hcoprime : IsCoprime a q := by
    obtain ⟨k, hk⟩ := (Int.modEq_iff_dvd).mp hone
    exact ⟨x, k, by linear_combination -hk⟩
  obtain ⟨y, hy⟩ := exists_modInverse?_iff.mpr hcoprime
  obtain ⟨hy0, hylt⟩ := range_of_modInverse? hq hy
  have hsame : y ≡ x [ZMOD q] := by
    calc
      y = y * 1 := (mul_one y).symm
      _ ≡ y * (a * x) [ZMOD q] := hone.symm.mul_left y
      _ = a * y * x := by ring
      _ ≡ 1 * x [ZMOD q] := (modEq_of_modInverse? hy).mul_right x
      _ = x := one_mul x
  unfold Int.ModEq at hsame
  rw [Int.emod_eq_of_lt hy0 hylt, Int.emod_eq_of_lt hx hlt] at hsame
  rw [hy, hsame]

theorem centeredResidue_modEq (x q : Int) : centeredResidue x q ≡ x [ZMOD q] := by
  unfold centeredResidue
  dsimp only
  split
  · calc
      x % q - q ≡ x % q [ZMOD q] := by
        apply (Int.modEq_iff_dvd).mpr
        exact ⟨1, by ring⟩
      _ ≡ x [ZMOD q] := Int.mod_modEq x q
  · exact Int.mod_modEq x q

end EmbeddingAttack
