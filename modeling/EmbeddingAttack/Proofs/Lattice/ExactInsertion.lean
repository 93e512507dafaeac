import EmbeddingAttack.Proofs.Lattice.Freshness
import EmbeddingAttack.Proofs.Lattice.ProjectedBlock

/-!
# Insertions in exact arithmetic

An insertion into a basis whose data are current succeeds, since its rows still span the lattice.
The length at its place is that of the combination, up to the square of the common divisor of the
coefficients, and the lengths before its place and after the combination stay.
-/

namespace EmbeddingAttack

variable {n m : Nat}

open Finset IntMatrix

namespace LatticeBasis

theorem isCurrent_of_independent {L : LatticeBasis ℝ n m}
    (hrows : LinearIndependent ℤ L.basis.vector) (hdata : finalState (orthogonalize L) = L) :
    L.IsCurrent := by
  obtain ⟨M, hM⟩ := exists_orthogonalize_of_independent hrows
  rw [hM] at hdata
  exact hM.trans (congrArg _ hdata)

/-- What an insertion of a combination leads to. -/
structure Inserts (start : Nat) (c : List Int) (L L' : LatticeBasis ℝ n m) : Prop where
  current : L'.IsCurrent
  transforms : Transforms start c.length L.basis L'.basis
  square : ((c : Multiset ℤ).gcd : ℝ) ^ 2 * L'.length start = L.blockNorm start c
  kept : ∀ j < n, j < start ∨ start + c.length ≤ j → L'.length j = L.length j

section Insertion

variable {L L' : LatticeBasis ℝ n m} {start : Nat} {c : List Int}

theorem exists_insertCombination (h : L.IsCurrent) (hstop : start + c.length ≤ n)
    (hc : ∃ x ∈ c, x ≠ 0) : ∃ L', insertCombination start c L = .ok () L' := by
  rw [L.insertCombination_eq_orthogonalize hstop hc (by simp), integers_eq]
  refine exists_orthogonalize_of_independent (h.linearIndependent_of_lattice_eq ?_)
  refine lattice_insertCombination _ _ _ (fun r hr => ?_) (nodup_support start c)
  obtain ⟨hlt, hne⟩ := mem_support hr
  exact ⟨by omega, hne⟩

theorem length_eq_of_transforms {k : Nat} (h : L.IsCurrent) (h' : L'.IsCurrent)
    (htransforms : Transforms start k L.basis L'.basis) {j : Nat} (hj : j < n)
    (hout : j < start ∨ start + k ≤ j) : L'.length j = L.length j := by
  have hdirection := (h.projects_direction hj).congr
    (htransforms.before_eq hj.le (hout.imp le_of_lt id))
  have hrow : L'.basis.realRow j = L.basis.realRow j := by
    rw [realRow_eq_intCast, htransforms.outside j hj hout, ← realRow_eq_intCast]
  rw [← hrow] at hdirection
  rw [← h'.square_eq_length hj hdirection]
  exact h.gramSchmidt.square j hj

theorem inserts_of_insertCombination (h : L.IsCurrent)
    (hrun : insertCombination start c L = .ok () L') : Inserts start c L L' := by
  obtain ⟨hstop, hc⟩ := valid_of_insertCombination hrun
  have hcurrent := ensures_isCurrent_insertCombination start c L () L' trivial hrun
  have hbasis := L.basis_insertCombination hstop hc
  rw [hrun] at hbasis
  change L'.basis = _ at hbasis
  have htransforms := transforms_insertSupport L.basis hstop
  have hrow := intRow_insertSupport L.basis hstop hc
  rw [← hbasis] at htransforms hrow
  have hstart : start < n := by
    have hlength := List.length_pos_of_mem hc.choose_spec.1
    omega
  let g : ℝ := (c : Multiset ℤ).gcd
  have hreal : g • L'.basis.realRow start = L.basis.realCombination start c := by
    funext j
    rw [realCombination, ← hrow]
    simp [realRow_eq_intCast, g]
  -- The new direction is that of the combination, but for the factor.
  have hprojects : L.basis.Projects start (L.basis.realCombination start c)
      (g • L'.direction start) := by
    rw [← hreal]
    exact ((hcurrent.projects_direction hstart).smul g).congr
      (htransforms.symm.before_eq hstart.le (.inl le_rfl))
  exact {
    current := hcurrent
    transforms := htransforms
    square := by
      rw [← h.square_eq_blockNorm hstop hprojects, smul_dotProduct, dotProduct_smul,
        hcurrent.gramSchmidt.square start hstart, smul_eq_mul, smul_eq_mul, ← mul_assoc, pow_two]
    kept := fun j hj hout => length_eq_of_transforms h hcurrent htransforms hj hout }

theorem Inserts.length_le (h : Inserts start c L L') (hc : ∃ x ∈ c, x ≠ 0) (hstart : start < n) :
    L'.length start ≤ L.blockNorm start c := by
  have hone : (1 : ℝ) ≤ ((c : Multiset ℤ).gcd : ℝ) ^ 2 := by
    exact_mod_cast Order.one_le_iff_pos.mpr (pow_pos (gcd_pos hc) 2)
  rw [← h.square]
  exact le_mul_of_one_le_left (h.current.gramSchmidt.positive start hstart).le hone

end Insertion

end LatticeBasis

end EmbeddingAttack
