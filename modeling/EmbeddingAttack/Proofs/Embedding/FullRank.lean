import EmbeddingAttack.Proofs.Embedding.KannanLattice
import Mathlib.LinearAlgebra.Dimension.Constructions
import Mathlib.LinearAlgebra.FreeModule.StrongRankCondition
import Mathlib.RingTheory.PrincipalIdealDomain

/-!
# The rank of the embedding

The lattice of the embedding holds `q` times every vector, so that its rank is the dimension.  No
basis of it has a row that vanishes, whatever is known of the lengths cached for the rows.
-/

namespace EmbeddingAttack

namespace LweInstance

variable {α : Type}

theorem smul_mem_kannanLattice (I : LweInstance α) {m : Nat} (v : Fin (m + 1) → ℤ) :
    I.q • v ∈ I.kannanLattice m := by
  refine ⟨0, fun i => ?_⟩
  have h (x : ℤ) : I.q * x ≡ 0 [ZMOD I.q] := Int.modEq_zero_iff_dvd.mpr (dvd_mul_right I.q x)
  have hc := (h (v (Fin.last m))).mul_right (I.c.getD i 0)
  rw [zero_mul] at hc
  simpa using (h (v i.castSucc)).trans hc.symm

/-- The lattice has full rank, so that a basis of as many rows has no row that vanishes. -/
theorem vector_ne_zero {I : LweInstance α} {m : Nat} {M : IntMatrix (m + 1) (m + 1)}
    (hq : I.q ≠ 0) (h : M.lattice = I.kannanLattice m) (i : Fin (m + 1)) : M.vector i ≠ 0 := by
  intro hzero
  have hspan : M.lattice ≤ Submodule.span ℤ (Set.range (M.vector ∘ i.succAbove)) := by
    apply IntMatrix.lattice_le
    intro j
    by_cases hj : j = i
    · rw [hj, hzero]
      exact zero_mem _
    · obtain ⟨k, rfl⟩ := Fin.exists_succAbove_eq hj
      exact Submodule.subset_span ⟨k, rfl⟩
  let f : (Fin (m + 1) → ℤ) →ₗ[ℤ] Submodule.span ℤ (Set.range (M.vector ∘ i.succAbove)) :=
    LinearMap.codRestrict _ (I.q • LinearMap.id) fun v =>
      hspan (h ▸ I.smul_mem_kannanLattice v)
  have hinjective : Function.Injective f := by
    intro v w hvw
    have hsmul : I.q • v = I.q • w := congrArg Subtype.val hvw
    exact smul_right_injective _ hq hsmul
  have hlower := LinearMap.finrank_le_finrank_of_injective hinjective
  have hupper : Module.finrank ℤ (Submodule.span ℤ (Set.range (M.vector ∘ i.succAbove))) ≤
      Fintype.card (Fin m) := finrank_range_le_card _
  simp only [Module.finrank_fintype_fun_eq_card, Fintype.card_fin] at hlower hupper
  omega

end LweInstance

end EmbeddingAttack
