import EmbeddingAttack.Proofs.Lattice.GramSchmidt
import Mathlib.LinearAlgebra.Matrix.Block
import Mathlib.LinearAlgebra.Matrix.ToLinearEquiv

/-!
# Gram determinants

The products of the first rows of a basis form an integer matrix.  Where the cached data are
current, its determinant is the product of the squared lengths of as many directions.  So these
products, which are made of fractions, are positive integers, and the product of all of them depends
on the lattice only.
-/

namespace EmbeddingAttack

variable {n m : Nat}

open Finset

namespace IntMatrix

/-- Row `i` as an integer vector. -/
def intRow (M : IntMatrix n m) (i : Nat) : Fin m → ℤ :=
  fun j => (M.row i).get j

theorem realRow_eq_intCast (M : IntMatrix n m) (i : Nat) :
    M.realRow i = fun j => (M.intRow i j : ℝ) := rfl

theorem intRow_eq_vector (M : IntMatrix n m) (i : Fin n) : M.intRow i = M.vector i := by
  funext j
  simp [intRow, vector_apply, row_of_lt M i.isLt, get_eq_getElem]

/-- The determinant of the products of the first `i` rows. -/
def gramDeterminant (M : IntMatrix n m) (i : Nat) : ℤ :=
  (Matrix.of fun a b : Fin i => M.intRow a ⬝ᵥ M.intRow b).det

theorem intCast_gramDeterminant (M : IntMatrix n m) (i : Nat) :
    (M.gramDeterminant i : ℝ) =
      (Matrix.of fun a b : Fin i => M.realRow a ⬝ᵥ M.realRow b).det := by
  rw [gramDeterminant, Int.cast_det]
  congr 1
  ext a b
  simp [realRow_eq_intCast, dotProduct]

/-- Rows that have a dependency have it among their products. -/
theorem linearIndependent_of_gramDeterminant_ne_zero {M : IntMatrix n m}
    (h : M.gramDeterminant n ≠ 0) : LinearIndependent ℤ M.vector := by
  rw [Fintype.linearIndependent_iff]
  intro c hc
  have hzero : (Matrix.of fun a b : Fin n => M.intRow a ⬝ᵥ M.intRow b).mulVec c = 0 := by
    funext a
    have hsum : ∑ b : Fin n, M.intRow a ⬝ᵥ M.intRow b * c b =
        M.intRow a ⬝ᵥ ∑ b, c b • M.vector b := by
      rw [dotProduct_sum]
      apply sum_congr rfl
      intro b _
      rw [dotProduct_smul, smul_eq_mul, mul_comm, intRow_eq_vector M b]
    rw [hc, dotProduct_zero] at hsum
    exact hsum
  have hc' := Matrix.eq_zero_of_mulVec_eq_zero h hzero
  exact fun a => congrFun hc' a

theorem gramDeterminant_eq_det_mul (M : IntMatrix n m) :
    M.gramDeterminant n = (Matrix.of M.vector * (Matrix.of M.vector).transpose).det := by
  unfold gramDeterminant
  congr 1
  ext a b
  rw [Matrix.of_apply, intRow_eq_vector, intRow_eq_vector]
  rfl

/-- The determinants of a matrix and of one with rows of its lattice differ by a square. -/
theorem exists_gramDeterminant_eq {M N : IntMatrix n m} (h : N.lattice ≤ M.lattice) :
    ∃ d : ℤ, N.gramDeterminant n = d ^ 2 * M.gramDeterminant n := by
  choose U hU using fun i => mem_lattice.mp (h (N.vector_mem_lattice i))
  have hchange : Matrix.of N.vector = Matrix.of U * Matrix.of M.vector := by
    ext i l
    rw [Matrix.of_apply, ← hU, Matrix.mul_apply, Finset.sum_apply]
    rfl
  refine ⟨(Matrix.of U).det, ?_⟩
  rw [gramDeterminant_eq_det_mul, gramDeterminant_eq_det_mul, hchange, Matrix.transpose_mul,
    Matrix.mul_assoc, ← Matrix.mul_assoc (Matrix.of M.vector), Matrix.det_mul, Matrix.det_mul,
    Matrix.det_transpose]
  ring

/-- A matrix with rows of the lattice of another has a determinant that is at least as great. -/
theorem gramDeterminant_le {M N : IntMatrix n m} (h : N.lattice ≤ M.lattice)
    (hM : 0 < M.gramDeterminant n) (hN : 0 < N.gramDeterminant n) :
    M.gramDeterminant n ≤ N.gramDeterminant n := by
  obtain ⟨d, hdet⟩ := exists_gramDeterminant_eq h
  have hne : d ≠ 0 := by
    intro hzero
    rw [hdet, hzero] at hN
    simp at hN
  have hone : 1 ≤ d ^ 2 := Order.one_le_iff_pos.mpr (by positivity)
  rw [hdet]
  exact le_mul_of_one_le_left hM.le hone

end IntMatrix

namespace LatticeBasis

open IntMatrix

/-- The product of the squared lengths of the first `i` directions. -/
noncomputable def lengthProduct (L : LatticeBasis ℝ n m) (i : Nat) : ℝ :=
  ∏ j ∈ range i, L.length j

theorem lengthProduct_succ (L : LatticeBasis ℝ n m) (i : Nat) :
    L.lengthProduct (i + 1) = L.lengthProduct i * L.length i :=
  prod_range_succ _ _

theorem lengthProduct_congr {L L' : LatticeBasis ℝ n m} {i : Nat}
    (h : ∀ j < i, L.length j = L'.length j) : L.lengthProduct i = L'.lengthProduct i :=
  prod_congr rfl fun j hj => h j (mem_range.mp hj)

namespace GramSchmidt

variable {L : LatticeBasis ℝ n m} {v : Nat → Fin m → ℝ}

/-- The product of two of the first `i` rows, in their coefficients. -/
theorem row_dot_row_eq_sum (h : L.GramSchmidt v) {i a b : Nat} (hi : i ≤ n) (ha : a < i)
    (hb : b < i) : L.basis.realRow a ⬝ᵥ L.basis.realRow b =
      ∑ c : Fin i, L.lower a c * L.length c * L.lower b c := by
  have hsum : L.basis.realRow a ⬝ᵥ L.basis.realRow b =
      ∑ c ∈ range n, L.lower a c * L.length c * L.lower b c := by
    rw [h.row b (by omega), dotProduct_sum]
    apply sum_congr rfl
    intro c hc
    rw [dotProduct_smul, h.row_dot_direction (by omega) (mem_range.mp hc), smul_eq_mul, mul_comm]
  rw [hsum, ← sum_range fun c => L.lower a c * L.length c * L.lower b c]
  symm
  apply sum_subset (range_subset_range.mpr hi)
  intro c _ hc
  have hbc : b < c := by
    rw [mem_range] at hc
    omega
  rw [L.lower_of_lt hbc, mul_zero]

theorem gramDeterminant_eq (h : L.GramSchmidt v) {i : Nat} (hi : i ≤ n) :
    (L.basis.gramDeterminant i : ℝ) = L.lengthProduct i := by
  let T : Matrix (Fin i) (Fin i) ℝ := .of fun a c => L.lower a c
  let D : Matrix (Fin i) (Fin i) ℝ := .diagonal fun c => L.length c
  -- The coefficients form a triangular matrix with ones on its diagonal.
  have htriangular : T.IsLowerTriangular := fun a c hac => L.lower_of_lt hac
  have hT : T.det = 1 := by
    rw [Matrix.det_of_isLowerTriangular T htriangular]
    apply prod_eq_one
    intro a _
    exact (L.lower_of_le le_rfl).trans (h.diagonal a (by omega))
  have hgram : (Matrix.of fun a b : Fin i => L.basis.realRow a ⬝ᵥ L.basis.realRow b) =
      T * D * T.transpose := by
    ext a b
    rw [Matrix.mul_apply, Matrix.of_apply, h.row_dot_row_eq_sum hi a.isLt b.isLt]
    apply sum_congr rfl
    intro c _
    rw [Matrix.mul_diagonal, Matrix.transpose_apply]
    rfl
  calc
    (L.basis.gramDeterminant i : ℝ) = (T * D * T.transpose).det := by
      rw [intCast_gramDeterminant, hgram]
    _ = ∏ c : Fin i, L.length c := by
      rw [Matrix.det_mul, Matrix.det_mul, Matrix.det_transpose, hT, one_mul, mul_one,
        Matrix.det_diagonal]
    _ = L.lengthProduct i := (prod_range _).symm

theorem lengthProduct_pos (h : L.GramSchmidt v) {i : Nat} (hi : i ≤ n) : 0 < L.lengthProduct i := by
  apply prod_pos
  intro j hj
  rw [mem_range] at hj
  exact h.positive j (by omega)

end GramSchmidt

/-- The product of the first squared lengths is a positive integer. -/
theorem IsCurrent.exists_lengthProduct_eq {L : LatticeBasis ℝ n m} (h : L.IsCurrent) {i : Nat}
    (hi : i ≤ n) : ∃ d : ℕ, 0 < d ∧ L.lengthProduct i = d := by
  have hdet := h.gramSchmidt.gramDeterminant_eq hi
  have hpos := h.gramSchmidt.lengthProduct_pos hi
  rw [← hdet, Int.cast_pos] at hpos
  refine ⟨(L.basis.gramDeterminant i).toNat, by omega, ?_⟩
  rw [← hdet, ← Int.cast_natCast, Int.toNat_of_nonneg hpos.le]

theorem IsCurrent.one_le_lengthProduct {L : LatticeBasis ℝ n m} (h : L.IsCurrent) {i : Nat}
    (hi : i ≤ n) : 1 ≤ L.lengthProduct i := by
  obtain ⟨d, hd, hL⟩ := h.exists_lengthProduct_eq hi
  rw [hL]
  exact_mod_cast hd

theorem IsCurrent.gramDeterminant_ne_zero {L : LatticeBasis ℝ n m} (h : L.IsCurrent) :
    L.basis.gramDeterminant n ≠ 0 := by
  have hpos := h.gramSchmidt.lengthProduct_pos le_rfl
  rw [← h.gramSchmidt.gramDeterminant_eq le_rfl, Int.cast_pos] at hpos
  exact hpos.ne'

/-- Rows whose data are current are independent. -/
theorem IsCurrent.linearIndependent {L : LatticeBasis ℝ n m} (h : L.IsCurrent) :
    LinearIndependent ℤ L.basis.vector :=
  linearIndependent_of_gramDeterminant_ne_zero h.gramDeterminant_ne_zero

/-- As many rows that span the same lattice are independent as well. -/
theorem IsCurrent.linearIndependent_of_lattice_eq {L : LatticeBasis ℝ n m} {N : IntMatrix n m}
    (h : L.IsCurrent) (hlattice : N.lattice = L.lattice) : LinearIndependent ℤ N.vector := by
  apply linearIndependent_of_gramDeterminant_ne_zero
  intro hzero
  obtain ⟨d, hdet⟩ := exists_gramDeterminant_eq (le_of_eq hlattice.symm)
  rw [hzero, mul_zero] at hdet
  exact h.gramDeterminant_ne_zero hdet

/-- Two bases of one lattice have the same product of all squared lengths. -/
theorem IsCurrent.lengthProduct_eq {L L' : LatticeBasis ℝ n m} (h : L.IsCurrent)
    (h' : L'.IsCurrent) (hlattice : L.lattice = L'.lattice) :
    L.lengthProduct n = L'.lengthProduct n := by
  have hpos := h.gramSchmidt.lengthProduct_pos le_rfl
  have hpos' := h'.gramSchmidt.lengthProduct_pos le_rfl
  rw [← h.gramSchmidt.gramDeterminant_eq le_rfl] at hpos ⊢
  rw [← h'.gramSchmidt.gramDeterminant_eq le_rfl] at hpos' ⊢
  rw [Int.cast_pos] at hpos hpos'
  have hle := IntMatrix.gramDeterminant_le (le_of_eq hlattice.symm) hpos hpos'
  have hge := IntMatrix.gramDeterminant_le (le_of_eq hlattice) hpos' hpos
  rw [le_antisymm hle hge]

end LatticeBasis

end EmbeddingAttack
