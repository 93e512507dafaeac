import EmbeddingAttack.Proofs.Arithmetic.RealScalar
import EmbeddingAttack.Proofs.Lattice.Recomputation
import Mathlib.LinearAlgebra.Matrix.DotProduct
import Mathlib.RingTheory.Flat.TorsionFree
import Mathlib.RingTheory.TensorProduct.Pi

/-!
# Gram–Schmidt directions

Over the reals the cached data of a basis stand for vectors: its rows are combinations of orthogonal
directions, the coefficients of which form a lower triangular matrix.  Cached data are current
exactly where such directions exist.  They do for all independent rows, whatever data were cached
before.
-/

namespace EmbeddingAttack

variable {n m : Nat}

open Finset TensorProduct

namespace IntMatrix

/-- Row `i` as a real vector. -/
def realRow (M : IntMatrix n m) (i : Nat) : Fin m → ℝ :=
  fun j => (M.row i).get j

theorem fold_add_eq (k : Nat) (f : (i : Nat) → i < k → ℝ) :
    Nat.fold k (fun i hi s => s + f i hi) 0 = ∑ i : Fin k, f i i.isLt := by
  induction k with
  | zero => rfl
  | succ k ih => rw [Nat.fold_succ, ih, Fin.sum_univ_castSucc]; rfl

theorem dot_row (M : IntMatrix n m) (i j : Nat) :
    (dot (M.row i) (M.row j) : ℝ) = M.realRow i ⬝ᵥ M.realRow j :=
  fold_add_eq m fun k hk => ((M.row i)[k] : ℝ) * ((M.row j)[k] : ℝ)

/-- Rows that are independent over the integers are independent over the reals. -/
theorem linearIndependent_realRow {M : IntMatrix n m} (h : LinearIndependent ℤ M.vector) :
    LinearIndependent ℝ fun i : Fin n => M.realRow i := by
  have htensor := Module.Flat.linearIndependent_one_tmul (S := ℝ) h
  let cast := TensorProduct.piScalarRight ℤ ℝ ℝ (Fin m)
  have hcast : (fun i : Fin n => M.realRow i) = fun i => cast (1 ⊗ₜ[ℤ] M.vector i) := by
    funext i j
    simp [cast, realRow, vector, row_of_lt, get_eq_getElem]
  rw [hcast]
  exact htensor.map' cast.toLinearMap (LinearMap.ker_eq_bot.mpr cast.injective)

end IntMatrix

namespace LatticeBasis

open IntMatrix

theorem fold_sub_eq (k : Nat) (f : Nat → ℝ) (x : ℝ) :
    Nat.fold k (fun i _ s => s - f i) x = x - ∑ i ∈ range k, f i := by
  induction k with
  | zero => simp
  | succ k ih => rw [Nat.fold_succ, ih, sum_range_succ, sub_sub]

theorem residue_cachedRow (L : LatticeBasis ℝ n m) {i j : Nat} (hj : j ≤ i) :
    residue L i j (L.cachedRow i) = L.basis.realRow i ⬝ᵥ L.basis.realRow j -
      ∑ k ∈ range j, L.coefficient j k * L.coefficient i k * L.length k := by
  unfold residue
  rw [dot_row, ← fold_sub_eq]
  congr 1
  funext k hk s
  rw [getD_cachedRow L (by omega)]

theorem residualSquare_cachedRow (L : LatticeBasis ℝ n m) (i : Nat) :
    residualSquare L i (L.cachedRow i) = L.basis.realRow i ⬝ᵥ L.basis.realRow i -
      ∑ k ∈ range i, L.coefficient i k * L.coefficient i k * L.length k := by
  unfold residualSquare
  rw [dot_row, ← fold_sub_eq]
  congr 1
  funext k hk s
  rw [getD_cachedRow L hk]

/-- The coefficient of row `i` along direction `j`: there is none after the diagonal. -/
noncomputable def lower (L : LatticeBasis ℝ n m) (i j : Nat) : ℝ :=
  if j ≤ i then L.coefficient i j else 0

theorem lower_of_le (L : LatticeBasis ℝ n m) {i j : Nat} (h : j ≤ i) :
    L.lower i j = L.coefficient i j :=
  if_pos h

theorem lower_of_lt (L : LatticeBasis ℝ n m) {i j : Nat} (h : i < j) : L.lower i j = 0 :=
  if_neg (by omega)

theorem sum_lower {V : Type} [AddCommGroup V] [Module ℝ V] (L : LatticeBasis ℝ n m) {i : Nat}
    (hi : i < n) (f : Nat → V) :
    ∑ j ∈ range n, L.lower i j • f j =
      ∑ j ∈ range i, L.coefficient i j • f j + L.coefficient i i • f i := by
  have hbefore : ∑ j ∈ range (i + 1), L.lower i j • f j =
      ∑ j ∈ range n, L.lower i j • f j := by
    refine sum_subset (range_subset_range.mpr hi) fun j _ hj => ?_
    rw [L.lower_of_lt (by simpa using hj), zero_smul]
  rw [← hbefore, sum_range_succ, L.lower_of_le le_rfl]
  congr 1
  refine sum_congr rfl fun j hj => ?_
  rw [L.lower_of_le (mem_range.mp hj).le]

/-- The cached data describe the rows as combinations of orthogonal directions: the coefficients
form a unit lower triangular matrix, and the lengths are those of the directions, none of which
vanishes. -/
structure GramSchmidt (L : LatticeBasis ℝ n m) (v : Nat → Fin m → ℝ) : Prop where
  row : ∀ i < n, L.basis.realRow i = ∑ j ∈ range n, L.lower i j • v j
  orthogonal : ∀ i < n, ∀ j < n, i ≠ j → v i ⬝ᵥ v j = 0
  square : ∀ i < n, v i ⬝ᵥ v i = L.length i
  positive : ∀ i < n, 0 < L.length i
  diagonal : ∀ i < n, L.coefficient i i = 1

/-! ## Directions make the data current -/

namespace GramSchmidt

variable {L : LatticeBasis ℝ n m} {v : Nat → Fin m → ℝ}

theorem row_dot_direction (h : L.GramSchmidt v) {i j : Nat} (hi : i < n) (hj : j < n) :
    L.basis.realRow i ⬝ᵥ v j = L.lower i j * L.length j := by
  rw [h.row i hi, sum_dotProduct, sum_eq_single j]
  · rw [smul_dotProduct, h.square j hj, smul_eq_mul]
  · intro k hk hkj
    rw [smul_dotProduct, h.orthogonal k (mem_range.mp hk) j hj hkj, smul_zero]
  · intro hnot
    exact absurd (mem_range.mpr hj) hnot

theorem row_dot_row (h : L.GramSchmidt v) {i j : Nat} (hi : i < n) (hj : j ≤ i) :
    L.basis.realRow i ⬝ᵥ L.basis.realRow j =
      ∑ k ∈ range j, L.coefficient j k * L.coefficient i k * L.length k +
        L.coefficient i j * L.length j := by
  have hjn : j < n := by omega
  calc
    L.basis.realRow i ⬝ᵥ L.basis.realRow j =
        ∑ k ∈ range n, L.lower j k • (L.lower i k * L.length k) := by
      rw [h.row j hjn, dotProduct_sum]
      refine sum_congr rfl fun k hk => ?_
      rw [dotProduct_smul, h.row_dot_direction hi (mem_range.mp hk)]
    _ = ∑ k ∈ range j, L.coefficient j k • (L.lower i k * L.length k) +
        L.coefficient j j • (L.lower i j * L.length j) := L.sum_lower hjn _
    _ = _ := by
      rw [h.diagonal j hjn, one_smul, L.lower_of_le hj]
      congr 1
      refine sum_congr rfl fun k hk => ?_
      rw [L.lower_of_le (by have := mem_range.mp hk; omega), smul_eq_mul, mul_assoc]

theorem isCurrent (h : L.GramSchmidt v) : L.IsCurrent := by
  refine isCurrent_iff.mpr fun i hi => ?_
  exact {
    coefficient := by
      intro j hj
      rw [residue_cachedRow L hj.le, h.row_dot_row hi hj.le, add_sub_cancel_left,
        mul_div_cancel_right₀ _ (h.positive j (by omega)).ne']
    diagonal := h.diagonal i hi
    length := by
      rw [residualSquare_cachedRow, h.row_dot_row hi le_rfl, add_sub_cancel_left, h.diagonal i hi,
        one_mul]
    positive := h.positive i hi
    finite := rfl }

end GramSchmidt

/-! ## Current data have directions -/

/-- What is left of row `i` without its parts along the directions of the rows before it. -/
noncomputable def direction (L : LatticeBasis ℝ n m) (i : Nat) : Fin m → ℝ :=
  L.basis.realRow i - ∑ j : Fin i, L.coefficient i j • direction L j
termination_by i

theorem direction_eq (L : LatticeBasis ℝ n m) (i : Nat) :
    L.direction i = L.basis.realRow i - ∑ j ∈ range i, L.coefficient i j • L.direction j := by
  rw [direction, sum_range]

section Computed

variable {L : LatticeBasis ℝ n m} {i : Nat}

theorem realRow_dot_direction (hbefore : ∀ k < i, L.RowCurrent k) (h : L.RowComputed i) {j : Nat}
    (hj : j < i) : L.basis.realRow i ⬝ᵥ L.direction j = L.coefficient i j * L.length j := by
  induction j using Nat.strong_induction_on with
  | _ j ih =>
      have hlength : L.length j ≠ 0 := (hbefore j hj).positive.ne'
      rw [h.coefficient j hj, div_mul_cancel₀ _ hlength, residue_cachedRow L hj.le, direction_eq,
        dotProduct_sub, dotProduct_sum]
      congr 1
      refine sum_congr rfl fun k hk => ?_
      have hkj : k < j := mem_range.mp hk
      rw [dotProduct_smul, ih k hkj (by omega), smul_eq_mul, mul_assoc]

/-- The direction of a row whose data are computed is orthogonal to those before it and has the
length computed. -/
theorem direction_computed (hbefore : ∀ k < i, L.RowCurrent k) (h : L.RowComputed i) :
    (∀ j < i, L.direction i ⬝ᵥ L.direction j = 0) ∧
      L.direction i ⬝ᵥ L.direction i = L.length i := by
  induction i using Nat.strong_induction_on with
  | _ i ih =>
      have hearlier (k : Nat) (hk : k < i) := ih k hk (fun l hl => hbefore l (by omega))
        (hbefore k hk).toRowComputed
      have horthogonal : ∀ j < i, L.direction i ⬝ᵥ L.direction j = 0 := by
        intro j hj
        have hsum : ∑ k ∈ range i, L.coefficient i k • L.direction k ⬝ᵥ L.direction j =
            L.coefficient i j * L.length j := by
          rw [sum_eq_single j]
          · rw [smul_dotProduct, (hearlier j hj).2, smul_eq_mul]
          · intro k hk hkj
            rw [smul_dotProduct]
            rcases Nat.lt_or_gt_of_ne hkj with hlt | hgt
            · rw [dotProduct_comm, (hearlier j hj).1 k hlt, smul_zero]
            · rw [(hearlier k (mem_range.mp hk)).1 j hgt, smul_zero]
          · intro hnot
            exact absurd (mem_range.mpr hj) hnot
        rw [L.direction_eq i, sub_dotProduct, sum_dotProduct, hsum,
          realRow_dot_direction hbefore h hj, sub_self]
      refine ⟨horthogonal, ?_⟩
      -- Against its own direction a row counts as the direction does.
      have hself : L.direction i ⬝ᵥ L.direction i = L.direction i ⬝ᵥ L.basis.realRow i := by
        nth_rewrite 2 [L.direction_eq i]
        rw [dotProduct_sub, dotProduct_sum, sum_eq_zero, sub_zero]
        intro k hk
        rw [dotProduct_smul, horthogonal k (mem_range.mp hk), smul_zero]
      rw [hself, dotProduct_comm, direction_eq, dotProduct_sub, dotProduct_sum, h.length,
        residualSquare_cachedRow]
      congr 1
      refine sum_congr rfl fun k hk => ?_
      rw [dotProduct_smul, realRow_dot_direction hbefore h (mem_range.mp hk), smul_eq_mul,
        mul_assoc]

end Computed

theorem orthogonalize_words (L : LatticeBasis ℝ n m) :
    @orthogonalize ℝ realWords n m L = orthogonalize L :=
  (congrFun (orthogonalize_unbounded realWords) L).symm

theorem ofMatrix_words (M : IntMatrix n m) : @ofMatrix ℝ realWords n m M = ofMatrix M := by
  unfold ofMatrix
  simp only [orthogonalize_words]

theorem IsCurrent.gramSchmidt {L : LatticeBasis ℝ n m} (h : L.IsCurrent) :
    L.GramSchmidt L.direction := by
  have hrow := isCurrent_iff.mp h
  have hcomputed (i : Nat) (hi : i < n) := direction_computed (fun k hk => hrow k (by omega))
    (hrow i hi).toRowComputed
  exact {
    row := by
      intro i hi
      rw [L.sum_lower hi, (hrow i hi).diagonal, one_smul, L.direction_eq i, add_sub_cancel]
    orthogonal := by
      intro i hi j hj hij
      rcases Nat.lt_or_gt_of_ne hij with hlt | hgt
      · rw [dotProduct_comm]
        exact (hcomputed j hj).1 i hlt
      · exact (hcomputed i hi).1 j hgt
    square := fun i hi => (hcomputed i hi).2
    positive := fun i hi => (hrow i hi).positive
    diagonal := fun i hi => (hrow i hi).diagonal }

/-! ## Independent rows -/

theorem direction_mem_span (L : LatticeBasis ℝ n m) (i : Nat) :
    L.direction i ∈ Submodule.span ℝ (L.basis.realRow '' Set.Iic i) := by
  induction i using Nat.strong_induction_on with
  | _ i ih =>
      rw [direction_eq]
      have hown : L.basis.realRow i ∈ L.basis.realRow '' Set.Iic i :=
        ⟨i, Set.mem_Iic.mpr le_rfl, rfl⟩
      refine sub_mem (Submodule.subset_span hown) (sum_mem fun j hj => ?_)
      have hji : j < i := mem_range.mp hj
      have hsub : L.basis.realRow '' Set.Iic j ⊆ L.basis.realRow '' Set.Iic i :=
        Set.image_mono (Set.Iic_subset_Iic.mpr hji.le)
      exact Submodule.smul_mem _ _ (Submodule.span_mono hsub (ih j hji))

theorem direction_ne_zero (L : LatticeBasis ℝ n m) {i : Nat} (hi : i < n)
    (h : LinearIndependent ℤ L.basis.vector) : L.direction i ≠ 0 := by
  intro hzero
  have hrow : L.basis.realRow i = ∑ j ∈ range i, L.coefficient i j • L.direction j := by
    rw [← sub_eq_zero, ← L.direction_eq i, hzero]
  have hmem : L.basis.realRow i ∈ Submodule.span ℝ (L.basis.realRow '' Set.Iio i) := by
    rw [hrow]
    refine sum_mem fun j hj => Submodule.smul_mem _ _ ?_
    have hji : j < i := mem_range.mp hj
    have hsub : L.basis.realRow '' Set.Iic j ⊆ L.basis.realRow '' Set.Iio i :=
      Set.image_mono fun k hk => lt_of_le_of_lt hk hji
    exact Submodule.span_mono hsub (L.direction_mem_span j)
  have himage : L.basis.realRow '' Set.Iio i =
      (fun k : Fin n => L.basis.realRow k) '' Set.Iio ⟨i, hi⟩ := by
    ext x
    constructor
    · rintro ⟨k, hk, rfl⟩
      exact ⟨⟨k, lt_trans hk hi⟩, hk, rfl⟩
    · rintro ⟨k, hk, rfl⟩
      exact ⟨k, hk, rfl⟩
  rw [himage] at hmem
  have hnot : (⟨i, hi⟩ : Fin n) ∉ Set.Iio ⟨i, hi⟩ := Set.self_notMem_Iio
  exact (linearIndependent_realRow h).notMem_span_image hnot hmem

/-- The length computed for a row is that of its direction. -/
theorem direction_recomputeRow {L : LatticeBasis ℝ n m} {k : Nat} (hk : k < n)
    (h : ∀ i < k, L.RowCurrent i) : (∀ i < k, (L.recomputeRow k).RowCurrent i) ∧
      (L.recomputeRow k).direction k ⬝ᵥ (L.recomputeRow k).direction k =
        residualSquare L k (projections L k k) := by
  have hbefore : ∀ i < k, (L.recomputeRow k).RowCurrent i := fun i hi =>
    (h i hi).congr ((agreeBefore_recomputeRow L hk).mono hi)
  obtain ⟨-, hsquare⟩ := direction_computed hbefore (rowComputed_recomputeRow L hk)
  rw [length_recomputeRow L k hk, if_pos rfl] at hsquare
  exact ⟨hbefore, hsquare⟩

theorem exists_orthogonalizeRows_of_independent {L : LatticeBasis ℝ n m}
    (h : LinearIndependent ℤ L.basis.vector) {k : Nat} (hk : k ≤ n) :
    ∃ L', orthogonalizeRows k L = .ok () L' := by
  induction k with
  | zero => exact ⟨L, rfl⟩
  | succ k ih =>
      obtain ⟨M, hM⟩ := ih (by omega)
      have hkn : k < n := hk
      obtain ⟨-, hsquare⟩ := direction_recomputeRow hkn (rowCurrent_of_orthogonalizeRows hkn.le hM)
      have hbasis : (M.recomputeRow k).basis = L.basis := by
        have hconserves := conserves_basis_orthogonalizeRows (α := ℝ) k L
        rw [hM] at hconserves
        exact hconserves
      -- The length of a row is that of a direction, which does not vanish.
      have hne := (M.recomputeRow k).direction_ne_zero hkn (by rwa [hbasis])
      have hpositive : 0 < residualSquare M k (projections M k k) := by
        rw [← hsquare]
        exact lt_of_le_of_ne (sum_nonneg fun j _ => mul_self_nonneg _)
          fun hzero => hne (dotProduct_self_eq_zero.mp hzero.symm)
      refine ⟨M.recomputeRow k, (bind_of_ok hM).trans ?_⟩
      rw [orthogonalizeRow_eq, if_neg]
      rintro (hnot | hfinite)
      · exact hnot hpositive
      · cases hfinite

theorem exists_orthogonalize_of_independent {L : LatticeBasis ℝ n m}
    (h : LinearIndependent ℤ L.basis.vector) : ∃ L', orthogonalize L = .ok () L' :=
  exists_orthogonalizeRows_of_independent h le_rfl

theorem exists_ofMatrix_of_independent {M : IntMatrix n m} (hn : 0 < n)
    (h : LinearIndependent ℤ M.vector) : ∃ L : LatticeBasis ℝ n m, ofMatrix M = .ok L := by
  have hle : n ≤ m := by
    simpa using h.fintype_card_le_finrank
  let blank : LatticeBasis ℝ n m :=
    ⟨M, Vector.replicate n (Vector.replicate n 0), Vector.replicate n 0⟩
  obtain ⟨L, hL⟩ := exists_orthogonalize_of_independent (L := blank) h
  obtain ⟨hbasis, habove, hcurrent⟩ := orthogonalize_eq_ok_iff_isCurrent.mp hL
  have hzero : L.above = 0 := habove.symm.trans (above_replicate M _)
  exact ⟨L, ofMatrix_eq_ok_iff.mpr ⟨by omega, hbasis.symm, hzero, hcurrent⟩⟩

end LatticeBasis

end EmbeddingAttack
