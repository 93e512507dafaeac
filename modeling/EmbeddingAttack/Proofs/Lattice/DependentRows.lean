import EmbeddingAttack.Proofs.Lattice.ProjectedBlock
import EmbeddingAttack.Proofs.Profile.Simulation

/-!
# Independent and dependent rows

Orthogonalisation goes from row to row and stops at the first one that depends on its predecessors,
since nothing is left of it.  So it succeeds for independent rows only, and its data are then the
coefficients and the lengths of orthogonal directions; for dependent rows it names the first that
can be left out.
-/

namespace EmbeddingAttack

variable {n m : Nat}

open Finset

/-- The rows that are combinations of the rows before them. -/
def IntMatrix.dependentRows (M : IntMatrix n m) : Set Nat :=
  {i | i < n ∧ M.realRow i ∈ M.before i}

namespace LatticeBasis

open IntMatrix

/-! ## One row -/

section Computed

variable {L : LatticeBasis ℝ n m} {i : Nat}

theorem direction_orthogonal_before (hbefore : ∀ k < i, L.RowCurrent k) (h : L.RowComputed i) :
    ∀ z ∈ L.basis.before i, L.direction i ⬝ᵥ z = 0 := by
  obtain ⟨horthogonal, -⟩ := direction_computed hbefore h
  refine orthogonal_before fun k hk => ?_
  have hrow : L.basis.realRow k =
      L.direction k + ∑ j ∈ range k, L.coefficient k j • L.direction j := by
    rw [L.direction_eq k, sub_add_cancel]
  rw [hrow, dotProduct_add, dotProduct_sum, horthogonal k hk, zero_add]
  refine sum_eq_zero fun j hj => ?_
  have hji : j < i := (mem_range.mp hj).trans hk
  rw [dotProduct_smul, horthogonal j hji, smul_zero]

/-- A row depends on its predecessors exactly where nothing is left of it. -/
theorem direction_eq_zero_iff (hbefore : ∀ k < i, L.RowCurrent k) (h : L.RowComputed i) :
    L.direction i = 0 ↔ L.basis.realRow i ∈ L.basis.before i := by
  have hparts : L.basis.realRow i - L.direction i ∈ L.basis.before i := by
    rw [direction_eq, sub_sub_cancel]
    exact sum_mem fun j hj =>
      Submodule.smul_mem _ _ (IsCurrent.direction_mem_before L (mem_range.mp hj))
  constructor
  · intro hzero
    rwa [hzero, sub_zero] at hparts
  · intro hrow
    -- What is left lies in the span of the rows before and is orthogonal to all of it.
    have hmem : L.direction i ∈ L.basis.before i := by
      have hdifference := sub_mem hrow hparts
      rwa [sub_sub_cancel] at hdifference
    exact dotProduct_self_eq_zero.mp (direction_orthogonal_before hbefore h _ hmem)

end Computed

/-- A row that does not depend on its predecessors gets its data, one that does is reported. -/
theorem orthogonalizeRow_cases {L : LatticeBasis ℝ n m} {k : Nat} (hk : k < n)
    (h : ∀ i < k, L.RowCurrent i) :
    (L.basis.realRow k ∉ L.basis.before k ∧
      orthogonalizeRow k L = .ok () (L.recomputeRow k)) ∨
    (L.basis.realRow k ∈ L.basis.before k ∧
      ∃ L', orthogonalizeRow k L = .error (.numerical (.orthogonalLength k 0)) L') := by
  obtain ⟨hbefore, hsquare⟩ := direction_recomputeRow hk h
  have hzero := direction_eq_zero_iff hbefore (rowComputed_recomputeRow L hk)
  rw [← dotProduct_self_eq_zero, hsquare] at hzero
  change _ ↔ L.basis.realRow k ∈ L.basis.before k at hzero
  rw [orthogonalizeRow_eq]
  by_cases hrow : L.basis.realRow k ∈ L.basis.before k
  · have hlength := hzero.mpr hrow
    rw [hlength, if_pos (.inl (lt_irrefl 0))]
    exact .inr ⟨hrow, _, rfl⟩
  · have hpositive : 0 < residualSquare L k (projections L k k) := by
      refine lt_of_le_of_ne ?_ fun hlength => hrow (hzero.mp hlength.symm)
      rw [← hsquare]
      exact sum_nonneg fun j _ => mul_self_nonneg _
    rw [if_neg (by rintro (hnot | ⟨⟨⟩⟩); exact hnot hpositive)]
    exact .inl ⟨hrow, rfl⟩

/-! ## All rows -/

/-- As many rows as are orthogonalised do not depend on their predecessors; a failure names the
first that does. -/
theorem orthogonalizeRows_cases (L : LatticeBasis ℝ n m) {k : Nat} (hk : k ≤ n) :
    (∃ L', orthogonalizeRows k L = .ok () L' ∧ ∀ i < k, i ∉ L.basis.dependentRows) ∨
    ∃ i L', orthogonalizeRows k L = .error (.numerical (.orthogonalLength i 0)) L' ∧
      IsLeast L.basis.dependentRows i := by
  induction k with
  | zero => exact .inl ⟨L, rfl, nofun⟩
  | succ k ih =>
      rcases ih (by omega) with ⟨M, hM, hfree⟩ | ⟨i, M, hM, hleast⟩
      · have hbasis : M.basis = L.basis := by
          have hconserves := conserves_basis_orthogonalizeRows (α := ℝ) k L
          rwa [hM] at hconserves
        have hcurrent := rowCurrent_of_orthogonalizeRows (by omega) hM
        rcases orthogonalizeRow_cases (by omega) hcurrent with ⟨hrow, hrun⟩ | ⟨hrow, M', hrun⟩
        · rw [hbasis] at hrow
          refine .inl ⟨_, (bind_of_ok hM).trans hrun, fun i hi => ?_⟩
          rcases Nat.lt_succ_iff_lt_or_eq.mp hi with hi | rfl
          · exact hfree i hi
          · exact fun hdependent => hrow hdependent.2
        · rw [hbasis] at hrow
          refine .inr ⟨k, M', (bind_of_ok hM).trans hrun, ⟨hk, hrow⟩, fun j hj => ?_⟩
          by_contra hlt
          exact hfree j (not_le.mp hlt) hj
      · exact .inr ⟨i, M, bind_of_error hM, hleast⟩

theorem ofMatrix_cases (M : IntMatrix n m) (hn : 0 < n) (hle : n ≤ m) :
    (∃ L : LatticeBasis ℝ n m, ofMatrix M = .ok L) ∨
    ∃ i, IsLeast M.dependentRows i ∧ (ofMatrix M : Except (Failure ℝ) (LatticeBasis ℝ n m)) =
      .error (.numerical (.orthogonalLength i 0)) := by
  have hsize : ¬ (n = 0 ∨ m = 0) := by omega
  unfold ofMatrix
  rw [if_neg hsize, if_neg (not_lt.mpr hle)]
  dsimp only
  rcases orthogonalizeRows_cases (LatticeBasis.mk M (Vector.replicate n (Vector.replicate n 0))
    (Vector.replicate n 0)) le_rfl with ⟨L, hrun, -⟩ | ⟨i, L, hrun, hleast⟩
  · refine .inl ⟨L, ?_⟩
    unfold orthogonalize
    rw [hrun]
    rfl
  · refine .inr ⟨i, hleast, ?_⟩
    unfold orthogonalize
    rw [hrun]
    rfl

theorem exists_ofMatrix_iff (M : IntMatrix n m) (hn : 0 < n) :
    (∃ L : LatticeBasis ℝ n m, ofMatrix M = .ok L) ↔ LinearIndependent ℤ M.vector := by
  constructor
  · rintro ⟨L, hL⟩
    obtain ⟨-, rfl, -, hcurrent⟩ := ofMatrix_eq_ok_iff.mp hL
    exact hcurrent.linearIndependent
  · exact exists_ofMatrix_of_independent hn

theorem IsCurrent.profile {L : LatticeBasis ℝ n m} (h : L.IsCurrent) (hn : 0 < n) :
    ∃ p, L.profile = .ok p ∧ p.lengths = L.r.toList := by
  have hne : L.r.toList ≠ [] := by
    intro hnil
    have hlength := congrArg List.length hnil
    rw [Vector.length_toList, List.length_nil] at hlength
    omega
  have hpos : ∀ x ∈ L.r.toList, 0 < x := by
    intro x hx
    obtain ⟨i, hi, rfl⟩ := Vector.getElem_of_mem (Vector.mem_toList_iff.mp hx)
    rw [← length_of_lt L hi]
    exact h.gramSchmidt.positive i hi
  exact ⟨_, Profile.ofLengths_eq hne hpos, rfl⟩

/-- The rows of a matrix are orthogonalised exactly where they are independent.  The data are then
the coefficients and the squared lengths of orthogonal directions, and the products of the first
lengths are the determinants of the products of the first rows.  Of dependent rows the first that
depends on its predecessors is reported.  A matrix has one row at least. -/
theorem ofMatrix_orthogonalizes (M : IntMatrix n m) (hn : 0 < n) (hle : n ≤ m) :
    ((∃ L : LatticeBasis ℝ n m, ofMatrix M = .ok L) ↔ LinearIndependent ℤ M.vector) ∧
    (∀ L : LatticeBasis ℝ n m, ofMatrix M = .ok L →
      L.basis = M ∧
      (∀ i, L.direction i =
        M.realRow i - ∑ j ∈ range i, L.coefficient i j • L.direction j) ∧
      (∀ i < n, ∀ j < n, i ≠ j → L.direction i ⬝ᵥ L.direction j = 0) ∧
      (∀ i < n, L.length i = L.direction i ⬝ᵥ L.direction i ∧ 0 < L.length i) ∧
      (∀ i ≤ n, ∏ j ∈ range i, L.length j = M.gramDeterminant i) ∧
      ∃ p, L.profile = .ok p ∧ p.lengths = L.r.toList) ∧
    (¬ LinearIndependent ℤ M.vector → ∃ i, IsLeast M.dependentRows i ∧
      (ofMatrix M : Except (Failure ℝ) (LatticeBasis ℝ n m)) =
        .error (.numerical (.orthogonalLength i 0))) := by
  have hindependent := exists_ofMatrix_iff M hn
  refine ⟨hindependent, fun L hL => ?_, fun hdependent => ?_⟩
  · obtain ⟨-, rfl, -, hcurrent⟩ := ofMatrix_eq_ok_iff.mp hL
    have hdata := hcurrent.gramSchmidt
    exact ⟨rfl, L.direction_eq, hdata.orthogonal,
      fun i hi => ⟨(hdata.square i hi).symm, hdata.positive i hi⟩,
      fun i hi => (hdata.gramDeterminant_eq hi).symm, hcurrent.profile hn⟩
  · rcases ofMatrix_cases M hn hle with hok | hfails
    · exact absurd (hindependent.mp hok) hdependent
    · exact hfails

/-- Two rows at an angle. -/
def obliqueRows : IntMatrix 2 2 :=
  ⟨.ofFn ![.ofFn ![2, 1], .ofFn ![1, 2]]⟩

/-- Two rows, the second of which is twice the first. -/
def parallelRows : IntMatrix 2 2 :=
  ⟨.ofFn ![.ofFn ![1, 2], .ofFn ![2, 4]]⟩

theorem not_linearIndependent_parallelRows : ¬ LinearIndependent ℤ parallelRows.vector := by
  rw [Fintype.linearIndependent_iff]
  intro h
  have hsum : ∑ i, (![2, -1] : Fin 2 → ℤ) i • parallelRows.vector i = 0 := by
    decide
  exact absurd (h _ hsum 0) (by decide)

theorem ofMatrix_orthogonalizes_pairs :
    (∃ L : LatticeBasis ℝ 2 2, ofMatrix obliqueRows = .ok L ∧ L.length 0 * L.length 1 = 9) ∧
      (ofMatrix parallelRows : Except (Failure ℝ) (LatticeBasis ℝ 2 2)) =
        .error (.numerical (.orthogonalLength 1 0)) := by
  have hdet : obliqueRows.gramDeterminant 2 = 9 := by
    rw [gramDeterminant, Matrix.det_fin_two]
    decide
  have hindependent : LinearIndependent ℤ obliqueRows.vector :=
    linearIndependent_of_gramDeterminant_ne_zero (by rw [hdet]; decide)
  obtain ⟨hoblique, hdata, -⟩ := ofMatrix_orthogonalizes obliqueRows (by decide) (by decide)
  obtain ⟨-, -, hparallel⟩ := ofMatrix_orthogonalizes parallelRows (by decide) (by decide)
  constructor
  · obtain ⟨L, hL⟩ := hoblique.mpr hindependent
    obtain ⟨-, -, -, -, hproduct, -⟩ := hdata L hL
    refine ⟨L, hL, ?_⟩
    have htwo := hproduct 2 le_rfl
    rw [prod_range_succ, prod_range_one, hdet] at htwo
    exact_mod_cast htwo
  · obtain ⟨i, ⟨⟨hi, hrow⟩, -⟩, herror⟩ := hparallel not_linearIndependent_parallelRows
    -- The first row is not zero, so that it does not depend on the rows before it.
    have hne : i ≠ 0 := by
      rintro rfl
      have hzero : parallelRows.realRow 0 = 0 := by
        simpa [before] using hrow
      have hentry : ((1 : ℤ) : ℝ) = 0 := congrFun hzero 0
      norm_num at hentry
    obtain rfl : i = 1 := by omega
    exact herror

end LatticeBasis

end EmbeddingAttack
