import EmbeddingAttack.Proofs.Lattice.BlockNorm
import EmbeddingAttack.Proofs.Lattice.BlockTransformation

/-!
# Projected blocks

The integer combinations of the rows of a block, projected away from the rows before it, form the
lattice that an enumeration searches.  Its vectors are told by the rows alone; the cached data of a
basis only measure them.  A transformation of the block that has an inverse keeps all of them, as
well as the directions of the rows before and after the block.
-/

namespace EmbeddingAttack

variable {n m : Nat}

open Finset

namespace IntMatrix

/-! ## Projections -/

/-- The real combinations of the rows before `start`. -/
def before (M : IntMatrix n m) (start : Nat) : Submodule ℝ (Fin m → ℝ) :=
  Submodule.span ℝ (M.realRow '' Set.Iio start)

/-- What is left of `x` without its part in the span of the rows before `start` is `y`. -/
structure Projects (M : IntMatrix n m) (start : Nat) (x y : Fin m → ℝ) : Prop where
  orthogonal : ∀ z ∈ M.before start, y ⬝ᵥ z = 0
  difference : x - y ∈ M.before start

theorem realRow_mem_before (M : IntMatrix n m) {i start : Nat} (hi : i < start) :
    M.realRow i ∈ M.before start :=
  Submodule.subset_span ⟨i, hi, rfl⟩

theorem before_mono (M : IntMatrix n m) {i j : Nat} (hij : i ≤ j) : M.before i ≤ M.before j :=
  Submodule.span_mono (Set.image_mono (Set.Iio_subset_Iio hij))

theorem orthogonal_before {M : IntMatrix n m} {start : Nat} {y : Fin m → ℝ}
    (h : ∀ k < start, y ⬝ᵥ M.realRow k = 0) : ∀ z ∈ M.before start, y ⬝ᵥ z = 0 := by
  intro z hz
  induction hz using Submodule.span_induction with
  | mem z hz =>
      obtain ⟨k, hk, rfl⟩ := hz
      exact h k hk
  | zero => exact dotProduct_zero y
  | add a b _ _ ha hb => rw [dotProduct_add, ha, hb, add_zero]
  | smul r a _ ha => rw [dotProduct_smul, ha, smul_zero]

namespace Projects

variable {M N : IntMatrix n m} {start : Nat} {x y z : Fin m → ℝ}

theorem unique (h : M.Projects start x y) (h' : M.Projects start x z) : y = z := by
  have hmem : y - z ∈ M.before start := by
    have hdifference := sub_mem h'.difference h.difference
    rwa [sub_sub_sub_cancel_left] at hdifference
  have hself : (y - z) ⬝ᵥ (y - z) = 0 := by
    rw [sub_dotProduct, h.orthogonal _ hmem, h'.orthogonal _ hmem, sub_zero]
  exact sub_eq_zero.mp (dotProduct_self_eq_zero.mp hself)

theorem congr (h : M.Projects start x y) (hbefore : N.before start = M.before start) :
    N.Projects start x y :=
  ⟨hbefore ▸ h.orthogonal, hbefore ▸ h.difference⟩

theorem smul (h : M.Projects start x y) (r : ℝ) : M.Projects start (r • x) (r • y) where
  orthogonal z hz := by rw [smul_dotProduct, h.orthogonal z hz, smul_zero]
  difference := by
    rw [← smul_sub]
    exact Submodule.smul_mem _ _ h.difference

theorem zero (M : IntMatrix n m) (start : Nat) : M.Projects start 0 0 where
  orthogonal z _ := zero_dotProduct z
  difference := by simp

/-- Without rows before it, a vector is its own projection. -/
theorem self (M : IntMatrix n m) (x : Fin m → ℝ) : M.Projects 0 x x where
  orthogonal := orthogonal_before nofun
  difference := by simp

end Projects

/-! ## The lattice of a block -/

/-- The combination of the rows from `start` on with the given coefficients, as a real vector. -/
def realCombination (M : IntMatrix n m) (start : Nat) (c : List Int) : Fin m → ℝ :=
  fun j => M.combination start c j

/-- The integer combinations of the rows `start, …, start + k - 1`, projected away from the rows
before them. -/
def projectedBlock (M : IntMatrix n m) (start k : Nat) : Set (Fin m → ℝ) :=
  {y | ∃ c : List Int, c.length = k ∧ M.Projects start (M.realCombination start c) y}

/-- The squared lengths of the vectors of a projected block, other than zero. -/
def projectedSquares (M : IntMatrix n m) (start k : Nat) : Set ℝ :=
  {q | ∃ y ∈ M.projectedBlock start k, y ≠ 0 ∧ y ⬝ᵥ y = q}

theorem realCombination_eq_sum (M : IntMatrix n m) (start : Nat) (c : List Int) :
    M.realCombination start c =
      ∑ i ∈ range c.length, (c.getD i 0 : ℝ) • M.realRow (start + i) := by
  funext j
  simp [realCombination, combination, realRow_eq_intCast, Finset.sum_apply]

theorem realCombination_eq_zero (M : IntMatrix n m) (start : Nat) {c : List Int}
    (h : ∀ x ∈ c, x = 0) : M.realCombination start c = 0 := by
  rw [realCombination_eq_sum]
  apply sum_eq_zero
  intro i hi
  have hlt : i < c.length := mem_range.mp hi
  rw [List.getD_eq_getElem _ _ hlt, h _ (List.getElem_mem hlt), Int.cast_zero, zero_smul]

/-- The first row of a block is a combination of its rows. -/
theorem exists_realCombination_eq_realRow (M : IntMatrix n m) (start : Nat) {k : Nat} (hk : 0 < k) :
    ∃ c : List Int, c.length = k ∧ M.realCombination start c = M.realRow start := by
  obtain ⟨k, rfl⟩ := Nat.exists_eq_succ_of_ne_zero hk.ne'
  refine ⟨1 :: List.replicate k 0, by simp, ?_⟩
  rw [realCombination_eq_sum, List.length_cons, List.length_replicate, sum_range_succ', sum_eq_zero]
  · simp
  · intro i hi
    rw [List.getD_cons_succ, List.getD_replicate _ (mem_range.mp hi), Int.cast_zero, zero_smul]

/-! ## Blocks that are transformed -/

theorem combination_eq_vecMul (M : IntMatrix n m) (start : Nat) {k : Nat} {c : List Int}
    (hc : c.length = k) :
    M.combination start c = Matrix.vecMul (fun i : Fin k => c.getD i 0) (M.block start k) := by
  rw [combination, hc, sum_range, Matrix.vecMul_eq_sum]
  rfl

namespace Transforms

variable {start k : Nat} {M N : IntMatrix n m}

theorem symm (h : Transforms start k M N) : Transforms start k N M where
  outside i hi hout := (h.outside i hi hout).symm
  inside := by
    obtain ⟨U, hU, hN⟩ := h.inside
    refine ⟨U⁻¹, (Matrix.isUnit_nonsing_inv_det_iff).mpr hU, ?_⟩
    rw [hN, ← Matrix.mul_assoc, Matrix.nonsing_inv_mul U hU, Matrix.one_mul]

theorem exists_combination (h : Transforms start k M N) {c : List Int} (hc : c.length = k) :
    ∃ d : List Int, d.length = k ∧ N.combination start c = M.combination start d := by
  obtain ⟨U, -, hN⟩ := h.inside
  let w : Fin k → ℤ := Matrix.vecMul (fun i : Fin k => c.getD i 0) U
  refine ⟨List.ofFn w, List.length_ofFn, ?_⟩
  have hw : (fun i : Fin k => (List.ofFn w).getD i 0) = w := by
    funext i
    simp
  rw [N.combination_eq_vecMul start hc, hN, ← Matrix.vecMul_vecMul,
    M.combination_eq_vecMul start (List.length_ofFn (f := w)), hw]

theorem realRow_mem_before (h : Transforms start k M N) {i j : Nat} (hij : i < j) (hj : j ≤ n)
    (hout : j ≤ start ∨ start + k ≤ j) : N.realRow i ∈ M.before j := by
  by_cases hi : i < start ∨ start + k ≤ i
  · rw [realRow_eq_intCast, h.outside i (by omega) hi, ← realRow_eq_intCast]
    exact M.realRow_mem_before hij
  · obtain ⟨U, -, hN⟩ := h.inside
    let a : Fin k := ⟨i - start, by omega⟩
    have ha : start + a.val = i := by
      show start + (i - start) = i
      omega
    have hrow : N.realRow i = ∑ l, (U a l : ℝ) • M.realRow (start + l) := by
      funext x
      have hentry : N.intRow (start + a) x = ∑ l, U a l * M.intRow (start + l) x :=
        congrFun (congrFun hN a) x
      rw [← ha]
      change ((N.intRow (start + a) x : ℤ) : ℝ) = _
      rw [hentry]
      simp [realRow_eq_intCast, Finset.sum_apply]
    rw [hrow]
    exact sum_mem fun l _ => Submodule.smul_mem _ _ (M.realRow_mem_before (by omega))

theorem before_le (h : Transforms start k M N) {j : Nat} (hj : j ≤ n)
    (hout : j ≤ start ∨ start + k ≤ j) : N.before j ≤ M.before j := by
  apply Submodule.span_le.mpr
  rintro _ ⟨i, hi, rfl⟩
  exact h.realRow_mem_before hi hj hout

/-- The rows before a place span the same, unless it lies within the block. -/
theorem before_eq (h : Transforms start k M N) {j : Nat} (hj : j ≤ n)
    (hout : j ≤ start ∨ start + k ≤ j) : N.before j = M.before j :=
  le_antisymm (h.before_le hj hout) (h.symm.before_le hj hout)

end Transforms

/-- A transformation of the block keeps its projected lattice. -/
theorem Transforms.projectedBlock_eq {start k : Nat} {M N : IntMatrix n m}
    (h : Transforms start k M N) (hk : start + k ≤ n) :
    N.projectedBlock start k = M.projectedBlock start k := by
  have hsub {M N : IntMatrix n m} (h : Transforms start k M N) :
      N.projectedBlock start k ⊆ M.projectedBlock start k := by
    rintro y ⟨c, hc, hy⟩
    obtain ⟨d, hd, hcombination⟩ := h.exists_combination hc
    have hreal : N.realCombination start c = M.realCombination start d := by
      unfold realCombination
      rw [hcombination]
    have hbefore := h.symm.before_eq (show start ≤ n by omega) (.inl le_rfl)
    exact ⟨d, hd, hreal ▸ hy.congr hbefore⟩
  exact (hsub h).antisymm (hsub h.symm)

end IntMatrix

namespace LatticeBasis

open IntMatrix

/-! ## Measured by the cached data -/

namespace GramSchmidt

variable {L : LatticeBasis ℝ n m} {v : Nat → Fin m → ℝ}

theorem square_sum (h : L.GramSchmidt v) (s : Finset Nat) (hs : ∀ j ∈ s, j < n) (w : Nat → ℝ) :
    (∑ j ∈ s, w j • v j) ⬝ᵥ (∑ j ∈ s, w j • v j) = ∑ j ∈ s, w j ^ 2 * L.length j := by
  rw [sum_dotProduct]
  apply sum_congr rfl
  intro i hi
  rw [dotProduct_sum, sum_eq_single i]
  · rw [smul_dotProduct, dotProduct_smul, h.square i (hs i hi), smul_eq_mul, smul_eq_mul]
    ring
  · intro j hj hji
    rw [smul_dotProduct, dotProduct_smul, h.orthogonal i (hs i hi) j (hs j hj) hji.symm, smul_zero,
      smul_zero]
  · intro hnot
    exact absurd hi hnot

/-- The part along direction `j` of the combination of the rows from `start` on. -/
noncomputable def along (L : LatticeBasis ℝ n m) (start : Nat) (c : List Int) (j : Nat) : ℝ :=
  ∑ i ∈ range c.length, c.getD i 0 * L.lower (start + i) j

theorem realCombination_eq_along (h : L.GramSchmidt v) {start : Nat} {c : List Int}
    (hc : start + c.length ≤ n) :
    L.basis.realCombination start c = ∑ j ∈ range n, along L start c j • v j := by
  rw [realCombination_eq_sum]
  calc
    ∑ i ∈ range c.length, (c.getD i 0 : ℝ) • L.basis.realRow (start + i) =
        ∑ i ∈ range c.length, ∑ j ∈ range n, (c.getD i 0 * L.lower (start + i) j) • v j := by
      apply sum_congr rfl
      intro i hi
      rw [h.row _ (by have := mem_range.mp hi; omega), smul_sum]
      simp only [smul_smul]
    _ = ∑ j ∈ range n, along L start c j • v j := by
      rw [sum_comm]
      simp only [along, sum_smul]

theorem along_of_le {start : Nat} {c : List Int} {j : Nat} (hj : start + c.length ≤ j) :
    along L start c j = 0 := by
  apply sum_eq_zero
  intro i hi
  rw [L.lower_of_lt (by have := mem_range.mp hi; omega), mul_zero]

theorem along_of_lt (h : L.GramSchmidt v) {start : Nat} {c : List Int} (hc : start + c.length ≤ n)
    {j : Nat} (hj : j < c.length) : along L start c (start + j) =
      c.getD j 0 +
        ∑ i ∈ Ico (j + 1) c.length, c.getD i 0 * L.coefficient (start + i) (start + j) := by
  have hsplit := sum_range_add_sum_Ico (fun i => c.getD i 0 * L.lower (start + i) (start + j)) hj
  have hbefore : ∑ i ∈ range j, c.getD i 0 * L.lower (start + i) (start + j) = 0 := by
    apply sum_eq_zero
    intro i hi
    rw [L.lower_of_lt (by have := mem_range.mp hi; omega), mul_zero]
  unfold along
  rw [← hsplit, sum_range_succ, hbefore, zero_add, L.lower_of_le le_rfl,
    h.diagonal _ (by omega), mul_one]
  congr 1
  apply sum_congr rfl
  intro i hi
  rw [L.lower_of_le (by have := mem_Ico.mp hi; omega)]

/-- The quadratic form of a block adds up the parts along the directions from its first row on. -/
theorem blockNorm_eq_sum (h : L.GramSchmidt v) {start : Nat} {c : List Int}
    (hc : start + c.length ≤ n) :
    L.blockNorm start c = ∑ j ∈ Ico start n, along L start c j ^ 2 * L.length j := by
  have hblock : ∑ j ∈ Ico start (start + c.length), along L start c j ^ 2 * L.length j =
      ∑ j ∈ Ico start n, along L start c j ^ 2 * L.length j := by
    apply sum_subset (Ico_subset_Ico_right hc)
    intro j hj hnot
    rw [mem_Ico] at hj hnot
    rw [along_of_le (by omega), zero_pow two_ne_zero, zero_mul]
  rw [← hblock, sum_Ico_eq_sum_range, blockNorm, Nat.add_sub_cancel_left]
  apply sum_congr rfl
  intro j hj
  rw [h.along_of_lt hc (mem_range.mp hj)]

end GramSchmidt

namespace IsCurrent

variable {L : LatticeBasis ℝ n m} {start : Nat} {c : List Int}

theorem direction_mem_before (L : LatticeBasis ℝ n m) {i j : Nat} (hij : i < j) :
    L.direction i ∈ L.basis.before j := by
  have hsub : L.basis.realRow '' Set.Iic i ⊆ L.basis.realRow '' Set.Iio j :=
    Set.image_mono fun k hk => lt_of_le_of_lt hk hij
  exact Submodule.span_mono hsub (L.direction_mem_span i)

theorem direction_orthogonal (h : L.IsCurrent) {i : Nat} (hi : i < n) :
    ∀ z ∈ L.basis.before i, L.direction i ⬝ᵥ z = 0 := by
  refine orthogonal_before fun k hk => ?_
  rw [dotProduct_comm, h.gramSchmidt.row_dot_direction (by omega) hi, L.lower_of_lt hk, zero_mul]

theorem projects_direction (h : L.IsCurrent) {i : Nat} (hi : i < n) :
    L.basis.Projects i (L.basis.realRow i) (L.direction i) where
  orthogonal := h.direction_orthogonal hi
  difference := by
    rw [direction_eq, sub_sub_cancel]
    exact sum_mem fun j hj =>
      Submodule.smul_mem _ _ (direction_mem_before L (mem_range.mp hj))

theorem projects_combination (h : L.IsCurrent) (hc : start + c.length ≤ n) :
    L.basis.Projects start (L.basis.realCombination start c)
      (∑ j ∈ Ico start n, GramSchmidt.along L start c j • L.direction j) where
  orthogonal := by
    intro z hz
    rw [sum_dotProduct]
    apply sum_eq_zero
    intro j hj
    obtain ⟨hstart, hj⟩ := mem_Ico.mp hj
    rw [smul_dotProduct, h.direction_orthogonal hj z (L.basis.before_mono hstart hz), smul_zero]
  difference := by
    rw [h.gramSchmidt.realCombination_eq_along hc,
      ← sum_range_add_sum_Ico _ (show start ≤ n by omega), add_sub_cancel_right]
    exact sum_mem fun j hj =>
      Submodule.smul_mem _ _ (direction_mem_before L (mem_range.mp hj))

/-- The quadratic form of a block is the square of the combination, projected. -/
theorem square_eq_blockNorm (h : L.IsCurrent) (hc : start + c.length ≤ n) {y : Fin m → ℝ}
    (hy : L.basis.Projects start (L.basis.realCombination start c) y) :
    y ⬝ᵥ y = L.blockNorm start c := by
  rw [hy.unique (h.projects_combination hc), h.gramSchmidt.blockNorm_eq_sum hc]
  exact h.gramSchmidt.square_sum _ (fun j hj => (mem_Ico.mp hj).2) _

theorem square_eq_length (h : L.IsCurrent) {i : Nat} (hi : i < n) {y : Fin m → ℝ}
    (hy : L.basis.Projects i (L.basis.realRow i) y) : y ⬝ᵥ y = L.length i := by
  rw [hy.unique (h.projects_direction hi)]
  exact h.gramSchmidt.square i hi

/-- The squared lengths in a projected block are the values of its quadratic form. -/
theorem mem_projectedSquares_iff (h : L.IsCurrent) {k : Nat} (hk : start + k ≤ n) {q : ℝ} :
    q ∈ L.basis.projectedSquares start k ↔
      ∃ c : List Int, c.length = k ∧ (∃ x ∈ c, x ≠ 0) ∧ L.blockNorm start c = q := by
  constructor
  · rintro ⟨y, ⟨c, rfl, hy⟩, hne, rfl⟩
    refine ⟨c, rfl, ?_, (h.square_eq_blockNorm hk hy).symm⟩
    by_contra hzero
    rw [realCombination_eq_zero _ _ (by simpa using hzero)] at hy
    exact hne (hy.unique (.zero _ _))
  · rintro ⟨c, rfl, hc, rfl⟩
    have hy := h.projects_combination hk
    have hsquare := h.square_eq_blockNorm hk hy
    refine ⟨_, ⟨c, rfl, hy⟩, fun hzero => ?_, hsquare⟩
    rw [hzero, zero_dotProduct] at hsquare
    exact (blockNorm_pos (fun j hj => h.gramSchmidt.positive _ (by omega)) hc).ne hsquare

/-- The direction of the first row of a block is one of the vectors of the projected block. -/
theorem length_mem_projectedSquares (h : L.IsCurrent) (hstart : start < n) {k : Nat} (hk : 0 < k) :
    L.length start ∈ L.basis.projectedSquares start k := by
  obtain ⟨c, hc, hrow⟩ := L.basis.exists_realCombination_eq_realRow start hk
  have hprojects := h.projects_direction hstart
  rw [← hrow] at hprojects
  have hsquare := h.gramSchmidt.square start hstart
  refine ⟨L.direction start, ⟨c, hc, hprojects⟩, fun hzero => ?_, hsquare⟩
  rw [hzero, zero_dotProduct] at hsquare
  exact (h.gramSchmidt.positive start hstart).ne hsquare

end IsCurrent

end LatticeBasis

end EmbeddingAttack
