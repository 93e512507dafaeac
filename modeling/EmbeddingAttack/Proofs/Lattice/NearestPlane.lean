import EmbeddingAttack.Proofs.Lattice.CarriedSearches
import EmbeddingAttack.Proofs.Lattice.ExactInsertion
import EmbeddingAttack.Proofs.Lattice.ExactUpdates
import EmbeddingAttack.Proofs.Lattice.LiftNorm

/-!
# Lifting to the nearest planes

In exact arithmetic a lift knows the squared lengths of its projections, down to the vector itself.
Each row that it is lifted over brings it within half of the direction of that row, so that the
squared length grows by a quarter of that of the direction at most.
-/

namespace EmbeddingAttack

namespace LatticeBasis

open IntMatrix Enumeration

variable {n m : Nat} {L : LatticeBasis ℝ n m}

/-- From each index to the one before it, norms that belong to the indices from `j` on grow, and by
no more than the bound there. -/
def GrowWithin (bound : Nat → ℝ) (j : Nat) (norms : List ℝ) : Prop :=
  ∀ i, i + 1 < norms.length → norms.getD (i + 1) 0 ≤ norms.getD i 0 ∧
    norms.getD i 0 ≤ norms.getD (i + 1) 0 + bound (j + i)

/-- The nearest integer leaves a half at most. -/
theorem sq_roundHalfAway_sub_le (c : ℝ) : (roundHalfAway c - c) ^ 2 ≤ 1 / 4 := by
  calc
    (roundHalfAway c - c) ^ 2 = |c - roundHalfAway c| ^ 2 := by rw [sq_abs, sub_sq_comm]
    _ ≤ (1 / 2) ^ 2 := pow_le_pow_left₀ (abs_nonneg _) (abs_sub_roundHalfAway c) 2
    _ = 1 / 4 := by norm_num

theorem growWithin_cons {j : Nat} {norm : ℝ} {norms : List ℝ} (hlength : 0 ≤ L.length j)
    (h : GrowWithin (L.length · / 4) (j + 1) (norm :: norms)) (c : ℝ) :
    GrowWithin (L.length · / 4) j
      ((norm + (roundHalfAway c - c) ^ 2 * L.length j) :: norm :: norms) := by
  rintro (_ | i) hi
  · refine ⟨le_add_of_nonneg_right (mul_nonneg (sq_nonneg _) hlength), ?_⟩
    calc
      norm + (roundHalfAway c - c) ^ 2 * L.length j ≤ norm + 1 / 4 * L.length j :=
        add_le_add_right (mul_le_mul_of_nonneg_right (sq_roundHalfAway_sub_le c) hlength) norm
      _ = norm + L.length (j + 0) / 4 := by rw [Nat.add_zero, one_div_mul_eq_div]
  · have hbelow := h i (by simpa using hi)
    rw [show j + 1 + i = j + (i + 1) by omega] at hbelow
    simpa only [List.getD_cons_succ] using hbelow

theorem growWithin_liftOver {j : Nat} {coefficients : List Int} {norm : ℝ} {norms : List ℝ}
    (hlengths : ∀ i < j, 0 ≤ L.length i) (h : GrowWithin (L.length · / 4) j (norm :: norms)) :
    GrowWithin (L.length · / 4) 0 (L.liftOver j coefficients norm norms).norms := by
  induction j generalizing coefficients norm norms with
  | zero => exact h
  | succ j ih =>
      rw [liftOver_succ]
      exact ih (fun i hi => hlengths i (by omega))
        (growWithin_cons (hlengths j (Nat.lt_succ_self j)) h _)

/-- In exact arithmetic, on independent rows with their Gram–Schmidt data, and as long as its
coefficients fit in words, a combination of the rows from `start` on is lifted over the rows before.
The lift keeps its coefficients and puts one before them for each of the earlier rows.  Given the
squared length of the combination, projected away from the rows before `start`, it knows that of its
own projection at each index up to `start`.  From an index to the one before it, this grows by a
quarter of the length of the direction there at most. -/
theorem nearestPlaneLift_knows_projections (L : LatticeBasis ℝ n m)
    (hrows : LinearIndependent ℤ L.basis.vector)
    (hdata : finalState (@orthogonalize ℝ realWords n m L) = L)
    (start : Nat) (coefficients : List Int) (hrange : start + coefficients.length ≤ n)
    (y : Fin m → ℝ)
    (hy : L.basis.Projects start (L.basis.realCombination start coefficients) y)
    (hfits : FitsWords realWords fun S =>
      @tryNearestPlaneLift ℝ S n m L start coefficients (y ⬝ᵥ y)) :
    ∃ lift, @tryNearestPlaneLift ℝ realWords n m L start coefficients (y ⬝ᵥ y) = .ok lift ∧
      lift.coefficients.length = start + coefficients.length ∧
      lift.coefficients.drop start = coefficients ∧
      lift.norms.length = start + 1 ∧
      (∀ j ≤ start, ∃ z,
        L.basis.Projects j (L.basis.realCombination j (lift.coefficients.drop j)) z ∧
          lift.norms.getD j 0 = z ⬝ᵥ z) ∧
      ∀ j < start, lift.norms.getD (j + 1) 0 ≤ lift.norms.getD j 0 ∧
        lift.norms.getD j 0 ≤ lift.norms.getD (j + 1) 0 + L.length j / 4 := by
  rw [orthogonalize_words] at hdata
  have hL := isCurrent_of_independent hrows hdata
  have hlength := L.length_nearestPlaneLift start coefficients (L.blockNorm start coefficients)
  have hnorms := L.length_norms_liftOver start coefficients (L.blockNorm start coefficients) []
  rw [hL.square_eq_blockNorm hrange hy] at hfits ⊢
  refine ⟨_, hfits.trans (L.tryNearestPlaneLift_eq hrange _), hlength,
    L.drop_nearestPlaneLift start _ _, hnorms, fun j hj => ?_, fun j hj => ?_⟩
  · have hblock : j + ((L.nearestPlaneLift start coefficients
        (L.blockNorm start coefficients)).coefficients.drop j).length ≤ n := by
      rw [List.length_drop, hlength]
      omega
    have hz := hL.projects_combination hblock
    have hsquare := hL.square_eq_blockNorm hblock hz
    exact ⟨_, hz, (L.norm_nearestPlaneLift coefficients hj).trans hsquare.symm⟩
  · have hstart : GrowWithin (L.length · / 4) start [L.blockNorm start coefficients] := by
      intro i hi
      simp at hi
    have hsteps : GrowWithin (L.length · / 4) 0
        (L.nearestPlaneLift start coefficients (L.blockNorm start coefficients)).norms :=
      growWithin_liftOver (fun i hi => (hL.gramSchmidt.positive i (by omega)).le) hstart
    have hstep := hsteps j (by rw [nearestPlaneLift, hnorms, List.length_nil]; omega)
    rwa [Nat.zero_add] at hstep

open Fraction LLL.Update

/-- The second of two rows, projected away from the first, is its direction. -/
theorem IsCurrent.projects_second {L : LatticeBasis ℝ 2 m} (h : L.IsCurrent) :
    L.basis.Projects 1 (L.basis.realCombination 1 [1]) (L.direction 1) := by
  have hrow : L.basis.realCombination 1 [1] = L.basis.realRow 1 := by
    simp [realCombination_eq_sum]
  rw [hrow]
  exact h.projects_direction Nat.one_lt_two

/-- The second of the two slanted rows is lifted over the first, of which it has one and a half in
it: no multiple is nearer than a half. -/
theorem nearestPlaneLift_knows_slanted :
    let L : LatticeBasis ℝ 2 2 := slantedBasis.map toReal
    LinearIndependent ℤ L.basis.vector ∧ finalState (@orthogonalize ℝ realWords 2 2 L) = L ∧
      1 + [(1 : Int)].length ≤ 2 ∧
      ∃ y, L.basis.Projects 1 (L.basis.realCombination 1 [1]) y ∧ y ⬝ᵥ y = 1 ∧
        (FitsWords realWords fun S => @tryNearestPlaneLift ℝ S 2 2 L 1 [1] (y ⬝ᵥ y)) ∧
        ∃ lift, @tryNearestPlaneLift ℝ realWords 2 2 L 1 [1] 1 = .ok lift ∧
          lift.coefficients.length = 2 ∧ lift.coefficients.drop 1 = [1] ∧
          (∃ z, L.basis.Projects 0 (L.basis.realCombination 0 lift.coefficients) z ∧
            lift.norms.getD 0 0 = z ⬝ᵥ z) ∧
          lift.norms.getD 1 0 ≤ lift.norms.getD 0 0 ∧
          lift.norms.getD 0 0 ≤ lift.norms.getD 1 0 + 4 / 4 := by
  intro L
  have hL : L.IsCurrent := (orthogonalize_words L).symm.trans orthogonalize_slanted
  have hdata : finalState (@orthogonalize ℝ realWords 2 2 L) = L :=
    congrArg finalState orthogonalize_slanted
  have hlength0 : L.length 0 = 4 := length_slanted_zero
  have hlength1 : L.length 1 = ((1 : ℚ) : ℝ) := length_toReal rfl
  have hrange : 1 + [(1 : Int)].length ≤ 2 := le_rfl
  have hy := hL.projects_second
  have hsquare : L.direction 1 ⬝ᵥ L.direction 1 = ((1 : ℚ) : ℝ) :=
    (hL.gramSchmidt.square 1 Nat.one_lt_two).trans hlength1
  have hfits : FitsWords realWords fun S =>
      @tryNearestPlaneLift ℝ S 2 2 L 1 [1] (L.direction 1 ⬝ᵥ L.direction 1) := by
    rw [hsquare]
    exact fitsWords_tryNearestPlaneLift_toReal (by decide +kernel)
  obtain ⟨lift, hlift, hcount, hdrop, -, hprojects, hgrowth⟩ :=
    nearestPlaneLift_knows_projections L linearIndependent_slanted hdata 1 [1] hrange _ hy hfits
  rw [hsquare, Rat.cast_one] at hlift
  obtain ⟨hlower, hupper⟩ := hgrowth 0 Nat.one_pos
  rw [hlength0] at hupper
  exact ⟨linearIndependent_slanted, hdata, hrange, _, hy, hsquare.trans Rat.cast_one, hfits, lift,
    hlift, hcount, hdrop, hprojects 0 (Nat.zero_le 1), hlower, hupper⟩

/-- The first row has to be added `2 ^ 63` times to the second of the two leaning rows, which is no
word.  The lift adds it once less and takes the length of the vector that it has missed. -/
theorem nearestPlaneLift_leaning_misses :
    let L : LatticeBasis ℝ 2 3 := leaningBasis.map toReal
    @ofMatrix ℝ realWords 2 3 leaningBasis.basis = .ok L ∧
      LinearIndependent ℤ L.basis.vector ∧ finalState (@orthogonalize ℝ realWords 2 3 L) = L ∧
      ∃ y, L.basis.Projects 1 (L.basis.realCombination 1 [1]) y ∧
        ∃ lift, @tryNearestPlaneLift ℝ realWords 2 3 L 1 [1] (y ⬝ᵥ y) = .ok lift ∧
          ∀ z, L.basis.Projects 0 (L.basis.realCombination 0 lift.coefficients) z →
            lift.norms.getD 0 0 ≠ z ⬝ᵥ z := by
  intro L
  have hL : L.IsCurrent := (orthogonalize_words L).symm.trans orthogonalize_leaning
  have hsquare : L.direction 1 ⬝ᵥ L.direction 1 = ((1 : ℚ) : ℝ) :=
    (hL.gramSchmidt.square 1 Nat.one_lt_two).trans (length_toReal rfl)
  have hfraction : leaningBasis.nearestPlaneLift 1 [1] (1 : ℚ) =
      ⟨[2 ^ 63 - 1, 1], [(1 : ℚ), (1 : ℚ)]⟩ := by decide +kernel
  have hlift : @nearestPlaneLift ℝ realWords 2 3 L 1 [1] ((1 : ℚ) : ℝ) =
      ⟨[2 ^ 63 - 1, 1], [((1 : ℚ) : ℝ), ((1 : ℚ) : ℝ)]⟩ := nearestPlaneLift_toReal hfraction
  refine ⟨ofMatrix_leaningBasis, linearIndependent_leaning,
    congrArg finalState orthogonalize_leaning, L.direction 1, hL.projects_second,
    ⟨[2 ^ 63 - 1, 1], [((1 : ℚ) : ℝ), ((1 : ℚ) : ℝ)]⟩, ?_, ?_⟩
  · rw [hsquare, ← hlift]
    exact @tryNearestPlaneLift_eq _ _ _ realWords L 1 [1] le_rfl _
  · intro z hz hnorm
    rw [hL.square_eq_blockNorm le_rfl hz, blockNorm_leaning] at hnorm
    norm_num at hnorm

end LatticeBasis

end EmbeddingAttack
