import EmbeddingAttack.Lattice.BlockSearch
import EmbeddingAttack.Proofs.Lattice.BlockNorm

/-!
# The lengths of a lift

Lifting adds, row by row, the multiple of a row that brings the sum closest to its hyperplane, and
the square of the distance left to the squared length.  In exact arithmetic the squared lengths kept
beside a lift are those of its projections, down to the vector itself.
-/

namespace EmbeddingAttack

namespace LatticeBasis

open Enumeration

variable {n m : Nat}

/-! ## The shape of a lift -/

section Shape

variable {α : Type} [Scalar α] (L : LatticeBasis α n m)

/-- A lift puts coefficients in front of those that it starts from. -/
theorem coefficients_liftOver (j : Nat) (c : List Int) (norm : α) (norms : List α) :
    ∃ before : List Int, before.length = j ∧
      (L.liftOver j c norm norms).coefficients = before ++ c := by
  induction j generalizing c norm norms with
  | zero => exact ⟨[], rfl, rfl⟩
  | succ j ih =>
      unfold liftOver
      dsimp only
      generalize Scalar.toWord (Scalar.round (-L.offset j (j + 1) c 0)) = x
      obtain ⟨before, hlength, hcoefficients⟩ := ih (x :: c) _ _
      refine ⟨before ++ [x], by simp [hlength], ?_⟩
      rw [hcoefficients, List.append_assoc, List.singleton_append]

theorem length_nearestPlaneLift (start : Nat) (c : List Int) (norm : α) :
    (L.nearestPlaneLift start c norm).coefficients.length = start + c.length := by
  obtain ⟨before, hbefore, hcoefficients⟩ := L.coefficients_liftOver start c norm []
  rw [nearestPlaneLift, hcoefficients, List.length_append, hbefore]

/-- A lift leaves the coefficients that it starts from. -/
theorem drop_nearestPlaneLift (start : Nat) (c : List Int) (norm : α) :
    (L.nearestPlaneLift start c norm).coefficients.drop start = c := by
  obtain ⟨before, hbefore, hcoefficients⟩ := L.coefficients_liftOver start c norm []
  rw [nearestPlaneLift, hcoefficients, ← hbefore, List.drop_left]

/-- A lift over `j` rows knows the norm at each index up to `j`. -/
theorem length_norms_liftOver (j : Nat) (coefficients : List Int) (norm : α) (norms : List α) :
    (L.liftOver j coefficients norm norms).norms.length = j + 1 + norms.length := by
  induction j generalizing coefficients norm norms with
  | zero =>
      unfold liftOver
      rw [List.length_cons]
      omega
  | succ j ih =>
      unfold liftOver
      dsimp only
      rw [ih, List.length_cons]
      omega

/-- All rows of the basis can take part in a lift. -/
theorem tryNearestPlaneLift_eq {start : Nat} {coefficients : List Int}
    (hrange : start + coefficients.length ≤ n) (norm : α) :
    L.tryNearestPlaneLift start coefficients norm =
      .ok (L.nearestPlaneLift start coefficients norm) := by
  have hbeyond : coefficients.drop (n - start) = [] := List.drop_eq_nil_of_le (by omega)
  rw [tryNearestPlaneLift, hbeyond, if_neg]
  · rfl
  · simp only [List.any_nil, Bool.false_eq_true, or_false]
    omega

end Shape

/-! ## The norms of a lift -/

/-- A lift over the rows before `j`, whose norms from the first on are the squared lengths of its
projections at the indices from `j` on. -/
def ExactLift (L : LatticeBasis ℝ n m) (j : Nat) (lift : Lift ℝ) : Prop :=
  ∀ i < lift.norms.length, lift.norms.getD i 0 = L.blockNorm (j + i) (lift.coefficients.drop i)

/-- The offset along a row is the centre of the enumeration with the other sign. -/
theorem offset_neg (L : LatticeBasis ℝ n m) (j i : Nat) (c : List Int) (y : ℝ) :
    L.offset j i c (-y) = -center.go L 0 j i c y := by
  induction c generalizing i y with
  | nil => rfl
  | cons x c ih =>
      rw [offset, center.go, Nat.zero_add]
      by_cases hx : x = 0
      · have hy : y - ((x : Int) : ℝ) * L.coefficient i j = y := by
          rw [hx, Int.cast_zero, zero_mul, sub_zero]
        rw [if_pos hx, ih]
        exact congrArg (fun z => -center.go L 0 j (i + 1) c z) hy.symm
      · have hy : -y + ((x : Int) : ℝ) * L.coefficient i j =
            -(y - ((x : Int) : ℝ) * L.coefficient i j) := by ring
        rw [if_neg hx, ← ih]
        exact congrArg (L.offset j (i + 1) c) hy

theorem exactLift_cons {L : LatticeBasis ℝ n m} {j : Nat} {coefficients : List Int} {norm : ℝ}
    {norms : List ℝ} (h : L.ExactLift (j + 1) ⟨coefficients, norm :: norms⟩) (x : Int) :
    L.ExactLift j ⟨x :: coefficients,
      (norm + (x - center L 0 j coefficients) ^ 2 * L.length j) :: norm :: norms⟩ := by
  intro i hi
  cases i with
  | zero =>
      have hcons := L.blockNorm_cons 0 j x coefficients
      have hnorm := h 0 (Nat.succ_pos _)
      simp only [Nat.zero_add, Nat.add_zero, List.drop_zero, List.getD_cons_zero] at hcons hnorm ⊢
      rw [hcons, hnorm]
  | succ i =>
      have hbelow := h i (by simpa using hi)
      rw [show j + (i + 1) = j + 1 + i by omega]
      simpa using hbelow

/-- Lifting over one row adds the multiple that is nearest to the centre which the later
coefficients leave. -/
theorem liftOver_succ (L : LatticeBasis ℝ n m) (j : Nat) (coefficients : List Int) (norm : ℝ)
    (norms : List ℝ) :
    let c := center L 0 j coefficients
    L.liftOver (j + 1) coefficients norm norms =
      L.liftOver j (roundHalfAway c :: coefficients)
        (norm + (roundHalfAway c - c) ^ 2 * L.length j) (norm :: norms) := by
  intro c
  have hy : L.offset j (j + 1) coefficients 0 = -center L 0 j coefficients := by
    have hoffset := L.offset_neg j (j + 1) coefficients 0
    rw [neg_zero] at hoffset
    rw [hoffset, center, Nat.zero_add]
  have hx : Scalar.round (-L.offset j (j + 1) coefficients 0) = (roundHalfAway c : ℝ) := by
    rw [hy, neg_neg]
    rfl
  rw [liftOver, hx, toWord_intCast, hy, ← sub_eq_add_neg, pow_two]

theorem exactLift_liftOver {L : LatticeBasis ℝ n m} {j : Nat} {coefficients : List Int} {norm : ℝ}
    {norms : List ℝ} (h : L.ExactLift j ⟨coefficients, norm :: norms⟩) :
    L.ExactLift 0 (L.liftOver j coefficients norm norms) := by
  induction j generalizing coefficients norm norms with
  | zero => exact h
  | succ j ih =>
      rw [liftOver_succ]
      exact ih (exactLift_cons h _)

/-- The squared lengths kept beside a lift are those of its projections. -/
theorem norm_nearestPlaneLift (L : LatticeBasis ℝ n m) {start j : Nat} (coefficients : List Int)
    (hj : j ≤ start) :
    let lift := L.nearestPlaneLift start coefficients (L.blockNorm start coefficients)
    lift.norms.getD j 0 = L.blockNorm j (lift.coefficients.drop j) := by
  have h : L.ExactLift start ⟨coefficients, [L.blockNorm start coefficients]⟩ := by
    intro i hi
    obtain rfl : i = 0 := by simpa using hi
    rfl
  have hnorm := exactLift_liftOver h j (by rw [length_norms_liftOver]; omega)
  rw [Nat.zero_add] at hnorm
  exact hnorm

theorem mem_of_shortestAt {α : Type} [Scalar α] {j : Nat} {lifts : List (Lift α)} {lift : Lift α}
    {norm : α} (h : shortestAt j lifts = some (lift, norm)) :
    lift ∈ lifts ∧ norm = lift.norms.getD j 0 := by
  let Kept (best : Option (Lift α × α)) : Prop :=
    ∀ b ∈ best, b.1 ∈ lifts ∧ b.2 = b.1.norms.getD j 0
  have hkept : Kept (shortestAt j lifts) := by
    unfold shortestAt
    refine List.foldlRecOn (motive := Kept) lifts _ (by simp [Kept]) fun best hbest next hnext => ?_
    have hsome : Kept (some (next, next.norms.getD j 0)) := by
      rintro b ⟨⟩
      exact ⟨hnext, rfl⟩
    cases best with
    | none => exact hsome
    | some b =>
        dsimp only
        split
        · exact hsome
        · exact hbest
  exact hkept (lift, norm) h

end LatticeBasis

end EmbeddingAttack
