import EmbeddingAttack.Lattice.Enumeration
import EmbeddingAttack.Proofs.Arithmetic.RealScalar
import Mathlib.Algebra.BigOperators.Intervals
import Mathlib.Data.List.GetD
import Mathlib.Algebra.Order.BigOperators.Ring.Finset

/-!
# The quadratic form of a block

The squared length of a combination of the rows of a block, projected away from the rows before it,
as a sum over the rows.  The enumeration adds it up from the last row to the first: each row adds
the square of its distance from the centre that the later coefficients leave.
-/

namespace EmbeddingAttack

namespace LatticeBasis

open Enumeration

variable {n m : Nat}

/-- The squared length of the combination with the given coefficients of the rows from `start` on,
projected away from the rows before. -/
noncomputable def blockNorm (L : LatticeBasis ℝ n m) (start : Nat) (c : List Int) : ℝ :=
  ∑ j ∈ Finset.range c.length,
    (c.getD j 0 + ∑ i ∈ Finset.Ico (j + 1) c.length,
      c.getD i 0 * L.coefficient (start + i) (start + j)) ^ 2 * L.length (start + j)

/-! ## Row by row -/

theorem center_go (L : LatticeBasis ℝ n m) (start level i : Nat) (later : List Int) (c : ℝ) :
    center.go L start level i later c =
      c - ∑ k ∈ Finset.range later.length,
        later.getD k 0 * L.coefficient (i + k) (start + level) := by
  induction later generalizing i c with
  | nil => simp [center.go]
  | cons x later ih =>
      have htail : ∑ k ∈ Finset.range later.length,
          (x :: later).getD (k + 1) 0 * L.coefficient (i + (k + 1)) (start + level) =
            ∑ k ∈ Finset.range later.length,
              later.getD k 0 * L.coefficient (i + 1 + k) (start + level) := by
        refine Finset.sum_congr rfl fun k _ => ?_
        rw [List.getD_cons_succ, show i + (k + 1) = i + 1 + k by omega]
      rw [center.go, ih, List.length_cons, Finset.sum_range_succ', htail, List.getD_cons_zero,
        Nat.add_zero]
      rw [← sub_sub, sub_right_comm]
      rfl

theorem center_eq (L : LatticeBasis ℝ n m) (start level : Nat) (later : List Int) :
    center L start level later = -∑ k ∈ Finset.range later.length,
      later.getD k 0 * L.coefficient (start + level + 1 + k) (start + level) := by
  rw [center, center_go]
  exact zero_sub _

theorem blockNorm_nil (L : LatticeBasis ℝ n m) (start : Nat) : L.blockNorm start [] = 0 := rfl

theorem blockNorm_cons (L : LatticeBasis ℝ n m) (start level : Nat) (x : Int) (later : List Int) :
    L.blockNorm (start + level) (x :: later) =
      L.blockNorm (start + (level + 1)) later +
        (x - center L start level later) ^ 2 * L.length (start + level) := by
  unfold blockNorm
  rw [List.length_cons, Finset.sum_range_succ', center_eq]
  have hinner (j : Nat) : ∑ i ∈ Finset.Ico (j + 1) (later.length + 1),
      (x :: later).getD i 0 * L.coefficient (start + level + i) (start + level + j) =
        ∑ i ∈ Finset.Ico j later.length,
          later.getD i 0 * L.coefficient (start + (level + 1) + i) (start + level + j) := by
    rw [← Finset.sum_Ico_add' _ j later.length 1]
    refine Finset.sum_congr rfl fun i _ => ?_
    rw [List.getD_cons_succ, show start + level + (i + 1) = start + (level + 1) + i by omega]
  congr 1
  · refine Finset.sum_congr rfl fun j _ => ?_
    rw [hinner (j + 1), List.getD_cons_succ,
      show start + level + (j + 1) = start + (level + 1) + j by omega]
  · rw [hinner 0, List.getD_cons_zero, Nat.add_zero, sub_neg_eq_add, ← Finset.range_eq_Ico]
    rfl

theorem blockNorm_two (L : LatticeBasis ℝ n m) (start : Nat) (x y : Int) :
    L.blockNorm start [x, y] =
      (x + y * L.coefficient (start + 1) start) ^ 2 * L.length start +
        (y : ℝ) ^ 2 * L.length (start + 1) := by
  simp [blockNorm, Finset.sum_range_succ]

/-! ## Sign and size -/

theorem center_eq_zero {L : LatticeBasis ℝ n m} {start level : Nat} {later : List Int}
    (h : ∀ x ∈ later, x = 0) : center L start level later = 0 := by
  rw [center_eq, neg_eq_zero]
  apply Finset.sum_eq_zero
  intro k hk
  have hlt : k < later.length := Finset.mem_range.mp hk
  rw [List.getD_eq_getElem _ _ hlt, h _ (List.getElem_mem hlt), Int.cast_zero, zero_mul]

theorem blockNorm_neg (L : LatticeBasis ℝ n m) (start : Nat) (c : List Int) :
    L.blockNorm start (c.map (- ·)) = L.blockNorm start c := by
  have hget (i : Nat) : (c.map (- ·)).getD i 0 = -c.getD i 0 :=
    List.getD_map c 0 (- ·)
  unfold blockNorm
  rw [List.length_map]
  refine Finset.sum_congr rfl fun j _ => ?_
  simp only [hget, Int.cast_neg, neg_mul, Finset.sum_neg_distrib]
  rw [← neg_add, neg_sq]

theorem blockNorm_nonneg {L : LatticeBasis ℝ n m} {start : Nat} {c : List Int}
    (h : ∀ j < c.length, 0 < L.length (start + j)) : 0 ≤ L.blockNorm start c := by
  unfold blockNorm
  refine Finset.sum_nonneg fun j hj => ?_
  exact mul_nonneg (sq_nonneg _) (h j (Finset.mem_range.mp hj)).le

/-- The rows in front only add to the squared length. -/
theorem blockNorm_le_append {L : LatticeBasis ℝ n m} {start : Nat} (pre c : List Int)
    (h : ∀ j < pre.length, 0 < L.length (start + j)) :
    L.blockNorm (start + pre.length) c ≤ L.blockNorm start (pre ++ c) := by
  induction pre generalizing start with
  | nil => exact le_rfl
  | cons x pre ih =>
      have hrest : ∀ j < pre.length, 0 < L.length (start + 1 + j) := by
        intro j hj
        have hlength := h (j + 1) (Nat.succ_lt_succ hj)
        rwa [show start + (j + 1) = start + 1 + j by omega] at hlength
      have hfirst := h 0 (Nat.succ_pos _)
      calc
        L.blockNorm (start + (x :: pre).length) c = L.blockNorm (start + 1 + pre.length) c := by
          rw [List.length_cons, show start + (pre.length + 1) = start + 1 + pre.length by omega]
        _ ≤ L.blockNorm (start + 1) (pre ++ c) := ih hrest
        _ ≤ L.blockNorm (start + 1) (pre ++ c) +
            (x - center L start 0 (pre ++ c)) ^ 2 * L.length start :=
          le_add_of_nonneg_right (mul_nonneg (sq_nonneg _) hfirst.le)
        _ = L.blockNorm start (x :: pre ++ c) := (L.blockNorm_cons start 0 x (pre ++ c)).symm

theorem blockNorm_pos {L : LatticeBasis ℝ n m} {start : Nat} {c : List Int}
    (h : ∀ j < c.length, 0 < L.length (start + j)) (hc : ∃ x ∈ c, x ≠ 0) :
    0 < L.blockNorm start c := by
  induction c generalizing start with
  | nil => simp at hc
  | cons x later ih =>
      have hrest : ∀ j < later.length, 0 < L.length (start + 1 + j) := by
        intro j hj
        have hlength := h (j + 1) (Nat.succ_lt_succ hj)
        rwa [show start + (j + 1) = start + 1 + j by omega] at hlength
      have hfirst := h 0 (Nat.succ_pos _)
      have hcons := L.blockNorm_cons start 0 x later
      rw [Nat.add_zero] at hcons hfirst
      rw [hcons]
      by_cases hlater : ∃ y ∈ later, y ≠ 0
      · exact add_pos_of_pos_of_nonneg (ih hrest hlater) (mul_nonneg (sq_nonneg _) hfirst.le)
      · have hzero : ∀ y ∈ later, y = 0 := fun y hy => by
          by_contra hne
          exact hlater ⟨y, hy, hne⟩
        have hx : (x : ℝ) ≠ 0 := by
          obtain ⟨y, hy, hne⟩ := hc
          rcases List.mem_cons.mp hy with rfl | hy
          · exact Int.cast_ne_zero.mpr hne
          · exact absurd (hzero y hy) hne
        rw [center_eq_zero hzero, sub_zero]
        exact add_pos_of_nonneg_of_pos (blockNorm_nonneg hrest) (mul_pos (sq_pos_of_ne_zero hx) hfirst)

end LatticeBasis

end EmbeddingAttack
