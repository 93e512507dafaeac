import EmbeddingAttack.Proofs.Arithmetic.Fraction
import EmbeddingAttack.Proofs.Lattice.InsertedRow
import Mathlib.LinearAlgebra.Matrix.Determinant.Basic

/-!
# Unimodular transformations of a block

A block of consecutive rows gives way to its image under an integer matrix of determinant `1` or
`-1`, and all other rows stay.  Each step of an insertion is such a transformation of the rows from
the place of insertion to the end of the combination, and so is the insertion as a whole.
-/

namespace EmbeddingAttack

variable {n m : Nat}

open Finset

/-! ## Determinants -/

theorem det_exchangeRows {k : Nat} (A : Matrix (Fin k) (Fin k) ℤ) {i j : Fin k} (hij : i ≠ j) :
    ((A.updateRow j (A i)).updateRow i (A j)).det = -A.det := by
  have hswap : (A.updateRow j (A i)).updateRow i (A j) = A.submatrix (Equiv.swap i j) id := by
    ext l x
    rcases eq_or_ne l i with rfl | hli
    · simp
    rcases eq_or_ne l j with rfl | hlj
    · simp [hli]
    · simp [hli, hlj, Equiv.swap_apply_of_ne_of_ne hli hlj]
  rw [hswap, Matrix.det_permute, Equiv.Perm.sign_swap hij]
  simp

/-- Two rows give way to combinations of them. -/
theorem det_combineRows {k : Nat} (A : Matrix (Fin k) (Fin k) ℤ) {i j : Fin k} (hij : i ≠ j)
    (a b c d : ℤ) : ((A.updateRow i (a • A i + b • A j)).updateRow j (c • A i + d • A j)).det =
      (a * d - b * c) * A.det := by
  have hrow (x : Fin k → ℤ) : ((A.updateRow i (a • A i + b • A j)).updateRow j x).det =
      a * ((A.updateRow j x).updateRow i (A i)).det +
        b * ((A.updateRow j x).updateRow i (A j)).det := by
    rw [Matrix.updateRow_comm _ hij, Matrix.det_updateRow_add, Matrix.det_updateRow_smul,
      Matrix.det_updateRow_smul]
  have hsame : ((A.updateRow j (A i)).updateRow i (A i)).det = 0 := by
    refine Matrix.det_zero_of_row_eq hij ?_
    rw [Matrix.updateRow_self, Matrix.updateRow_ne hij.symm, Matrix.updateRow_self]
  rw [Matrix.det_updateRow_add, Matrix.det_updateRow_smul, Matrix.det_updateRow_smul, hrow, hrow,
    hsame, det_exchangeRows A hij, Matrix.updateRow_eq_self, Matrix.updateRow_eq_self,
    Matrix.det_updateRow_eq_zero hij.symm]
  ring

namespace IntMatrix

/-- The rows `start, …, start + k - 1`. -/
def block (M : IntMatrix n m) (start k : Nat) : Matrix (Fin k) (Fin m) ℤ :=
  .of fun i => M.intRow (start + i)

/-- From `M` to `N`, the rows `start, …, start + k - 1` give way to their image under an integer
matrix with an inverse, and all other rows stay. -/
structure Transforms (start k : Nat) (M N : IntMatrix n m) : Prop where
  outside : ∀ i < n, i < start ∨ start + k ≤ i → N.intRow i = M.intRow i
  inside : ∃ U : Matrix (Fin k) (Fin k) ℤ, IsUnit U.det ∧
    N.block start k = U * M.block start k

namespace Transforms

variable {start k : Nat} {M N P : IntMatrix n m}

theorem refl (start k : Nat) (M : IntMatrix n m) : Transforms start k M M where
  outside _ _ _ := rfl
  inside := ⟨1, by simp, (Matrix.one_mul _).symm⟩

theorem trans (h : Transforms start k M N) (h' : Transforms start k N P) :
    Transforms start k M P where
  outside i hi hout := (h'.outside i hi hout).trans (h.outside i hi hout)
  inside := by
    obtain ⟨U, hU, hN⟩ := h.inside
    obtain ⟨V, hV, hP⟩ := h'.inside
    refine ⟨V * U, ?_, by rw [hP, hN, Matrix.mul_assoc]⟩
    rw [Matrix.det_mul]
    exact hV.mul hU

/-- Two rows of the block give way to combinations of them. -/
theorem of_combination {i j : Fin k} {a b c d : ℤ} (hij : i ≠ j) (hdet : IsUnit (a * d - b * c))
    (hi : N.intRow (start + i) = a • M.intRow (start + i) + b • M.intRow (start + j))
    (hj : N.intRow (start + j) = c • M.intRow (start + i) + d • M.intRow (start + j))
    (hother : ∀ l < n, l ≠ start + i → l ≠ start + j → N.intRow l = M.intRow l)
    (hk : start + k ≤ n) : Transforms start k M N where
  outside l hl hout := hother l hl (by omega) (by omega)
  inside := by
    let A : Matrix (Fin k) (Fin k) ℤ := 1
    let B := M.block start k
    have hA (l : Fin k) : Matrix.vecMul (A l) B = B l := by
      rw [← Matrix.mul_apply_eq_vecMul, Matrix.one_mul]
    refine ⟨(A.updateRow i (a • A i + b • A j)).updateRow j (c • A i + d • A j), ?_, ?_⟩
    · rw [det_combineRows A hij, Matrix.det_one, mul_one]
      exact hdet
    · rw [Matrix.updateRow_mul, Matrix.updateRow_mul, Matrix.one_mul, Matrix.add_vecMul,
        Matrix.add_vecMul, Matrix.smul_vecMul, Matrix.smul_vecMul, Matrix.smul_vecMul,
        Matrix.smul_vecMul, hA, hA]
      funext l
      rcases eq_or_ne l j with rfl | hlj
      · rw [Matrix.updateRow_self]
        exact hj
      rcases eq_or_ne l i with rfl | hli
      · rw [Matrix.updateRow_ne hlj, Matrix.updateRow_self]
        exact hi
      · rw [Matrix.updateRow_ne hlj, Matrix.updateRow_ne hli]
        exact hother _ (by omega) (by omega) (by omega)

/-- One row of the block turns round. -/
theorem of_negation {i : Fin k} (hi : N.intRow (start + i) = -M.intRow (start + i))
    (hother : ∀ l < n, l ≠ start + i → N.intRow l = M.intRow l) (hk : start + k ≤ n) :
    Transforms start k M N where
  outside l hl hout := hother l hl (by omega)
  inside := by
    let A : Matrix (Fin k) (Fin k) ℤ := 1
    let B := M.block start k
    refine ⟨A.updateRow i ((-1 : ℤ) • A i), ?_, ?_⟩
    · rw [Matrix.det_updateRow_smul, Matrix.updateRow_eq_self, Matrix.det_one]
      simp
    · have hA : Matrix.vecMul (A i) B = B i := by
        rw [← Matrix.mul_apply_eq_vecMul, Matrix.one_mul]
      rw [Matrix.updateRow_mul, Matrix.one_mul, Matrix.smul_vecMul, hA, neg_one_smul]
      funext l
      rcases eq_or_ne l i with rfl | hli
      · rw [Matrix.updateRow_self]
        exact hi
      · rw [Matrix.updateRow_ne hli]
        exact hother _ (by omega) (by omega)

end Transforms

/-! ## Elementary operations -/

section Elementary

variable {start k i j : Nat} (M : IntMatrix n m)

theorem intRow_combineRows_right (a b c d : ℤ) (hj : j < n) :
    (M.combineRows .unbounded i j a b c d).intRow j = c • M.intRow i + d • M.intRow j := by
  unfold combineRows
  rw [intRow_modifyRow _ _ _ hj, if_pos rfl]
  ext l
  simp [intRow, get_eq_getElem]

theorem transforms_combineRows {a b c d : ℤ} (hi : start ≤ i ∧ i < start + k)
    (hj : start ≤ j ∧ j < start + k) (hij : i ≠ j) (hk : start + k ≤ n)
    (hdet : a * d - b * c = 1) : Transforms start k M (M.combineRows .unbounded i j a b c d) := by
  have hi' : start + (i - start) = i := by omega
  have hj' : start + (j - start) = j := by omega
  refine .of_combination (i := ⟨i - start, by omega⟩) (j := ⟨j - start, by omega⟩) ?_
    (hdet ▸ isUnit_one) ?_ ?_ ?_ hk
  · rw [Ne, Fin.mk.injEq]
    omega
  · rw [hi', hj', M.intRow_combineRows_left _ _ _ _ (by omega) hij]
  · rw [hi', hj', M.intRow_combineRows_right _ _ _ _ (by omega)]
  · intro l hl hli hlj
    rw [hi'] at hli
    rw [hj'] at hlj
    exact M.intRow_combineRows_of_ne _ _ _ _ hl hli.symm hlj.symm

theorem transforms_negateRow (hi : start ≤ i ∧ i < start + k) (hk : start + k ≤ n) :
    Transforms start k M (M.negateRow .unbounded i) := by
  have hi' : start + (i - start) = i := by omega
  refine .of_negation (i := ⟨i - start, by omega⟩) ?_ ?_ hk
  · rw [hi', M.intRow_negateRow _ (by omega), if_pos rfl]
  · intro l hl hli
    rw [hi'] at hli
    rw [M.intRow_negateRow _ hl, if_neg hli.symm]

theorem transforms_swapRows (hi : start ≤ i ∧ i < start + k) (hj : start ≤ j ∧ j < start + k)
    (hij : i ≠ j) (hk : start + k ≤ n) : Transforms start k M (M.swapRows i j) := by
  have hi' : start + (i - start) = i := by omega
  have hj' : start + (j - start) = j := by omega
  have hrow (l : Nat) (hl : l < n) :=
    M.intRow_swapRows (show i < n by omega) (show j < n by omega) hl
  refine .of_combination (i := ⟨i - start, by omega⟩) (j := ⟨j - start, by omega⟩) (a := 0) (b := 1)
    (c := 1) (d := 0) ?_ (by simp) ?_ ?_ ?_ hk
  · rw [Ne, Fin.mk.injEq]
    omega
  · rw [hi', hj', hrow i (by omega), if_pos rfl, zero_smul, one_smul, zero_add]
  · rw [hi', hj', hrow j (by omega), if_neg hij.symm, if_pos rfl, zero_smul, one_smul, add_zero]
  · intro l hl hli hlj
    rw [hi'] at hli
    rw [hj'] at hlj
    rw [hrow l hl, if_neg hli, if_neg hlj]

theorem transforms_rotateRowUp {source target : Nat} (htarget : start ≤ target)
    (hsource : source < start + k) (hk : start + k ≤ n) :
    Transforms start k M (M.rotateRowUp source target) := by
  induction source generalizing M with
  | zero => exact .refl start k M
  | succ source ih =>
      unfold rotateRowUp
      split
      · have hswap := M.transforms_swapRows (i := source) (j := source + 1) ⟨by omega, by omega⟩
          ⟨by omega, hsource⟩ (by omega) hk
        exact hswap.trans (ih _ (by omega))
      · exact .refl start k M

end Elementary

/-! ## Insertions -/

theorem transforms_gather (M : IntMatrix n m) {start k position : Nat} (weight : Int)
    {rows : List (Nat × Int)} (hk : start + k ≤ n)
    (hposition : start ≤ position ∧ position < start + k)
    (hrows : ∀ r ∈ rows, (start ≤ r.1 ∧ r.1 < start + k) ∧ r.2 ≠ 0)
    (hdistinct : (position :: rows.map Prod.fst).Nodup) :
    Transforms start k M (M.gather .unbounded position weight rows).1 := by
  induction rows generalizing M position weight with
  | nil => exact .refl start k M
  | cons row rest ih =>
      obtain ⟨i, x⟩ := row
      obtain ⟨hi, hx⟩ := hrows (i, x) (by simp)
      obtain ⟨hnotin, hrest⟩ := List.nodup_cons.mp hdistinct
      have hne : i ≠ position := by
        rintro rfl
        simp at hnotin
      have hdet := Bezout.det_of (a := x) (b := weight) (Or.inl hx)
      rw [gather, Integers.keep_unbounded]
      refine (M.transforms_combineRows hi hposition hne hk ?_).trans
        (ih _ _ hi (fun r hr => hrows r (by simp [hr])) hrest)
      linear_combination hdet

theorem transforms_insertCombination (M : IntMatrix n m) {start k : Nat} {rows : List (Nat × Int)}
    (hk : start + k ≤ n) (hrows : ∀ r ∈ rows, (start ≤ r.1 ∧ r.1 < start + k) ∧ r.2 ≠ 0)
    (hdistinct : (rows.map Prod.fst).Nodup) :
    Transforms start k M (M.insertCombination .unbounded start rows) := by
  cases rows with
  | nil => exact .refl start k M
  | cons row rest =>
      obtain ⟨i, x⟩ := row
      have hgather := M.transforms_gather x hk (hrows (i, x) (by simp)).1
        (fun r hr => hrows r (by simp [hr])) hdistinct
      have hmem := (M.gathered_gather i x rest (fun r hr => ⟨by have := hrows r hr; omega,
        (hrows r hr).2⟩) hdistinct).position
      unfold insertCombination
      dsimp only
      generalize M.gather .unbounded i x rest = result at hgather hmem ⊢
      obtain ⟨N, position, weight⟩ := result
      dsimp only at hgather hmem ⊢
      obtain ⟨r, hr, rfl⟩ := List.mem_map.mp hmem
      obtain ⟨hposition, -⟩ := hrows r hr
      split
      · exact (hgather.trans (N.transforms_negateRow hposition hk)).trans
          (transforms_rotateRowUp _ le_rfl hposition.2 hk)
      · exact hgather.trans (N.transforms_rotateRowUp le_rfl hposition.2 hk)

end IntMatrix

namespace LatticeBasis

open IntMatrix

theorem transforms_insertSupport (M : IntMatrix n m) {start : Nat} {coefficients : List Int}
    (hstop : start + coefficients.length ≤ n) :
    Transforms start coefficients.length M
      (M.insertCombination .unbounded start (support start coefficients)) := by
  refine M.transforms_insertCombination hstop (fun r hr => ?_) (nodup_support start coefficients)
  obtain ⟨hlt, hne⟩ := mem_support hr
  exact ⟨⟨le_of_mem_support hr, hlt⟩, hne⟩

variable {α : Type}

theorem run_insertCombination_of_exact [Scalar α] [ExactIntegers α] (L : LatticeBasis α n m)
    {start : Nat} {c : List Int} (hstop : start + c.length ≤ n) (hnonzero : ∃ x ∈ c, x ≠ 0) :
    (insertCombination start c L = .ok () (finalState (insertCombination start c L)) ∨
      ∃ fault, insertCombination start c L =
        .error (.numerical fault) (finalState (insertCombination start c L))) ∧
    (finalState (insertCombination start c L)).basis =
      L.basis.insertCombination .unbounded start (support start c) := by
  refine ⟨?_, L.basis_insertCombination hstop hnonzero⟩
  have hrun := L.insertCombination_eq_orthogonalize hstop hnonzero (by simp)
  cases hresult : insertCombination start c L with
  | ok u K => exact Or.inl rfl
  | error e K =>
      rw [hrun] at hresult
      obtain ⟨fault, rfl⟩ := throws_orthogonalize _ _ _ trivial hresult
      exact Or.inr ⟨fault, rfl⟩

/-- The data are recomputed from the rows without integers, so that an insertion fits in words where
its rows and their coefficients do. -/
theorem fitsWords_insertCombination (S : Scalar α) (L : LatticeBasis α n m) {start : Nat}
    {c : List Int} (hstop : start + c.length ≤ n) (hnonzero : ∃ x ∈ c, x ≠ 0)
    (hquotients : hasQuotients S.integers (support start c) = true)
    (hrows : L.basis.insertCombination S.integers start (support start c) =
      L.basis.insertCombination .unbounded start (support start c)) :
    FitsWords S fun S => @insertCombination α S n m start c L := by
  unfold FitsWords
  beta_reduce
  rw [@insertCombination_eq_orthogonalize n m α S L start c hstop hnonzero hquotients,
    @insertCombination_eq_orthogonalize n m α S.unbounded L start c hstop hnonzero (by simp),
    orthogonalize_unbounded, setBasis, hrows]
  rfl

/-- An insertion is refused, and changes nothing, where its coefficients name rows beyond the basis
or are all zero.  Else, as long as its integers fit in words, and whether the data can be recomputed
from the changed rows or not, the row `start` is the combination divided by the greatest common
divisor of the coefficients, and the rows from `start` to the end of the combination are the image
of the old ones under an integer matrix of determinant `1` or `-1`; all others stay. -/
theorem insertCombination_makes_row (S : Scalar α) (L : LatticeBasis α n m) (start : Nat)
    (c : List Int) :
    (n < start + c.length →
      insertCombination start c L = .error (.dimensions (n, m) (start + c.length, m)) L) ∧
    (start + c.length ≤ n → (∀ x ∈ c, x = 0) →
      insertCombination start c L = .error (.parameters .zeroCombination) L) ∧
    (start + c.length ≤ n → (∃ x ∈ c, x ≠ 0) →
      FitsWords S (fun S => @insertCombination α S n m start c L) →
      let result := insertCombination start c L
      let L' := finalState result
      let g := (c : Multiset ℤ).gcd
      (result = .ok () L' ∨ ∃ fault, result = .error (.numerical fault) L') ∧
      0 < g ∧ g • L'.basis.intRow start = L.basis.combination start c ∧
      (∀ i < n, i < start ∨ start + c.length ≤ i → L'.basis.intRow i = L.basis.intRow i) ∧
      ∃ U : Matrix (Fin c.length) (Fin c.length) ℤ, (U.det = 1 ∨ U.det = -1) ∧
        L'.basis.block start c.length = U * L.basis.block start c.length) := by
  refine ⟨fun hstop => ?_, fun hstop hzero => ?_, fun hstop hnonzero hfits => ?_⟩
  · unfold insertCombination
    rw [if_pos hstop]
    rfl
  · unfold insertCombination
    rw [if_neg (by omega), if_pos (List.isEmpty_iff.mpr (support_eq_nil_iff.mpr hzero))]
    rfl
  · intro result L' g
    obtain ⟨hrun, hbasis⟩ :=
      @run_insertCombination_of_exact n m α S.unbounded _ L start c hstop hnonzero
    have hresult : result = @insertCombination α S.unbounded n m start c L := hfits
    rw [← hresult] at hrun hbasis
    have htransforms := transforms_insertSupport L.basis hstop
    have hrow := intRow_insertSupport L.basis hstop hnonzero
    rw [← hbasis] at htransforms hrow
    obtain ⟨U, hU, hinside⟩ := htransforms.inside
    exact ⟨hrun, gcd_pos hnonzero, hrow, htransforms.outside, U, Int.isUnit_iff.mp hU, hinside⟩

theorem insertCombination_makes_row_skew :
    let L : LatticeBasis Fraction 2 2 :=
      ⟨⟨#v[#v[5, 1], #v[7, 2]]⟩, .replicate 2 (.replicate 2 0), .replicate 2 0⟩
    let c : List Int := [2, -4]
    0 + c.length ≤ 2 ∧ (∃ x ∈ c, x ≠ 0) ∧
      FitsWords inferInstance (fun S => @insertCombination Fraction S 2 2 0 c L) ∧
      (finalState (insertCombination 0 c L)).basis.intRow 0 = ![-9, -3] := by
  intro L c
  have hnonzero : ∃ x ∈ c, x ≠ 0 := ⟨2, by decide⟩
  have hfits : FitsWords inferInstance (fun S => @insertCombination Fraction S 2 2 0 c L) :=
    fitsWords_insertCombination _ L le_rfl hnonzero (by decide +kernel) (by decide +kernel)
  obtain ⟨-, -, hvalid⟩ := insertCombination_makes_row inferInstance L 0 c
  obtain ⟨-, -, hrow, -⟩ := hvalid le_rfl hnonzero hfits
  refine ⟨le_rfl, hnonzero, hfits, ?_⟩
  have hgcd : (c : Multiset ℤ).gcd = 2 := rfl
  have hcombination : L.basis.combination 0 c = (2 : ℤ) • ![-9, -3] := by decide
  rw [hgcd, hcombination] at hrow
  exact smul_right_injective _ two_ne_zero hrow

end LatticeBasis

end EmbeddingAttack
