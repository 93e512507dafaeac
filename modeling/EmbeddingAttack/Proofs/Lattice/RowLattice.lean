import EmbeddingAttack.Lattice.IntMatrix
import Mathlib.LinearAlgebra.Span.Basic
import Mathlib.LinearAlgebra.Finsupp.LinearCombination
import Mathlib.Tactic.LinearCombination
import Mathlib.Tactic.Module

/-!
# The lattice of an integer matrix

The lattice of a matrix is the set of all integer combinations of its rows.  An elementary operation
replaces at most two rows by combinations of them whose coefficients have determinant `1` or `-1`,
and the lattice stays the same.
-/

namespace EmbeddingAttack

/-- The two ways to read a vector. -/
theorem get_eq_getElem {τ : Type} {n : Nat} (x : Vector τ n) (i : Fin n) :
    x.get i = x[i.val] := rfl

namespace IntMatrix

variable {n m : Nat}

/-- Row `i` as a function. -/
def vector (M : IntMatrix n m) (i : Fin n) : Fin m → ℤ :=
  (M.rows.get i).get

theorem vector_apply (M : IntMatrix n m) (i : Fin n) (j : Fin m) :
    M.vector i j = (M.rows.get i).get j := rfl

/-- All integer combinations of the rows. -/
def lattice (M : IntMatrix n m) : Submodule ℤ (Fin m → ℤ) :=
  Submodule.span ℤ (Set.range M.vector)

theorem mem_lattice {M : IntMatrix n m} {v : Fin m → ℤ} :
    v ∈ M.lattice ↔ ∃ c : Fin n → ℤ, ∑ i, c i • M.vector i = v :=
  Submodule.mem_span_range_iff_exists_fun ℤ

theorem vector_mem_lattice (M : IntMatrix n m) (i : Fin n) : M.vector i ∈ M.lattice :=
  Submodule.subset_span ⟨i, rfl⟩

theorem lattice_le {M : IntMatrix n m} {Λ : Submodule ℤ (Fin m → ℤ)}
    (h : ∀ i, M.vector i ∈ Λ) : M.lattice ≤ Λ := by
  apply Submodule.span_le.mpr
  rintro _ ⟨i, rfl⟩
  exact h i

/-- Two rows give way to combinations of them. -/
theorem lattice_le_of_combination {M N : IntMatrix n m} {i j : Fin n} {a b c d : ℤ}
    (hi : N.vector i = a • M.vector i + b • M.vector j)
    (hj : N.vector j = c • M.vector i + d • M.vector j)
    (hk : ∀ k, k ≠ i → k ≠ j → N.vector k = M.vector k) : N.lattice ≤ M.lattice := by
  have hmem (x y : ℤ) : x • M.vector i + y • M.vector j ∈ M.lattice :=
    add_mem (Submodule.smul_mem _ _ (M.vector_mem_lattice i))
      (Submodule.smul_mem _ _ (M.vector_mem_lattice j))
  apply lattice_le
  intro k
  by_cases hki : k = i
  · rw [hki, hi]
    exact hmem a b
  · by_cases hkj : k = j
    · rw [hkj, hj]
      exact hmem c d
    · rw [hk k hki hkj]
      exact M.vector_mem_lattice k

/-- The determinant `u` is its own inverse, so that the old rows are combinations of the new ones
as well. -/
theorem lattice_eq_of_combination {M N : IntMatrix n m} {i j : Fin n} {a b c d u : ℤ}
    (hdet : a * d - b * c = u) (hu : u * u = 1)
    (hi : N.vector i = a • M.vector i + b • M.vector j)
    (hj : N.vector j = c • M.vector i + d • M.vector j)
    (hk : ∀ k, k ≠ i → k ≠ j → N.vector k = M.vector k) : N.lattice = M.lattice := by
  have hone : u * (a * d - b * c) = 1 := by rw [hdet, hu]
  have hi' : M.vector i = (u * d) • N.vector i + (-(u * b)) • N.vector j := by
    rw [hi, hj]
    ext l
    simp only [Pi.add_apply, Pi.smul_apply, smul_eq_mul]
    linear_combination -(M.vector i l) * hone
  have hj' : M.vector j = (-(u * c)) • N.vector i + (u * a) • N.vector j := by
    rw [hi, hj]
    ext l
    simp only [Pi.add_apply, Pi.smul_apply, smul_eq_mul]
    linear_combination -(M.vector j l) * hone
  apply le_antisymm
  · exact lattice_le_of_combination hi hj hk
  · exact lattice_le_of_combination hi' hj' fun k hki hkj => (hk k hki hkj).symm

/-! ## Elementary operations -/

theorem row_of_lt (M : IntMatrix n m) {i : Nat} (hi : i < n) : M.row i = M.rows[i] := by
  rw [row, dif_pos hi]

theorem row_of_le (M : IntMatrix n m) {i : Nat} (hi : n ≤ i) :
    M.row i = Vector.replicate m 0 := by
  rw [row, dif_neg (by omega)]

theorem rows_modifyRow (M : IntMatrix n m) (i : Nat) (f : Vector Int m → Vector Int m)
    {k : Nat} (hk : k < n) :
    (M.modifyRow i f).rows[k] = if i = k then f M.rows[k] else M.rows[k] := by
  simp only [modifyRow, Vector.getElem_mk, Array.getElem_modify, Vector.getElem_toArray]

theorem vector_modifyRow (M : IntMatrix n m) (i : Nat) (f : Vector Int m → Vector Int m)
    (k : Fin n) :
    (M.modifyRow i f).vector k = if i = k then (f (M.rows.get k)).get else M.vector k := by
  funext j
  simp only [vector_apply, get_eq_getElem, rows_modifyRow]
  split <;> rfl

@[simp] theorem modifyRow_of_le (M : IntMatrix n m) {i : Nat} (f : Vector Int m → Vector Int m)
    (hi : n ≤ i) : M.modifyRow i f = M := by
  ext k hk j hj
  rw [rows_modifyRow _ _ _ hk, if_neg (by omega)]

@[simp] theorem lattice_subScaledRow (M : IntMatrix n m) (target source : Nat) (c : Int) :
    (M.subScaledRow .unbounded target source c).lattice = M.lattice := by
  unfold subScaledRow
  split
  · rfl
  · rename_i hne
    have hts : target ≠ source := fun h => hne (Or.inr h)
    by_cases ht : target < n
    · by_cases hs : source < n
      · apply lattice_eq_of_combination (i := ⟨target, ht⟩) (j := ⟨source, hs⟩)
          (a := 1) (b := -c) (c := 0) (d := 1) (u := 1) (by ring) (by norm_num)
        · rw [vector_modifyRow, if_pos rfl]
          ext l
          simp [vector_apply, get_eq_getElem, M.row_of_lt hs]
          ring
        · rw [vector_modifyRow, if_neg hts]
          simp
        · intro k hkt _
          rw [vector_modifyRow, if_neg fun h => hkt (Fin.ext h.symm)]
      · congr 1
        ext k hk j hj
        rw [rows_modifyRow _ _ _ hk]
        split
        · simp [M.row_of_le (Nat.le_of_not_lt hs)]
        · rfl
    · rw [modifyRow_of_le _ _ (Nat.le_of_not_lt ht)]

theorem rows_swapRows (M : IntMatrix n m) {i j k : Nat} (hi : i < n) (hj : j < n) (hk : k < n) :
    (M.swapRows i j).rows[k] =
      if k = i then M.rows[j] else if k = j then M.rows[i] else M.rows[k] := by
  simp [swapRows, Vector.swapIfInBounds, Array.swapIfInBounds, hi, hj, Array.getElem_swap]

theorem swapRows_of_le (M : IntMatrix n m) {i j : Nat} (h : n ≤ i ∨ n ≤ j) :
    M.swapRows i j = M := by
  have hswap : M.rows.swapIfInBounds i j = M.rows := by
    ext k hk l hl
    simp only [Vector.swapIfInBounds, Array.swapIfInBounds, Vector.size_toArray]
    split
    · split
      · omega
      · rfl
    · rfl
  rw [swapRows, hswap]

@[simp] theorem lattice_swapRows (M : IntMatrix n m) (i j : Nat) :
    (M.swapRows i j).lattice = M.lattice := by
  by_cases h : n ≤ i ∨ n ≤ j
  · rw [swapRows_of_le M h]
  · rw [not_or, not_le, not_le] at h
    obtain ⟨hi, hj⟩ := h
    have hrows (k : Fin n) : (M.swapRows i j).vector k =
        if k = ⟨i, hi⟩ then M.vector ⟨j, hj⟩
        else if k = ⟨j, hj⟩ then M.vector ⟨i, hi⟩ else M.vector k := by
      ext l
      simp only [vector_apply, get_eq_getElem, rows_swapRows M hi hj, Fin.ext_iff]
      split_ifs <;> rfl
    apply lattice_eq_of_combination (i := ⟨i, hi⟩) (j := ⟨j, hj⟩)
      (a := 0) (b := 1) (c := 1) (d := 0) (u := -1) (by ring) (by norm_num)
    · simp [hrows]
    · rw [hrows, if_pos rfl]
      split_ifs with hji
      · simp [← hji]
      · simp
    · intro k hki hkj
      rw [hrows, if_neg hki, if_neg hkj]

theorem lattice_combineRows (M : IntMatrix n m) {i j : Nat} {a b c d : Int} (hi : i < n)
    (hj : j < n) (hij : i ≠ j) (hdet : a * d - b * c = 1) :
    (M.combineRows .unbounded i j a b c d).lattice = M.lattice := by
  apply lattice_eq_of_combination (i := ⟨i, hi⟩) (j := ⟨j, hj⟩) hdet (by norm_num)
  · unfold combineRows
    rw [vector_modifyRow, if_neg hij.symm, vector_modifyRow, if_pos rfl]
    ext l
    simp [vector_apply, get_eq_getElem, M.row_of_lt hi, M.row_of_lt hj]
  · unfold combineRows
    rw [vector_modifyRow, if_pos rfl]
    ext l
    simp [vector_apply, get_eq_getElem, M.row_of_lt hi, M.row_of_lt hj]
  · intro k hki hkj
    unfold combineRows
    rw [vector_modifyRow, if_neg fun h => hkj (Fin.ext h.symm), vector_modifyRow,
      if_neg fun h => hki (Fin.ext h.symm)]

@[simp] theorem lattice_negateRow (M : IntMatrix n m) (i : Nat) :
    (M.negateRow .unbounded i).lattice = M.lattice := by
  unfold negateRow
  by_cases hi : i < n
  · apply lattice_eq_of_combination (i := ⟨i, hi⟩) (j := ⟨i, hi⟩)
      (a := -1) (b := 0) (c := 0) (d := -1) (u := 1) (by ring) (by norm_num)
    · rw [vector_modifyRow, if_pos rfl]
      ext l
      simp [vector_apply, get_eq_getElem]
    · rw [vector_modifyRow, if_pos rfl]
      ext l
      simp [vector_apply, get_eq_getElem]
    · intro k hki _
      rw [vector_modifyRow, if_neg fun h => hki (Fin.ext h.symm)]
  · rw [modifyRow_of_le _ _ (Nat.le_of_not_lt hi)]

@[simp] theorem lattice_rotateRowUp (M : IntMatrix n m) (source target : Nat) :
    (M.rotateRowUp source target).lattice = M.lattice := by
  induction source generalizing M with
  | zero => rfl
  | succ source ih =>
      unfold rotateRowUp
      split
      · rw [ih, lattice_swapRows]
      · rfl

end IntMatrix

end EmbeddingAttack
