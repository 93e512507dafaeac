import EmbeddingAttack.Proofs.Arithmetic.Fraction
import EmbeddingAttack.Proofs.Embedding.SmallModulus
import EmbeddingAttack.Proofs.Lattice.ListedRows
import Mathlib.Data.List.GetD

/-!
# The lattice of the embedding

The rows of the embedding generate exactly the vectors `(x, t)` for which `x` agrees modulo `q` with
`A s + t c` for some `s`.  The rows hold `q` times a unit vector only where there is no pivot.  At a
pivot, `q` times the reduced column of that pivot is `q` times the unit vector, up to multiples of
the rows that are there.
-/

namespace EmbeddingAttack

/-! ## Residues closest to zero -/

theorem centeredResidue_of_modEq_zero {x q : Int} (h : x ≡ 0 [ZMOD q]) (hq : 0 ≤ q) :
    centeredResidue x q = 0 := by
  unfold centeredResidue
  dsimp only
  rw [h.eq, Int.zero_emod, if_neg]
  have := Int.tdiv_nonneg hq (by omega : (0 : Int) ≤ 2)
  omega

theorem centeredResidue_of_modEq_one {x q : Int} (h : x ≡ 1 [ZMOD q]) (hq : 2 ≤ q) :
    centeredResidue x q = 1 := by
  unfold centeredResidue
  dsimp only
  rw [h.eq, Int.emod_eq_of_lt (by omega) (by omega), if_neg]
  rw [Int.tdiv_eq_ediv_of_nonneg (by omega)]
  omega

namespace Embedding

variable {m : Nat} {q : Int}

/-- A vector with a zero added at its end. -/
def pad (m : Nat) : (Fin m → ℤ) →ₗ[ℤ] (Fin (m + 1) → ℤ) where
  toFun x i := if h : i.val < m then x ⟨i, h⟩ else 0
  map_add' x y := by
    ext i
    by_cases h : i.val < m <;> simp [h]
  map_smul' a x := by
    ext i
    by_cases h : i.val < m <;> simp [h]

@[simp] theorem pad_castSucc (x : Fin m → ℤ) (i : Fin m) : pad m x i.castSucc = x i := by
  simp [pad]

@[simp] theorem pad_last (x : Fin m → ℤ) : pad m x (Fin.last m) = 0 := by
  simp [pad]

/-! ## The rows -/

theorem length_unitRow (length place : Nat) (x : Int) :
    (unitRow length place x).length = length := by
  simp [unitRow]

theorem rowVector_unitRow (i : Fin m) (x : Int) :
    rowVector (m + 1) (unitRow (m + 1) i x) = pad m (Pi.single i x) := by
  have hget (k : Fin (m + 1)) :
      rowVector (m + 1) (unitRow (m + 1) i x) k = if (i : Nat) = k then x else 0 := by
    have hk : (k : Nat) < (unitRow (m + 1) i x).length := by
      rw [length_unitRow]
      exact k.isLt
    rw [rowVector, List.getD_eq_getElem _ _ hk]
    simp [unitRow, List.getElem_set]
  ext k
  rw [hget]
  refine Fin.lastCases ?_ (fun k => ?_) k
  · simp [i.isLt.ne]
  · simp [Pi.single_apply, Fin.ext_iff, eq_comm]

/-- A list with one more entry, as a vector. -/
theorem rowVector_concat {row : List Int} (hrow : row.length = m) (x : Int) :
    rowVector (m + 1) (row ++ [x]) =
      pad m (fun i => row.getD i 0) + Pi.single (Fin.last m) x := by
  subst hrow
  ext k
  refine Fin.lastCases ?_ (fun k => ?_) k
  · rw [rowVector, List.getD_append_right _ _ _ _ (by simp)]
    simp
  · rw [rowVector, List.getD_append _ _ _ _ (by simp)]
    simp

theorem rowVector_column (column : Column m) :
    rowVector (m + 1) (column.toList.map (centeredResidue · q) ++ [0]) =
      pad m fun i => centeredResidue (entries column i) q := by
  rw [rowVector_concat (by simp), Pi.single_zero, add_zero]
  congr 1
  funext i
  rw [List.getD_eq_getElem _ _ (by simp)]
  simp [entries_apply, get_eq_getElem]

theorem rowVector_target {c : List Int} (hc : c.length = m) :
    rowVector (m + 1) (c.map (centeredResidue · q) ++ [1]) =
      pad m (fun i => centeredResidue (c.getD i 0) q) + Pi.single (Fin.last m) 1 := by
  rw [rowVector_concat (by simp [hc])]
  congr 2
  funext i
  rw [List.getD_eq_getElem _ _ (by simp [hc]), List.getD_eq_getElem _ _ (by simp [hc]),
    List.getElem_map]

/-- There are as many rows as columns once all columns have a pivot row. -/
theorem length_rows {columns : List (Column m)} {C : Columns m} (h : C.Invariant q columns m)
    (c : List Int) : (rows q C c).length = m + 1 := by
  have hperm : ((List.range m).filter (C.pivots.contains ·)).Perm C.pivots := by
    rw [List.perm_ext_iff_of_nodup (List.nodup_range.filter _) h.nodup_pivots]
    intro p
    simp only [List.mem_filter, List.mem_range, List.contains_iff_mem, and_iff_right_iff_imp]
    exact h.pivots_lt p
  have hpivots := hperm.length_eq.trans h.length_pivots
  have hsum := List.length_eq_length_filter_add (l := List.range m) (C.pivots.contains ·)
  simp only [rows, List.length_append, List.length_map, List.length_singleton]
  rw [List.length_range] at hsum
  omega

theorem length_of_mem_rows {C : Columns m} {c : List Int} (hc : c.length = m) :
    ∀ row ∈ rows q C c, row.length = m + 1 := by
  intro row hrow
  simp only [rows, List.mem_append, List.mem_map, List.mem_singleton] at hrow
  rcases hrow with (⟨i, _, rfl⟩ | ⟨column, _, rfl⟩) | rfl
  · exact length_unitRow _ _ _
  · simp
  · simp [hc]

/-! ## The lattice of the rows -/

variable {columns : List (Column m)} {C : Columns m} {c : List Int}

theorem column_mem_rowLattice {column : Column m} (h : column ∈ C.reduced) :
    pad m (fun i => centeredResidue (entries column i) q) ∈ rowLattice (m + 1) (rows q C c) := by
  rw [← rowVector_column]
  apply rowVector_mem_rowLattice
  simp only [rows, List.mem_append, List.mem_map]
  exact Or.inl (Or.inr ⟨column, h, rfl⟩)

/-- The multiples of `q` are generated in every row, pivot row or not. -/
theorem single_mem_rowLattice (h : C.Invariant q columns m) (hq : 2 ≤ q) (i : Fin m) :
    pad m (Pi.single i q) ∈ rowLattice (m + 1) (rows q C c) := by
  have hunit (k : Fin m) (hk : k.val ∉ C.pivots) :
      pad m (Pi.single k q) ∈ rowLattice (m + 1) (rows q C c) := by
    rw [← rowVector_unitRow]
    apply rowVector_mem_rowLattice
    simp only [rows, List.mem_append, List.mem_map, List.mem_filter, List.mem_range]
    refine Or.inl (Or.inl ⟨k, ⟨k.isLt, ?_⟩, rfl⟩)
    simpa using hk
  by_cases hi : i.val ∈ C.pivots
  · obtain ⟨column, hcolumn, hone, hzero⟩ := h.unit_reduced i hi
    let x : Fin m → ℤ := fun k => centeredResidue (entries column k) q
    have hx : x i = 1 := by
      apply centeredResidue_of_modEq_one _ hq
      rwa [← getD_eq_entries]
    -- `q` times the column is the sum of these terms, and all but the one at `i` are generated.
    have hsum : ∑ k, x k • pad m (Pi.single k q) = q • pad m x := by
      have hsingle (k : Fin m) : x k • (Pi.single k q : Fin m → ℤ) = Pi.single k (q * x k) := by
        rw [← Pi.single_smul, smul_eq_mul, mul_comm]
      simp only [← map_smul, ← map_sum, hsingle]
      congr 1
      exact Finset.univ_sum_single fun k => q * x k
    have hothers : ∑ k ∈ Finset.univ.erase i, x k • pad m (Pi.single k q) ∈
        rowLattice (m + 1) (rows q C c) := by
      apply Submodule.sum_mem
      intro k hk
      by_cases hkp : k.val ∈ C.pivots
      · have hxk : x k = 0 := by
          apply centeredResidue_of_modEq_zero _ (by omega)
          rw [← getD_eq_entries]
          exact hzero k hkp fun h => Finset.ne_of_mem_erase hk (Fin.ext h)
        rw [hxk, zero_smul]
        exact zero_mem _
      · exact Submodule.smul_mem _ _ (hunit k hkp)
    have htotal := Submodule.smul_mem (rowLattice (m + 1) (rows q C c)) q
      (column_mem_rowLattice (q := q) (c := c) hcolumn)
    rw [← hsum, ← Finset.add_sum_erase _ _ (Finset.mem_univ i), hx, one_smul] at htotal
    exact (Submodule.add_mem_iff_left _ hothers).mp htotal
  · exact hunit i hi

theorem multiples_le_rowLattice (h : C.Invariant q columns m) (hq : 2 ≤ q) :
    multiples m q ≤ (rowLattice (m + 1) (rows q C c)).comap (pad m) := by
  intro x hx
  rw [Submodule.mem_comap, ← Finset.univ_sum_single x, map_sum]
  apply Submodule.sum_mem
  intro i _
  obtain ⟨a, ha⟩ := hx i
  have hsingle : (Pi.single i (x i) : Fin m → ℤ) = a • Pi.single i q := by
    rw [← Pi.single_smul, smul_eq_mul, mul_comm, ha]
  rw [hsingle, map_smul]
  exact Submodule.smul_mem _ _ (single_mem_rowLattice h hq i)

/-- Without columns left over, the rows generate the lattice of the columns. -/
theorem columnLattice_le_rowLattice (h : C.Invariant q columns m) (hq : 2 ≤ q)
    (hpending : C.pending = []) :
    columnLattice q columns ≤ (rowLattice (m + 1) (rows q C c)).comap (pad m) := by
  rw [← h.lattice_eq, hpending, List.append_nil]
  apply columnLattice_le _ (multiples_le_rowLattice h hq)
  intro column hcolumn
  have hsub : entries column - (fun i => centeredResidue (entries column i) q) ∈ multiples m q :=
    fun i => (centeredResidue_modEq (entries column i) q).dvd
  have hmem := add_mem (multiples_le_rowLattice (c := c) h hq hsub)
    (Submodule.mem_comap.mpr (column_mem_rowLattice (c := c) hcolumn))
  rwa [sub_add_cancel] at hmem

end Embedding

namespace LweInstance

variable {α : Type}

/-- The entry of `a` in row `i` and column `j`. -/
def coefficient (I : LweInstance α) (i j : Nat) : Int :=
  (I.a.getD i []).getD j 0

/-- The vectors `(x, t)` for which `x` agrees modulo `q` with `A s + t c` for some `s`. -/
def kannanLattice (I : LweInstance α) (m : Nat) : Submodule ℤ (Fin (m + 1) → ℤ) where
  carrier := {v | ∃ s : Fin I.n → ℤ, ∀ i : Fin m, v i.castSucc ≡
    ∑ j : Fin I.n, I.coefficient i j * s j + v (Fin.last m) * I.c.getD i 0 [ZMOD I.q]}
  zero_mem' := ⟨0, fun i => by simp⟩
  add_mem' := by
    rintro v w ⟨s, hs⟩ ⟨s', hs'⟩
    refine ⟨s + s', fun i => ((hs i).add (hs' i)).trans (congrArg (· % I.q) ?_)⟩
    simp only [Pi.add_apply, mul_add, Finset.sum_add_distrib]
    ring
  smul_mem' := by
    rintro a v ⟨s, hs⟩
    refine ⟨a • s, fun i => ((hs i).mul_left a).trans (congrArg (· % I.q) ?_)⟩
    simp only [Pi.smul_apply, smul_eq_mul, mul_add, Finset.mul_sum]
    congr 1
    · exact Finset.sum_congr rfl fun j _ => by ring
    · ring

theorem mem_kannanLattice {I : LweInstance α} {m : Nat} {v : Fin (m + 1) → ℤ} :
    v ∈ I.kannanLattice m ↔ ∃ s : Fin I.n → ℤ, ∀ i : Fin m, v i.castSucc ≡
      ∑ j : Fin I.n, I.coefficient i j * s j + v (Fin.last m) * I.c.getD i 0 [ZMOD I.q] := Iff.rfl

open EmbeddingAttack.Embedding

theorem entries_columns (I : LweInstance α) (m : Nat) (j : Fin I.n) :
    ∃ column ∈ I.columns m, ∀ i : Fin m, entries column i = I.coefficient i j := by
  refine ⟨_, List.mem_map_of_mem (List.mem_range.mpr j.isLt), fun i => ?_⟩
  simp [entries_apply, get_eq_getElem, coefficient]

theorem pad_mem_kannanLattice (I : LweInstance α) {m : Nat} {x : Fin m → ℤ}
    (hx : x ∈ columnLattice I.q (I.columns m)) : pad m x ∈ I.kannanLattice m := by
  revert x
  apply columnLattice_le (Λ := (I.kannanLattice m).comap (pad m))
  · intro column hcolumn
    obtain ⟨j, hj, rfl⟩ := List.mem_map.mp hcolumn
    refine ⟨Pi.single ⟨j, List.mem_range.mp hj⟩ 1, fun i => ?_⟩
    simp [entries_apply, get_eq_getElem, coefficient, Pi.single_apply]
  · intro x hx
    refine ⟨0, fun i => ?_⟩
    simpa using (Int.modEq_zero_iff_dvd.mpr (hx i))

theorem single_mem_kannanLattice (I : LweInstance α) {m : Nat} (i : Fin m) :
    pad m (Pi.single i I.q) ∈ I.kannanLattice m := by
  apply I.pad_mem_kannanLattice
  apply multiples_le_columnLattice
  intro k
  rw [Pi.single_apply]
  split
  · exact dvd_refl I.q
  · exact dvd_zero I.q

/-- A vector of the lattice is a multiple of the last row and a vector of the lattice of the
columns. -/
theorem exists_columnLattice_of_mem {I : LweInstance α} {m : Nat} {v : Fin (m + 1) → ℤ}
    (hv : v ∈ I.kannanLattice m) :
    ∃ x ∈ columnLattice I.q (I.columns m),
      v = pad m x + v (Fin.last m) • (pad m (fun i => centeredResidue (I.c.getD i 0) I.q) +
        Pi.single (Fin.last m) 1) := by
  obtain ⟨s, hs⟩ := hv
  refine ⟨fun i => v i.castSucc - v (Fin.last m) * centeredResidue (I.c.getD i 0) I.q, ?_, ?_⟩
  · choose column hcolumn hentries using I.entries_columns m
    have hsum : ∑ j, s j • entries (column j) ∈ columnLattice I.q (I.columns m) :=
      Submodule.sum_mem _ fun j _ =>
        Submodule.smul_mem _ _ (entries_mem_columnLattice (hcolumn j))
    apply mem_columnLattice_of_modEq hsum
    intro i
    have hc := (centeredResidue_modEq (I.c.getD i 0) I.q).mul_left (v (Fin.last m))
    refine ((hs i).sub hc).trans (congrArg (· % I.q) ?_)
    simp only [Finset.sum_apply, Pi.smul_apply, smul_eq_mul, hentries, add_sub_cancel_right]
    exact Finset.sum_congr rfl fun j _ => mul_comm _ _
  · ext k
    refine Fin.lastCases ?_ (fun k => ?_) k
    · simp
    · simp

theorem rowLattice_eq_kannanLattice {I : LweInstance α} {m : Nat} (hq : 2 ≤ I.q)
    (hc : m ≤ I.c.length) {C : Columns m} (h : C.Invariant I.q (I.columns m) m)
    (hpending : C.pending = []) :
    rowLattice (m + 1) (rows I.q C (I.c.take m)) = I.kannanLattice m := by
  have hlength : (I.c.take m).length = m := by simp [hc]
  have htake (i : Fin m) : (I.c.take m).getD i 0 = I.c.getD i 0 := by simp
  have htarget := rowVector_target (q := I.q) hlength
  simp only [htake] at htarget
  apply le_antisymm
  · apply rowLattice_le
    intro row hrow
    simp only [rows, List.mem_append, List.mem_map, List.mem_singleton] at hrow
    rcases hrow with (⟨i, hi, rfl⟩ | ⟨column, hcolumn, rfl⟩) | rfl
    · have him : i < m := List.mem_range.mp (List.mem_of_mem_filter hi)
      have hunit := rowVector_unitRow (⟨i, him⟩ : Fin m) I.q
      dsimp only at hunit
      rw [hunit]
      exact I.single_mem_kannanLattice ⟨i, him⟩
    · rw [rowVector_column]
      apply I.pad_mem_kannanLattice
      rw [← h.lattice_eq]
      exact mem_columnLattice_of_modEq
        (entries_mem_columnLattice (List.mem_append_left _ hcolumn))
        fun i => centeredResidue_modEq (entries column i) I.q
    · rw [htarget]
      refine ⟨0, fun i => ?_⟩
      simpa using centeredResidue_modEq (I.c.getD i 0) I.q
  · intro v hv
    obtain ⟨x, hx, hvx⟩ := exists_columnLattice_of_mem hv
    have hlast : rowVector (m + 1) ((I.c.take m).map (centeredResidue · I.q) ++ [1]) ∈
        rowLattice (m + 1) (rows I.q C (I.c.take m)) := by
      apply rowVector_mem_rowLattice
      simp [rows]
    rw [hvx, ← htarget]
    exact add_mem (columnLattice_le_rowLattice h hq hpending hx) (Submodule.smul_mem _ _ hlast)

/-- The basis of the embedding, if there is one, is made of the rows, and all columns have a pivot
row. -/
theorem ofRows_of_primalBasis [Scalar α] {I : LweInstance α} {m : Nat} {B : SomeLatticeBasis α}
    (h : I.primalBasis m = .ok B) :
    m ≤ I.c.length ∧ I.n ≤ (reduceColumns (Scalar.integers α) I.q (I.columns m)).reduced.length ∧
      SomeLatticeBasis.ofRows
        (rows I.q (reduceColumns (Scalar.integers α) I.q (I.columns m)) (I.c.take m)) = .ok B := by
  unfold primalBasis at h
  obtain ⟨hsamples, h⟩ := guard_eq_ok.mp h
  obtain ⟨_, h⟩ := guard_eq_ok.mp h
  obtain ⟨_, h⟩ := guard_eq_ok.mp h
  dsimp only at h
  obtain ⟨hreduced, h⟩ := guard_eq_ok.mp h
  exact ⟨Nat.le_of_not_lt hsamples, Nat.le_of_not_lt hreduced, h⟩

/-- The basis of the embedding, if there is one, is square and has exactly that lattice, as long as
the columns are reduced as they are with integers of any size. -/
theorem lattice_of_primalBasis [Scalar α] {I : LweInstance α} {m : Nat} {B : SomeLatticeBasis α}
    (hq : 2 ≤ I.q) (hexact : reduceColumns (Scalar.integers α) I.q (I.columns m) =
      reduceColumns .unbounded I.q (I.columns m)) (h : I.primalBasis m = .ok B) :
    ∃ L : LatticeBasis α (m + 1) (m + 1), B = ⟨L⟩ ∧ L.lattice = I.kannanLattice m := by
  obtain ⟨hc, hreduced, hrows⟩ := ofRows_of_primalBasis h
  rw [hexact] at hreduced hrows
  have hinvariant := Columns.Invariant.reduceColumns I.q (I.columns m)
  have hpending : (reduceColumns .unbounded I.q (I.columns m)).pending = [] := by
    have hlength := hinvariant.length_eq
    have hcolumns : (I.columns m).length = I.n := by simp [columns]
    exact List.eq_nil_of_length_eq_zero (by omega)
  have hlattice := rowLattice_eq_kannanLattice hq hc hinvariant hpending
  obtain ⟨L, hB, hL⟩ := SomeLatticeBasis.lattice_ofRows hrows
    (length_rows hinvariant (I.c.take m)) (length_of_mem_rows (by simp [hc]))
  exact ⟨L, hB, hL.trans hlattice⟩

/-- The errors, extended by a one, belong to the lattice. -/
theorem error_mem_kannanLattice {I : LweInstance α} {m : Nat} {s : Fin I.n → ℤ} {e : Fin m → ℤ}
    (h : ∀ i : Fin m, I.c.getD i 0 ≡ ∑ j : Fin I.n, I.coefficient i j * s j + e i [ZMOD I.q]) :
    pad m e + Pi.single (Fin.last m) 1 ∈ I.kannanLattice m := by
  refine ⟨-s, fun i => ?_⟩
  have hsum : ∑ j : Fin I.n, I.coefficient i j * (-s) j =
      -∑ j : Fin I.n, I.coefficient i j * s j := by
    simp only [Pi.neg_apply, mul_neg, Finset.sum_neg_distrib]
  simp only [Pi.add_apply, pad_castSucc, pad_last, Pi.single_eq_same, hsum, zero_add, one_mul,
    Pi.single_eq_of_ne i.castSucc_ne_last, add_zero]
  have hadd := (h i).symm.add_left (-∑ j : Fin I.n, I.coefficient i j * s j)
  rwa [neg_add_cancel_left] at hadd

/-- An instance whose modulus is composite and whose first sample is no pivot row. -/
def compositeInstance : LweInstance Fraction where
  n := 1
  q := 6
  alpha := 0.05
  a := [[2], [5], [3]]
  c := [1, 4, 2]
  secret := none

/-- An instance whose modulus is a prime above `2 ^ 32`. -/
def wideInstance : LweInstance Fraction where
  n := 1
  q := 4294967311
  alpha := 0.05
  a := [[2], [4294967310]]
  c := [0, 0]
  secret := none

end LweInstance

end EmbeddingAttack
