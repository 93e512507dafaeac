import EmbeddingAttack.Proofs.Embedding.ColumnLattice

/-!
# Column reduction in words

The columns hold residues all along, and no product that the reduction computes is larger than that
of two residues.  So it never leaves words of 64 bits where the square of the greatest residue is
one.
-/

namespace EmbeddingAttack

namespace Embedding

variable {m : Nat} {q : Int} {Z : Integers}

/-- Whether an integer is a residue modulo `q`. -/
def IsResidue (q x : Int) : Prop :=
  0 ≤ x ∧ x < |q|

theorem isResidue_emod (x : Int) (hq : q ≠ 0) : IsResidue q (x % q) :=
  ⟨Int.emod_nonneg x hq, Int.emod_lt_abs x hq⟩

theorem isResidue_of_modInverse? {a x : Int} (hq : q ≠ 0) (h : modInverse? a q = some x) :
    IsResidue q x := by
  unfold modInverse? at h
  dsimp only at h
  split at h
  · cases h
    exact isResidue_emod _ hq
  · cases h

theorem IsResidue.le {x : Int} (hx : IsResidue q x) : x ≤ |q - 1| := by
  have habs : |q| - |1| ≤ |q - 1| := abs_sub_abs_le_abs_sub q 1
  rw [abs_one] at habs
  exact (Int.le_sub_one_of_lt hx.2).trans habs

theorem IsResidue.le_sq {x : Int} (hx : IsResidue q x) : x ≤ (q - 1) ^ 2 := by
  rw [← sq_abs]
  exact hx.le.trans (Int.le_self_sq _)

theorem IsResidue.mul_le {x y : Int} (hx : IsResidue q x) (hy : IsResidue q y) :
    0 ≤ x * y ∧ x * y ≤ (q - 1) ^ 2 := by
  refine ⟨mul_nonneg hx.1 hy.1, ?_⟩
  rw [← sq_abs, sq]
  exact mul_le_mul hx.le hy.le hy.1 (abs_nonneg _)

/-- Whether all entries of a column are residues. -/
def HasResidues (q : Int) (column : Column m) : Prop :=
  ∀ i (hi : i < m), IsResidue q column[i]

theorem HasResidues.getD {column : Column m} (h : HasResidues q column) (hq : q ≠ 0) (i : Nat) :
    IsResidue q (column.getD i 0) := by
  by_cases hi : i < m
  · rw [getD_eq_getElem column hi]
    exact h i hi
  · rw [getD_eq_zero column (Nat.le_of_not_lt hi)]
    exact ⟨le_rfl, abs_pos.mpr hq⟩

/-! ## One pivot -/

theorem hasResidues_clearRow {row : Nat} {pivot column : Column m} (hq : q ≠ 0)
    (h : HasResidues q column) : HasResidues q (clearRow Z q row pivot column) := by
  unfold clearRow
  dsimp only
  split
  · exact h
  · intro i hi
    rw [Vector.getElem_zipWith]
    exact isResidue_emod _ hq

theorem clearRow_eq_unbounded {row : Nat} {pivot column : Column m} (hq : q ≠ 0)
    (hsmall : (q - 1) ^ 2 < 2 ^ 63) (hpivot : HasResidues q pivot)
    (hcolumn : HasResidues q column) :
    clearRow Z q row pivot column = clearRow .unbounded q row pivot column := by
  unfold clearRow
  dsimp only
  split
  · rfl
  · ext i hi
    have hproduct := (hcolumn.getD hq row).mul_le (hpivot i hi)
    rw [Vector.getElem_zipWith, Vector.getElem_zipWith, Z.keep_eq, Integers.keep_unbounded]
    unfold InInt64 maxInt64
    have hentry := (hcolumn i hi).le_sq
    have hpositive := (hcolumn i hi).1
    omega

theorem hasResidues_scale {column : Column m} {inverse : Int} (hq : q ≠ 0)
    (hinverse : IsResidue q inverse) (h : HasResidues q column) :
    HasResidues q (column.map fun x => (x * inverse).tmod q) := by
  intro i hi
  rw [Vector.getElem_map, Int.tmod_eq_emod_of_nonneg ((h i hi).mul_le hinverse).1]
  exact isResidue_emod _ hq

theorem scale_eq_unbounded {column : Column m} {inverse : Int} (hsmall : (q - 1) ^ 2 < 2 ^ 63)
    (hinverse : IsResidue q inverse) (h : HasResidues q column) :
    (column.map fun x => (Z.keep (x * inverse)).tmod q) =
      column.map fun x => (x * inverse).tmod q := by
  ext i hi
  have hproduct := (h i hi).mul_le hinverse
  rw [Vector.getElem_map, Vector.getElem_map, Z.keep_eq]
  unfold InInt64 maxInt64
  omega

/-- Whether all columns hold residues. -/
def Columns.HasResidues (q : Int) (C : Columns m) : Prop :=
  ∀ column ∈ C.reduced ++ C.pending, Embedding.HasResidues q column

theorem addPivot_eq_unbounded {C : Columns m} {row : Nat} (hq : q ≠ 0)
    (hsmall : (q - 1) ^ 2 < 2 ^ 63) (h : C.HasResidues q) :
    C.addPivot Z q row = C.addPivot .unbounded q row ∧
      (C.addPivot .unbounded q row).HasResidues q := by
  unfold Columns.addPivot
  split
  · exact ⟨rfl, h⟩
  · rename_i inverse column rest htake
    obtain ⟨hperm, hinverse⟩ := takeInvertible?_spec htake
    have hreduced : ∀ c ∈ C.reduced, HasResidues q c := fun c hc => h c (List.mem_append_left _ hc)
    have hpending : ∀ c ∈ column :: rest, HasResidues q c := fun c hc =>
      h c (List.mem_append_right _ (hperm.subset hc))
    have hcolumn := hpending column List.mem_cons_self
    have hrest : ∀ c ∈ rest, HasResidues q c := fun c hc => hpending c (List.mem_cons_of_mem _ hc)
    have hresidue := isResidue_of_modInverse? hq hinverse
    have hpivot := hasResidues_scale hq hresidue hcolumn
    dsimp only [Integers.keep_unbounded]
    rw [scale_eq_unbounded hsmall hresidue hcolumn]
    generalize column.map (fun x => (x * inverse).tmod q) = pivot at hpivot
    constructor
    · congr 1
      · congr 1
        exact List.map_congr_left fun c hc =>
            clearRow_eq_unbounded hq hsmall hpivot (hreduced c hc)
      · exact List.map_congr_left fun c hc =>
          clearRow_eq_unbounded hq hsmall hpivot (hrest c hc)
    · intro c hc
      simp only [List.mem_append, List.mem_map, List.mem_singleton] at hc
      rcases hc with (⟨c, hc, rfl⟩ | rfl) | ⟨c, hc, rfl⟩
      · exact hasResidues_clearRow hq (hreduced c hc)
      · exact hpivot
      · exact hasResidues_clearRow hq (hrest c hc)

/-! ## All pivots -/

/-- Where the square of the greatest residue is a word, the reduction in words is the exact one. -/
theorem reduceColumns_eq_unbounded (Z : Integers) (hq : q ≠ 0) (hsmall : (q - 1) ^ 2 < 2 ^ 63)
    (columns : List (Column m)) :
    reduceColumns Z q columns = reduceColumns .unbounded q columns := by
  let start : Columns m := ⟨[], columns.map (·.map (· % q)), []⟩
  have hstart : start.HasResidues q := by
    intro column hcolumn
    obtain ⟨c, -, rfl⟩ := List.mem_map.mp hcolumn
    intro i hi
    rw [Vector.getElem_map]
    exact isResidue_emod _ hq
  have hrun (k : Nat) : (List.range k).foldl (Columns.addPivot Z q) start =
        (List.range k).foldl (Columns.addPivot .unbounded q) start ∧
      ((List.range k).foldl (Columns.addPivot .unbounded q) start).HasResidues q := by
    induction k with
    | zero => exact ⟨rfl, hstart⟩
    | succ k ih =>
        rw [List.range_succ, List.foldl_append, List.foldl_append, ih.1]
        exact addPivot_eq_unbounded hq hsmall ih.2
  exact (hrun m).1

end Embedding

end EmbeddingAttack
