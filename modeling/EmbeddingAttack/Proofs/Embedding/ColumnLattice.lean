import EmbeddingAttack.Embedding
import EmbeddingAttack.Proofs.Arithmetic.Bezout
import EmbeddingAttack.Proofs.Lattice.RowLattice
import Mathlib.Algebra.BigOperators.Group.Finset.Basic
import Mathlib.LinearAlgebra.Span.Basic
import Mathlib.LinearAlgebra.Finsupp.LinearCombination
import Mathlib.Tactic.LinearCombination
import Mathlib.Tactic.Module

/-!
# Column reduction modulo `q`

The lattice of some columns modulo `q` holds the vectors that agree with a combination of them
modulo `q`.  The reduction keeps it, and leaves a column for each pivot row that has a one there and
a zero in every other pivot row.
-/

namespace EmbeddingAttack

namespace Embedding

variable {m : Nat} {q : Int}

/-- The entries of a column. -/
def entries (column : Column m) : Fin m → ℤ :=
  column.get

theorem entries_apply (column : Column m) (i : Fin m) : entries column i = column.get i := rfl

/-- The vectors that vanish modulo `q`. -/
def multiples (m : Nat) (q : Int) : Submodule ℤ (Fin m → ℤ) where
  carrier := {v | ∀ i, q ∣ v i}
  zero_mem' := fun _ => dvd_zero q
  add_mem' := fun hv hw i => dvd_add (hv i) (hw i)
  smul_mem' := fun c _ hv i => Dvd.dvd.mul_left (hv i) c

/-- The vectors that agree with a combination of the columns modulo `q`. -/
def columnLattice (q : Int) (columns : List (Column m)) : Submodule ℤ (Fin m → ℤ) :=
  Submodule.span ℤ ({v | ∃ column ∈ columns, entries column = v} ∪ multiples m q)

theorem entries_mem_columnLattice {columns : List (Column m)} {column : Column m}
    (h : column ∈ columns) : entries column ∈ columnLattice q columns :=
  Submodule.subset_span (Or.inl ⟨column, h, rfl⟩)

theorem multiples_le_columnLattice (columns : List (Column m)) :
    multiples m q ≤ columnLattice q columns :=
  fun _ hv => Submodule.subset_span (Or.inr hv)

theorem columnLattice_le {columns : List (Column m)} {Λ : Submodule ℤ (Fin m → ℤ)}
    (hcolumns : ∀ column ∈ columns, entries column ∈ Λ) (hmultiples : multiples m q ≤ Λ) :
    columnLattice q columns ≤ Λ := by
  apply Submodule.span_le.mpr
  apply Set.union_subset
  · rintro _ ⟨column, h, rfl⟩
    exact hcolumns column h
  · exact hmultiples

theorem columnLattice_perm {columns others : List (Column m)} (h : columns.Perm others) :
    columnLattice q columns = columnLattice q others := by
  simp only [columnLattice, h.mem_iff]

/-- Membership does not change along a multiple of `q`. -/
theorem mem_columnLattice_of_modEq {columns : List (Column m)} {v w : Fin m → ℤ}
    (hw : w ∈ columnLattice q columns) (h : ∀ i, v i ≡ w i [ZMOD q]) :
    v ∈ columnLattice q columns := by
  have hsub : v - w ∈ multiples m q := fun i => (h i).symm.dvd
  have hadd := add_mem (multiples_le_columnLattice columns hsub) hw
  rwa [sub_add_cancel] at hadd

/-! ## One pivot -/

theorem getD_eq_getElem (column : Column m) {i : Nat} (hi : i < m) :
    column.getD i 0 = column[i] := by
  simp [Vector.getD, hi]

theorem getD_eq_entries (column : Column m) (i : Fin m) : column.getD i 0 = entries column i :=
  getD_eq_getElem column i.isLt

theorem getD_eq_zero (column : Column m) {i : Nat} (hi : m ≤ i) : column.getD i 0 = 0 := by
  simp [Vector.getD, hi]

theorem getD_clearRow_modEq (row : Nat) (pivot column : Column m) (i : Nat) :
    (clearRow .unbounded q row pivot column).getD i 0 ≡
      column.getD i 0 - column.getD row 0 * pivot.getD i 0 [ZMOD q] := by
  unfold clearRow
  dsimp only
  split
  · rename_i hzero
    rw [hzero, zero_mul, sub_zero]
  · by_cases hi : i < m
    · simp only [getD_eq_getElem _ hi, Vector.getElem_zipWith]
      exact Int.mod_modEq _ q
    · simp only [getD_eq_zero _ (Nat.le_of_not_lt hi), mul_zero, sub_zero]
      exact Int.ModEq.refl 0

theorem entries_clearRow_modEq (row : Nat) (pivot column : Column m) (i : Fin m) :
    entries (clearRow .unbounded q row pivot column) i ≡
      entries column i - column.getD row 0 * entries pivot i [ZMOD q] := by
  simp only [← getD_eq_entries]
  exact getD_clearRow_modEq row pivot column i

/-- Clearing does not change a row in which the pivot column is zero. -/
theorem getD_clearRow_of_zero {row : Nat} {pivot : Column m} {i : Nat}
    (h : pivot.getD i 0 ≡ 0 [ZMOD q]) (column : Column m) :
    (clearRow .unbounded q row pivot column).getD i 0 ≡ column.getD i 0 [ZMOD q] := by
  have hsub := (Int.ModEq.refl (column.getD i 0)).sub (h.mul_left (column.getD row 0))
  rw [mul_zero, sub_zero] at hsub
  exact (getD_clearRow_modEq row pivot column i).trans hsub

/-- Clearing empties the pivot row. -/
theorem getD_clearRow_of_one {row : Nat} {pivot : Column m} (h : pivot.getD row 0 ≡ 1 [ZMOD q])
    (column : Column m) : (clearRow .unbounded q row pivot column).getD row 0 ≡ 0 [ZMOD q] := by
  have hsub := (Int.ModEq.refl (column.getD row 0)).sub (h.mul_left (column.getD row 0))
  rw [mul_one, sub_self] at hsub
  exact (getD_clearRow_modEq row pivot column row).trans hsub

/-- The column found and the others are the pending columns in some order, and the inverse is that
of its entry. -/
theorem takeInvertible?_spec {row : Nat} {pending rest : List (Column m)} {inverse : Int}
    {column : Column m} (h : takeInvertible? q row pending = some (inverse, column, rest)) :
    (column :: rest).Perm pending ∧ modInverse? (column.getD row 0) q = some inverse := by
  cases pending with
  | nil => simp [takeInvertible?] at h
  | cons first others =>
      cases hfirst : modInverse? (first.getD row 0) q with
      | some x =>
          simp only [takeInvertible?, hfirst, Option.some.injEq, Prod.mk.injEq] at h
          obtain ⟨rfl, rfl, rfl⟩ := h
          exact ⟨List.Perm.refl _, hfirst⟩
      | none =>
          simp only [takeInvertible?, hfirst] at h
          split at h
          · simp at h
          · rename_i i _
            simp only [Option.map_eq_some_iff, Prod.mk.injEq] at h
            obtain ⟨x, hx, rfl, rfl, rfl⟩ := h
            refine ⟨?_, hx⟩
            rw [List.getD_eq_getElem?_getD]
            exact List.getD_set_perm_cons others i first

/-- What the pivot column becomes, up to `q`, when its entry in the pivot row has been made one. -/
theorem getD_scale_modEq (inverse : Int) (column : Column m) (i : Nat) :
    (column.map fun x => (x * inverse).tmod q).getD i 0 ≡ inverse * column.getD i 0 [ZMOD q] := by
  by_cases hi : i < m
  · simp only [getD_eq_getElem _ hi, Vector.getElem_map]
    rw [mul_comm inverse, Int.tmod_def]
    exact (Int.modEq_sub_modulus_mul_iff.mpr rfl).symm
  · simp only [getD_eq_zero _ (Nat.le_of_not_lt hi), mul_zero]
    exact Int.ModEq.refl 0

/-- The columns after one step, without regard to which of them have a pivot row, generate the same
lattice as before. -/
theorem columnLattice_pivot {row : Nat} {inverse : Int} {column pivot : Column m}
    {others : List (Column m)} (hinverse : column.getD row 0 * inverse ≡ 1 [ZMOD q])
    (hpivot : ∀ i, entries pivot i ≡ inverse * entries column i [ZMOD q]) :
    columnLattice q (pivot :: others.map (clearRow .unbounded q row pivot)) =
      columnLattice q (column :: others) := by
  have hcolumn (i : Fin m) :
      entries column i ≡ (column.getD row 0 • entries pivot) i [ZMOD q] := by
    calc
      entries column i = 1 * entries column i := (one_mul _).symm
      _ ≡ column.getD row 0 * inverse * entries column i [ZMOD q] := hinverse.symm.mul_right _
      _ = column.getD row 0 * (inverse * entries column i) := mul_assoc _ _ _
      _ ≡ column.getD row 0 * entries pivot i [ZMOD q] := (hpivot i).symm.mul_left _
  apply le_antisymm
  · have hmem : entries pivot ∈ columnLattice q (column :: others) :=
      mem_columnLattice_of_modEq
        (Submodule.smul_mem _ inverse (entries_mem_columnLattice List.mem_cons_self)) hpivot
    apply columnLattice_le _ (multiples_le_columnLattice _)
    intro c hc
    rcases List.mem_cons.mp hc with rfl | hc
    · exact hmem
    · obtain ⟨other, hother, rfl⟩ := List.mem_map.mp hc
      apply mem_columnLattice_of_modEq _ (entries_clearRow_modEq row pivot other)
      exact sub_mem (entries_mem_columnLattice (List.mem_cons_of_mem _ hother))
        (Submodule.smul_mem _ _ hmem)
  · have hmem : entries pivot ∈
        columnLattice q (pivot :: others.map (clearRow .unbounded q row pivot)) :=
      entries_mem_columnLattice List.mem_cons_self
    apply columnLattice_le _ (multiples_le_columnLattice _)
    intro c hc
    rcases List.mem_cons.mp hc with rfl | hc
    · exact mem_columnLattice_of_modEq (Submodule.smul_mem _ _ hmem) hcolumn
    · have hclear : entries (clearRow .unbounded q row pivot c) ∈
          columnLattice q (pivot :: others.map (clearRow .unbounded q row pivot)) :=
        entries_mem_columnLattice (List.mem_cons_of_mem _ (List.mem_map_of_mem hc))
      apply mem_columnLattice_of_modEq
        (add_mem hclear (Submodule.smul_mem _ (c.getD row 0) hmem))
      intro i
      have h := (entries_clearRow_modEq (q := q) row pivot c i).add_right
        (c.getD row 0 * entries pivot i)
      rw [sub_add_cancel] at h
      exact h.symm

theorem columnLattice_addPivot (q : Int) (C : Columns m) (row : Nat) :
    columnLattice q
        ((C.addPivot .unbounded q row).reduced ++ (C.addPivot .unbounded q row).pending) =
      columnLattice q (C.reduced ++ C.pending) := by
  unfold Columns.addPivot
  split
  · rfl
  · rename_i inverse column rest htake
    obtain ⟨hperm, hinverse⟩ := takeInvertible?_spec htake
    dsimp only [Integers.keep_unbounded]
    generalize hpivot : (column.map fun x => (x * inverse).tmod q) = pivot
    have hentries (i : Fin m) : entries pivot i ≡ inverse * entries column i [ZMOD q] := by
      simp only [← getD_eq_entries, ← hpivot]
      exact getD_scale_modEq inverse column i
    have hnew : (C.reduced.map (clearRow .unbounded q row pivot) ++ [pivot] ++
        rest.map (clearRow .unbounded q row pivot)).Perm
        (pivot :: (C.reduced ++ rest).map (clearRow .unbounded q row pivot)) := by
      rw [List.append_assoc, List.map_append]
      exact List.perm_middle
    have hold : (column :: (C.reduced ++ rest)).Perm (C.reduced ++ C.pending) :=
      List.perm_middle.symm.trans (hperm.append_left C.reduced)
    rw [columnLattice_perm hnew, columnLattice_pivot (modEq_of_modInverse? hinverse) hentries,
      columnLattice_perm hold]

theorem length_addPivot (q : Int) (C : Columns m) (row : Nat) :
    (C.addPivot .unbounded q row).reduced.length + (C.addPivot .unbounded q row).pending.length =
      C.reduced.length + C.pending.length := by
  unfold Columns.addPivot
  split
  · rfl
  · rename_i inverse column rest htake
    have hlength := (takeInvertible?_spec htake).1.length_eq
    simp only [List.length_cons, List.length_append, List.length_map, List.length_nil]
      at hlength ⊢
    omega

/-! ## All pivots -/

/-- What holds after the first `k` rows have been tried as pivot rows: the columns generate the
lattice they did at the beginning, and modulo `q` each pivot row has a one in one reduced column and
zeros in all other columns. -/
structure Columns.Invariant (q : Int) (original : List (Column m)) (k : Nat) (C : Columns m) :
    Prop where
  lattice_eq : columnLattice q (C.reduced ++ C.pending) = columnLattice q original
  length_eq : C.reduced.length + C.pending.length = original.length
  length_pivots : C.pivots.length = C.reduced.length
  nodup_pivots : C.pivots.Nodup
  pivots_lt : ∀ p ∈ C.pivots, p < k
  unit_reduced : ∀ p ∈ C.pivots, ∃ column ∈ C.reduced, column.getD p 0 ≡ 1 [ZMOD q] ∧
    ∀ p' ∈ C.pivots, p' ≠ p → column.getD p' 0 ≡ 0 [ZMOD q]
  zero_pending : ∀ column ∈ C.pending, ∀ p ∈ C.pivots, column.getD p 0 ≡ 0 [ZMOD q]

namespace Columns.Invariant

variable {original : List (Column m)} {k : Nat} {C : Columns m}

theorem start (q : Int) (original : List (Column m)) :
    Columns.Invariant q original 0 ⟨[], original.map (·.map (· % q)), []⟩ where
  lattice_eq := by
    have hmod (column : Column m) (i : Fin m) :
        entries (column.map (· % q)) i ≡ entries column i [ZMOD q] := by
      simp only [entries_apply, get_eq_getElem, Vector.getElem_map]
      exact Int.mod_modEq _ q
    apply le_antisymm
    · apply columnLattice_le _ (multiples_le_columnLattice _)
      intro c hc
      obtain ⟨column, hcolumn, rfl⟩ := List.mem_map.mp hc
      exact mem_columnLattice_of_modEq (entries_mem_columnLattice hcolumn) (hmod column)
    · apply columnLattice_le _ (multiples_le_columnLattice _)
      intro column hcolumn
      exact mem_columnLattice_of_modEq
        (entries_mem_columnLattice (List.mem_map_of_mem hcolumn)) fun i => (hmod column i).symm
  length_eq := by simp
  length_pivots := rfl
  nodup_pivots := List.nodup_nil
  pivots_lt := by simp
  unit_reduced := by simp
  zero_pending := by simp

theorem addPivot (h : C.Invariant q original k) :
    (C.addPivot .unbounded q k).Invariant q original (k + 1) := by
  have hlattice := (columnLattice_addPivot q C k).trans h.lattice_eq
  have hlength := (length_addPivot q C k).trans h.length_eq
  unfold Columns.addPivot at hlattice hlength ⊢
  split
  · exact { h with pivots_lt := fun p hp => Nat.lt_succ_of_lt (h.pivots_lt p hp) }
  · rename_i inverse column rest htake
    obtain ⟨hperm, hinverse⟩ := takeInvertible?_spec htake
    have hcolumn : column ∈ C.pending := hperm.subset List.mem_cons_self
    have hrest : ∀ c ∈ rest, c ∈ C.pending := fun c hc => hperm.subset (List.mem_cons_of_mem _ hc)
    dsimp only [Integers.keep_unbounded]
    generalize hpivot : (column.map fun x => (x * inverse).tmod q) = pivot
    have hscale (i : Nat) : pivot.getD i 0 ≡ inverse * column.getD i 0 [ZMOD q] := by
      rw [← hpivot]
      exact getD_scale_modEq inverse column i
    have hone : pivot.getD k 0 ≡ 1 [ZMOD q] := by
      refine (hscale k).trans ?_
      rw [mul_comm]
      exact modEq_of_modInverse? hinverse
    have hzero : ∀ p ∈ C.pivots, pivot.getD p 0 ≡ 0 [ZMOD q] := by
      intro p hp
      have hc := (h.zero_pending column hcolumn p hp).mul_left inverse
      rw [mul_zero] at hc
      exact (hscale p).trans hc
    exact {
      lattice_eq := by simpa only [htake, Integers.keep_unbounded, hpivot] using hlattice
      length_eq := by simpa only [htake, Integers.keep_unbounded, hpivot] using hlength
      length_pivots := by simp [h.length_pivots]
      nodup_pivots := by
        rw [List.nodup_append]
        refine ⟨h.nodup_pivots, List.nodup_singleton k, ?_⟩
        rintro p hp _ hk rfl
        have := h.pivots_lt p hp
        simp only [List.mem_singleton] at hk
        omega
      pivots_lt := by
        intro p hp
        rcases List.mem_append.mp hp with hp | hp
        · exact Nat.lt_succ_of_lt (h.pivots_lt p hp)
        · rw [List.mem_singleton.mp hp]
          exact Nat.lt_succ_self k
      unit_reduced := by
        intro p hp
        rcases List.mem_append.mp hp with hp | hp
        · obtain ⟨c, hc, hunit, hothers⟩ := h.unit_reduced p hp
          refine ⟨clearRow .unbounded q k pivot c, List.mem_append_left _ (List.mem_map_of_mem hc),
            (getD_clearRow_of_zero (hzero p hp) c).trans hunit, ?_⟩
          intro p' hp' hne
          rcases List.mem_append.mp hp' with hp' | hp'
          · exact (getD_clearRow_of_zero (hzero p' hp') c).trans (hothers p' hp' hne)
          · rw [List.mem_singleton.mp hp']
            exact getD_clearRow_of_one hone c
        · rw [List.mem_singleton.mp hp]
          refine ⟨pivot, List.mem_append_right _ (List.mem_singleton_self pivot), hone, ?_⟩
          intro p' hp' hne
          rcases List.mem_append.mp hp' with hp' | hp'
          · exact hzero p' hp'
          · exact absurd (List.mem_singleton.mp hp') hne
      zero_pending := by
        intro c hc p hp
        obtain ⟨other, hother, rfl⟩ := List.mem_map.mp hc
        rcases List.mem_append.mp hp with hp | hp
        · exact (getD_clearRow_of_zero (hzero p hp) other).trans
            (h.zero_pending other (hrest other hother) p hp)
        · rw [List.mem_singleton.mp hp]
          exact getD_clearRow_of_one hone other }

theorem reduceColumns (q : Int) (original : List (Column m)) :
    (Embedding.reduceColumns .unbounded q original).Invariant q original m := by
  have hrun (k : Nat) : Columns.Invariant q original k ((List.range k).foldl
      (Columns.addPivot .unbounded q) ⟨[], original.map (·.map (· % q)), []⟩) := by
    induction k with
    | zero => exact start q original
    | succ k ih =>
        rw [List.range_succ, List.foldl_append]
        exact ih.addPivot
  exact hrun m

end Columns.Invariant

end Embedding

end EmbeddingAttack
