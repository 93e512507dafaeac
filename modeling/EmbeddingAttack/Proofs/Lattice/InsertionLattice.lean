import EmbeddingAttack.Lattice.Insertion
import EmbeddingAttack.Proofs.Arithmetic.Bezout
import EmbeddingAttack.Proofs.Lattice.RowLattice

/-!
# Insertions keep the lattice

Gathering a combination in one row applies a transformation of determinant one to each pair of a new
row and the row reached so far.  The two are different rows because the rows to gather are listed
without repetition.
-/

namespace EmbeddingAttack

namespace IntMatrix

variable {n m : Nat}

theorem lattice_gather (M : IntMatrix n m) (position : Nat) (weight : Int)
    (rows : List (Nat × Int)) (hposition : position < n)
    (hrows : ∀ r ∈ rows, r.1 < n ∧ r.2 ≠ 0) (hdistinct : (position :: rows.map Prod.fst).Nodup) :
    (M.gather .unbounded position weight rows).1.lattice = M.lattice := by
  induction rows generalizing M position weight with
  | nil => rfl
  | cons row rest ih =>
      obtain ⟨i, x⟩ := row
      obtain ⟨hi, hx⟩ := hrows (i, x) (by simp)
      obtain ⟨hnotin, hrest⟩ := List.nodup_cons.mp hdistinct
      have hne : i ≠ position := by
        rintro rfl
        simp at hnotin
      rw [gather, ih _ _ _ hi (fun r hr => hrows r (by simp [hr])) hrest]
      apply lattice_combineRows _ hi hposition hne
      rw [Integers.keep_unbounded]
      have hdet := Bezout.det_of (a := x) (b := weight) (Or.inl hx)
      linear_combination hdet

theorem lattice_insertCombination (M : IntMatrix n m) (start : Nat) (rows : List (Nat × Int))
    (hrows : ∀ r ∈ rows, r.1 < n ∧ r.2 ≠ 0) (hdistinct : (rows.map Prod.fst).Nodup) :
    (M.insertCombination .unbounded start rows).lattice = M.lattice := by
  cases rows with
  | nil => rfl
  | cons row rest =>
      obtain ⟨i, x⟩ := row
      have hgather := lattice_gather M i x rest (hrows (i, x) (by simp)).1
        (fun r hr => hrows r (by simp [hr])) hdistinct
      unfold insertCombination
      dsimp only
      rw [lattice_rotateRowUp]
      split
      · rw [lattice_negateRow, hgather]
      · exact hgather

end IntMatrix

namespace LatticeBasis

theorem mem_support {start : Nat} {coefficients : List Int} {r : Nat × Int}
    (h : r ∈ support start coefficients) : r.1 < start + coefficients.length ∧ r.2 ≠ 0 := by
  unfold support at h
  simp only [List.mem_reverse, List.mem_filterMap, Prod.exists] at h
  obtain ⟨x, i, hmem, hr⟩ := h
  split at hr
  · cases hr
  · rename_i hx
    cases hr
    have hlt := List.snd_lt_add_of_mem_zipIdx hmem
    exact ⟨by simpa [Nat.add_comm] using hlt, hx⟩

theorem support_cons (start : Nat) (x : Int) (rest : List Int) :
    support start (x :: rest) = support (start + 1) rest ++ if x = 0 then [] else [(start, x)] := by
  unfold support
  rw [List.zipIdx_cons]
  by_cases hx : x = 0 <;> simp [hx]

/-- A combination with a coefficient other than zero names a row. -/
theorem support_eq_nil_iff {start : Nat} {coefficients : List Int} :
    support start coefficients = [] ↔ ∀ x ∈ coefficients, x = 0 := by
  induction coefficients generalizing start with
  | nil => simp [support]
  | cons x rest ih =>
      rw [support_cons, List.append_eq_nil_iff, ih, List.forall_mem_cons, and_comm]
      by_cases hx : x = 0 <;> simp [hx]

theorem nodup_support (start : Nat) (coefficients : List Int) :
    ((support start coefficients).map Prod.fst).Nodup := by
  have hsub : ((support start coefficients).map Prod.fst).Sublist
      (List.range' start coefficients.length).reverse := by
    induction coefficients generalizing start with
    | nil => exact List.nil_sublist _
    | cons x rest ih =>
        rw [support_cons, List.map_append, List.length_cons, List.range'_succ, List.reverse_cons]
        apply (ih (start + 1)).append
        by_cases hx : x = 0 <;> simp [hx]
  exact hsub.nodup (List.nodup_reverse.mpr List.nodup_range')

end LatticeBasis

end EmbeddingAttack
