import EmbeddingAttack.Proofs.Lattice.Preservation

/-!
# Bases from lists of rows

A basis read from a list of rows has exactly their lattice.
-/

namespace EmbeddingAttack

/-- A list as a vector of length `d`. -/
def rowVector (d : Nat) (row : List Int) : Fin d → ℤ :=
  fun i => row.getD i 0

/-- All integer combinations of the given rows. -/
def rowLattice (d : Nat) (rows : List (List Int)) : Submodule ℤ (Fin d → ℤ) :=
  Submodule.span ℤ {v | ∃ row ∈ rows, rowVector d row = v}

theorem rowVector_mem_rowLattice {d : Nat} {rows : List (List Int)} {row : List Int}
    (h : row ∈ rows) : rowVector d row ∈ rowLattice d rows :=
  Submodule.subset_span ⟨row, h, rfl⟩

theorem rowLattice_le {d : Nat} {rows : List (List Int)} {Λ : Submodule ℤ (Fin d → ℤ)}
    (h : ∀ row ∈ rows, rowVector d row ∈ Λ) : rowLattice d rows ≤ Λ := by
  apply Submodule.span_le.mpr
  rintro _ ⟨row, hrow, rfl⟩
  exact h row hrow

theorem SomeIntMatrix.lattice_ofRows {α : Type} {rows : List (List Int)} {M : SomeIntMatrix}
    {d : Nat} (h : SomeIntMatrix.ofRows (α := α) rows = .ok M) (hd : ∀ row ∈ rows, row.length = d) :
    ∃ N : IntMatrix rows.length d, M = ⟨N⟩ ∧ N.lattice = rowLattice d rows := by
  cases rows with
  | nil => cases h
  | cons first rest =>
      obtain rfl := hd first List.mem_cons_self
      unfold ofRows at h
      dsimp only at h
      split at h
      · cases h
      · cases h
        refine ⟨_, rfl, ?_⟩
        have hvector (i : Fin (first :: rest).length) :
            (IntMatrix.mk (Vector.ofFn fun i : Fin (first :: rest).length =>
              Vector.ofFn fun j : Fin first.length => ((first :: rest)[i]).getD j 0)).vector i =
                rowVector first.length (first :: rest)[i] := by
          ext j
          simp [IntMatrix.vector_apply, get_eq_getElem, rowVector]
        apply le_antisymm
        · apply IntMatrix.lattice_le
          intro i
          rw [hvector]
          exact rowVector_mem_rowLattice (List.getElem_mem i.isLt)
        · apply rowLattice_le
          intro row hrow
          obtain ⟨i, hi, rfl⟩ := List.getElem_of_mem hrow
          have hmem := IntMatrix.vector_mem_lattice (IntMatrix.mk
            (Vector.ofFn fun i : Fin (first :: rest).length =>
              Vector.ofFn fun j : Fin first.length => ((first :: rest)[i]).getD j 0)) ⟨i, hi⟩
          rwa [hvector] at hmem

theorem LatticeBasis.basis_ofMatrix {α : Type} [Scalar α] {n m : Nat} {M : IntMatrix n m}
    {L : LatticeBasis α n m} (h : LatticeBasis.ofMatrix M = .ok L) : L.basis = M := by
  unfold ofMatrix at h
  split at h
  · cases h
  · split at h
    · cases h
    · dsimp only at h
      have hbasis := conserves_basis_orthogonalize (α := α)
        ⟨M, Vector.replicate n (Vector.replicate n 0), Vector.replicate n 0⟩
      cases hrun : orthogonalize (α := α)
        ⟨M, Vector.replicate n (Vector.replicate n 0), Vector.replicate n 0⟩ with
      | ok u L' =>
          rw [hrun] at h hbasis
          cases h
          exact hbasis
      | error e L' =>
          rw [hrun] at h
          cases h

theorem SomeLatticeBasis.lattice_ofRows {α : Type} [Scalar α] {rows : List (List Int)}
    {B : SomeLatticeBasis α} {n d : Nat} (h : SomeLatticeBasis.ofRows rows = .ok B)
    (hn : rows.length = n) (hd : ∀ row ∈ rows, row.length = d) :
    ∃ L : LatticeBasis α n d, B = ⟨L⟩ ∧ L.lattice = rowLattice d rows := by
  subst hn
  obtain ⟨M, hM, h⟩ := bind_eq_ok.mp h
  obtain ⟨N, rfl, hN⟩ := SomeIntMatrix.lattice_ofRows hM hd
  obtain ⟨L, hL, h⟩ := bind_eq_ok.mp h
  cases h
  refine ⟨L, rfl, ?_⟩
  rw [LatticeBasis.lattice, LatticeBasis.basis_ofMatrix hL, hN]

end EmbeddingAttack
