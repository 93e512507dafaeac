import EmbeddingAttack.Proofs.Lattice.FirstLength

/-!
# Entries of the cached Gram–Schmidt data

A basis and its cached data are determined by their entries.  Reading an entry beyond the tables
gives zero, so that the entries are functions on all pairs of indices.
-/

namespace EmbeddingAttack

variable {α : Type} [Scalar α] {n m : Nat}

namespace LatticeBasis

theorem coefficient_of_lt (L : LatticeBasis α n m) {i j : Nat} (hi : i < n) (hj : j < n) :
    L.coefficient i j = L.mu[i][j] := by
  rw [coefficient, dif_pos hi, dif_pos hj]

theorem coefficient_of_le (L : LatticeBasis α n m) {i j : Nat} (h : n ≤ i ∨ n ≤ j) :
    L.coefficient i j = 0 := by
  unfold coefficient
  split
  · split
    · omega
    · rfl
  · rfl

theorem getD_row (L : LatticeBasis α n m) {i j : Nat} (hi : i < n) (hj : j < n) :
    L.mu[i].getD j 0 = L.coefficient i j := by
  rw [coefficient_of_lt L hi hj]
  simp [Vector.getD, hj]

theorem length_of_lt (L : LatticeBasis α n m) {i : Nat} (hi : i < n) : L.length i = L.r[i] := by
  rw [length, dif_pos hi]

theorem ext_of_entries {L L' : LatticeBasis α n m} (hbasis : L.basis = L'.basis)
    (hcoefficient : ∀ i < n, ∀ j < n, L.coefficient i j = L'.coefficient i j)
    (hlength : ∀ i < n, L.length i = L'.length i) : L = L' := by
  refine LatticeBasis.ext hbasis ?_ ?_
  · ext i hi j hj
    have h := hcoefficient i hi j hj
    rwa [coefficient_of_lt _ hi hj, coefficient_of_lt _ hi hj] at h
  · ext i hi
    have h := hlength i hi
    rwa [length_of_lt _ hi, length_of_lt _ hi] at h

/-! ## After a change -/

@[simp] theorem coefficient_setBasis (L : LatticeBasis α n m) (f : IntMatrix n m → IntMatrix n m)
    (i j : Nat) : (L.setBasis f).coefficient i j = L.coefficient i j := rfl

@[simp] theorem length_setBasis (L : LatticeBasis α n m) (f : IntMatrix n m → IntMatrix n m)
    (i : Nat) : (L.setBasis f).length i = L.length i := rfl

@[simp] theorem coefficient_setLength (L : LatticeBasis α n m) (k : Nat) (x : α) (i j : Nat) :
    (L.setLength k x).coefficient i j = L.coefficient i j := rfl

omit [Scalar α] in
theorem mu_modifyCoefficients (L : LatticeBasis α n m) (k : Nat) (f : Vector α n → Vector α n)
    {i : Nat} (hi : i < n) :
    (L.modifyCoefficients k f).mu[i] = if k = i then f L.mu[i] else L.mu[i] := by
  simp only [modifyCoefficients, Vector.getElem_mk, Array.getElem_modify, Vector.getElem_toArray]

theorem coefficient_modifyCoefficients_of_ne (L : LatticeBasis α n m) {k i : Nat}
    (f : Vector α n → Vector α n) (j : Nat) (hi : k ≠ i) :
    (L.modifyCoefficients k f).coefficient i j = L.coefficient i j := by
  by_cases h : n ≤ i ∨ n ≤ j
  · rw [coefficient_of_le _ h, coefficient_of_le _ h]
  · rw [not_or, Nat.not_le, Nat.not_le] at h
    rw [coefficient_of_lt _ h.1 h.2, coefficient_of_lt _ h.1 h.2]
    simp only [mu_modifyCoefficients L k f h.1, if_neg hi]

/-- The change of a row entry by entry. -/
theorem coefficient_modifyCoefficients_mapIdx (L : LatticeBasis α n m) (f : Nat → α → α)
    {i j : Nat} (hi : i < n) (hj : j < n) :
    (L.modifyCoefficients i fun row => row.mapIdx f).coefficient i j =
      f j (L.coefficient i j) := by
  rw [coefficient_of_lt _ hi hj, coefficient_of_lt _ hi hj]
  simp [mu_modifyCoefficients L i _ hi]

theorem coefficient_modifyCoefficients_set (L : LatticeBasis α n m) (k : Nat) (x : α)
    {i j : Nat} (hi : i < n) (hj : j < n) :
    (L.modifyCoefficients i fun row => row.setIfInBounds k x).coefficient i j =
      if k = j then x else L.coefficient i j := by
  rw [coefficient_of_lt _ hi hj, coefficient_of_lt _ hi hj]
  simp [mu_modifyCoefficients L i _ hi, Vector.getElem_setIfInBounds]

theorem coefficient_mapRows (L : LatticeBasis α n m) (f : Nat → Vector α n → Vector α n)
    {i j : Nat} (hi : i < n) (hj : j < n) :
    ({ L with mu := L.mu.mapIdx f } : LatticeBasis α n m).coefficient i j = (f i L.mu[i])[j] := by
  rw [coefficient_of_lt _ hi hj]
  simp

end LatticeBasis

/-! ## After a step of a reduction -/

namespace LLL

open LatticeBasis

theorem reduceAlong_of_small {p : LLL α} {k j : Nat} {L : LatticeBasis α n m}
    (h : Scalar.abs (L.coefficient k j) ≤ p.eta) : reduceAlong p k j L = L :=
  if_pos h

theorem coefficient_reduceAlong_of_ne (p : LLL α) {k i : Nat} (j l : Nat) (L : LatticeBasis α n m)
    (hi : k ≠ i) : (reduceAlong p k j L).coefficient i l = L.coefficient i l := by
  unfold reduceAlong
  dsimp only
  split
  · rfl
  · exact coefficient_modifyCoefficients_of_ne _ _ _ hi

theorem coefficient_reduceAlong {p : LLL α} {k j l : Nat} {L : LatticeBasis α n m}
    (h : ¬ Scalar.abs (L.coefficient k j) ≤ p.eta) (hk : k < n) (hj : j < n) (hl : l < n) :
    (reduceAlong p k j L).coefficient k l =
      if l < j then L.coefficient k l - Scalar.round (L.coefficient k j) * L.coefficient j l
      else if l = j then L.coefficient k l - Scalar.round (L.coefficient k j)
      else L.coefficient k l := by
  unfold reduceAlong
  dsimp only
  rw [if_neg h, coefficient_modifyCoefficients_mapIdx _ _ hk hl, coefficient_setBasis, dif_pos hj,
    getD_row L hj hl]

theorem length_reduceAlong (p : LLL α) (k j i : Nat) (L : LatticeBasis α n m) :
    (reduceAlong p k j L).length i = L.length i := by
  unfold reduceAlong
  dsimp only
  split <;> rfl

theorem basis_reduceAlong {p : LLL α} {k j : Nat} {L : LatticeBasis α n m}
    (h : ¬ Scalar.abs (L.coefficient k j) ≤ p.eta) :
    (reduceAlong p k j L).basis =
      L.basis.subScaledRow (Scalar.integers α) k j
        (Scalar.toWord (Scalar.round (L.coefficient k j))) := by
  unfold reduceAlong
  dsimp only
  rw [if_neg h]
  rfl

/-- The coefficients of row `i` after the exchange of the rows `k - 1` and `k`.  A row after both
expresses its old coefficients along the two directions in the new ones. -/
theorem coefficient_exchangeData (L : LatticeBasis α n m) (square : α) {k i j : Nat} (hpos : 0 < k)
    (hk : k < n) (hi : i < n) (hj : j < n) :
    (exchangeData k square L).coefficient i j =
      let c := L.coefficient k (k - 1)
      let c' := c * L.length (k - 1) / square
      let u := L.coefficient i (k - 1) - c * L.coefficient i k
      if k < i then
        if j = k - 1 then L.coefficient i k + c' * u else if j = k then u else L.coefficient i j
      else if i = k then
        if j < k - 1 then L.coefficient (k - 1) j else if j = k - 1 then c' else L.coefficient k j
      else if i = k - 1 then
        if j < k - 1 then L.coefficient k j else L.coefficient (k - 1) j
      else L.coefficient i j := by
  have hk' : k - 1 < n := by omega
  unfold exchangeData
  extract_lets c below c' upper lower exchanged mu
  have hupper (l : Nat) (hl : l < n) : upper.getD l 0 = L.coefficient (k - 1) l := by
    rw [← getD_row L hk' hl]
    exact congrArg (Vector.getD · l 0) (dif_pos hk')
  have hlower (l : Nat) (hl : l < n) : lower.getD l 0 = L.coefficient k l := by
    rw [← getD_row L hk hl]
    exact congrArg (Vector.getD · l 0) (dif_pos hk)
  have hlast (l : Nat) (hl : l < n) : exchanged.coefficient k l =
      if l < k - 1 then L.coefficient (k - 1) l else if l = k - 1 then c'
      else L.coefficient k l := by
    rw [coefficient_modifyCoefficients_mapIdx _ _ hk hl, hupper l hl,
      coefficient_modifyCoefficients_of_ne L _ l (by omega)]
  have hfirst (l : Nat) (hl : l < n) : exchanged.coefficient (k - 1) l =
      if l < k - 1 then L.coefficient k l else L.coefficient (k - 1) l := by
    rw [coefficient_modifyCoefficients_of_ne _ _ l (by omega),
      coefficient_modifyCoefficients_mapIdx _ _ hk' hl, hlower l hl]
  have hother (i l : Nat) (h : k ≠ i) (h' : k - 1 ≠ i) :
      exchanged.coefficient i l = L.coefficient i l := by
    rw [coefficient_modifyCoefficients_of_ne _ _ l h, coefficient_modifyCoefficients_of_ne _ _ l h']
  rw [coefficient_setLength, coefficient_setLength, coefficient_mapRows exchanged _ hi hj]
  dsimp only
  by_cases hki : k < i
  · rw [if_pos hki, if_pos hki, getD_row exchanged hi hk, getD_row exchanged hi hk',
      hother i k (by omega) (by omega), hother i (k - 1) (by omega) (by omega),
      Vector.getElem_setIfInBounds, Vector.getElem_setIfInBounds,
      ← coefficient_of_lt exchanged hi hj, hother i j (by omega) (by omega)]
    simp only [@eq_comm Nat (k - 1) j, @eq_comm Nat k j]
    rfl
  · rw [if_neg hki, if_neg hki, ← coefficient_of_lt exchanged hi hj]
    split
    · rename_i hik
      subst hik
      exact hlast j hj
    · split
      · rename_i hik
        subst hik
        exact hfirst j hj
      · exact hother i j (by omega) (by omega)

theorem length_exchangeData (L : LatticeBasis α n m) (square : α) {k i : Nat} (hi : i < n) :
    (exchangeData k square L).length i =
      if i = k - 1 then square
      else if i = k then L.length (k - 1) * L.length k / square
      else L.length i := by
  unfold exchangeData
  dsimp only
  rw [length_setLength _ _ _ _ hi, length_setLength _ _ _ _ hi]
  simp only [eq_comm]
  rfl

end LLL

end EmbeddingAttack
