import EmbeddingAttack.Proofs.Lattice.CachedData
import EmbeddingAttack.Proofs.Lattice.Preservation

/-!
# Orthogonalisation depends on the rows only

Orthogonalisation writes every entry of the cached data on and below the diagonal before it reads
it.  So where it succeeds, its result is determined by the rows and by the entries above the
diagonal, which it leaves alone; and done once more, it changes nothing.
-/

namespace EmbeddingAttack

variable {α : Type} [Scalar α] {n m : Nat}

namespace LatticeBasis

/-- Recomputing the cached data succeeds and changes nothing. -/
def IsCurrent (L : LatticeBasis α n m) : Prop :=
  orthogonalize L = .ok () L

/-- The cached coefficients of row `i` along the rows before it. -/
def cachedRow (L : LatticeBasis α n m) (i : Nat) : Array α :=
  Array.ofFn fun j : Fin i => L.coefficient i j

/-- The cached data of row `i` are those computed from its entries and the data of the rows before
it. -/
structure RowComputed (L : LatticeBasis α n m) (i : Nat) : Prop where
  coefficient : ∀ j < i, L.coefficient i j = residue L i j (L.cachedRow i) / L.length j
  diagonal : L.coefficient i i = 1
  length : L.length i = residualSquare L i (L.cachedRow i)

/-- The cached data of row `i` are those computed, and its length passes the check. -/
structure RowCurrent (L : LatticeBasis α n m) (i : Nat) : Prop extends RowComputed L i where
  positive : 0 < L.length i
  finite : Scalar.isFinite (L.length i) = true

/-- Two bases with the same rows whose cached data agree in the rows before `k`. -/
structure AgreeBefore (k : Nat) (L L' : LatticeBasis α n m) : Prop where
  basis : L.basis = L'.basis
  coefficient : ∀ i < k, ∀ j ≤ i, L.coefficient i j = L'.coefficient i j
  length : ∀ i < k, L.length i = L'.length i

theorem AgreeBefore.refl (k : Nat) (L : LatticeBasis α n m) : AgreeBefore k L L :=
  ⟨rfl, fun _ _ _ _ => rfl, fun _ _ => rfl⟩

/-! ## What one row reads -/

theorem residue_congr {L L' : LatticeBasis α n m} {i j : Nat} {row row' : Array α}
    (h : AgreeBefore (j + 1) L L') (hrow : ∀ k < j, row.getD k 0 = row'.getD k 0) :
    residue L i j row = residue L' i j row' := by
  unfold residue
  rw [h.basis]
  congr 1
  funext k hk s
  rw [h.coefficient j (Nat.lt_succ_self j) k hk.le, h.length k (by omega), hrow k hk]

theorem residualSquare_congr {L L' : LatticeBasis α n m} {i : Nat} {row row' : Array α}
    (h : AgreeBefore i L L') (hrow : ∀ k < i, row.getD k 0 = row'.getD k 0) :
    residualSquare L i row = residualSquare L' i row' := by
  unfold residualSquare
  rw [h.basis]
  congr 1
  funext k hk s
  rw [h.length k hk, hrow k hk]

theorem AgreeBefore.mono {L L' : LatticeBasis α n m} {j k : Nat} (h : AgreeBefore k L L')
    (hjk : j ≤ k) : AgreeBefore j L L' where
  basis := h.basis
  coefficient i hi := h.coefficient i (by omega)
  length i hi := h.length i (by omega)

theorem size_projections (L : LatticeBasis α n m) (i j : Nat) : (projections L i j).size = j := by
  induction j with
  | zero => rfl
  | succ j ih => rw [projections, Array.size_push, ih]

theorem getD_projections (L : LatticeBasis α n m) (i : Nat) {j k : Nat} (hk : k < j) :
    (projections L i j).getD k 0 = residue L i k (projections L i k) / L.length k := by
  induction j with
  | zero => omega
  | succ j ih =>
      have hsize := size_projections L i j
      rw [projections, Array.getD_eq_getD_getElem?, Array.getElem?_push, hsize]
      by_cases hkj : k = j
      · rw [if_pos hkj, hkj]
        rfl
      · rw [if_neg hkj, ← Array.getD_eq_getD_getElem?]
        exact ih (by omega)

theorem projections_congr {L L' : LatticeBasis α n m} {k : Nat} (h : AgreeBefore k L L') (i : Nat)
    {j : Nat} (hj : j ≤ k) : projections L i j = projections L' i j := by
  induction j with
  | zero => rfl
  | succ j ih =>
      rw [projections, projections, ih (by omega), h.length j (by omega),
        residue_congr (h.mono hj) fun _ _ => rfl]

/-- A basis with the data of row `i` computed from those of the rows before it. -/
def recomputeRow (L : LatticeBasis α n m) (i : Nat) : LatticeBasis α n m :=
  let row := projections L i i
  ((L.modifyCoefficients i fun old => old.mapIdx fun j x => if j < i then row.getD j x else x)
    |>.setLength i (residualSquare L i row)).modifyCoefficients i (·.setIfInBounds i 1)

theorem orthogonalizeRow_eq (i : Nat) (L : LatticeBasis α n m) :
    orthogonalizeRow i L =
      if ¬ 0 < residualSquare L i (projections L i i) ∨
          Scalar.isFinite (residualSquare L i (projections L i i)) = false then
        .error (.numerical (.orthogonalLength i (residualSquare L i (projections L i i))))
          (L.modifyCoefficients i fun old =>
            old.mapIdx fun j x => if j < i then (projections L i i).getD j x else x)
      else .ok () (L.recomputeRow i) := by
  unfold orthogonalizeRow
  split
  · rename_i h
    change (if _ then _ else _ : Reduction α n m Unit) _ = _
    rw [if_pos h]
    rfl
  · rename_i h
    change (if _ then _ else _ : Reduction α n m Unit) _ = _
    rw [if_neg h]
    rfl

theorem coefficient_recomputeRow (L : LatticeBasis α n m) {i j : Nat} (hi : i < n) (hj : j < n) :
    (L.recomputeRow i).coefficient i j =
      if j < i then (projections L i i).getD j 0 else if j = i then 1 else L.coefficient i j := by
  have hsize := size_projections L i i
  unfold recomputeRow
  rw [coefficient_modifyCoefficients_set _ _ _ hi hj, coefficient_setLength,
    coefficient_modifyCoefficients_mapIdx _ _ hi hj]
  rcases Nat.lt_trichotomy j i with hlt | heq | hgt
  · rw [if_neg (by omega), if_pos hlt, if_pos hlt]
    simp [hsize, hlt]
  · rw [if_pos heq.symm, if_neg (by omega), if_pos heq]
  · rw [if_neg (by omega), if_neg (by omega), if_neg (by omega), if_neg (by omega)]

theorem coefficient_recomputeRow_of_ne (L : LatticeBasis α n m) {i k : Nat} (j : Nat)
    (hk : i ≠ k) : (L.recomputeRow i).coefficient k j = L.coefficient k j := by
  unfold recomputeRow
  rw [coefficient_modifyCoefficients_of_ne _ _ _ hk, coefficient_setLength,
    coefficient_modifyCoefficients_of_ne _ _ _ hk]

theorem length_recomputeRow (L : LatticeBasis α n m) (i : Nat) {k : Nat} (hk : k < n) :
    (L.recomputeRow i).length k =
      if i = k then residualSquare L i (projections L i i) else L.length k := by
  unfold recomputeRow
  rw [length_modifyCoefficients, length_setLength _ _ _ _ hk, length_modifyCoefficients]

/-! ## One row -/

theorem getD_cachedRow (L : LatticeBasis α n m) {i j : Nat} (hj : j < i) :
    (L.cachedRow i).getD j 0 = L.coefficient i j := by
  simp [cachedRow, hj]

theorem RowCurrent.congr {L L' : LatticeBasis α n m} {i : Nat} (h : L.RowCurrent i)
    (hagree : AgreeBefore (i + 1) L L') : L'.RowCurrent i := by
  have hrow : ∀ k < i, (L.cachedRow i).getD k 0 = (L'.cachedRow i).getD k 0 := by
    intro k hk
    rw [getD_cachedRow L hk, getD_cachedRow L' hk]
    exact hagree.coefficient i (Nat.lt_succ_self i) k hk.le
  have hlength : L.length i = L'.length i := hagree.length i (Nat.lt_succ_self i)
  exact {
    coefficient := by
      intro j hj
      rw [← hagree.coefficient i (Nat.lt_succ_self i) j hj.le, h.coefficient j hj,
        residue_congr (hagree.mono (by omega)) fun k hk => hrow k (by omega),
        hagree.length j (by omega)]
    diagonal := by
      rw [← hagree.coefficient i (Nat.lt_succ_self i) i le_rfl, h.diagonal]
    length := by
      rw [← hlength, h.length, residualSquare_congr (hagree.mono (Nat.le_succ i)) hrow]
    positive := hlength ▸ h.positive
    finite := hlength ▸ h.finite }

theorem RowCurrent.getD_projections {L : LatticeBasis α n m} {i : Nat} (h : L.RowCurrent i)
    {j k : Nat} (hkj : k < j) (hki : k < i) :
    (projections L i j).getD k 0 = L.coefficient i k := by
  induction k using Nat.strong_induction_on generalizing j with
  | _ k ih =>
      have hrow : ∀ l < k, (projections L i k).getD l 0 = (L.cachedRow i).getD l 0 := by
        intro l hl
        rw [getD_cachedRow L (by omega)]
        exact ih l hl hl (by omega)
      rw [LatticeBasis.getD_projections L i hkj, h.coefficient k hki,
        residue_congr (.refl _ L) hrow]

theorem exists_orthogonalizeRow {L L' : LatticeBasis α n m} {i : Nat} (hi : i < n)
    (h : L'.RowCurrent i) (hagree : AgreeBefore i L L') :
    ∃ M, orthogonalizeRow i L = .ok () M ∧ AgreeBefore (i + 1) M L' := by
  have hrow : ∀ k < i, (projections L i i).getD k 0 = L'.coefficient i k := by
    intro k hk
    rw [projections_congr hagree i le_rfl, h.getD_projections hk hk]
  have hsquare : residualSquare L i (projections L i i) = L'.length i := by
    rw [h.length]
    refine residualSquare_congr hagree fun k hk => ?_
    rw [hrow k hk, getD_cachedRow L' hk]
  rw [orthogonalizeRow_eq, hsquare, if_neg (by simp [h.positive, h.finite])]
  refine ⟨_, rfl, ?_⟩
  exact {
    basis := hagree.basis
    coefficient := by
      intro k hk j hj
      by_cases hki : k = i
      · subst hki
        rw [coefficient_recomputeRow L hi (by omega)]
        rcases Nat.lt_or_eq_of_le hj with hlt | rfl
        · rw [if_pos hlt, hrow j hlt]
        · rw [if_neg (lt_irrefl _), if_pos rfl, h.diagonal]
      · rw [coefficient_recomputeRow_of_ne L j (Ne.symm hki)]
        exact hagree.coefficient k (by omega) j hj
    length := by
      intro k hk
      rw [length_recomputeRow L i (by omega)]
      split
      · rename_i hik
        rw [← hik, hsquare]
      · exact hagree.length k (by omega) }

theorem agreeBefore_recomputeRow (L : LatticeBasis α n m) {i : Nat} (hi : i < n) :
    AgreeBefore i L (L.recomputeRow i) where
  basis := rfl
  coefficient k hk j _ := by rw [coefficient_recomputeRow_of_ne L j hk.ne']
  length k hk := by rw [length_recomputeRow L i (by omega), if_neg hk.ne']

theorem rowComputed_recomputeRow (L : LatticeBasis α n m) {i : Nat} (hi : i < n) :
    (L.recomputeRow i).RowComputed i := by
  have hbefore := agreeBefore_recomputeRow L hi
  have hrow : ∀ k < i, (L.recomputeRow i).coefficient i k = (projections L i i).getD k 0 := by
    intro k hk
    rw [coefficient_recomputeRow L hi (by omega), if_pos hk]
  have hcached : ∀ k < i,
      (projections L i i).getD k 0 = ((L.recomputeRow i).cachedRow i).getD k 0 := by
    intro k hk
    rw [getD_cachedRow _ hk, hrow k hk]
  exact {
    coefficient := by
      intro j hj
      have hprefix : ∀ k < j,
          (projections L i j).getD k 0 = ((L.recomputeRow i).cachedRow i).getD k 0 := by
        intro k hk
        rw [← hcached k (by omega), getD_projections L i hk, getD_projections L i (by omega)]
      rw [hrow j hj, getD_projections L i hj, hbefore.length j hj,
        residue_congr (hbefore.mono hj) hprefix]
    diagonal := by
      rw [coefficient_recomputeRow L hi hi, if_neg (lt_irrefl _), if_pos rfl]
    length := by
      rw [length_recomputeRow L i hi, if_pos rfl, residualSquare_congr hbefore hcached] }

theorem rowCurrent_of_orthogonalizeRow {L L' : LatticeBasis α n m} {i : Nat} (hi : i < n)
    (h : orthogonalizeRow i L = .ok () L') : AgreeBefore i L L' ∧ L'.RowCurrent i := by
  rw [orthogonalizeRow_eq] at h
  split at h
  · cases h
  rename_i hgood
  rw [not_or, not_not, Bool.not_eq_false] at hgood
  cases h
  have hlength : (L.recomputeRow i).length i = residualSquare L i (projections L i i) := by
    rw [length_recomputeRow L i hi, if_pos rfl]
  refine ⟨agreeBefore_recomputeRow L hi, rowComputed_recomputeRow L hi, ?_, ?_⟩
  · exact hlength ▸ hgood.1
  · exact hlength ▸ hgood.2

/-! ## All rows -/

theorem exists_orthogonalizeRows {L L' : LatticeBasis α n m} {k : Nat} (hk : k ≤ n)
    (hbasis : L.basis = L'.basis) (h : ∀ i < k, L'.RowCurrent i) :
    ∃ M, orthogonalizeRows k L = .ok () M ∧ AgreeBefore k M L' := by
  induction k with
  | zero => exact ⟨L, rfl, hbasis, nofun, nofun⟩
  | succ k ih =>
      obtain ⟨M, hM, hagree⟩ := ih (by omega) fun i hi => h i (by omega)
      obtain ⟨N, hN, hagree'⟩ :=
        exists_orthogonalizeRow (by omega) (h k (Nat.lt_succ_self k)) hagree
      exact ⟨N, (bind_of_ok hM).trans hN, hagree'⟩

theorem rowCurrent_of_orthogonalizeRows {L L' : LatticeBasis α n m} {k : Nat} (hk : k ≤ n)
    (h : orthogonalizeRows k L = .ok () L') : ∀ i < k, L'.RowCurrent i := by
  induction k generalizing L' with
  | zero => nofun
  | succ k ih =>
      obtain ⟨u, M, hrun, hM⟩ := exists_of_bind_ok h
      obtain ⟨hagree, hrow⟩ := rowCurrent_of_orthogonalizeRow (by omega) hM
      intro i hi
      by_cases hik : i = k
      · exact hik ▸ hrow
      · exact (ih (by omega) hrun i (by omega)).congr (hagree.mono (by omega))

/-- Orthogonalisation fails in its arithmetic only. -/
theorem throws_orthogonalizeRows (k : Nat) :
    Throws (fun _ => True) (orthogonalizeRows k : Reduction α n m Unit)
      fun e _ => ∃ fault, e = .numerical fault := by
  induction k with
  | zero => exact Throws.pure _
  | succ k ih =>
      unfold orthogonalizeRows
      refine ih.bind_of_forall fun _ => ?_
      intro L e L' _ h
      rw [orthogonalizeRow_eq] at h
      split at h
      · cases h
        exact ⟨_, rfl⟩
      · cases h

theorem throws_orthogonalize :
    Throws (fun _ => True) (orthogonalize : Reduction α n m Unit)
      fun e _ => ∃ fault, e = .numerical fault :=
  throws_orthogonalizeRows n

/-! ## Above the diagonal -/

/-- The entries above the diagonal, which stand for nothing. -/
def above (L : LatticeBasis α n m) (i j : Nat) : α :=
  if i < j then L.coefficient i j else 0

theorem above_eq_iff {L L' : LatticeBasis α n m} :
    L.above = L'.above ↔ ∀ i j, i < j → L.coefficient i j = L'.coefficient i j := by
  constructor
  · intro h i j hij
    have hentry := congrFun (congrFun h i) j
    unfold above at hentry
    rwa [if_pos hij, if_pos hij] at hentry
  · intro h
    funext i j
    unfold above
    split
    · exact h i j ‹_›
    · rfl

theorem above_modifyCoefficients (L : LatticeBasis α n m) (k : Nat) (f : Vector α n → Vector α n)
    (hf : ∀ (row : Vector α n) (j : Nat) (hj : j < n), k < j → (f row)[j] = row[j]) :
    (L.modifyCoefficients k f).above = L.above := by
  rw [above_eq_iff]
  intro i j hij
  by_cases hrange : n ≤ i ∨ n ≤ j
  · rw [coefficient_of_le _ hrange, coefficient_of_le _ hrange]
  · by_cases hki : k = i
    · subst hki
      rw [coefficient_of_lt _ (by omega) (by omega), coefficient_of_lt _ (by omega) (by omega)]
      simp only [mu_modifyCoefficients L k f (show k < n by omega), if_pos]
      exact hf _ j _ hij
    · exact coefficient_modifyCoefficients_of_ne L f j hki

theorem conserves_above_orthogonalizeRow (i : Nat) :
    Conserves above (orthogonalizeRow i : Reduction α n m Unit) := by
  have hcoefficients (L : LatticeBasis α n m) (row : Array α) :
      (L.modifyCoefficients i fun old =>
        old.mapIdx fun j x => if j < i then row.getD j x else x).above = L.above := by
    refine above_modifyCoefficients L i _ fun old j hj hij => ?_
    rw [Vector.getElem_mapIdx, if_neg (by omega)]
  unfold orthogonalizeRow
  refine Conserves.get.bind fun L => ?_
  refine Conserves.bind (Conserves.modify fun M => hcoefficients M _) fun _ => ?_
  refine Conserves.guard fun _ => Conserves.modify fun M => ?_
  exact above_modifyCoefficients (M.setLength i _) i _ fun old j hj hij => by
    rw [Vector.getElem_setIfInBounds, if_neg (by omega)]

theorem conserves_above_orthogonalize :
    Conserves above (orthogonalize : Reduction α n m Unit) := by
  have hrows (k : Nat) : Conserves above (orthogonalizeRows k : Reduction α n m Unit) := by
    induction k with
    | zero => exact Conserves.pure _
    | succ k ih => exact ih.bind fun _ => conserves_above_orthogonalizeRow k
  exact hrows n

/-! ## The result -/

theorem eq_of_agreeBefore {L L' : LatticeBasis α n m} (h : AgreeBefore n L L')
    (habove : L.above = L'.above) : L = L' := by
  refine ext_of_entries h.basis (fun i hi j _ => ?_) h.length
  by_cases hij : i < j
  · exact above_eq_iff.mp habove i j hij
  · exact h.coefficient i hi j (by omega)

/-- Orthogonalisation succeeds with a given basis exactly where that basis has the same rows and the
same entries above the diagonal and is current. -/
theorem orthogonalize_eq_ok_iff {L L' : LatticeBasis α n m} :
    orthogonalize L = .ok () L' ↔
      L.basis = L'.basis ∧ L.above = L'.above ∧ ∀ i < n, L'.RowCurrent i := by
  constructor
  · intro h
    have hbasis := conserves_basis_orthogonalize L
    have habove := conserves_above_orthogonalize L
    rw [h] at hbasis habove
    exact ⟨hbasis.symm, habove.symm, rowCurrent_of_orthogonalizeRows le_rfl h⟩
  · rintro ⟨hbasis, habove, h⟩
    obtain ⟨M, hM, hagree⟩ := exists_orthogonalizeRows le_rfl hbasis h
    have habove' := conserves_above_orthogonalize L
    change orthogonalize L = .ok () M at hM
    rw [hM] at habove'
    rw [hM, eq_of_agreeBefore hagree (Eq.trans habove' habove)]

theorem isCurrent_iff {L : LatticeBasis α n m} : L.IsCurrent ↔ ∀ i < n, L.RowCurrent i := by
  unfold IsCurrent
  rw [orthogonalize_eq_ok_iff]
  exact ⟨fun h => h.2.2, fun h => ⟨rfl, rfl, h⟩⟩

theorem orthogonalize_eq_ok_iff_isCurrent {L L' : LatticeBasis α n m} :
    orthogonalize L = .ok () L' ↔ L.basis = L'.basis ∧ L.above = L'.above ∧ L'.IsCurrent := by
  rw [orthogonalize_eq_ok_iff, isCurrent_iff]

theorem ensures_isCurrent_orthogonalize :
    Ensures (fun _ : LatticeBasis α n m => True) orthogonalize fun _ L => L.IsCurrent :=
  fun _ _ _ _ h => (orthogonalize_eq_ok_iff_isCurrent.mp h).2.2

theorem above_replicate (M : IntMatrix n m) (r : Vector α n) :
    (LatticeBasis.mk M (Vector.replicate n (Vector.replicate n 0)) r).above = 0 := by
  funext i j
  simp [above, coefficient]

/-- The bases built from their rows are those that are current and have zeros above the
diagonal. -/
theorem ofMatrix_eq_ok_iff {M : IntMatrix n m} {L : LatticeBasis α n m} :
    ofMatrix M = .ok L ↔ (n ≠ 0 ∧ m ≠ 0 ∧ n ≤ m) ∧ L.basis = M ∧ L.above = 0 ∧ L.IsCurrent := by
  unfold ofMatrix
  split
  · rename_i h
    exact ⟨nofun, fun h' => absurd h (by tauto)⟩
  split
  · rename_i h
    exact ⟨nofun, fun h' => absurd h'.1.2.2 (by omega)⟩
  rename_i hne hle
  rw [not_or] at hne
  have hblank := above_replicate M (Vector.replicate n (0 : α))
  dsimp only
  constructor
  · intro h
    split at h
    · rename_i u L' hrun
      cases h
      obtain ⟨hbasis, habove, hcurrent⟩ := orthogonalize_eq_ok_iff_isCurrent.mp hrun
      exact ⟨⟨hne.1, hne.2, by omega⟩, hbasis.symm, habove.symm.trans hblank, hcurrent⟩
    · cases h
  · rintro ⟨-, rfl, habove, hcurrent⟩
    have hrun : orthogonalize (LatticeBasis.mk L.basis
        (Vector.replicate n (Vector.replicate n 0)) (Vector.replicate n 0)) = .ok () L :=
      orthogonalize_eq_ok_iff_isCurrent.mpr ⟨rfl, hblank.trans habove.symm, hcurrent⟩
    rw [hrun]
    rfl

/-! ## Integers -/

omit [Scalar α] in
theorem projections_unbounded (S : Scalar α) (L : LatticeBasis α n m) (i j : Nat) :
    @projections α S.unbounded n m L i j = @projections α S n m L i j := by
  induction j with
  | zero => rfl
  | succ j ih =>
      unfold projections
      rw [ih]
      rfl

omit [Scalar α] in
/-- No integer is computed for the cached data. -/
theorem orthogonalize_unbounded (S : Scalar α) :
    (@orthogonalize α S.unbounded n m : Reduction α n m Unit) = @orthogonalize α S n m := by
  have hrow (i : Nat) : @orthogonalizeRow α S.unbounded n m i = @orthogonalizeRow α S n m i := by
    unfold orthogonalizeRow
    simp only [projections_unbounded]
    rfl
  have hrows (k : Nat) : @orthogonalizeRows α S.unbounded n m k = @orthogonalizeRows α S n m k := by
    induction k with
    | zero => rfl
    | succ k ih =>
        unfold orthogonalizeRows
        rw [ih, hrow]
  exact hrows n

end LatticeBasis

end EmbeddingAttack
