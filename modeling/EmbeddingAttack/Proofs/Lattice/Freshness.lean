import EmbeddingAttack.Proofs.Arithmetic.Fraction
import EmbeddingAttack.Proofs.Lattice.Recomputation
import EmbeddingAttack.Proofs.Lattice.Tours

/-!
# Cached data never go stale

Reductions update the cached data in place, with whatever rounding the numeric operations have.  But
no step touches an entry above the diagonal, and each operation that succeeds ends with an
orthogonalisation or changes nothing at all.  So a basis always carries exactly the data that it
would have if it were built from its rows again.
-/

namespace EmbeddingAttack

variable {α : Type} [Scalar α] {n m : Nat}

namespace LLL

open LatticeBasis

/-! ## Above the diagonal -/

theorem above_reduceAlong (p : LLL α) {k j : Nat} (hj : j < k) (L : LatticeBasis α n m) :
    (reduceAlong p k j L).above = L.above := by
  unfold reduceAlong
  dsimp only
  split
  · rfl
  · refine above_modifyCoefficients (L.setBasis _) k _ fun row i hi hki => ?_
    rw [Vector.getElem_mapIdx, if_neg (by omega), if_neg (by omega)]

theorem above_sizeReduceBelow (p : LLL α) {k j : Nat} (hj : j ≤ k) (L : LatticeBasis α n m) :
    (sizeReduceBelow p k j L).above = L.above := by
  induction j generalizing L with
  | zero => rfl
  | succ j ih => rw [sizeReduceBelow, ih (by omega), above_reduceAlong p hj]

theorem above_exchangeData (k : Nat) (square : α) (L : LatticeBasis α n m) :
    (exchangeData k square L).above = L.above := by
  unfold exchangeData
  extract_lets c below c' upper lower exchanged mu
  have hexchanged : exchanged.above = L.above := by
    dsimp only [exchanged]
    rw [above_modifyCoefficients _ k, above_modifyCoefficients _ (k - 1)]
    · intro row j hj hkj
      rw [Vector.getElem_mapIdx, if_neg (by omega)]
    · intro row j hj hkj
      rw [Vector.getElem_mapIdx, if_neg (by omega), if_neg (by omega)]
  rw [← hexchanged, above_eq_iff]
  intro i j hij
  simp only [coefficient_setLength]
  by_cases hrange : n ≤ i ∨ n ≤ j
  · rw [coefficient_of_le _ hrange, coefficient_of_le _ hrange]
  · rw [coefficient_mapRows exchanged _ (by omega) (by omega),
      coefficient_of_lt exchanged (by omega) (by omega)]
    split
    · dsimp only
      rw [Vector.getElem_setIfInBounds, if_neg (by omega), Vector.getElem_setIfInBounds,
        if_neg (by omega)]
    · rfl

theorem conserves_above_exchange (k : Nat) :
    Conserves above (exchange k : Reduction α n m Unit) := by
  unfold exchange
  refine Conserves.bind (Conserves.modify fun _ => rfl) fun _ => ?_
  refine Conserves.get.bind fun L => ?_
  exact Conserves.guard fun _ => Conserves.modify (above_exchangeData k _)

theorem conserves_above_run (p : LLL α) (start stop budget k : Nat) (stats : Statistics) :
    Conserves above (run p start stop budget k stats : Reduction α n m Statistics) := by
  induction budget generalizing k stats with
  | zero =>
      unfold run
      split
      · exact Conserves.throw _
      · exact Conserves.pure _
  | succ budget ih =>
      unfold run
      split
      · refine Conserves.bind (Conserves.modify (above_sizeReduceBelow p le_rfl)) fun _ => ?_
        refine Conserves.get.bind fun L => ?_
        split
        · exact ih _ _
        · exact (conserves_above_exchange k).bind fun _ => ih _ _
      · exact Conserves.pure _

theorem conserves_above_reduceRange (p : LLL α) (start stop : Nat) :
    Conserves above (reduceRange p start stop : Reduction α n m Statistics) := by
  unfold reduceRange
  refine (Conserves.ofExcept _).bind fun _ => ?_
  refine Conserves.guard fun _ => ?_
  refine conserves_above_orthogonalize.bind fun _ => ?_
  extract_lets rest
  have hrest (u : Unit) : Conserves above (rest u) :=
    (conserves_above_run p start stop _ _ _).bind fun stats =>
      conserves_above_orthogonalize.bind fun _ => Conserves.pure stats
  split
  · exact Conserves.bind (Conserves.modify (above_sizeReduceBelow p le_rfl)) hrest
  · exact hrest ⟨⟩

/-! ## After an operation -/

theorem ensures_isCurrent_reduceRange (p : LLL α) (start stop : Nat) :
    Ensures (fun _ : LatticeBasis α n m => True) (p.reduceRange start stop)
      fun _ L => L.IsCurrent := by
  unfold reduceRange
  refine Ensures.bind (Ensures.trivial _) fun _ => ?_
  refine Ensures.guard fun _ => ?_
  refine Ensures.bind (Ensures.trivial _) fun _ => ?_
  extract_lets rest
  have hrest (u : Unit) : Ensures (fun _ => True) (rest u) fun _ L => L.IsCurrent := by
    refine Ensures.bind (Ensures.trivial _) fun stats => ?_
    refine Ensures.bind ensures_isCurrent_orthogonalize fun _ => ?_
    exact Ensures.pure fun _ hs => hs
  split
  · exact Ensures.bind (Ensures.trivial _) hrest
  · exact hrest ⟨⟩

end LLL

namespace LatticeBasis

theorem ensures_isCurrent_insertCombination (start : Nat) (coefficients : List Int) :
    Ensures (fun _ : LatticeBasis α n m => True) (insertCombination start coefficients)
      fun _ L => L.IsCurrent := by
  unfold insertCombination
  refine Ensures.guard fun _ => ?_
  refine Ensures.guard fun _ => ?_
  refine Ensures.guard fun _ => ?_
  refine Ensures.bind (Ensures.trivial _) fun _ => ?_
  exact ensures_isCurrent_orthogonalize

theorem conserves_above_insertCombination (start : Nat) (coefficients : List Int) :
    Conserves above (insertCombination start coefficients : Reduction α n m Unit) := by
  unfold insertCombination
  refine Conserves.guard fun _ => ?_
  refine Conserves.guard fun _ => ?_
  refine Conserves.guard fun _ => ?_
  exact Conserves.bind (Conserves.modify fun _ => rfl) fun _ => conserves_above_orthogonalize

/-- The basis is the one that would be built from its rows. -/
def IsFresh (L : LatticeBasis α n m) : Prop :=
  ofMatrix L.basis = .ok L

theorem isFresh_of_ofMatrix {M : IntMatrix n m} {L : LatticeBasis α n m}
    (h : ofMatrix M = .ok L) : L.IsFresh := by
  have hbasis := (ofMatrix_eq_ok_iff.mp h).2.1
  rwa [IsFresh, hbasis]

/-- What changes neither the dimensions nor the entries above the diagonal and ends current keeps a
basis fresh. -/
theorem ensures_isFresh {τ : Type} {x : Reduction α n m τ} (habove : Conserves above x)
    (hcurrent : Ensures (fun _ => True) x fun _ L => L.IsCurrent) :
    Ensures IsFresh x fun _ => IsFresh := by
  intro L a L' hL hx
  obtain ⟨hshape, -, hzero, -⟩ := ofMatrix_eq_ok_iff.mp hL
  have habove' := habove L
  rw [hx] at habove'
  exact ofMatrix_eq_ok_iff.mpr ⟨hshape, rfl, Eq.trans habove' hzero, hcurrent L a L' trivial hx⟩

theorem keptByReduction_isFresh : KeptByReduction (IsFresh (α := α) (n := n) (m := m)) where
  insertCombination start coefficients :=
    ensures_isFresh (conserves_above_insertCombination start coefficients)
      (ensures_isCurrent_insertCombination start coefficients)
  reduceRange p start stop :=
    ensures_isFresh (p.conserves_above_reduceRange start stop)
      (p.ensures_isCurrent_reduceRange start stop)

theorem IsFresh.firstFresh {L : LatticeBasis α n m} (h : L.IsFresh) : L.FirstFresh := by
  obtain ⟨⟨hn, -, -⟩, -, -, hcurrent⟩ := ofMatrix_eq_ok_iff.mp h
  exact ensures_orthogonalize (Nat.pos_of_ne_zero hn) L () L trivial hcurrent

end LatticeBasis

namespace BasisOperation

/-- The operations one after the other, as long as each of them succeeds. -/
def performAll : List (BasisOperation α) → Work α Statistics (SomeLatticeBasis α) Unit
  | [] => pure ()
  | operation :: rest => do
    operation.perform
    performAll rest

open LatticeBasis

/-- The basis is a fresh one with the given numbers of rows and columns. -/
def Fresh (n m : Nat) (B : SomeLatticeBasis α) : Prop :=
  ∃ L : LatticeBasis α n m, B = ⟨L⟩ ∧ L.IsFresh

theorem ensures_fresh_perform (n m : Nat) (operation : BasisOperation α) :
    Ensures (fun s => Fresh n m s.2) operation.perform fun _ s => Fresh n m s.2 := by
  have hkept : KeptByReduction (IsFresh (α := α) (n := n) (m := m)) := keptByReduction_isFresh
  by_cases hreduction : operation.IsReduction
  · exact ensures_perform hkept.keptBySearch
      (ensures_isFresh conserves_above_orthogonalize ensures_isCurrent_orthogonalize) hreduction
  · cases operation with
    | insertCombination start coefficients =>
        unfold BasisOperation.perform
        apply ReferenceEngine.keeps_onBasis
        exact hkept.insertCombination start coefficients
    | _ => exact absurd trivial hreduction

theorem ensures_fresh_performAll (n m : Nat) (operations : List (BasisOperation α)) :
    Ensures (fun s => Fresh n m s.2) (performAll operations) fun _ s => Fresh n m s.2 := by
  induction operations with
  | nil => exact Ensures.pure fun _ hs => hs
  | cons operation rest ih => exact (ensures_fresh_perform n m operation).bind fun _ => ih

/-- Whatever the numeric operations answer: a basis that was built from its rows and went through
operations that all succeeded is in every entry the basis that would be built from its present rows,
and the squared length that an engine reports for its first row is the one computed from that
row. -/
theorem performAll_stays_fresh (p : BlockReduction α) (M : IntMatrix n m) (L : LatticeBasis α n m)
    (operations : List (BasisOperation α)) (totals totals' : Statistics) (B : SomeLatticeBasis α)
    (hL : LatticeBasis.ofMatrix M = .ok L)
    (h : performAll operations (totals, ⟨L⟩) = .ok () (totals', B)) :
    ∃ L' : LatticeBasis α n m, B = ⟨L'⟩ ∧ LatticeBasis.ofMatrix L'.basis = .ok L' ∧
      (ReferenceEngine.engine p).firstLength B = .ok (L'.basis.rowNormSquared 0) := by
  obtain ⟨L', rfl, hfresh⟩ :=
    ensures_fresh_performAll n m operations (totals, ⟨L⟩) () (totals', B)
      ⟨L, rfl, isFresh_of_ofMatrix hL⟩ h
  refine ⟨L', rfl, hfresh, ?_⟩
  have hn : 0 < n := Nat.pos_of_ne_zero (ofMatrix_eq_ok_iff.mp hL).1.1
  have hfirst : L'.length? 0 = some (L'.basis.rowNormSquared 0) := by
    rw [← hfresh.firstFresh, length?, length_of_lt L' hn]
    exact Vector.getElem?_eq_getElem hn
  unfold ReferenceEngine.engine
  dsimp only
  rw [hfirst]

/-! ## A few operations -/

def skewRows : IntMatrix 2 2 :=
  ⟨#v[#v[5, 1], #v[7, 2]]⟩

/-- An insertion, reductions, searches and tours. -/
def skewOperations : List (BasisOperation Fraction) :=
  [.insertCombination 0 [2, -1], .reduceRange .standard 0 2, .improveBlock .standard 0 2,
    .searchWindow .standard 0 2 0 0 1, .jumpingTour .standard ⟨2, 1, 0, 0, 1⟩,
    .engineTour .standard (.enumeration 2), .engineSearch .standard ⟨0, 2, 0⟩ 1, .clean .standard]

theorem skewOperations_stay_fresh :
    ∃ (L : LatticeBasis Fraction 2 2) (totals : Statistics) (B : SomeLatticeBasis Fraction),
      LatticeBasis.ofMatrix skewRows = .ok L ∧
        performAll skewOperations ({}, ⟨L⟩) = .ok () (totals, B) ∧
        ∃ L' : LatticeBasis Fraction 2 2, B = ⟨L'⟩ ∧ LatticeBasis.ofMatrix L'.basis = .ok L' ∧
          (ReferenceEngine.engine BlockReduction.standard).firstLength B =
            .ok (L'.basis.rowNormSquared 0) := by
  have hrun : (LatticeBasis.ofMatrix (α := Fraction) skewRows).toOption.any
      (fun L => succeeds (performAll skewOperations ({}, ⟨L⟩))) = true := by decide +kernel
  cases hL : LatticeBasis.ofMatrix (α := Fraction) skewRows with
  | error e =>
      rw [hL] at hrun
      cases hrun
  | ok L =>
      rw [hL] at hrun
      obtain ⟨_, ⟨totals, B⟩, hB⟩ := exists_of_succeeds hrun
      exact ⟨L, totals, B, rfl, hB, performAll_stays_fresh .standard skewRows L skewOperations
        {} totals B hL hB⟩

end BasisOperation

end EmbeddingAttack
