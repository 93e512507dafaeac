import EmbeddingAttack.Lattice.LLL
import EmbeddingAttack.Proofs.Computation

/-!
# The length of the first row

Nothing is taken off the first row when a basis is orthogonalised, so that the length cached for it
is the length computed from its entries.  A reduction that succeeds ends with an orthogonalisation.
-/

namespace EmbeddingAttack

variable {α : Type} [Scalar α] {n m : Nat}

namespace LatticeBasis

/-- The squared length cached for the first row is that of the row. -/
def FirstFresh (L : LatticeBasis α n m) : Prop :=
  L.length 0 = L.basis.rowNormSquared 0

@[simp] theorem length_modifyCoefficients (L : LatticeBasis α n m) (i j : Nat)
    (f : Vector α n → Vector α n) : (L.modifyCoefficients i f).length j = L.length j := rfl

theorem length_setLength (L : LatticeBasis α n m) (i j : Nat) (x : α) (hj : j < n) :
    (L.setLength i x).length j = if i = j then x else L.length j := by
  simp [length, setLength, hj, Vector.getElem_setIfInBounds]

theorem residualSquare_zero (L : LatticeBasis α n m) (row : Array α) :
    residualSquare L 0 row = L.basis.rowNormSquared 0 := by
  simp [residualSquare, IntMatrix.rowNormSquared]

theorem ensures_orthogonalizeRow (hn : 0 < n) (i : Nat) :
    Ensures (fun L : LatticeBasis α n m => 0 < i → L.FirstFresh) (orthogonalizeRow i)
      fun _ L => L.FirstFresh := by
  unfold orthogonalizeRow
  refine Ensures.get.bind fun L => ?_
  refine Ensures.bind (Q := fun _ L' => L'.basis = L.basis ∧ (0 < i → L'.FirstFresh))
    (Ensures.modify ?_) fun _ => ?_
  · rintro s ⟨rfl, h⟩
    exact ⟨rfl, h⟩
  refine Ensures.guard fun _ => Ensures.modify ?_
  rintro L' ⟨hbasis, hfresh⟩
  unfold FirstFresh
  rw [length_modifyCoefficients, length_setLength _ _ _ _ hn]
  cases i with
  | zero =>
      rw [if_pos rfl, residualSquare_zero, ← hbasis]
      rfl
  | succ i =>
      rw [if_neg (Nat.succ_ne_zero i)]
      exact hfresh (Nat.succ_pos i)

theorem ensures_orthogonalizeRows (hn : 0 < n) (k : Nat) :
    Ensures (fun _ : LatticeBasis α n m => True) (orthogonalizeRows k)
      fun _ L => 0 < k → L.FirstFresh := by
  induction k with
  | zero => exact Ensures.pure fun _ _ => nofun
  | succ k ih =>
      unfold orthogonalizeRows
      refine ih.bind fun _ => ?_
      exact (ensures_orthogonalizeRow hn k).mono (fun _ h => h) fun _ _ h _ => h

theorem ensures_orthogonalize (hn : 0 < n) :
    Ensures (fun _ : LatticeBasis α n m => True) orthogonalize fun _ L => L.FirstFresh :=
  (ensures_orthogonalizeRows hn n).mono (fun _ h => h) fun _ _ h => h hn

end LatticeBasis

theorem LLL.ensures_reduce (p : LLL α) (hn : 0 < n) :
    Ensures (fun _ : LatticeBasis α n m => True) p.reduce fun _ L => L.FirstFresh := by
  unfold reduce reduceRange
  refine Ensures.bind (Ensures.trivial _) fun _ => ?_
  refine Ensures.guard fun _ => ?_
  refine Ensures.bind (Ensures.trivial _) fun _ => ?_
  rw [if_neg (Nat.lt_irrefl 0)]
  refine Ensures.bind (Ensures.trivial _) fun _ => ?_
  refine Ensures.bind (LatticeBasis.ensures_orthogonalize hn) fun _ => ?_
  exact Ensures.pure fun _ h => h

end EmbeddingAttack
