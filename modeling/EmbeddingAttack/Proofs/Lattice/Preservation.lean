import EmbeddingAttack.Engine.Reference
import EmbeddingAttack.Proofs.Arithmetic.Words
import EmbeddingAttack.Proofs.Computation
import EmbeddingAttack.Proofs.Lattice.InsertionLattice

/-!
# Reduction keeps the lattice

With integers of any size, whatever the numeric operations answer and wherever an algorithm stops,
the rows of a basis keep their lattice.  Each algorithm is followed through its program text; what
it asks of its steps is only that each of them is an elementary operation.
-/

namespace EmbeddingAttack

variable {α : Type} {n m : Nat}

namespace LatticeBasis

/-- The lattice of the rows. -/
def lattice (L : LatticeBasis α n m) : Submodule ℤ (Fin m → ℤ) :=
  L.basis.lattice

/-! ## Orthogonalisation -/

variable [Scalar α]

theorem conserves_basis_orthogonalizeRow (i : Nat) :
    Conserves LatticeBasis.basis (orthogonalizeRow i : Reduction α n m Unit) := by
  unfold orthogonalizeRow
  refine Conserves.get.bind fun L => ?_
  refine Conserves.bind (Conserves.modify ?_) fun _ => ?_
  · exact fun L => rfl
  · exact Conserves.guard fun _ => Conserves.modify fun L => rfl

theorem conserves_basis_orthogonalizeRows (k : Nat) :
    Conserves LatticeBasis.basis (orthogonalizeRows k : Reduction α n m Unit) := by
  induction k with
  | zero => exact Conserves.pure _
  | succ k ih => exact ih.bind fun _ => conserves_basis_orthogonalizeRow k

theorem conserves_basis_orthogonalize :
    Conserves LatticeBasis.basis (orthogonalize : Reduction α n m Unit) :=
  conserves_basis_orthogonalizeRows n

theorem conserves_orthogonalize :
    Conserves LatticeBasis.lattice (orthogonalize : Reduction α n m Unit) :=
  conserves_basis_orthogonalize.comp IntMatrix.lattice

/-! ## Insertion -/

variable [ExactIntegers α]

theorem conserves_insertCombination (start : Nat) (coefficients : List Int) :
    Conserves LatticeBasis.lattice (insertCombination start coefficients : Reduction α n m Unit) := by
  unfold insertCombination
  refine Conserves.guard fun hstop => ?_
  refine Conserves.guard fun _ => ?_
  refine Conserves.guard fun _ => ?_
  refine Conserves.bind (Conserves.modify ?_) fun _ => conserves_orthogonalize
  intro L
  rw [integers_eq]
  apply IntMatrix.lattice_insertCombination
  · intro r hr
    obtain ⟨hlt, hne⟩ := mem_support hr
    exact ⟨by omega, hne⟩
  · exact nodup_support start coefficients

end LatticeBasis

namespace LLL

open LatticeBasis

variable [Scalar α] [ExactIntegers α]

theorem lattice_reduceAlong (p : LLL α) (k j : Nat) (L : LatticeBasis α n m) :
    (reduceAlong p k j L).lattice = L.lattice := by
  unfold reduceAlong
  dsimp only
  split
  · rfl
  · rw [integers_eq]
    exact IntMatrix.lattice_subScaledRow _ _ _ _

theorem lattice_sizeReduceBelow (p : LLL α) (k j : Nat) (L : LatticeBasis α n m) :
    (sizeReduceBelow p k j L).lattice = L.lattice := by
  induction j generalizing L with
  | zero => rfl
  | succ j ih => rw [sizeReduceBelow, ih, lattice_reduceAlong]

omit [ExactIntegers α] in
theorem conserves_exchange (k : Nat) :
    Conserves LatticeBasis.lattice (exchange k : Reduction α n m Unit) := by
  unfold exchange
  refine Conserves.bind (Conserves.modify ?_) fun _ => ?_
  · exact fun L => IntMatrix.lattice_swapRows _ _ _
  · refine Conserves.get.bind fun L => ?_
    exact Conserves.guard fun _ => Conserves.modify fun L => rfl

theorem conserves_run (p : LLL α) (start stop budget k : Nat) (stats : Statistics) :
    Conserves LatticeBasis.lattice (run p start stop budget k stats : Reduction α n m Statistics) := by
  induction budget generalizing k stats with
  | zero =>
      unfold run
      split
      · exact Conserves.throw _
      · exact Conserves.pure _
  | succ budget ih =>
      unfold run
      split
      · refine Conserves.bind (Conserves.modify ?_) fun _ => ?_
        · exact lattice_sizeReduceBelow p k k
        · refine Conserves.get.bind fun L => ?_
          split
          · exact ih _ _
          · exact (conserves_exchange k).bind fun _ => ih _ _
      · exact Conserves.pure _

theorem conserves_reduceRange (p : LLL α) (start stop : Nat) :
    Conserves LatticeBasis.lattice (reduceRange p start stop : Reduction α n m Statistics) := by
  unfold reduceRange
  refine (Conserves.ofExcept _).bind fun _ => ?_
  refine Conserves.guard fun _ => ?_
  refine conserves_orthogonalize.bind fun _ => ?_
  extract_lets rest
  have hrest (u : Unit) : Conserves LatticeBasis.lattice (rest u) :=
    (conserves_run p start stop _ _ _).bind fun stats =>
      conserves_orthogonalize.bind fun _ => Conserves.pure stats
  split
  · refine Conserves.bind (Conserves.modify ?_) hrest
    exact lattice_sizeReduceBelow p start start
  · exact hrest ⟨⟩

theorem conserves_reduce (p : LLL α) :
    Conserves LatticeBasis.lattice (reduce p : Reduction α n m Statistics) :=
  conserves_reduceRange p 0 n

end LLL

/-! ## Searches and tours -/

namespace LatticeBasis

variable [Scalar α] [ExactIntegers α]

theorem conserves_improveBlock (p : SearchLimits α) (start stop : Nat) :
    Conserves LatticeBasis.lattice (improveBlock p start stop : Reduction α n m (Bool × Nat)) := by
  unfold improveBlock
  refine Conserves.get.bind fun L => ?_
  split
  · refine (Conserves.ofExcept _).bind fun findings => ?_
    split
    · exact Conserves.pure _
    · exact (conserves_insertCombination _ _).bind fun _ => Conserves.pure _
  · exact Conserves.throw _

theorem conserves_searchWindow (p : SearchLimits α) (first window free liftTo : Nat) (goal : α) :
    Conserves LatticeBasis.lattice
      (searchWindow p first window free liftTo goal : Reduction α n m (WindowFindings α)) := by
  unfold searchWindow
  refine Conserves.guard fun _ => ?_
  refine Conserves.get.bind fun L => ?_
  refine (Conserves.ofExcept _).bind fun findings => ?_
  extract_lets lifts rest
  have hrest (insertedFirst : Bool) : Conserves LatticeBasis.lattice (rest insertedFirst) := by
    dsimp only [rest]
    split
    · exact Conserves.pure _
    · split
      · exact Conserves.pure _
      · split
        · exact (conserves_insertCombination _ _).bind fun _ => Conserves.pure _
        · exact Conserves.pure _
  split
  · split
    · exact (conserves_insertCombination _ _).bind fun _ => (Conserves.pure true).bind hrest
    · exact (Conserves.pure false).bind hrest
  · exact (Conserves.pure false).bind hrest

end LatticeBasis

namespace BlockReduction

open LatticeBasis LLL

variable [Scalar α] [ExactIntegers α]

theorem conserves_improveBlocks (p : BlockReduction α) (blocksize : Nat) (rows : List Nat)
    (stats : Statistics) : Conserves LatticeBasis.lattice
      (improveBlocks p blocksize rows stats : Reduction α n m Statistics) := by
  induction rows generalizing stats with
  | nil => exact Conserves.pure _
  | cons kappa rest ih =>
      unfold improveBlocks
      refine (conserves_improveBlock _ _ _).bind fun result => ?_
      obtain ⟨improved, nodes⟩ := result
      dsimp only
      split
      · exact (conserves_reduceRange _ _ _).discard.bind fun _ => ih _
      · exact ih _

theorem conserves_enumerationTour (p : BlockReduction α) (blocksize : Nat) :
    Conserves LatticeBasis.lattice
      (enumerationTour p blocksize : Reduction α n m Statistics) := by
  unfold enumerationTour
  refine (Conserves.ofExcept _).bind fun _ => ?_
  refine (conserves_reduce _).discard.bind fun _ => ?_
  exact conserves_improveBlocks p blocksize _ _

theorem conserves_searchWindows (p : BlockReduction α) (goal : α) (windows : List Window)
    (stats : Statistics) : Conserves LatticeBasis.lattice
      (searchWindows p goal windows stats : Reduction α n m Statistics) := by
  induction windows generalizing stats with
  | nil => exact Conserves.pure _
  | cons w rest ih =>
      unfold searchWindows
      refine (conserves_searchWindow _ _ _ _ _ _).bind fun findings => ?_
      extract_lets inserted total onward
      have honward (u : PUnit) : Conserves LatticeBasis.lattice (onward u) := by
        refine Conserves.get.bind fun L => ?_
        split
        · exact Conserves.pure _
        · exact ih _
      split
      · exact (conserves_reduceRange _ _ _).discard.bind honward
      · exact honward ⟨⟩

theorem conserves_jumpingTour (p : BlockReduction α) (tour : JumpingTour α) :
    Conserves LatticeBasis.lattice (jumpingTour p tour : Reduction α n m Statistics) := by
  unfold jumpingTour
  refine (Conserves.ofExcept _).bind fun _ => ?_
  refine (conserves_reduce _).discard.bind fun _ => ?_
  refine (conserves_searchWindows p _ _ _).bind fun stats => ?_
  exact (conserves_reduce _).discard.bind fun _ => Conserves.pure stats

end BlockReduction

/-- The lattice of a basis together with the numbers of its rows and columns. -/
def SomeLatticeBasis.lattice (B : SomeLatticeBasis α) :
    Nat × (m : Nat) × Submodule ℤ (Fin m → ℤ) :=
  ⟨B.rank, B.ambient, B.basis.lattice⟩

namespace ReferenceEngine

theorem finalState_onBasis {τ : Type} (work : {n m : Nat} → Reduction α n m τ)
    (totals : Statistics) (L : LatticeBasis α n m) :
    finalState (onBasis work (totals, ⟨L⟩)) = (totals, ⟨finalState (work L)⟩) := by
  unfold onBasis
  dsimp only
  cases (work L : EStateM.Result (Failure α) (LatticeBasis α n m) τ) with
  | ok x L' => rfl
  | error e L' => rfl

theorem conserves_onBasis {τ : Type} {work : {n m : Nat} → Reduction α n m τ}
    (h : ∀ {n m : Nat}, Conserves LatticeBasis.lattice (work : Reduction α n m τ)) :
    Conserves (fun s => s.2.lattice) (onBasis work) := by
  rintro ⟨totals, ⟨L⟩⟩
  rw [finalState_onBasis]
  simp only [SomeLatticeBasis.lattice, h L]

theorem conserves_charge (work : Statistics) :
    Conserves (fun s => s.2.lattice) (charge work : Work α _ _ Unit) :=
  Conserves.modify fun _ => rfl

variable [Scalar α] [ExactIntegers α]

theorem conserves_tour (p : BlockReduction α) (order : TourOrder α) :
    Conserves (fun s => s.2.lattice) ((engine p).tour order) := by
  refine Conserves.bind (conserves_onBasis ?_) fun work => conserves_charge work
  cases order with
  | enumeration b => exact p.conserves_enumerationTour b
  | jumping b jump extra free goal => exact p.conserves_jumpingTour _

theorem conserves_search (p : BlockReduction α) (w : Window) (goal : α) :
    Conserves (fun s => s.2.lattice) ((engine p).search w goal) := by
  refine Conserves.bind (conserves_onBasis ?_) fun findings =>
    (conserves_charge _).bind fun _ => Conserves.pure _
  exact LatticeBasis.conserves_searchWindow p.limits _ _ _ _ _

theorem conserves_clean (p : BlockReduction α) :
    Conserves (fun s => s.2.lattice) (engine p).clean :=
  (conserves_onBasis (LLL.conserves_reduce _)).discard

end ReferenceEngine

end EmbeddingAttack
