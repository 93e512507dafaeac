import EmbeddingAttack.Proofs.Arithmetic.Fraction
import EmbeddingAttack.Proofs.Lattice.Preservation

/-!
# Sequences of operations on a basis

Everything that changes a basis, in any order and with any arguments.  An operation may fail on the
way; the next one then starts from the basis that it left.
-/

namespace EmbeddingAttack

variable {α : Type} [Scalar α] {n m : Nat}

/-- An operation on a basis, with its arguments. -/
inductive BasisOperation (α : Type) where
  | orthogonalize
  | insertCombination (start : Nat) (coefficients : List Int)
  | reduce (p : LLL α)
  | reduceRange (p : LLL α) (start stop : Nat)
  | improveBlock (p : SearchLimits α) (start stop : Nat)
  | searchWindow (p : SearchLimits α) (first window free liftTo : Nat) (goal : α)
  | enumerationTour (p : BlockReduction α) (blocksize : Nat)
  | jumpingTour (p : BlockReduction α) (tour : JumpingTour α)
  | engineTour (p : BlockReduction α) (order : TourOrder α)
  | engineSearch (p : BlockReduction α) (w : Window) (goal : α)
  | clean (p : BlockReduction α)

namespace BasisOperation

open ReferenceEngine in
/-- Carries out an operation beside the counters of an engine. -/
def perform : BasisOperation α → Work α Statistics (SomeLatticeBasis α) Unit
  | .orthogonalize => onBasis LatticeBasis.orthogonalize
  | .insertCombination start coefficients =>
    onBasis (LatticeBasis.insertCombination start coefficients)
  | .reduce p => discard <| onBasis p.reduce
  | .reduceRange p start stop => discard <| onBasis (p.reduceRange start stop)
  | .improveBlock p start stop => discard <| onBasis (LatticeBasis.improveBlock p start stop)
  | .searchWindow p first window free liftTo goal =>
    discard <| onBasis (LatticeBasis.searchWindow p first window free liftTo goal)
  | .enumerationTour p blocksize => discard <| onBasis (p.enumerationTour blocksize)
  | .jumpingTour p tour => discard <| onBasis (p.jumpingTour tour)
  | .engineTour p order => (engine p).tour order
  | .engineSearch p w goal => discard <| (engine p).search w goal
  | .clean p => (engine p).clean

/-- The counters and the basis after the operations, each of which starts where the one before it
ended, in success or failure. -/
def run (operations : List (BasisOperation α)) (s : Statistics × SomeLatticeBasis α) :
    Statistics × SomeLatticeBasis α :=
  operations.foldl (fun s operation => finalState (operation.perform s)) s

theorem conserves_perform [ExactIntegers α] (operation : BasisOperation α) :
    Conserves (fun s => s.2.lattice) operation.perform := by
  cases operation with
  | orthogonalize => exact ReferenceEngine.conserves_onBasis LatticeBasis.conserves_orthogonalize
  | insertCombination start coefficients =>
      exact ReferenceEngine.conserves_onBasis (LatticeBasis.conserves_insertCombination _ _)
  | reduce p => exact (ReferenceEngine.conserves_onBasis (p.conserves_reduce)).discard
  | reduceRange p start stop =>
      exact (ReferenceEngine.conserves_onBasis (p.conserves_reduceRange _ _)).discard
  | improveBlock p start stop =>
      exact (ReferenceEngine.conserves_onBasis
        (LatticeBasis.conserves_improveBlock _ _ _)).discard
  | searchWindow p first window free liftTo goal =>
      exact (ReferenceEngine.conserves_onBasis
        (LatticeBasis.conserves_searchWindow _ _ _ _ _ _)).discard
  | enumerationTour p blocksize =>
      exact (ReferenceEngine.conserves_onBasis (p.conserves_enumerationTour _)).discard
  | jumpingTour p tour =>
      exact (ReferenceEngine.conserves_onBasis (p.conserves_jumpingTour _)).discard
  | engineTour p order => exact ReferenceEngine.conserves_tour p order
  | engineSearch p w goal => exact (ReferenceEngine.conserves_search p w goal).discard
  | clean p => exact ReferenceEngine.conserves_clean p

theorem lattice_run [ExactIntegers α] (operations : List (BasisOperation α))
    (s : Statistics × SomeLatticeBasis α) :
    (run operations s).2.lattice = s.2.lattice := by
  induction operations generalizing s with
  | nil => rfl
  | cons operation rest ih =>
      rw [run, List.foldl_cons]
      exact (ih _).trans (conserves_perform operation s)

omit [Scalar α] in
/-- No sequence of operations whose integers fit in words changes the numbers of rows and columns of
a basis or the set of integer combinations of its rows. -/
theorem run_preserves_lattice (S : Scalar α) (operations : List (BasisOperation α))
    (totals : Statistics) (L : LatticeBasis α n m)
    (hfits : FitsWords S fun S => @run α S operations (totals, ⟨L⟩)) :
    ∃ (totals' : Statistics) (L' : LatticeBasis α n m),
      run operations (totals, ⟨L⟩) = (totals', ⟨L'⟩) ∧
        ∀ v : Fin m → ℤ,
          (∃ c : Fin n → ℤ, ∑ i, c i • L'.basis.vector i = v) ↔
            ∃ c : Fin n → ℤ, ∑ i, c i • L.basis.vector i = v := by
  have h := (congrArg (fun s => s.2.lattice) hfits).trans
    (@lattice_run α S.unbounded _ operations (totals, ⟨L⟩))
  dsimp only at h
  generalize run operations (totals, ⟨L⟩) = s at h ⊢
  obtain ⟨totals', @⟨n', m', L'⟩⟩ := s
  simp only [SomeLatticeBasis.lattice, Prod.mk.injEq, Sigma.mk.injEq] at h
  obtain ⟨rfl, rfl, h⟩ := h
  refine ⟨totals', L', rfl, fun v => ?_⟩
  rw [← IntMatrix.mem_lattice, ← IntMatrix.mem_lattice]
  exact Eq.to_iff (congrArg (v ∈ ·) (eq_of_heq h))

omit [Scalar α] in
theorem finalState_onBasis {τ : Type} {work : {n m : Nat} → Reduction α n m τ}
    {L L' : LatticeBasis α n m} (h : finalState (work L) = L') (totals : Statistics) :
    finalState (ReferenceEngine.onBasis work (totals, ⟨L⟩)) = (totals, ⟨L'⟩) := by
  subst h
  unfold ReferenceEngine.onBasis
  dsimp only
  cases work L <;> rfl

omit [Scalar α] in
theorem run_insert_reduce {S : Scalar α} {start first last : Nat} {coefficients : List Int}
    {p : LLL α} {L L₁ L₂ : LatticeBasis α n m}
    (hinsert : finalState (@LatticeBasis.insertCombination α S n m start coefficients L) = L₁)
    (hreduce : finalState (@LLL.reduceRange α S n m p first last L₁) = L₂) (totals : Statistics) :
    run [.insertCombination start coefficients, .reduceRange p first last] (totals, ⟨L⟩) =
      (totals, ⟨L₂⟩) := by
  have hfirst : finalState (ReferenceEngine.onBasis
      (LatticeBasis.insertCombination start coefficients) (totals, ⟨L⟩)) = (totals, ⟨L₁⟩) :=
    finalState_onBasis hinsert totals
  have hsecond : finalState (ReferenceEngine.onBasis (p.reduceRange first last) (totals, ⟨L₁⟩)) =
      (totals, ⟨L₂⟩) := finalState_onBasis hreduce totals
  rw [run, List.foldl_cons, List.foldl_cons, List.foldl_nil, perform, hfirst, perform,
    finalState_discard, hsecond]

/-- Two rows with nothing cached. -/
def bareBasis : LatticeBasis Fraction 2 2 :=
  ⟨⟨#v[#v[6, 5], #v[8, 7]]⟩, #v[#v[(0 : ℚ), 0], #v[(0 : ℚ), 0]], #v[(0 : ℚ), 0]⟩

/-- What an insertion of twice the first row without the second leaves of the two rows. -/
def insertedBasis : LatticeBasis Fraction 2 2 :=
  ⟨⟨#v[#v[4, 3], #v[6, 5]]⟩, #v[#v[(1 : ℚ), 0], #v[(39 / 25 : ℚ), 1]], #v[(25 : ℚ), (4 / 25 : ℚ)]⟩

/-- What a reduction that ends after its first step leaves of these. -/
def stoppedBasis : LatticeBasis Fraction 2 2 :=
  ⟨⟨#v[#v[-2, -1], #v[4, 3]]⟩, #v[#v[(1 : ℚ), 0], #v[(-11 / 5 : ℚ), 1]], #v[(5 : ℚ), (4 / 5 : ℚ)]⟩

/-- A combination of the two rows is inserted, and the reduction that follows fails at its iteration
limit. -/
theorem run_preserves_bare :
    let operations : List (BasisOperation Fraction) :=
      [.insertCombination 0 [2, -1], .reduceRange { LLL.standard with maxIterations := 1 } 0 2]
    (FitsWords Fraction.scalar fun S => @run Fraction S operations ({}, ⟨bareBasis⟩)) ∧
      run operations ({}, ⟨bareBasis⟩) = ({}, ⟨stoppedBasis⟩) ∧
      ∀ v : Fin 2 → ℤ,
        (∃ c : Fin 2 → ℤ, ∑ i, c i • stoppedBasis.basis.vector i = v) ↔
          ∃ c : Fin 2 → ℤ, ∑ i, c i • bareBasis.basis.vector i = v := by
  intro operations
  have hrun : run operations ({}, ⟨bareBasis⟩) = ({}, ⟨stoppedBasis⟩) :=
    run_insert_reduce (S := Fraction.scalar) (show _ = insertedBasis by decide +kernel)
      (show _ = stoppedBasis by decide +kernel) {}
  have hexact : @run Fraction Fraction.scalar.unbounded operations ({}, ⟨bareBasis⟩) =
      ({}, ⟨stoppedBasis⟩) :=
    run_insert_reduce (S := Fraction.scalar.unbounded) (show _ = insertedBasis by decide +kernel)
      (show _ = stoppedBasis by decide +kernel) {}
  have hfits : FitsWords Fraction.scalar fun S => @run Fraction S operations ({}, ⟨bareBasis⟩) :=
    hrun.trans hexact.symm
  obtain ⟨totals', L', hL', hlattice⟩ :=
    run_preserves_lattice Fraction.scalar operations {} bareBasis hfits
  cases hrun.symm.trans hL'
  exact ⟨hfits, hrun, hlattice⟩

end BasisOperation

end EmbeddingAttack
