import EmbeddingAttack.Proofs.Lattice.Operations

/-!
# What searches and tours keep

Tours change a basis through searches and reductions only, and searches through insertions.  So a
property that each successful reduction and search keeps is kept by every successful tour and by the
work of the engine; and one that each insertion and reduction keeps is kept by the searches as well.
-/

namespace EmbeddingAttack

variable {α : Type} [Scalar α] {n m : Nat}

/-- Each reduction and each search that succeeds keeps `P`. -/
structure KeptBySearch (P : LatticeBasis α n m → Prop) : Prop where
  reduceRange : ∀ (p : LLL α) start stop, Ensures P (p.reduceRange start stop) fun _ => P
  improveBlock : ∀ (p : SearchLimits α) start stop,
    Ensures P (LatticeBasis.improveBlock p start stop) fun _ => P
  searchWindow : ∀ (p : SearchLimits α) first window free liftTo goal,
    Ensures P (LatticeBasis.searchWindow p first window free liftTo goal) fun _ => P

/-- Each insertion and each reduction that succeeds keeps `P`. -/
structure KeptByReduction (P : LatticeBasis α n m → Prop) : Prop where
  insertCombination : ∀ start coefficients,
    Ensures P (LatticeBasis.insertCombination start coefficients) fun _ => P
  reduceRange : ∀ (p : LLL α) start stop, Ensures P (p.reduceRange start stop) fun _ => P

namespace KeptByReduction

variable {P : LatticeBasis α n m → Prop} (h : KeptByReduction P)

include h

theorem improveBlock (p : SearchLimits α) (start stop : Nat) :
    Ensures P (LatticeBasis.improveBlock p start stop) fun _ => P := by
  unfold LatticeBasis.improveBlock
  refine Ensures.read.bind fun L => ?_
  split
  · refine Ensures.bind (Ensures.ofExcept fun _ _ _ hs => hs) fun findings => ?_
    split
    · exact Ensures.pure fun _ hs => hs
    · exact (h.insertCombination _ _).bind fun _ => Ensures.pure fun _ hs => hs
  · exact Ensures.throw _

theorem searchWindow (p : SearchLimits α) (first window free liftTo : Nat) (goal : α) :
    Ensures P (LatticeBasis.searchWindow p first window free liftTo goal) fun _ => P := by
  have hpure {τ : Type} (a : τ) : Ensures P (pure a : Reduction α n m τ) fun _ => P :=
    Ensures.pure fun _ hs => hs
  unfold LatticeBasis.searchWindow
  refine Ensures.guard fun _ => ?_
  refine Ensures.read.bind fun L => ?_
  refine Ensures.bind (Ensures.ofExcept fun _ _ _ hs => hs) fun findings => ?_
  extract_lets lifts rest
  have hrest (insertedFirst : Bool) : Ensures P (rest insertedFirst) fun _ => P := by
    dsimp only [rest]
    split
    · exact hpure _
    · split
      · exact hpure _
      · split
        · exact (h.insertCombination _ _).bind fun _ => hpure _
        · exact hpure _
  split
  · split
    · exact (h.insertCombination _ _).bind fun _ => (hpure true).bind hrest
    · exact (hpure false).bind hrest
  · exact (hpure false).bind hrest

theorem keptBySearch : KeptBySearch P :=
  ⟨h.reduceRange, h.improveBlock, h.searchWindow⟩

end KeptByReduction

/-! ## The engine -/

namespace ReferenceEngine

variable {P : LatticeBasis α n m → Prop}

section Results

variable {τ : Type} {work : {n m : Nat} → Reduction α n m τ} {L L' : LatticeBasis α n m}
  {totals : Statistics}

omit [Scalar α] in
theorem onBasis_of_ok {a : τ} (h : work L = .ok a L') :
    onBasis work (totals, ⟨L⟩) = .ok a (totals, ⟨L'⟩) := by
  unfold onBasis
  dsimp only
  rw [h]

omit [Scalar α] in
theorem onBasis_of_error {e : Failure α} (h : work L = .error e L') :
    onBasis work (totals, ⟨L⟩) = .error e (totals, ⟨L'⟩) := by
  unfold onBasis
  dsimp only
  rw [h]

end Results

omit [Scalar α] in
theorem keeps_onBasis {τ : Type} {work : {n m : Nat} → Reduction α n m τ}
    (h : Ensures P work fun _ => P) :
    Ensures (fun s => ∃ L, s.2 = ⟨L⟩ ∧ P L) (onBasis work) fun _ s => ∃ L, s.2 = ⟨L⟩ ∧ P L := by
  rintro ⟨totals, B⟩ x s' ⟨L, rfl, hL⟩ hx
  unfold onBasis at hx
  dsimp only at hx
  split at hx
  · rename_i L' hw
    cases hx
    exact ⟨L', rfl, h L x L' hL hw⟩
  · cases hx

omit [Scalar α] in
theorem keeps_charge (work : Statistics) :
    Ensures (fun s => ∃ L, s.2 = ⟨L⟩ ∧ P L) (charge work) fun _ s => ∃ L, s.2 = ⟨L⟩ ∧ P L :=
  Ensures.modify fun _ hs => hs

end ReferenceEngine

namespace KeptBySearch

open ReferenceEngine

variable {P : LatticeBasis α n m → Prop} (h : KeptBySearch P)

include h

theorem reduce (p : LLL α) : Ensures P p.reduce fun _ => P :=
  h.reduceRange p 0 n

theorem improveBlocks (p : BlockReduction α) (blocksize : Nat) (rows : List Nat)
    (stats : Statistics) : Ensures P (p.improveBlocks blocksize rows stats) fun _ => P := by
  induction rows generalizing stats with
  | nil => exact Ensures.pure fun _ hs => hs
  | cons kappa rest ih =>
      unfold BlockReduction.improveBlocks
      refine (h.improveBlock _ _ _).bind fun result => ?_
      obtain ⟨improved, nodes⟩ := result
      dsimp only
      split
      · exact (h.reduceRange _ _ _).discard.bind fun _ => ih _
      · exact ih _

theorem enumerationTour (p : BlockReduction α) (blocksize : Nat) :
    Ensures P (p.enumerationTour blocksize) fun _ => P := by
  unfold BlockReduction.enumerationTour
  refine Ensures.bind (Ensures.ofExcept fun _ _ _ hs => hs) fun _ => ?_
  refine (h.reduce _).discard.bind fun _ => ?_
  exact h.improveBlocks p blocksize _ _

theorem searchWindows (p : BlockReduction α) (goal : α) (windows : List Window)
    (stats : Statistics) : Ensures P (p.searchWindows goal windows stats) fun _ => P := by
  induction windows generalizing stats with
  | nil => exact Ensures.pure fun _ hs => hs
  | cons w rest ih =>
      unfold BlockReduction.searchWindows
      refine (h.searchWindow _ _ _ _ _ _).bind fun findings => ?_
      extract_lets inserted total onward
      have honward (u : PUnit) : Ensures P (onward u) fun _ => P := by
        refine Ensures.read.bind fun L => ?_
        split
        · exact Ensures.pure fun _ hs => hs
        · exact ih _
      split
      · exact (h.reduceRange _ _ _).discard.bind honward
      · exact honward ⟨⟩

theorem jumpingTour (p : BlockReduction α) (tour : JumpingTour α) :
    Ensures P (p.jumpingTour tour) fun _ => P := by
  unfold BlockReduction.jumpingTour
  refine Ensures.bind (Ensures.ofExcept fun _ _ _ hs => hs) fun _ => ?_
  refine (h.reduce _).discard.bind fun _ => ?_
  refine (h.searchWindows p _ _ _).bind fun stats => ?_
  exact (h.reduce _).discard.bind fun _ => Ensures.pure fun _ hs => hs

theorem engineTour (p : BlockReduction α) (order : TourOrder α) :
    Ensures (fun s => ∃ L, s.2 = ⟨L⟩ ∧ P L) ((engine p).tour order)
      fun _ s => ∃ L, s.2 = ⟨L⟩ ∧ P L := by
  refine Ensures.bind (keeps_onBasis ?_) fun work => keeps_charge work
  cases order with
  | enumeration b => exact h.enumerationTour p b
  | jumping b jump extra free goal => exact h.jumpingTour p _

theorem engineSearch (p : BlockReduction α) (w : Window) (goal : α) :
    Ensures (fun s => ∃ L, s.2 = ⟨L⟩ ∧ P L) ((engine p).search w goal)
      fun _ s => ∃ L, s.2 = ⟨L⟩ ∧ P L := by
  refine Ensures.bind (keeps_onBasis ?_) fun findings => ?_
  · exact h.searchWindow p.limits _ _ _ _ _
  · exact (keeps_charge _).bind fun _ => Ensures.pure fun _ hs => hs

theorem clean (p : BlockReduction α) :
    Ensures (fun s => ∃ L, s.2 = ⟨L⟩ ∧ P L) (engine p).clean fun _ s => ∃ L, s.2 = ⟨L⟩ ∧ P L :=
  (keeps_onBasis (h.reduce _)).discard

end KeptBySearch

/-! ## Operations -/

namespace BasisOperation

open ReferenceEngine

/-- Any operation but the insertion of a combination that the caller names. -/
def IsReduction : BasisOperation α → Prop
  | .insertCombination .. => False
  | _ => True

theorem ensures_perform {P : LatticeBasis α n m → Prop} (h : KeptBySearch P)
    (horthogonalize : Ensures P LatticeBasis.orthogonalize fun _ => P)
    {operation : BasisOperation α} (hreduction : operation.IsReduction) :
    Ensures (fun s => ∃ L, s.2 = ⟨L⟩ ∧ P L) operation.perform fun _ s => ∃ L, s.2 = ⟨L⟩ ∧ P L := by
  cases operation with
  | orthogonalize => exact keeps_onBasis horthogonalize
  | insertCombination start coefficients => exact hreduction.elim
  | reduce p => exact (keeps_onBasis (h.reduce p)).discard
  | reduceRange p start stop => exact (keeps_onBasis (h.reduceRange p _ _)).discard
  | improveBlock p start stop => exact (keeps_onBasis (h.improveBlock p _ _)).discard
  | searchWindow p first window free liftTo goal =>
      exact (keeps_onBasis (h.searchWindow p _ _ _ _ _)).discard
  | enumerationTour p blocksize => exact (keeps_onBasis (h.enumerationTour p _)).discard
  | jumpingTour p tour => exact (keeps_onBasis (h.jumpingTour p _)).discard
  | engineTour p order => exact h.engineTour p order
  | engineSearch p w goal => exact (h.engineSearch p w goal).discard
  | clean p => exact h.clean p

end BasisOperation

end EmbeddingAttack
