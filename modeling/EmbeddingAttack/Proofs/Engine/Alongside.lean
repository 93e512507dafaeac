import EmbeddingAttack.Engine.Journal
import EmbeddingAttack.Proofs.Attack.GoalReached
import EmbeddingAttack.Proofs.Lattice.FirstLength
import EmbeddingAttack.Proofs.Lattice.Preservation

/-!
# The reference engine in a larger world

A clock may read whatever it likes, so that it needs a part of the world that no engine touches.  An
engine works in a larger world as it does in its own.
-/

namespace EmbeddingAttack

namespace Engine

variable {α σ β τ κ : Type} [Scalar α]

/-- The same engine in a world with a further part. -/
def alongside (E : Engine α σ β) (κ : Type) : Engine α (σ × κ) β where
  load basis := fun (world, other) =>
    match E.load basis world with
    | .ok basis world => .ok basis (world, other)
    | .error e world => .error e (world, other)
  tour order := beside (E.tour order)
  search window goal := beside (E.search window goal)
  simulate profile blocksize tours := fun (world, other) =>
    match E.simulate profile blocksize tours world with
    | .ok p world => .ok p (world, other)
    | .error e world => .error e (world, other)
  clean := beside E.clean
  profile := E.profile
  firstLength := E.firstLength
  firstRow := E.firstRow

omit [Scalar α] in
theorem ensures_beside {P Q : β → Prop} {w : Work α σ β τ}
    (h : Ensures (fun s => P s.2) w fun _ s => Q s.2) :
    Ensures (fun s => P s.2) (beside w : Work α (σ × κ) β τ) fun _ s => Q s.2 := by
  rintro ⟨⟨world, other⟩, basis⟩ x s' hs hx
  unfold beside at hx
  dsimp only at hx
  split at hx
  · rename_i world' basis' hw
    cases hx
    exact h (world, basis) x (world', basis') hs hw
  · cases hx

theorem Keeps.alongside {E : Engine α σ β} {P Q : β → Prop} (h : E.Keeps P Q) (κ : Type) :
    (E.alongside κ).Keeps P Q where
  weaken := h.weaken
  tour order := ensures_beside (h.tour order)
  search window goal := ensures_beside (h.search window goal)
  clean := ensures_beside h.clean

end Engine

namespace ReferenceEngine

variable {α : Type} [Scalar α]

omit [Scalar α] in
theorem ensures_onBasis {τ : Type} {work : {n m : Nat} → Reduction α n m τ}
    {P Q : SomeLatticeBasis α → Prop}
    (h : ∀ {n m : Nat}, Ensures (fun L : LatticeBasis α n m => P ⟨L⟩) work fun _ L => Q ⟨L⟩) :
    Ensures (fun s => P s.2) (onBasis work) fun _ s => Q s.2 := by
  rintro ⟨totals, @⟨n, m, L⟩⟩ x s' hs hx
  unfold onBasis at hx
  dsimp only at hx
  split at hx
  · rename_i L' hw
    cases hx
    exact h L x L' hs hw
  · cases hx

theorem length?_of_firstLength (p : BlockReduction α) {B : SomeLatticeBasis α} {length : α}
    (h : (engine p).firstLength B = .ok length) : B.basis.length? 0 = some length := by
  unfold engine at h
  dsimp only at h
  split at h
  · rename_i r hr
    cases h
    exact hr
  · cases h

/-- The lattice stays, and the cleanup brings the cached length of the first row up to date. -/
theorem keeps [ExactIntegers α] (p : BlockReduction α)
    (Λ : Nat × (m : Nat) × Submodule ℤ (Fin m → ℤ)) :
    (engine p).Keeps (fun B => B.lattice = Λ)
      fun B => B.lattice = Λ ∧ (0 < B.rank → B.basis.FirstFresh) where
  weaken _ h := h.1
  tour order := (conserves_tour p order).ensures Λ
  search window goal := (conserves_search p window goal).ensures Λ
  clean := by
    have hfirst : Ensures (fun _ => True) (engine p).clean
        fun _ s => 0 < s.2.rank → s.2.basis.FirstFresh := by
      refine Ensures.discard ?_
      refine ensures_onBasis (P := fun _ => True)
        (Q := fun B => 0 < B.rank → B.basis.FirstFresh) ?_
      intro n m L x L' _ hx hn
      exact LLL.ensures_reduce LLL.standard hn L x L' trivial hx
    exact (((conserves_clean p).ensures Λ).and hfirst).mono (fun _ h => ⟨h, trivial⟩)
      fun _ _ h => h

end ReferenceEngine

end EmbeddingAttack
