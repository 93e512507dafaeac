import EmbeddingAttack.Attack.Outcome
import EmbeddingAttack.Engine.Journal
import EmbeddingAttack.Proofs.Computation

/-!
# Runs in step

Two computations run in step if they succeed with related values or fail alike, and leave related
states.  For two runs of the loop the states are the same but for the statistics, and the engines
work in related worlds.  So whatever a run reads off its statistics would show as a difference, and
there is none.
-/

namespace EmbeddingAttack

variable {ε σ σ' τ τ' ρ ρ' κ : Type}

/-- Both succeed with related values or both fail alike, and the states are related. -/
inductive SameResult (S : σ → σ' → Prop) (R : τ → τ' → Prop) :
    EStateM.Result ε σ τ → EStateM.Result ε σ' τ' → Prop
  | ok {a : τ} {b : τ'} {s : σ} {t : σ'} (values : R a b) (states : S s t) :
      SameResult S R (.ok a s) (.ok b t)
  | error {e : ε} {s : σ} {t : σ'} (states : S s t) : SameResult S R (.error e s) (.error e t)

/-- From related states, both computations have the same result. -/
def InStep (S : σ → σ' → Prop) (x : EStateM ε σ τ) (y : EStateM ε σ' τ') (R : τ → τ' → Prop) :
    Prop :=
  ∀ s t, S s t → SameResult S R (x s) (y t)

theorem SameResult.finalState {S : σ → σ' → Prop} {R : τ → τ' → Prop}
    {r : EStateM.Result ε σ τ} {r' : EStateM.Result ε σ' τ'} (h : SameResult S R r r') :
    S (finalState r) (finalState r') := by
  cases h with
  | ok _ hs => exact hs
  | error hs => exact hs

namespace InStep

variable {S : σ → σ' → Prop} {R : τ → τ' → Prop} {R' : ρ → ρ' → Prop} {x x' : EStateM ε σ τ}
  {y y' : EStateM ε σ' τ'}

theorem refl (x : EStateM ε σ τ) : InStep Eq x x Eq := by
  rintro s _ rfl
  cases x s with
  | ok a t => exact .ok rfl rfl
  | error e t => exact .error rfl

theorem pure {a : τ} {b : τ'} (h : R a b) :
    InStep S (pure a : EStateM ε σ τ) (pure b : EStateM ε σ' τ') R :=
  fun _ _ hst => .ok h hst

theorem throw (e : ε) :
    InStep S (throw e : EStateM ε σ τ) (throw e : EStateM ε σ' τ') R :=
  fun _ _ hst => .error hst

theorem bind {f : τ → EStateM ε σ ρ} {g : τ' → EStateM ε σ' ρ'} (hx : InStep S x y R)
    (hf : ∀ a b, R a b → InStep S (f a) (g b) R') : InStep S (x >>= f) (y >>= g) R' := by
  intro s t hst
  have h := hx s t hst
  generalize hr : x s = r at h
  generalize hr' : y t = r' at h
  cases h with
  | ok hab hst' =>
      rw [bind_of_ok hr, bind_of_ok hr']
      exact hf _ _ hab _ _ hst'
  | error hst' =>
      rw [bind_of_error hr, bind_of_error hr']
      exact .error hst'

theorem bind_eq {y : EStateM ε σ' τ} {f : τ → EStateM ε σ ρ} {g : τ → EStateM ε σ' ρ'}
    (hx : InStep S x y Eq) (hf : ∀ a, InStep S (f a) (g a) R') :
    InStep S (x >>= f) (y >>= g) R' :=
  hx.bind fun a _ hab => hab ▸ hf a

theorem get_bind {f : σ → EStateM ε σ τ} {g : σ' → EStateM ε σ' τ'}
    (h : ∀ s t, S s t → InStep S (f s) (g t) R) : InStep S (get >>= f) (get >>= g) R :=
  fun s t hst => h s t hst s t hst

theorem ofExcept (z : Except ε τ) :
    InStep S (ofExcept z : EStateM ε σ τ) (ofExcept z : EStateM ε σ' τ) Eq := by
  cases z with
  | ok a => exact pure rfl
  | error e => exact throw e

theorem discard (h : InStep S x y R) : InStep S (discard x) (discard y) Eq := by
  rw [discard_eq_bind, discard_eq_bind]
  exact h.bind fun _ _ _ => pure rfl

theorem ite_left {c : Prop} [Decidable c] (h : c → InStep S x y R) (h' : ¬ c → InStep S x' y R) :
    InStep S (if c then x else x') y R := by
  by_cases hc : c
  · rw [if_pos hc]
    exact h hc
  · rw [if_neg hc]
    exact h' hc

theorem ite_right {c : Prop} [Decidable c] (h : c → InStep S x y R) (h' : ¬ c → InStep S x y' R) :
    InStep S x (if c then y else y') R := by
  by_cases hc : c
  · rw [if_pos hc]
    exact h hc
  · rw [if_neg hc]
    exact h' hc

theorem ite {c : Prop} [Decidable c] (h : c → InStep S x y R) (h' : ¬ c → InStep S x' y' R) :
    InStep S (if c then x else x') (if c then y else y') R :=
  ite_left (fun hc => ite_right (fun _ => h hc) fun hn => absurd hc hn)
    fun hn => ite_right (fun hc => absurd hc hn) fun _ => h' hn

/-- A check that ends both computations where it fails. -/
theorem guard {c : Prop} [Decidable c] {e : ε} {k : PUnit → EStateM ε σ τ}
    {k' : PUnit → EStateM ε σ' τ'} (h : ¬ c → InStep S (k ⟨⟩) (k' ⟨⟩) R) :
    InStep S (if c then MonadExcept.throw e >>= k else k ⟨⟩)
      (if c then MonadExcept.throw e >>= k' else k' ⟨⟩) R :=
  ite (fun _ _ _ hst => .error hst) h

end InStep

/-- The first parts are related, and the second ones are the same. -/
def Beside (W : σ → σ' → Prop) (s : σ × κ) (t : σ' × κ) : Prop :=
  W s.1 t.1 ∧ s.2 = t.2

theorem beside_eq : (Beside Eq : σ × κ → σ × κ → Prop) = Eq :=
  funext₂ fun _ _ => propext Prod.ext_iff.symm

variable {α β : Type} {W : σ → σ' → Prop}

/-- The states are the same but for their statistics, and the worlds are related. -/
structure RunState.SameButTrace (W : σ → σ' → Prop) (s : RunState α σ β) (t : RunState α σ' β) :
    Prop where
  world : W s.world t.world
  basis : s.basis = t.basis
  context : ∃ tracer, t.context = { s.context with tracer }

/-- The engines take the same orders and do the same work. -/
structure Engine.InStep [Scalar α] (W : σ → σ' → Prop) (E : Engine α σ β) (E' : Engine α σ' β) :
    Prop where
  load : ∀ basis, EmbeddingAttack.InStep W (E.load basis) (E'.load basis) Eq
  tour : ∀ order, EmbeddingAttack.InStep (Beside W) (E.tour order) (E'.tour order) Eq
  search : ∀ window goal,
    EmbeddingAttack.InStep (Beside W) (E.search window goal) (E'.search window goal) Eq
  simulate : ∀ profile blocksize tours, EmbeddingAttack.InStep W
    (E.simulate profile blocksize tours) (E'.simulate profile blocksize tours) Eq
  clean : EmbeddingAttack.InStep (Beside W) E.clean E'.clean Eq
  profile : E'.profile = E.profile
  firstLength : E'.firstLength = E.firstLength
  firstRow : E'.firstRow = E.firstRow

/-- The clocks show the same time. -/
def Clock.InStep (W : σ → σ' → Prop) (clock : Clock α σ) (clock' : Clock α σ') : Prop :=
  ∀ w w', W w w' → (clock w).1 = (clock' w').1 ∧ W (clock w).2 (clock' w').2

theorem Engine.InStep.refl [Scalar α] (E : Engine α σ β) : E.InStep Eq E where
  load _ := .refl _
  tour _ := beside_eq ▸ .refl _
  search _ _ := beside_eq ▸ .refl _
  simulate _ _ _ := .refl _
  clean := beside_eq ▸ .refl _
  profile := rfl
  firstLength := rfl
  firstRow := rfl

theorem Clock.InStep.refl (clock : Clock α σ) : clock.InStep Eq clock := by
  rintro w _ rfl
  exact ⟨rfl, rfl⟩

theorem Lookahead.inStep_simulate [Scalar α] {E : Engine α σ β} {E' : Engine α σ' β}
    (hE : E.InStep W E') (ahead : Lookahead α) (blocksizes : List Nat) (timings : TimingTable α)
    (previous : Nat) (profile : Profile α) (extraTime : α) :
    InStep W (simulate E ahead blocksizes timings previous profile extraTime)
      (simulate E' ahead blocksizes timings previous profile extraTime) Eq := by
  induction blocksizes generalizing timings previous profile extraTime with
  | nil => exact InStep.pure rfl
  | cons b rest ih =>
      unfold simulate
      apply InStep.bind_eq (hE.simulate profile b ahead.tours)
      intro expected
      split
      · apply InStep.bind_eq (InStep.ofExcept _)
        intro dimension
        apply InStep.bind_eq (ih _ _ _ _)
        intro tail
        exact InStep.pure rfl
      · exact InStep.throw _

/-! ## Parts of a run -/

namespace Run

variable {x : Run α σ β τ} {y : Run α σ' β τ'} {R : ρ → ρ' → Prop}

/-- The computation succeeds and changes nothing but the statistics. -/
def OnlyTraces (x : Run α σ β τ) : Prop :=
  ∀ s, ∃ a tracer, x s = .ok a { s with context := { s.context with tracer } }

theorem onlyTraces_trace (f : Tracer α → Tracer α) :
    OnlyTraces (modifyContext (·.trace f) : Run α σ β Unit) :=
  fun s => ⟨(), f s.context.tracer, rfl⟩

theorem OnlyTraces.discard (h : OnlyTraces x) : OnlyTraces (discard x) := by
  intro s
  obtain ⟨a, tracer, hx⟩ := h s
  rw [discard_eq_bind]
  exact ⟨(), tracer, bind_of_ok hx⟩

theorem inStep_skip_left {f : τ → Run α σ β ρ} {y : Run α σ' β ρ'} (hx : OnlyTraces x)
    (h : ∀ a, InStep (RunState.SameButTrace W) (f a) y R) :
    InStep (RunState.SameButTrace W) (x >>= f) y R := by
  intro s t hst
  obtain ⟨a, tracer, hxs⟩ := hx s
  rw [bind_of_ok hxs]
  exact h a _ t ⟨hst.world, hst.basis, hst.context⟩

theorem inStep_skip_right {x : Run α σ β ρ} {g : τ' → Run α σ' β ρ'} (hy : OnlyTraces y)
    (h : ∀ b, InStep (RunState.SameButTrace W) x (g b) R) :
    InStep (RunState.SameButTrace W) x (y >>= g) R := by
  intro s t hst
  obtain ⟨b, tracer, hyt⟩ := hy t
  rw [bind_of_ok hyt]
  obtain ⟨earlier, hcontext⟩ := hst.context
  refine h b s _ ⟨hst.world, hst.basis, tracer, ?_⟩
  dsimp only
  rw [hcontext]

/-- Either run may report on its way, if its report does no more than that. -/
theorem inStep_reports {c c' : Prop} [Decidable c] [Decidable c'] {x k : Run α σ β ρ}
    {y k' : Run α σ' β ρ'}
    (hx : ∀ {z : Run α σ' β ρ'}, InStep (RunState.SameButTrace W) k z R →
      InStep (RunState.SameButTrace W) x z R)
    (hy : ∀ {z : Run α σ β ρ}, InStep (RunState.SameButTrace W) z k' R →
      InStep (RunState.SameButTrace W) z y R)
    (h : InStep (RunState.SameButTrace W) k k' R) :
    InStep (RunState.SameButTrace W) (if c then x else k) (if c' then y else k') R :=
  have hright : InStep (RunState.SameButTrace W) k (if c' then y else k') R :=
    InStep.ite_right (fun _ => hy h) fun _ => h
  InStep.ite_left (fun _ => hx hright) fun _ => hright

/-- A change of the context that neither reads the statistics nor leaves what it reads elsewhere to
them. -/
theorem inStep_modifyContext {f : RunContext α → RunContext α}
    (h : ∀ c tracer, ∃ tracer', f { c with tracer } = { f c with tracer := tracer' }) :
    InStep (RunState.SameButTrace W) (modifyContext f : Run α σ β Unit)
      (modifyContext f : Run α σ' β Unit) Eq := by
  rintro ⟨w, basis, context⟩ ⟨w', basis', context'⟩ ⟨hworld, hbasis, tracer, hcontext⟩
  obtain rfl : basis = basis' := hbasis
  obtain rfl : context' = _ := hcontext
  exact .ok rfl ⟨hworld, rfl, h context tracer⟩

theorem inStep_trace (f : Tracer α → Tracer α) :
    InStep (RunState.SameButTrace W) (modifyContext (·.trace f) : Run α σ β Unit)
      (modifyContext (·.trace f) : Run α σ' β Unit) Eq :=
  inStep_modifyContext fun _ _ => ⟨_, rfl⟩

theorem inStep_work {w : Work α σ β τ} {w' : Work α σ' β τ} (h : InStep (Beside W) w w' Eq) :
    InStep (RunState.SameButTrace W) (work w) (work w') Eq := by
  rintro ⟨world, basis, context⟩ ⟨world', basis', context'⟩ ⟨hworld, hbasis, hcontext⟩
  obtain rfl : basis = basis' := hbasis
  have hresult := h (world, basis) (world', basis) ⟨hworld, rfl⟩
  unfold work
  dsimp only
  generalize w (world, basis) = r at hresult
  generalize w' (world', basis) = r' at hresult
  cases hresult with
  | ok hvalue hstate => exact .ok hvalue ⟨hstate.1, hstate.2, hcontext⟩
  | error hstate => exact .error ⟨hstate.1, hstate.2, hcontext⟩

theorem inStep_traced [Scalar α] (label : String) {w : Work α σ β τ} {w' : Work α σ' β τ}
    (h : InStep (Beside W) w w' Eq) :
    InStep (RunState.SameButTrace W) (traced label w) (traced label w') Eq := by
  intro s t hst
  have hresult := inStep_work h s t hst
  unfold traced
  generalize work w s = r at hresult
  generalize work w' t = r' at hresult
  cases hresult with
  | ok hvalue hstate =>
      obtain ⟨tracer, hcontext⟩ := hstate.context
      exact .ok hvalue ⟨hstate.world, hstate.basis, _, by rw [hcontext]; rfl⟩
  | error hstate =>
      obtain ⟨tracer, hcontext⟩ := hstate.context
      exact .error ⟨hstate.world, hstate.basis, _, by rw [hcontext]; rfl⟩

theorem inStep_inWorld {w : EStateM (Failure α) σ τ} {w' : EStateM (Failure α) σ' τ}
    (h : InStep W w w' Eq) :
    InStep (RunState.SameButTrace W) (inWorld w : Run α σ β τ) (inWorld w') Eq := by
  rintro ⟨world, basis, context⟩ ⟨world', basis', context'⟩ ⟨hworld, hbasis, hcontext⟩
  obtain rfl : basis = basis' := hbasis
  have hresult := h world world' hworld
  unfold inWorld
  dsimp only
  generalize w world = r at hresult
  generalize w' world' = r' at hresult
  cases hresult with
  | ok hvalue hstate => exact .ok hvalue ⟨hstate, rfl, hcontext⟩
  | error hstate => exact .error ⟨hstate, rfl, hcontext⟩

theorem inStep_now {clock : Clock α σ} {clock' : Clock α σ'} (h : clock.InStep W clock') :
    InStep (RunState.SameButTrace W) (now clock : Run α σ β α) (now clock') Eq := by
  apply inStep_inWorld
  intro world world' hworld
  obtain ⟨hvalue, hstate⟩ := h world world' hworld
  exact .ok hvalue hstate

end Run

namespace Session

theorem inStep_onFiles (w : FileTree.Change α τ) :
    InStep (Beside W) (onFiles w : Session α σ τ) (onFiles w : Session α σ' τ) Eq := by
  rintro ⟨world, files⟩ ⟨world', _⟩ ⟨hworld, rfl⟩
  unfold onFiles
  dsimp only
  cases w files with
  | ok a files' => exact .ok rfl ⟨hworld, rfl⟩
  | error e files' => exact .error ⟨hworld, rfl⟩

theorem inStep_inWorld {R : τ → τ' → Prop} {w : EStateM (Failure α) σ τ}
    {w' : EStateM (Failure α) σ' τ'} (h : InStep W w w' R) :
    InStep (Beside W) (inWorld w) (inWorld w') R := by
  rintro ⟨world, files⟩ ⟨world', _⟩ ⟨hworld, rfl⟩
  have hresult := h world world' hworld
  unfold inWorld
  dsimp only
  generalize w world = r at hresult
  generalize w' world' = r' at hresult
  cases hresult with
  | ok hvalue hstate => exact .ok hvalue ⟨hstate, rfl⟩
  | error hstate => exact .error ⟨hstate, rfl⟩

end Session

end EmbeddingAttack
