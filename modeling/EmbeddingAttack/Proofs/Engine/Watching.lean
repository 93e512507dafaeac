import EmbeddingAttack.Attack.Loop
import EmbeddingAttack.Engine.Journal
import EmbeddingAttack.Proofs.Engine.Alongside

/-!
# Watched runs

A watcher lists every reading of the clock and all work that an engine is ordered to do, in the order
in which they take place.  Work is listed before it is done, so that the list of a run that fails ends
with what failed.  Without its list a watched run is the run itself, whether it succeeds or fails.
-/

namespace EmbeddingAttack

variable {ε σ σ' τ ρ : Type}

/-- The same outcome with another state. -/
def mapState (f : σ' → σ) : EStateM.Result ε σ' τ → EStateM.Result ε σ τ
  | .ok a s => .ok a (f s)
  | .error e s => .error e (f s)

/-- A success has the property `Q`, and a failure leaves a state with `I`. -/
def Meets (Q : τ → σ → Prop) (I : σ → Prop) : EStateM.Result ε σ τ → Prop
  | .ok a s => Q a s
  | .error _ s => I s

/-- From a state with `P`, the outcome of `y` is that of `x` in a larger state, where a success has
the property `Q` and a failure `I`. -/
def Mirrors (forget : σ' → σ) (P : σ' → Prop) (x : EStateM ε σ τ) (y : EStateM ε σ' τ)
    (Q : τ → σ' → Prop) (I : σ' → Prop) : Prop :=
  ∀ t, P t → mapState forget (y t) = x (forget t) ∧ Meets Q I (y t)

namespace Mirrors

variable {forget : σ' → σ} {P P' I : σ' → Prop} {Q Q' : τ → σ' → Prop} {x : EStateM ε σ τ}
  {y : EStateM ε σ' τ}

theorem mono (h : Mirrors forget P x y Q I) (hP : ∀ t, P' t → P t)
    (hQ : ∀ a t, Q a t → Q' a t) : Mirrors forget P' x y Q' I := by
  intro t ht
  obtain ⟨hsame, hmeets⟩ := h t (hP t ht)
  refine ⟨hsame, ?_⟩
  cases hy : y t with
  | ok a u =>
      rw [hy] at hmeets
      exact hQ a u hmeets
  | error e u =>
      rw [hy] at hmeets
      exact hmeets

theorem pure {a : τ} (h : ∀ t, P t → Q a t) :
    Mirrors forget P (pure a : EStateM ε σ τ) (pure a) Q I :=
  fun t ht => ⟨rfl, h t ht⟩

theorem throw {e : ε} (h : ∀ t, P t → I t) :
    Mirrors forget P (throw e : EStateM ε σ τ) (throw e) Q I :=
  fun t ht => ⟨rfl, h t ht⟩

theorem bind {R : ρ → σ' → Prop} {f : τ → EStateM ε σ ρ} {g : τ → EStateM ε σ' ρ}
    (hx : Mirrors forget P x y Q I) (hf : ∀ a, Mirrors forget (Q a) (f a) (g a) R I) :
    Mirrors forget P (x >>= f) (y >>= g) R I := by
  intro t ht
  obtain ⟨hsame, hmeets⟩ := hx t ht
  cases hy : y t with
  | ok a u =>
      rw [hy] at hsame hmeets
      rw [bind_of_ok hy, bind_of_ok hsame.symm]
      exact hf a u hmeets
  | error e u =>
      rw [hy] at hsame hmeets
      rw [bind_of_error hy, bind_of_error hsame.symm]
      exact ⟨rfl, hmeets⟩

theorem get_bind {f : σ → EStateM ε σ τ} {g : σ' → EStateM ε σ' τ}
    (h : ∀ t, P t → Mirrors forget (fun u => u = t) (f (forget t)) (g t) Q I) :
    Mirrors forget P (get >>= f) (get >>= g) Q I :=
  fun t ht => h t ht t rfl

theorem ofExcept {z : Except ε τ} (h : ∀ t, P t → I t) :
    Mirrors forget P (ofExcept z : EStateM ε σ τ) (ofExcept z) (fun a t => P t ∧ z = .ok a) I := by
  cases z with
  | ok a => exact pure fun t ht => ⟨ht, rfl⟩
  | error e => exact throw h

theorem ite {c : Prop} [Decidable c] {x' : EStateM ε σ τ} {y' : EStateM ε σ' τ}
    (h : c → Mirrors forget P x y Q I) (h' : ¬ c → Mirrors forget P x' y' Q I) :
    Mirrors forget P (if c then x else x') (if c then y else y') Q I := by
  by_cases hc : c
  · rw [if_pos hc, if_pos hc]
    exact h hc
  · rw [if_neg hc, if_neg hc]
    exact h' hc

end Mirrors

/-- What a run does: a reading of the clock, or work that an engine is ordered to do.  A search is
listed with the basis on which it is ordered. -/
inductive RunEvent (α β : Type) where
  | reading (time : α)
  | tour (order : TourOrder α)
  | search (window : Window) (goal : α) (basis : β)
  | clean

/-- A world beside what was seen so far, the latest last. -/
abbrev Watched (α σ β : Type) :=
  σ × List (RunEvent α β)

variable {α β : Type}

namespace RunState

def watched (s : RunState α σ β) : RunState α (Watched α σ β) β :=
  ⟨(s.world, []), s.basis, s.context⟩

def seen (t : RunState α (Watched α σ β) β) : List (RunEvent α β) :=
  t.world.2

def unwatched (t : RunState α (Watched α σ β) β) : RunState α σ β :=
  ⟨t.world.1, t.basis, t.context⟩

end RunState

namespace Engine

/-- Lists an event, which may show the basis, and then works. -/
def announcing (event : β → RunEvent α β) (w : Work α σ β τ) : Work α (Watched α σ β) β τ :=
  fun ((world, seen), basis) => beside w ((world, seen ++ [event basis]), basis)

variable [Scalar α]

/-- The same engine, watched. -/
def watched (E : Engine α σ β) : Engine α (Watched α σ β) β :=
  { E.alongside (List (RunEvent α β)) with
    tour := fun order => announcing (fun _ => .tour order) (E.tour order)
    search := fun window goal => announcing (.search window goal) (E.search window goal)
    clean := announcing (fun _ => .clean) E.clean }

/-- Simulations are not seen. -/
theorem mirrors_simulate (E : Engine α σ β) (profile : Profile α) (blocksize tours : Nat)
    (seen : List (RunEvent α β)) :
    Mirrors Prod.fst (fun t => t.2 = seen) (E.simulate profile blocksize tours)
      (E.watched.simulate profile blocksize tours) (fun _ t => t.2 = seen)
      fun t => t.2 = seen := by
  intro t ht
  obtain ⟨world, events⟩ := t
  unfold watched alongside
  dsimp only
  cases E.simulate profile blocksize tours world with
  | ok p world' => exact ⟨rfl, ht⟩
  | error e world' => exact ⟨rfl, ht⟩

end Engine

theorem Lookahead.mirrors_simulate [Scalar α] (E : Engine α σ β) (ahead : Lookahead α)
    (blocksizes : List Nat) (timings : TimingTable α) (previous : Nat) (profile : Profile α)
    (extraTime : α) (seen : List (RunEvent α β)) :
    Mirrors Prod.fst (fun t => t.2 = seen)
      (simulate E ahead blocksizes timings previous profile extraTime)
      (simulate E.watched ahead blocksizes timings previous profile extraTime)
      (fun _ t => t.2 = seen) fun t => t.2 = seen := by
  induction blocksizes generalizing timings previous profile extraTime with
  | nil => exact Mirrors.pure fun t ht => ht
  | cons b rest ih =>
      unfold simulate
      apply Mirrors.bind (E.mirrors_simulate profile b ahead.tours seen)
      intro expected
      split
      · apply Mirrors.bind (Mirrors.ofExcept fun t ht => ht)
        intro dimension
        apply Mirrors.bind ((ih _ _ _ _).mono (fun t ht => ht.1) fun _ t ht => ht)
        intro tail
        exact Mirrors.pure fun t ht => ht
      · exact Mirrors.throw fun t ht => ht

/-! ## Runs -/

namespace Run

/-- The clock, watched. -/
def watchedClock (clock : Clock α σ) : Clock α (Watched α σ β) := fun (world, seen) =>
  ((clock world).1, ((clock world).2, seen ++ [.reading (clock world).1]))

/-- What has been seen has the property `J`, and together with the basis and the start of the
current reduction it has the property `P`. -/
def Sees (J : List (RunEvent α β) → Prop) (P : List (RunEvent α β) → β → α → Prop)
    (t : RunState α (Watched α σ β) β) : Prop :=
  J t.seen ∧ P t.seen t.basis t.context.reductionStart

/-- A watched run mirrors the run itself, and what is seen has the property `J` all along. -/
def Watches (J : List (RunEvent α β) → Prop) (P : List (RunEvent α β) → β → α → Prop)
    (x : Run α σ β τ) (y : Run α (Watched α σ β) β τ)
    (Q : τ → List (RunEvent α β) → β → α → Prop) : Prop :=
  Mirrors RunState.unwatched (Sees J P) x y (fun a => Sees J (Q a)) fun t => J t.seen

namespace Watches

variable {J : List (RunEvent α β) → Prop} {P P' : List (RunEvent α β) → β → α → Prop}
  {Q Q' : τ → List (RunEvent α β) → β → α → Prop} {x : Run α σ β τ}
  {y : Run α (Watched α σ β) β τ}

theorem mono (h : Watches J P x y Q) (hP : ∀ seen b start, P' seen b start → P seen b start)
    (hQ : ∀ a seen b start, Q a seen b start → Q' a seen b start) : Watches J P' x y Q' :=
  Mirrors.mono h (fun _ ht => ⟨ht.1, hP _ _ _ ht.2⟩) fun a _ ht => ⟨ht.1, hQ a _ _ _ ht.2⟩

theorem pure {a : τ} (h : ∀ seen b start, P seen b start → Q a seen b start) :
    Watches J P (pure a : Run α σ β τ) (pure a) Q :=
  Mirrors.pure fun _ ht => ⟨ht.1, h _ _ _ ht.2⟩

theorem keep {a : τ} : Watches J P (Pure.pure a : Run α σ β τ) (Pure.pure a) fun _ => P :=
  pure fun _ _ _ hs => hs

theorem bind {R : ρ → List (RunEvent α β) → β → α → Prop} {f : τ → Run α σ β ρ}
    {g : τ → Run α (Watched α σ β) β ρ} (hx : Watches J P x y Q)
    (hf : ∀ a, Watches J (Q a) (f a) (g a) R) : Watches J P (x >>= f) (y >>= g) R :=
  Mirrors.bind hx hf

theorem ofExcept {z : Except (Failure α) τ} :
    Watches J P (ofExcept z : Run α σ β τ) (ofExcept z)
      fun a seen b start => P seen b start ∧ z = .ok a :=
  (Mirrors.ofExcept fun _ ht => ht.1).mono (fun _ ht => ht)
    fun _ _ ht => ⟨ht.1.1, ht.1.2, ht.2⟩

theorem ite {c : Prop} [Decidable c] {x' : Run α σ β τ} {y' : Run α (Watched α σ β) β τ}
    (h : c → Watches J P x y Q) (h' : ¬ c → Watches J P x' y' Q) :
    Watches J P (if c then x else x') (if c then y else y') Q :=
  Mirrors.ite h h'

/-- What was read off the state is known to be what the state shows. -/
theorem get_bind {f : RunState α σ β → Run α σ β τ}
    {g : RunState α (Watched α σ β) β → Run α (Watched α σ β) β τ}
    (h : ∀ t, Watches J
      (fun seen b start => P seen b start ∧ b = t.basis ∧ start = t.context.reductionStart)
      (f t.unwatched) (g t) Q) :
    Watches J P (get >>= f) (get >>= g) Q := by
  apply Mirrors.get_bind
  intro t ht
  apply Mirrors.mono (h t) _ fun _ _ hu => hu
  intro u hu
  subst hu
  exact ⟨ht.1, ht.2, rfl, rfl⟩

theorem modifyContext {f : RunContext α → RunContext α} {Q : List (RunEvent α β) → β → α → Prop}
    (h : ∀ seen b c, P seen b c.reductionStart → Q seen b (f c).reductionStart) :
    Watches J P (modifyContext f : Run α σ β Unit) (modifyContext f) fun _ => Q :=
  fun _ ht => ⟨rfl, ht.1, h _ _ _ ht.2⟩

theorem trace (f : Tracer α → Tracer α) :
    Watches J P (Run.modifyContext (·.trace f) : Run α σ β Unit) (Run.modifyContext (·.trace f))
      fun _ => P :=
  modifyContext fun _ _ _ hs => hs

theorem inWorld {w : EStateM (Failure α) σ τ} {w' : EStateM (Failure α) (Watched α σ β) τ}
    (h : ∀ seen, Mirrors Prod.fst (fun t => t.2 = seen) w w' (fun _ t => t.2 = seen)
      fun t => t.2 = seen) :
    Watches J P (inWorld w) (inWorld w') fun _ => P := by
  intro t ht
  obtain ⟨⟨world, seen⟩, basis, context⟩ := t
  obtain ⟨hsame, hmeets⟩ := h seen (world, seen) rfl
  change mapState _ (Run.inWorld w' _) = Run.inWorld w ⟨world, basis, context⟩ ∧ _
  unfold Run.inWorld
  dsimp only
  rw [← hsame]
  cases hw : w' (world, seen) with
  | ok a u =>
      rw [hw] at hmeets
      have hseen : u.2 = seen := hmeets
      refine ⟨rfl, ?_⟩
      change Sees J P ⟨u, basis, context⟩
      unfold Sees RunState.seen
      rw [hseen]
      exact ht
  | error e u =>
      rw [hw] at hmeets
      have hseen : u.2 = seen := hmeets
      refine ⟨rfl, ?_⟩
      change J u.2
      rw [hseen]
      exact ht.1

theorem now (clock : Clock α σ) {Q : α → List (RunEvent α β) → β → α → Prop}
    (hJ : ∀ seen time, J seen → J (seen ++ [.reading time]))
    (h : ∀ seen b start time, P seen b start → Q time (seen ++ [.reading time]) b start) :
    Watches J P (now clock : Run α σ β α) (now (watchedClock clock)) Q :=
  fun _ ht => ⟨rfl, hJ _ _ ht.1, h _ _ _ _ ht.2⟩

/-- Nothing is known of the basis after the work. -/
theorem work {w : Work α σ β τ} (event : β → RunEvent α β)
    {Q : List (RunEvent α β) → β → α → Prop}
    (hJ : ∀ seen b start, J seen → P seen b start → J (seen ++ [event b]))
    (h : ∀ seen b b' start, P seen b start → Q (seen ++ [event b]) b' start) :
    Watches J P (work w) (work (Engine.announcing event w)) fun _ => Q := by
  intro t ht
  obtain ⟨⟨world, seen⟩, basis, context⟩ := t
  have hseen := hJ _ _ _ ht.1 ht.2
  change mapState _ (Run.work (Engine.announcing event w) _) =
    Run.work w ⟨world, basis, context⟩ ∧ _
  unfold Run.work Engine.announcing Engine.beside
  dsimp only
  cases w (world, basis) with
  | ok a u => exact ⟨rfl, hseen, h _ _ _ _ ht.2⟩
  | error e u => exact ⟨rfl, hseen⟩

theorem traced [Scalar α] (label : String) {w : Work α σ β τ} (event : β → RunEvent α β)
    {Q : List (RunEvent α β) → β → α → Prop}
    (hJ : ∀ seen b start, J seen → P seen b start → J (seen ++ [event b]))
    (h : ∀ seen b b' start, P seen b start → Q (seen ++ [event b]) b' start) :
    Watches J P (traced label w) (traced label (Engine.announcing event w)) fun _ => Q := by
  intro t ht
  obtain ⟨hsame, hmeets⟩ := work (w := w) event hJ h t ht
  unfold Run.traced
  rw [← hsame]
  cases hw : Run.work (Engine.announcing event w) t with
  | ok a u =>
      rw [hw] at hmeets
      exact ⟨rfl, hmeets⟩
  | error e u =>
      rw [hw] at hmeets
      exact ⟨rfl, hmeets⟩

theorem discard {R : List (RunEvent α β) → β → α → Prop} (h : Watches J P x y fun _ => R) :
    Watches J P (discard x) (discard y) fun _ => R := by
  rw [discard_eq_bind, discard_eq_bind]
  exact h.bind fun _ => keep

end Watches

end Run

end EmbeddingAttack
