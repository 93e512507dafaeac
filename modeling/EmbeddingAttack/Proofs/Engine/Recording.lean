import EmbeddingAttack.Proofs.Engine.Alongside

/-!
# Recorded runs

An engine that keeps a list of its tours, searches and cleanups works as it does without.  A run of
the loop with such an engine is the run without, and its list says what the loop has ordered.
-/

namespace EmbeddingAttack

variable {ε σ σ' ι τ ρ : Type}

/-- Each success of `x` is one of `y` in a larger state, of which the rest stays as it is. -/
def Lifts (embed : σ → ι → σ') (x : EStateM ε σ τ) (y : EStateM ε σ' τ) : Prop :=
  ∀ s a s' rest, x s = .ok a s' → y (embed s rest) = .ok a (embed s' rest)

namespace Lifts

variable {embed : σ → ι → σ'}

theorem pure (a : τ) : Lifts embed (pure a : EStateM ε σ τ) (pure a) := by
  intro s b s' rest h
  cases h
  rfl

theorem throw (e : ε) (y : EStateM ε σ' τ) : Lifts embed (throw e : EStateM ε σ τ) y := by
  intro s b s' rest h
  cases h

theorem bind {x : EStateM ε σ τ} {y : EStateM ε σ' τ} {f : τ → EStateM ε σ ρ}
    {g : τ → EStateM ε σ' ρ} (hx : Lifts embed x y) (hf : ∀ a, Lifts embed (f a) (g a)) :
    Lifts embed (x >>= f) (y >>= g) := by
  intro s b s' rest h
  obtain ⟨a, t, hat, hbt⟩ := exists_of_bind_ok h
  rw [bind_of_ok (hx s a t rest hat)]
  exact hf a t b s' rest hbt

theorem discard {x : EStateM ε σ τ} {y : EStateM ε σ' τ} (h : Lifts embed x y) :
    Lifts embed (discard x) (discard y) := by
  rw [discard_eq_bind, discard_eq_bind]
  exact h.bind fun _ => pure _

theorem get_bind {f : σ → EStateM ε σ τ} {g : σ' → EStateM ε σ' τ}
    (h : ∀ s rest, Lifts embed (f s) (g (embed s rest))) :
    Lifts embed (get >>= f) (get >>= g) :=
  fun s a s' rest hs => h s rest s a s' rest hs

theorem ofExcept (x : Except ε τ) :
    Lifts embed (ofExcept x : EStateM ε σ τ) (ofExcept x) := by
  cases x with
  | ok a => exact pure a
  | error e => exact throw e _

theorem ite {c : Prop} [Decidable c] {x x' : EStateM ε σ τ} {y y' : EStateM ε σ' τ}
    (h : Lifts embed x y) (h' : Lifts embed x' y') :
    Lifts embed (if c then x else x') (if c then y else y') := by
  by_cases hc : c
  · rwa [if_pos hc, if_pos hc]
  · rwa [if_neg hc, if_neg hc]

end Lifts

/-- Work that an engine has done; for a cleanup, with the basis that it left. -/
inductive EngineEvent (α β : Type) where
  | tour (order : TourOrder α)
  | search (window : Window) (goal : α)
  | clean (after : β)

/-- A world beside the events so far, the latest last. -/
abbrev Logged (α σ β : Type) :=
  σ × List (EngineEvent α β)

variable {α β : Type}

def RunState.withLog (s : RunState α σ β) (log : List (EngineEvent α β)) :
    RunState α (Logged α σ β) β :=
  ⟨(s.world, log), s.basis, s.context⟩

namespace Engine

/-- Lists an event, which may show the basis, once the work has succeeded. -/
def noting (w : Work α σ β τ) (event : β → EngineEvent α β) : Work α (Logged α σ β) β τ :=
  fun ((world, log), basis) =>
    match w (world, basis) with
    | .ok x (world, basis) => .ok x ((world, log ++ [event basis]), basis)
    | .error e (world, basis) => .error e ((world, log), basis)

/-- The same engine with a list of its tours, searches and cleanups. -/
def recorded [Scalar α] (E : Engine α σ β) : Engine α (Logged α σ β) β :=
  { E.alongside (List (EngineEvent α β)) with
    tour := fun order => noting (E.tour order) fun _ => .tour order
    search := fun window goal => noting (E.search window goal) fun _ => .search window goal
    clean := noting E.clean .clean }

variable [Scalar α]

theorem lifts_simulate (E : Engine α σ β) (profile : Profile α) (blocksize tours : Nat) :
    Lifts Prod.mk (E.simulate profile blocksize tours)
      (E.recorded.simulate profile blocksize tours) := by
  intro world p world' log h
  unfold recorded alongside
  dsimp only
  rw [h]

end Engine

theorem Lookahead.lifts_simulate [Scalar α] (E : Engine α σ β) (ahead : Lookahead α)
    (blocksizes : List Nat) (timings : TimingTable α) (previous : Nat) (profile : Profile α)
    (extraTime : α) :
    Lifts Prod.mk (simulate E ahead blocksizes timings previous profile extraTime)
      (simulate E.recorded ahead blocksizes timings previous profile extraTime) := by
  induction blocksizes generalizing timings previous profile extraTime with
  | nil => exact Lifts.pure _
  | cons b rest ih =>
      unfold simulate
      refine (E.lifts_simulate profile b ahead.tours).bind fun expected => ?_
      split
      · refine (Lifts.ofExcept _).bind fun dimension => ?_
        exact (ih _ _ _ _).bind fun tail => Lifts.pure _
      · exact Lifts.throw _ _

/-! ## Runs -/

namespace Run

theorem lifts_modifyContext (f : RunContext α → RunContext α) :
    Lifts RunState.withLog (modifyContext f : Run α σ β Unit) (modifyContext f) := by
  intro s a s' log h
  cases h
  rfl

theorem lifts_inWorld {w : EStateM (Failure α) σ τ} {w' : EStateM (Failure α) (Logged α σ β) τ}
    (h : Lifts Prod.mk w w') :
    Lifts RunState.withLog (inWorld w : Run α σ β τ) (inWorld w') := by
  rintro ⟨world, basis, context⟩ a s' log hs
  unfold inWorld at hs
  dsimp only at hs
  split at hs
  · rename_i world' hw
    cases hs
    change inWorld w' ⟨(world, log), basis, context⟩ = _
    unfold inWorld
    dsimp only
    rw [h _ _ _ log hw]
    rfl
  · cases hs

def loggedClock (clock : Clock α σ) : Clock α (Logged α σ β) :=
  fun (world, log) => ((clock world).1, ((clock world).2, log))

theorem lifts_now (clock : Clock α σ) :
    Lifts RunState.withLog (now clock : Run α σ β α) (now (loggedClock clock)) := by
  refine lifts_inWorld fun world a world' log h => ?_
  cases h
  rfl

/-- From a state with `P`, each success of `x` is one of `y` beside a log, to which `y` appends
events with the property `Q`. -/
def Records (P : RunState α σ β → Prop) (x : Run α σ β τ) (y : Run α (Logged α σ β) β τ)
    (Q : τ → RunState α σ β → List (EngineEvent α β) → Prop) : Prop :=
  ∀ s a s' log, P s → x s = .ok a s' →
    ∃ events, y (s.withLog log) = .ok a (s'.withLog (log ++ events)) ∧ Q a s' events

namespace Records

variable {P P' : RunState α σ β → Prop} {x : Run α σ β τ} {y : Run α (Logged α σ β) β τ}
  {Q Q' : τ → RunState α σ β → List (EngineEvent α β) → Prop}

theorem mono (h : Records P x y Q) (hP : ∀ s, P' s → P s)
    (hQ : ∀ a s events, Q a s events → Q' a s events) : Records P' x y Q' := by
  intro s a s' log hs hx
  obtain ⟨events, hy, hevents⟩ := h s a s' log (hP s hs) hx
  exact ⟨events, hy, hQ a s' events hevents⟩

theorem lift (h : Lifts RunState.withLog x y) (hx : Ensures P x fun a s => Q a s []) :
    Records P x y Q := by
  intro s a s' log hs hxs
  refine ⟨[], ?_, hx s a s' hs hxs⟩
  rw [List.append_nil]
  exact h s a s' log hxs

theorem bind {f : τ → Run α σ β ρ} {g : τ → Run α (Logged α σ β) β ρ}
    {R : ρ → RunState α σ β → List (EngineEvent α β) → Prop} (hx : Records P x y Q)
    (hf : ∀ a before, Records (fun s => Q a s before) (f a) (g a)
      fun b s events => R b s (before ++ events)) : Records P (x >>= f) (y >>= g) R := by
  intro s b s' log hs hb
  obtain ⟨a, t, hat, hbt⟩ := exists_of_bind_ok hb
  obtain ⟨before, hy, hbefore⟩ := hx s a t log hs hat
  obtain ⟨events, hg, hevents⟩ := hf a before t b s' (log ++ before) hbefore hbt
  refine ⟨before ++ events, ?_, hevents⟩
  rw [bind_of_ok hy, hg, List.append_assoc]

theorem lift_bind {f : τ → Run α σ β ρ} {g : τ → Run α (Logged α σ β) β ρ}
    {S : τ → RunState α σ β → Prop} {R : ρ → RunState α σ β → List (EngineEvent α β) → Prop}
    (h : Lifts RunState.withLog x y) (hx : Ensures P x S)
    (hf : ∀ a, Records (S a) (f a) (g a) R) : Records P (x >>= f) (y >>= g) R := by
  refine bind (Q := fun a s events => S a s ∧ events = []) (lift h ?_) fun a before => ?_
  · exact hx.mono (fun _ hs => hs) fun _ _ ha => ⟨ha, rfl⟩
  · rintro s b s' log ⟨hs, rfl⟩ hb
    exact hf a s b s' log hs hb

theorem get_bind {f : RunState α σ β → Run α σ β τ}
    {g : RunState α (Logged α σ β) β → Run α (Logged α σ β) β τ}
    (h : ∀ t log, Records P (f t) (g (t.withLog log)) Q) :
    Records P (get >>= f) (get >>= g) Q :=
  fun s a s' log hs hx => h s log s a s' log hs hx

theorem ite {c : Prop} [Decidable c] {x' : Run α σ β τ} {y' : Run α (Logged α σ β) β τ}
    (h : c → Records P x y Q) (h' : ¬ c → Records P x' y' Q) :
    Records P (if c then x else x') (if c then y else y') Q := by
  by_cases hc : c
  · rw [if_pos hc, if_pos hc]
    exact h hc
  · rw [if_neg hc, if_neg hc]
    exact h' hc

theorem discard {R : RunState α σ β → List (EngineEvent α β) → Prop}
    (h : Records P x y fun _ => R) : Records P (discard x) (discard y) fun _ => R := by
  rw [discard_eq_bind, discard_eq_bind]
  refine h.bind fun _ before => lift (Lifts.pure _) (Ensures.pure fun s hs => ?_)
  rwa [List.append_nil]

/-- The state at the start may be given a name, so that what holds of it can be kept apart. -/
theorem fix (h : ∀ t, P t → Records (fun s => s = t) x y Q) : Records P x y Q :=
  fun s a s' log hs hx => h s hs s a s' log rfl hx

theorem work {w : Work α σ β τ} (event : β → EngineEvent α β) :
    Records P (work w) (work (Engine.noting w event)) fun _ s events =>
      events = [event s.basis] := by
  rintro ⟨world, basis, context⟩ a s' log - hs
  unfold Run.work at hs
  dsimp only at hs
  split at hs
  · rename_i world' basis' hw
    cases hs
    refine ⟨[event basis'], ?_, rfl⟩
    change Run.work (Engine.noting w event) ⟨(world, log), basis, context⟩ = _
    unfold Run.work Engine.noting
    dsimp only
    rw [hw]
    rfl
  · cases hs

theorem traced [Scalar α] (label : String) {w : Work α σ β τ} (event : β → EngineEvent α β) :
    Records P (traced label w) (traced label (Engine.noting w event)) fun _ s events =>
      events = [event s.basis] := by
  intro s a s' log hs h
  unfold Run.traced at h
  split at h
  · rename_i t hw
    cases h
    obtain ⟨events, hy, rfl⟩ := work (P := P) event s a t log hs hw
    refine ⟨_, ?_, rfl⟩
    unfold Run.traced
    rw [hy]
    rfl
  · cases h

end Records

end Run

end EmbeddingAttack
