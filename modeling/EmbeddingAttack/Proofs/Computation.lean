import Mathlib.Tactic.Common

/-!
# Computations with a state and failures

Four things to say about a computation whose changes remain where it fails: that it conserves some
value of the state, whether it succeeds or fails, what its success ensures, what holds where it
fails, and that it succeeds.  All pass through the parts of a computation, so that a statement about
an algorithm follows its program text.
-/

namespace EmbeddingAttack

variable {ε σ τ ρ ι : Type}

instance decidableEqResult [DecidableEq ε] [DecidableEq σ] [DecidableEq τ] :
    DecidableEq (EStateM.Result ε σ τ)
  | .ok a s, .ok b t =>
    decidable_of_iff (a = b ∧ s = t) (EStateM.Result.ok.injEq a s b t).symm.to_iff
  | .error e s, .error f t =>
    decidable_of_iff (e = f ∧ s = t) (EStateM.Result.error.injEq e s f t).symm.to_iff
  | .ok .., .error .. => isFalse nofun
  | .error .., .ok .. => isFalse nofun

/-- The state that a computation leaves, whether it succeeds or fails. -/
def finalState : EStateM.Result ε σ τ → σ
  | .ok _ s => s
  | .error _ s => s

theorem finalState_discard (x : EStateM ε σ τ) (s : σ) :
    finalState ((discard x : EStateM ε σ PUnit) s) = finalState (x s) := by
  change finalState (EStateM.map (fun _ => PUnit.unit) x s) = finalState (x s)
  unfold EStateM.map
  cases x s <;> rfl

/-- Whether a computation succeeded. -/
def succeeds : EStateM.Result ε σ τ → Bool
  | .ok _ _ => true
  | .error _ _ => false

/-- The value of a computation that succeeded. -/
def value? : EStateM.Result ε σ τ → Option τ
  | .ok a _ => some a
  | .error _ _ => none

theorem exists_of_value? {r : EStateM.Result ε σ τ} {a : τ} (h : value? r = some a) :
    ∃ s, r = .ok a s := by
  cases r with
  | ok b s =>
      cases h
      exact ⟨s, rfl⟩
  | error e s => cases h

theorem exists_of_succeeds {r : EStateM.Result ε σ τ} (h : succeeds r = true) :
    ∃ a s, r = .ok a s := by
  cases r with
  | ok a s => exact ⟨a, s, rfl⟩
  | error e s => cases h

/-- The computation does not change the value of `f`. -/
def Conserves (f : σ → ι) (x : EStateM ε σ τ) : Prop :=
  ∀ s, f (finalState (x s)) = f s

/-- From a state with `P`, each success has the property `Q`. -/
def Ensures (P : σ → Prop) (x : EStateM ε σ τ) (Q : τ → σ → Prop) : Prop :=
  ∀ s a s', P s → x s = .ok a s' → Q a s'

/-- From a state with `P`, each failure has the property `E`. -/
def Throws (P : σ → Prop) (x : EStateM ε σ τ) (E : ε → σ → Prop) : Prop :=
  ∀ s e s', P s → x s = .error e s' → E e s'

/-- From each state with `P`, the computation succeeds, with the property `Q`. -/
def Delivers (P : σ → Prop) (x : EStateM ε σ τ) (Q : τ → σ → Prop) : Prop :=
  ∀ s, P s → ∃ a s', x s = .ok a s' ∧ Q a s'

/-! ## Computations without a state -/

theorem bind_eq_ok {x : Except ε τ} {g : τ → Except ε ρ} {b : ρ} :
    x >>= g = .ok b ↔ ∃ a, x = .ok a ∧ g a = .ok b := by
  constructor
  · intro h
    cases x with
    | ok a => exact ⟨a, rfl, h⟩
    | error e => cases h
  · rintro ⟨a, rfl, h⟩
    exact h

theorem bind_eq_error {x : Except ε τ} {g : τ → Except ε ρ} {e : ε} :
    x >>= g = .error e ↔ x = .error e ∨ ∃ a, x = .ok a ∧ g a = .error e := by
  cases x with
  | error e' =>
      constructor
      · intro h
        cases h
        exact .inl rfl
      · rintro (h | ⟨a, h, -⟩)
        · cases h
          rfl
        · cases h
  | ok a =>
      constructor
      · intro h
        exact .inr ⟨a, rfl, h⟩
      · rintro (h | ⟨b, h, hb⟩)
        · cases h
        · cases h
          exact hb

theorem exists_eq_ok {x : Except ε τ} (h : x.isOk = true) : ∃ a, x = .ok a := by
  cases x with
  | ok a => exact ⟨a, rfl⟩
  | error e => cases h

/-- A check that ends the computation where it fails. -/
theorem guard_eq_ok {c : Prop} [Decidable c] {e : ε} {k : PUnit → Except ε τ} {b : τ} :
    (if c then MonadExcept.throw e >>= k else k ⟨⟩) = .ok b ↔ ¬ c ∧ k ⟨⟩ = .ok b := by
  by_cases hc : c
  · rw [if_pos hc]
    exact ⟨(nomatch ·), fun h => absurd hc h.1⟩
  · rw [if_neg hc]
    exact ⟨fun h => ⟨hc, h⟩, fun h => h.2⟩

/-- Each failure has the property `E`. -/
def FailsOnly (E : ε → Prop) (x : Except ε τ) : Prop :=
  ∀ e, x = .error e → E e

namespace FailsOnly

variable {E : ε → Prop}

theorem pure (a : τ) : FailsOnly E (pure a : Except ε τ) := by
  intro e h
  cases h

theorem throw {e : ε} (h : E e) : FailsOnly E (throw e : Except ε τ) := by
  intro e' h'
  cases h'
  exact h

theorem bind {x : Except ε τ} {g : τ → Except ε ρ} (hx : FailsOnly E x)
    (hg : ∀ a, x = .ok a → FailsOnly E (g a)) : FailsOnly E (x >>= g) := by
  intro e h
  rcases bind_eq_error.mp h with hfails | ⟨a, ha, hrest⟩
  · exact hx e hfails
  · exact hg a ha e hrest

theorem guard {c : Prop} [Decidable c] {e : ε} {k : PUnit → Except ε τ} (he : c → E e)
    (hk : FailsOnly E (k ⟨⟩)) : FailsOnly E (if c then MonadExcept.throw e >>= k else k ⟨⟩) := by
  by_cases hc : c
  · rw [if_pos hc]
    exact (throw (he hc)).bind fun a ha => nomatch ha
  · rw [if_neg hc]
    exact hk

end FailsOnly

/-! ## Computations with a state -/

theorem bind_of_ok {x : EStateM ε σ τ} {g : τ → EStateM ε σ ρ} {s s' : σ} {a : τ}
    (h : x s = .ok a s') : (x >>= g) s = g a s' := by
  change EStateM.bind x g s = _
  unfold EStateM.bind
  rw [h]

theorem bind_of_error {x : EStateM ε σ τ} {g : τ → EStateM ε σ ρ} {s s' : σ} {e : ε}
    (h : x s = .error e s') : (x >>= g) s = .error e s' := by
  change EStateM.bind x g s = _
  unfold EStateM.bind
  rw [h]

theorem discard_eq_bind (x : EStateM ε σ τ) :
    (discard x : EStateM ε σ PUnit) = x >>= fun _ => pure ⟨⟩ :=
  rfl

theorem exists_of_bind_ok {x : EStateM ε σ τ} {g : τ → EStateM ε σ ρ} {s s' : σ} {b : ρ}
    (h : (x >>= g) s = .ok b s') : ∃ a t, x s = .ok a t ∧ g a t = .ok b s' := by
  change EStateM.bind x g s = _ at h
  unfold EStateM.bind at h
  cases hx : x s with
  | ok a t =>
      rw [hx] at h
      exact ⟨a, t, rfl, h⟩
  | error e t =>
      rw [hx] at h
      cases h

theorem exists_of_bind_error {x : EStateM ε σ τ} {g : τ → EStateM ε σ ρ} {s s' : σ} {e : ε}
    (h : (x >>= g) s = .error e s') :
    x s = .error e s' ∨ ∃ a t, x s = .ok a t ∧ g a t = .error e s' := by
  cases hx : x s with
  | ok a t =>
      rw [bind_of_ok hx] at h
      exact .inr ⟨a, t, rfl, h⟩
  | error e' t =>
      rw [bind_of_error hx] at h
      cases h
      exact .inl rfl

namespace Conserves

variable {f : σ → ι}

theorem pure (a : τ) : Conserves f (pure a : EStateM ε σ τ) := fun _ => rfl

theorem throw (e : ε) : Conserves f (throw e : EStateM ε σ τ) := fun _ => rfl

theorem get : Conserves f (get : EStateM ε σ σ) := fun _ => rfl

theorem modify {g : σ → σ} (h : ∀ s, f (g s) = f s) :
    Conserves f (modify g : EStateM ε σ PUnit) := fun s => h s

theorem bind {x : EStateM ε σ τ} {g : τ → EStateM ε σ ρ} (hx : Conserves f x)
    (hg : ∀ a, Conserves f (g a)) : Conserves f (x >>= g) := by
  intro s
  have hs := hx s
  change f (finalState (EStateM.bind x g s)) = f s
  unfold EStateM.bind
  cases h : x s with
  | ok a s' =>
      rw [h] at hs
      exact (hg a s').trans hs
  | error e s' =>
      rw [h] at hs
      exact hs

theorem comp {κ : Type} {x : EStateM ε σ τ} (g : ι → κ) (hx : Conserves f x) :
    Conserves (fun s => g (f s)) x :=
  fun s => congrArg g (hx s)

theorem ofExcept (x : Except ε τ) : Conserves f (ofExcept x : EStateM ε σ τ) := by
  cases x with
  | ok a => exact pure a
  | error e => exact throw e

theorem discard {x : EStateM ε σ τ} (hx : Conserves f x) :
    Conserves f (discard x : EStateM ε σ PUnit) :=
  fun s => (congrArg f (finalState_discard x s)).trans (hx s)

/-- A check that ends the computation where it fails. -/
theorem guard {c : Prop} [Decidable c] {e : ε} {k : PUnit → EStateM ε σ τ}
    (hk : ¬ c → Conserves f (k ⟨⟩)) :
    Conserves f (if c then MonadExcept.throw e >>= k else k ⟨⟩) := by
  split
  · intro s
    rfl
  · exact hk ‹_›

end Conserves

namespace Ensures

variable {P P' : σ → Prop} {Q Q' : τ → σ → Prop}

theorem mono {x : EStateM ε σ τ} (h : Ensures P x Q) (hP : ∀ s, P' s → P s)
    (hQ : ∀ a s, Q a s → Q' a s) : Ensures P' x Q' :=
  fun s a s' hs hx => hQ a s' (h s a s' (hP s hs) hx)

theorem trivial (x : EStateM ε σ τ) : Ensures P x fun _ _ => True :=
  fun _ _ _ _ _ => True.intro

theorem and {x : EStateM ε σ τ} (h : Ensures P x Q) (h' : Ensures P' x Q') :
    Ensures (fun s => P s ∧ P' s) x fun a s => Q a s ∧ Q' a s :=
  fun s a s' hs hx => ⟨h s a s' hs.1 hx, h' s a s' hs.2 hx⟩

/-- What does not depend on the state may be assumed. -/
theorem assume {p : Prop} {x : EStateM ε σ τ} (h : p → Ensures P x Q) :
    Ensures (fun s => P s ∧ p) x Q :=
  fun s a s' hs hx => h hs.2 s a s' hs.1 hx

theorem exists_left {P : ι → σ → Prop} {x : EStateM ε σ τ} (h : ∀ i, Ensures (P i) x Q) :
    Ensures (fun s => ∃ i, P i s) x Q :=
  fun s a s' hs hx => hs.elim fun i hi => h i s a s' hi hx

theorem pure {a : τ} (h : ∀ s, P s → Q a s) : Ensures P (pure a : EStateM ε σ τ) Q := by
  intro s b s' hs hx
  cases hx
  exact h s hs

theorem throw (e : ε) : Ensures P (throw e : EStateM ε σ τ) Q := by
  intro s a s' _ hx
  cases hx

theorem get : Ensures P (get : EStateM ε σ σ) fun a s => a = s ∧ P s := by
  intro s a s' hs hx
  cases hx
  exact ⟨rfl, hs⟩

/-- Reading the state keeps what holds of it. -/
theorem read : Ensures P (MonadState.get : EStateM ε σ σ) fun _ => P :=
  fun s a s' hs hx => (get s a s' hs hx).2

theorem modify {g : σ → σ} {R : PUnit → σ → Prop} (h : ∀ s, P s → R ⟨⟩ (g s)) :
    Ensures P (modify g : EStateM ε σ PUnit) R := by
  intro s a s' hs hx
  cases hx
  exact h s hs

theorem bind {x : EStateM ε σ τ} {g : τ → EStateM ε σ ρ} {R : ρ → σ → Prop}
    (hx : Ensures P x Q) (hg : ∀ a, Ensures (Q a) (g a) R) : Ensures P (x >>= g) R := by
  intro s b s' hs hb
  obtain ⟨a, t, hat, hbt⟩ := exists_of_bind_ok hb
  exact hg a t b s' (hx s a t hs hat) hbt

theorem get_bind {g : σ → EStateM ε σ τ} (h : ∀ s, P s → Ensures (· = s) (g s) Q) :
    Ensures P ((MonadState.get : EStateM ε σ σ) >>= g) Q :=
  fun s b s' hs hb => h s hs s b s' rfl hb

theorem discard {x : EStateM ε σ τ} {R : σ → Prop} (hx : Ensures P x fun _ => R) :
    Ensures P (discard x : EStateM ε σ PUnit) fun _ => R := by
  intro s u s' hs hu
  change EStateM.map (fun _ => PUnit.unit) x s = _ at hu
  unfold EStateM.map at hu
  cases h : x s with
  | ok a t =>
      rw [h] at hu
      cases hu
      exact hx s a _ hs h
  | error e t =>
      rw [h] at hu
      cases hu

theorem ofExcept {x : Except ε τ} (h : ∀ a s, x = .ok a → P s → Q a s) :
    Ensures P (ofExcept x : EStateM ε σ τ) Q := by
  cases x with
  | ok a => exact pure fun s hs => h a s rfl hs
  | error e => exact throw e

/-- A check that ends the computation where it fails. -/
theorem guard {c : Prop} [Decidable c] {e : ε} {k : PUnit → EStateM ε σ τ}
    (hk : ¬ c → Ensures P (k ⟨⟩) Q) :
    Ensures P (if c then MonadExcept.throw e >>= k else k ⟨⟩) Q := by
  split
  · intro s a s' _ hx
    cases hx
  · exact hk ‹_›

end Ensures

namespace Throws

variable {P P' : σ → Prop} {E E' : ε → σ → Prop}

theorem mono {x : EStateM ε σ τ} (h : Throws P x E) (hP : ∀ s, P' s → P s)
    (hE : ∀ e s, E e s → E' e s) : Throws P' x E' :=
  fun s e s' hs hx => hE e s' (h s e s' (hP s hs) hx)

theorem pure (a : τ) : Throws P (pure a : EStateM ε σ τ) E := by
  intro s e s' _ hx
  cases hx

theorem throw {e : ε} (h : ∀ s, P s → E e s) : Throws P (throw e : EStateM ε σ τ) E := by
  intro s e' s' hs hx
  cases hx
  exact h s hs

theorem modify (g : σ → σ) : Throws P (modify g : EStateM ε σ PUnit) E := by
  intro s e s' _ hx
  cases hx

theorem bind {Q : τ → σ → Prop} {x : EStateM ε σ τ} {g : τ → EStateM ε σ ρ} (hx : Throws P x E)
    (hok : Ensures P x Q) (hg : ∀ a, Throws (Q a) (g a) E) : Throws P (x >>= g) E := by
  intro s e s' hs he
  rcases exists_of_bind_error he with hfail | ⟨a, t, hat, hfail⟩
  · exact hx s e s' hs hfail
  · exact hg a t e s' (hok s a t hs hat) hfail

/-- What holds of every state holds of those with `P`. -/
theorem of_forall {x : EStateM ε σ τ} (h : Throws (fun _ => True) x E) : Throws P x E :=
  h.mono (fun _ _ => trivial) fun _ _ h => h

/-- A part that may end in any state is followed by one that fails from any state alike. -/
theorem bind_of_forall {x : EStateM ε σ τ} {g : τ → EStateM ε σ ρ} (hx : Throws P x E)
    (hg : ∀ a, Throws (fun _ => True) (g a) E) : Throws P (x >>= g) E :=
  hx.bind (Ensures.trivial x) hg

theorem get_bind {g : σ → EStateM ε σ ρ} (h : ∀ s, P s → Throws (· = s) (g s) E) :
    Throws P ((MonadState.get : EStateM ε σ σ) >>= g) E :=
  fun s e s' hs he => h s hs s e s' rfl he

theorem discard {x : EStateM ε σ τ} (hx : Throws P x E) :
    Throws P (discard x : EStateM ε σ PUnit) E := by
  rw [discard_eq_bind]
  exact hx.bind_of_forall fun _ => pure _

/-- A result without a state, at the start of a computation. -/
theorem ofExcept_bind {x : Except ε τ} {g : τ → EStateM ε σ ρ}
    (he : ∀ e, x = .error e → ∀ s, P s → E e s) (hg : ∀ a, x = .ok a → Throws P (g a) E) :
    Throws P ((MonadExcept.ofExcept x : EStateM ε σ τ) >>= g) E := by
  cases x with
  | ok a => exact hg a rfl
  | error e => exact throw (he e rfl)

/-- A check that ends the computation where it fails. -/
theorem guard {c : Prop} [Decidable c] {e : ε} {k : PUnit → EStateM ε σ τ}
    (he : c → ∀ s, P s → E e s) (hk : ¬ c → Throws P (k ⟨⟩) E) :
    Throws P (if c then MonadExcept.throw e >>= k else k ⟨⟩) E := by
  split
  · rename_i hc
    intro s e' s' hs hx
    cases hx
    exact he hc s hs
  · exact hk ‹_›

end Throws

namespace Delivers

variable {P : σ → Prop} {Q : τ → σ → Prop}

theorem pure {a : τ} (h : ∀ s, P s → Q a s) : Delivers P (pure a : EStateM ε σ τ) Q :=
  fun s hs => ⟨a, s, rfl, h s hs⟩

theorem bind {x : EStateM ε σ τ} {g : τ → EStateM ε σ ρ} {R : ρ → σ → Prop}
    (hx : Delivers P x Q) (hg : ∀ a, Delivers (Q a) (g a) R) : Delivers P (x >>= g) R := by
  intro s hs
  obtain ⟨a, t, hat, ha⟩ := hx s hs
  obtain ⟨b, s', hb, hR⟩ := hg a t ha
  exact ⟨b, s', (bind_of_ok hat).trans hb, hR⟩

theorem get_bind {g : σ → EStateM ε σ τ} (h : ∀ s, P s → Delivers (· = s) (g s) Q) :
    Delivers P ((MonadState.get : EStateM ε σ σ) >>= g) Q :=
  fun s hs => h s hs s rfl

theorem ofExcept_bind {x : Except ε ρ} {a : ρ} {g : ρ → EStateM ε σ τ} (hx : x = .ok a)
    (h : Delivers P (g a) Q) : Delivers P ((ofExcept x : EStateM ε σ ρ) >>= g) Q := by
  subst hx
  exact fun s hs => h s hs

/-- A check that is passed. -/
theorem guard {c : Prop} [Decidable c] {e : ε} {k : PUnit → EStateM ε σ τ} (hc : ¬ c)
    (hk : Delivers P (k ⟨⟩) Q) :
    Delivers P (if c then MonadExcept.throw e >>= k else k ⟨⟩) Q := by
  rw [if_neg hc]
  exact hk

end Delivers

/-- A conserved value is known after the computation where it is known before. -/
theorem Conserves.ensures {f : σ → ι} {x : EStateM ε σ τ} (h : Conserves f x) (c : ι) :
    Ensures (fun s => f s = c) x fun _ s => f s = c := by
  intro s a s' hs hx
  have hf := h s
  rw [hx] at hf
  exact hf.trans hs

/-! ## Translated failures -/

section Adapt

variable {ε' τ' : Type} {f : ε → ε'}

theorem adaptExcept_bind (x : EStateM ε σ τ) (g : τ → EStateM ε σ ρ) :
    (x >>= g).adaptExcept f = x.adaptExcept f >>= fun a => (g a).adaptExcept f := by
  funext s
  cases hx : x s with
  | ok a s' =>
      have hadapted : x.adaptExcept f s = .ok a s' := by
        simp only [EStateM.adaptExcept, hx]
      rw [bind_of_ok hadapted]
      simp only [EStateM.adaptExcept, bind_of_ok hx]
  | error e s' =>
      have hadapted : x.adaptExcept f s = .error (f e) s' := by
        simp only [EStateM.adaptExcept, hx]
      rw [bind_of_error hadapted]
      simp only [EStateM.adaptExcept, bind_of_error hx]

/-- A result that is translated along with its failures, at the start of a computation. -/
theorem ofExcept_bind_adaptExcept {x : Except ε τ} {y : Except ε' τ'} {k : τ → τ'}
    {g : τ → EStateM ε σ ρ} {g' : τ' → EStateM ε' σ ρ} (hy : y = (x.map k).mapError f)
    (hg : ∀ a, g' (k a) = (g a).adaptExcept f) :
    ofExcept y >>= g' = (ofExcept x >>= g).adaptExcept f := by
  cases x with
  | error e =>
      subst hy
      rfl
  | ok a =>
      subst hy
      exact hg a

end Adapt

end EmbeddingAttack
