import EmbeddingAttack.Attack.Outcome
import EmbeddingAttack.Proofs.Computation

/-!
# What a finished loop has reached

The loop asks for the squared length of the first row only right after a cleanup.  So what the
cleanup ensures of a basis holds when the goal is found reached, and still holds when the run ends:
nothing touches the basis in between.
-/

namespace EmbeddingAttack

variable {α σ β τ : Type} [Scalar α]

/-- Tours and searches keep `P`, and the cleanup ensures `Q` on top of it. -/
structure Engine.Keeps (E : Engine α σ β) (P Q : β → Prop) : Prop where
  weaken : ∀ basis, Q basis → P basis
  tour : ∀ order, Ensures (fun s => P s.2) (E.tour order) fun _ s => P s.2
  search : ∀ window goal, Ensures (fun s => P s.2) (E.search window goal) fun _ s => P s.2
  clean : Ensures (fun s => P s.2) E.clean fun _ s => Q s.2

namespace Run

variable {P Q : β → Prop}

omit [Scalar α] in
theorem ensures_work {w : Work α σ β τ} (h : Ensures (fun s => P s.2) w fun _ s => Q s.2) :
    Ensures (fun s => P s.basis) (work w) fun _ s => Q s.basis := by
  rintro ⟨world, basis, context⟩ x s' hs hx
  unfold work at hx
  dsimp only at hx
  split at hx
  · rename_i y world' basis' hw
    cases hx
    exact h (world, basis) x (world', basis') hs hw
  · cases hx

theorem ensures_traced {label : String} {w : Work α σ β τ}
    (h : Ensures (fun s => P s.2) w fun _ s => Q s.2) :
    Ensures (fun s => P s.basis) (traced label w) fun _ s => Q s.basis := by
  intro s x s' hs hx
  unfold traced at hx
  split at hx
  · rename_i y t hw
    cases hx
    exact ensures_work h s x t hs hw
  · cases hx

omit [Scalar α] in
theorem ensures_inWorld (P : β → Prop) (w : EStateM (Failure α) σ τ) :
    Ensures (fun s => P s.basis) (inWorld w) fun _ s => P s.basis := by
  rintro ⟨world, basis, context⟩ x s' hs hx
  unfold inWorld at hx
  dsimp only at hx
  split at hx
  · cases hx
    exact hs
  · cases hx

omit [Scalar α] in
theorem ensures_now (P : β → Prop) (clock : Clock α σ) :
    Ensures (fun s => P s.basis) (now clock) fun _ s => P s.basis :=
  ensures_inWorld P _

omit [Scalar α] in
theorem ensures_modifyContext (P : β → Prop) (f : RunContext α → RunContext α) :
    Ensures (fun s => P s.basis) (modifyContext f : Run α σ β Unit) fun _ s => P s.basis :=
  Ensures.modify fun _ hs => hs

end Run

namespace AttackLoop

variable {P Q : β → Prop} (loop : AttackLoop α σ β)

/-- The first row of the basis is short enough. -/
def Reached (basis : β) : Prop :=
  ∃ length, loop.engine.firstLength basis = .ok length ∧ length ≤ loop.targetNorm

/-- What holds where the loop stands: once it is done, the basis is one that the cleanup left, and
its first row is short enough. -/
def Settled (P Q : β → Prop) (progress : Progress) (basis : β) : Prop :=
  P basis ∧ (progress.phase = .done → Q basis ∧ loop.Reached basis)

omit [Scalar α] in
theorem blocksize_tourOrder (parameters : AttackParameters α) (target : α) (blocksize : Nat) :
    (parameters.tourOrder target blocksize).1.blocksize = blocksize := by
  unfold AttackParameters.tourOrder
  split <;> rfl

theorem ensures_enter (P : β → Prop) (progress : Progress) (phase : Phase) :
    Ensures (fun s => P s.basis) (enter progress phase : Run α σ β Progress)
      fun progress s => P s.basis ∧ progress.phase = phase := by
  unfold enter
  split
  · rename_i hphase
    exact Ensures.pure fun s hs => ⟨hs, hphase⟩
  · refine Ensures.bind (Run.ensures_modifyContext P _) fun _ => ?_
    exact Ensures.pure fun s hs => ⟨hs, rfl⟩

theorem ensures_profile (P : β → Prop) :
    Ensures (fun s => P s.basis) loop.profile fun _ s => P s.basis := by
  unfold profile
  refine Ensures.get.bind fun t => ?_
  exact Ensures.ofExcept fun _ s _ hs => hs.2

theorem ensures_goalReached (P : β → Prop) :
    Ensures (fun s => P s.basis) loop.goalReached
      fun reached s => P s.basis ∧ (reached = true → loop.Reached s.basis) := by
  unfold goalReached
  refine Ensures.get.bind fun t => ?_
  refine Ensures.bind (Q := fun length s =>
    P s.basis ∧ loop.engine.firstLength s.basis = .ok length) ?_ fun length => ?_
  · refine Ensures.ofExcept fun length s hlength hs => ?_
    obtain ⟨rfl, hs⟩ := hs
    exact ⟨hs, hlength⟩
  · exact Ensures.pure fun s hs => ⟨hs.1, fun h => ⟨length, hs.2, of_decide_eq_true h⟩⟩

theorem ensures_reduce (h : loop.engine.Keeps P Q) (blocksize : Nat) :
    Ensures (fun s => P s.basis) (loop.reduce blocksize) fun _ s => Q s.basis := by
  unfold reduce
  dsimp only
  refine Ensures.bind (Run.ensures_now P _) fun start => ?_
  refine Ensures.bind (Run.ensures_traced (h.tour _)) fun _ => ?_
  refine Ensures.bind (Run.ensures_now P _) fun reductionStop => ?_
  refine Ensures.bind (Q := fun _ s => P s.basis) ?_ fun t => ?_
  · exact Ensures.get.mono (fun _ hs => hs) fun _ _ hs => hs.2
  refine Ensures.bind (Run.ensures_now P _) fun tourStop => ?_
  refine Ensures.bind (Run.ensures_modifyContext P _) fun _ => ?_
  have hclean (time : α) : Ensures (fun s => P s.basis)
      (Run.work loop.engine.clean >>= fun _ => (pure time : Run α σ β α)) fun _ s => Q s.basis :=
    Ensures.bind (Run.ensures_work h.clean) fun _ => Ensures.pure fun _ hs => hs
  split
  · refine Ensures.bind (loop.ensures_profile P) fun p => ?_
    refine Ensures.bind (Run.ensures_modifyContext P _) fun _ => hclean _
  · exact hclean _

theorem ensures_search (h : loop.engine.Keeps P Q) (window : Window) (goal : α) :
    Ensures (fun s => P s.basis) (loop.search window goal) fun _ s => Q s.basis := by
  unfold search
  dsimp only
  refine Ensures.bind (Ensures.discard (Run.ensures_traced (h.search window goal))) fun _ => ?_
  have hclean : Ensures (fun s => P s.basis)
      (do
        Run.work loop.engine.clean
        let now ← Run.now loop.clock
        Run.modifyContext (·.resetReduction now) : Run α σ β Unit) fun _ s => Q s.basis := by
    refine Ensures.bind (Run.ensures_work h.clean) fun _ => ?_
    refine Ensures.bind (Run.ensures_now Q _) fun now => ?_
    exact Run.ensures_modifyContext Q _
  split
  · exact Ensures.bind (Ensures.discard (loop.ensures_profile P)) fun _ => hclean
  · exact hclean

theorem ensures_evaluate (P : β → Prop) (blocksize : Nat) (reductionTime : α) :
    Ensures (fun s => P s.basis) (loop.evaluate blocksize reductionTime) fun _ s => P s.basis := by
  have hpure (result : Option (Window × α)) : Ensures (fun s => P s.basis)
      (pure result : Run α σ β _) fun _ s => P s.basis :=
    Ensures.pure fun _ hs => hs
  unfold evaluate
  dsimp only
  refine Ensures.bind (loop.ensures_profile P) fun profile => ?_
  refine Ensures.bind (Q := fun _ s => P s.basis) ?_ fun needed => ?_
  · exact Ensures.ofExcept fun _ _ _ hs => hs
  split
  · exact hpure none
  refine Ensures.bind (Q := fun _ s => P s.basis) ?_ fun upcoming => ?_
  · exact Ensures.ofExcept fun _ _ _ hs => hs
  refine Ensures.bind (Q := fun _ s => P s.basis) ?_ fun s => ?_
  · exact Ensures.get.mono (fun _ hs => hs) fun _ _ hs => hs.2
  refine Ensures.bind (Run.ensures_inWorld P _) fun steps => ?_
  split
  · exact hpure none
  · exact hpure _

theorem ensures_round (h : loop.engine.Keeps P Q) (blocksize : Nat) (progress : Progress) :
    Ensures (fun s => P s.basis) (loop.round blocksize progress)
      fun progress s => loop.Settled P Q progress s.basis := by
  have hdone (progress : Progress) : Ensures (fun s => Q s.basis ∧ loop.Reached s.basis)
      (enter progress .done : Run α σ β Progress)
      fun progress s => loop.Settled P Q progress s.basis := by
    refine (ensures_enter (fun basis => Q basis ∧ loop.Reached basis) progress .done).mono
      (fun _ hs => hs) ?_
    exact fun progress s hs => ⟨h.weaken _ hs.1.1, fun _ => hs.1⟩
  have hopen (progress : Progress) (hphase : progress.phase ≠ .done) :
      Ensures (fun s => P s.basis) (pure progress : Run α σ β Progress)
        fun progress s => loop.Settled P Q progress s.basis :=
    Ensures.pure fun _ hs => ⟨hs, fun hdone => absurd hdone hphase⟩
  unfold round
  dsimp only
  refine Ensures.bind (ensures_enter P progress .reduce) fun progress => ?_
  refine Ensures.assume fun _ => ?_
  refine Ensures.bind (loop.ensures_reduce h blocksize) fun reductionTime => ?_
  refine Ensures.bind (loop.ensures_goalReached Q) fun reached => ?_
  split
  · rename_i hreached
    exact (hdone _).mono (fun _ hs => ⟨hs.1, hs.2 hreached⟩) fun _ _ hs => hs
  refine Ensures.mono (P := fun s => P s.basis) ?_ (fun s hs => h.weaken _ hs.1) fun _ _ hs => hs
  refine Ensures.bind (ensures_enter P _ .evaluate) fun progress => ?_
  refine Ensures.assume fun hevaluate => ?_
  refine Ensures.bind (loop.ensures_evaluate P blocksize reductionTime) fun found => ?_
  cases found with
  | none => exact hopen progress (by rw [hevaluate]; decide)
  | some found =>
      obtain ⟨window, goal⟩ := found
      dsimp only
      refine Ensures.bind (ensures_enter P progress .search) fun progress => ?_
      refine Ensures.assume fun hsearch => ?_
      refine Ensures.bind (loop.ensures_search h window goal) fun _ => ?_
      refine Ensures.bind (loop.ensures_goalReached Q) fun reached => ?_
      split
      · rename_i hreached
        exact (hdone _).mono (fun _ hs => ⟨hs.1, hs.2 hreached⟩) fun _ _ hs => hs
      · refine (hopen _ ?_).mono (fun s hs => h.weaken _ hs.1) fun _ _ hs => hs
        rw [hsearch]
        decide

theorem ensures_rounds (h : loop.engine.Keeps P Q) (blocksize tours : Nat) (progress : Progress) :
    Ensures (fun s => loop.Settled P Q progress s.basis) (loop.rounds blocksize tours progress)
      fun progress s => loop.Settled P Q progress s.basis := by
  induction tours generalizing progress with
  | zero => exact Ensures.pure fun _ hs => hs
  | succ tours ih =>
      unfold rounds
      refine Ensures.bind (Q := fun progress s => loop.Settled P Q progress s.basis) ?_
        fun progress => ?_
      · exact (loop.ensures_round h blocksize progress).mono (fun _ hs => hs.1) fun _ _ hs => hs
      · split
        · exact Ensures.pure fun _ hs => hs
        · exact ih progress

theorem ensures_walk (h : loop.engine.Keeps P Q) (blocksizes : List Nat) (progress : Progress) :
    Ensures (fun s => loop.Settled P Q progress s.basis) (loop.walk blocksizes progress)
      fun progress s => loop.Settled P Q progress s.basis := by
  induction blocksizes generalizing progress with
  | nil => exact Ensures.pure fun _ hs => hs
  | cons blocksize rest ih =>
      unfold walk
      refine Ensures.bind (Q := fun progress s => loop.Settled P Q progress s.basis) ?_
        fun progress => ?_
      · exact loop.ensures_rounds h blocksize _ { progress with lastBlocksize := blocksize }
      split
      · exact Ensures.pure fun _ hs => hs
      · exact ih progress

theorem ensures_drive (h : loop.engine.Keeps P Q) :
    Ensures (fun s => P s.basis) loop.drive fun progress s => loop.Settled P Q progress s.basis := by
  unfold drive
  refine Ensures.bind (Q := fun progress s => loop.Settled P Q progress s.basis) ?_
    fun progress => ?_
  · exact (loop.ensures_walk h _ _).mono (fun _ hs => ⟨hs, nofun⟩) fun _ _ hs => hs
  · split
    · exact Ensures.pure fun _ hs => hs
    · refine (ensures_enter P progress .exhausted).mono (fun _ hs => hs.1) fun progress s hs => ?_
      exact ⟨hs.1, fun hdone => by simp [hs.2] at hdone⟩

end AttackLoop

end EmbeddingAttack
