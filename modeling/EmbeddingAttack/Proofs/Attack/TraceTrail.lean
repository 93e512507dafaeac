import EmbeddingAttack.Proofs.Attack.TraceCounts
import EmbeddingAttack.Proofs.Attack.WholeRun

/-!
# What a run records

The loop records each change of its phase, each tour and each search under a label.  Labels of
different kinds differ, although they share one table.  A round has one of four outcomes, each with
its own labels and its own work of the engine.
-/

namespace EmbeddingAttack

variable {α σ β τ ρ : Type}

/-! ## Labels -/

/-- What the loop records: a change of phase, a tour, which may be a jumping one, or a search. -/
inductive TraceLabel where
  | state (phase : Phase)
  | tour (jumping : Bool) (blocksize : Nat)
  | search (length : Nat)
deriving DecidableEq

theorem Phase.name_injective : Function.Injective Phase.name := by
  intro a b h
  cases a <;> cases b <;> first | rfl | exact absurd h (by decide)

namespace TraceLabel

/-- The label in the statistics. -/
def text : TraceLabel → String
  | state phase => "state-" ++ phase.name
  | tour false blocksize => "bkz-" ++ toString blocksize
  | tour true blocksize => "jump-bkz-" ++ toString blocksize
  | search length => "search-" ++ toString length

@[simp] def isTour : TraceLabel → Bool
  | tour .. => true
  | _ => false

@[simp] def isSearch : TraceLabel → Bool
  | search _ => true
  | _ => false

theorem text_injective : Function.Injective text := by
  intro a b h
  have hchars := congrArg String.toList h
  have hnat {n k : Nat} (h : Nat.toDigits 10 n = Nat.toDigits 10 k) : n = k := by
    rw [← Nat.ofDigitChars_ten_toDigits (n := n), h, Nat.ofDigitChars_ten_toDigits]
  rcases a with a | ⟨_ | _, a⟩ | a <;> rcases b with b | ⟨_ | _, b⟩ | b <;>
    simp [text] at hchars
  · rw [Phase.name_injective (String.toList_inj.mp hchars)]
  · rw [hnat hchars]
  · rw [hnat hchars]
  · rw [hnat hchars]

end TraceLabel

/-- Whether a label is that of a tour. -/
def isTourLabel (label : String) : Bool :=
  label.startsWith "bkz-" || label.startsWith "jump-bkz-"

/-- Whether a label is that of a search. -/
def isSearchLabel (label : String) : Bool :=
  label.startsWith "search-"

namespace TraceLabel

theorem isTourLabel_text (label : TraceLabel) : isTourLabel label.text = label.isTour := by
  rw [Bool.eq_iff_iff]
  unfold isTourLabel
  rw [Bool.or_eq_true, String.startsWith_string_iff, String.startsWith_string_iff]
  rcases label with phase | ⟨_ | _, blocksize⟩ | length <;> simp [text]

theorem isSearchLabel_text (label : TraceLabel) : isSearchLabel label.text = label.isSearch := by
  rw [Bool.eq_iff_iff]
  unfold isSearchLabel
  rw [String.startsWith_string_iff]
  rcases label with phase | ⟨_ | _, blocksize⟩ | length <;> simp [text]

theorem exists_text_tourOrder (p : AttackParameters α) (target : α) (blocksize : Nat) :
    ∃ jumping, (p.tourOrder target blocksize).2 = (tour jumping blocksize).text := by
  unfold AttackParameters.tourOrder
  split
  · exact ⟨false, rfl⟩
  · exact ⟨true, rfl⟩

end TraceLabel

/-! ## What a part of a run records -/

namespace RunState

/-- The statistics and the work listed. -/
def told (s : RunState α (Logged α σ β) β) : Tracer α × List (EngineEvent α β) :=
  (s.context.tracer, s.world.2)

/-- The labels recorded and the work listed so far. -/
def Tells (trail : List TraceLabel) (events : List (EngineEvent α β))
    (s : RunState α (Logged α σ β) β) : Prop :=
  s.context.tracer.Counts (trail.map TraceLabel.text) ∧ s.world.2 = events

end RunState

theorem Lookahead.conserves_simulate [Scalar α] (E : Engine α σ β) (ahead : Lookahead α)
    (blocksizes : List Nat) (timings : TimingTable α) (previous : Nat) (profile : Profile α)
    (extraTime : α) :
    Conserves (fun s : Logged α σ β => s.2)
      (simulate E.recorded ahead blocksizes timings previous profile extraTime) := by
  induction blocksizes generalizing timings previous profile extraTime with
  | nil => exact Conserves.pure _
  | cons b rest ih =>
      have hsimulate : Conserves (fun s : Logged α σ β => s.2)
          (E.recorded.simulate profile b ahead.tours) := by
        rintro ⟨world, log⟩
        unfold Engine.recorded Engine.alongside
        dsimp only
        cases E.simulate profile b ahead.tours world <;> rfl
      unfold simulate
      apply hsimulate.bind
      intro expected
      split
      · apply (Conserves.ofExcept _).bind
        intro dimension
        exact (ih _ _ _ _).bind fun tail => Conserves.pure _
      · exact Conserves.throw _

namespace Run

open RunState

variable {trail : List TraceLabel} {events : List (EngineEvent α β)}

theorem tells_of_conserves {x : Run α (Logged α σ β) β τ} (h : Conserves told x) :
    Ensures (Tells trail events) x fun _ => Tells trail events := by
  intro s a s' hs hx
  obtain ⟨htracer, hlog⟩ := Prod.mk.inj (h.ensures (told s) s a s' rfl hx)
  exact ⟨htracer ▸ hs.1, hlog.trans hs.2⟩

/-- A step that leaves what is told as it is. -/
theorem tells_skip {x : Run α (Logged α σ β) β τ} {f : τ → Run α (Logged α σ β) β ρ}
    {Q : ρ → RunState α (Logged α σ β) β → Prop} (hx : Conserves told x)
    (hf : ∀ a, Ensures (Tells trail events) (f a) Q) : Ensures (Tells trail events) (x >>= f) Q :=
  (tells_of_conserves hx).bind hf

theorem conserves_inWorld {w : EStateM (Failure α) (Logged α σ β) τ}
    (h : Conserves (fun s : Logged α σ β => s.2) w) :
    Conserves told (inWorld w : Run α (Logged α σ β) β τ) := by
  rintro ⟨world, basis, context⟩
  have hworld := h world
  unfold inWorld
  dsimp only
  cases hw : w world with
  | ok a world' =>
      rw [hw] at hworld
      exact congrArg (Prod.mk context.tracer) hworld
  | error e world' =>
      rw [hw] at hworld
      exact congrArg (Prod.mk context.tracer) hworld

theorem conserves_now (clock : Clock α σ) :
    Conserves told (now (loggedClock clock) : Run α (Logged α σ β) β α) :=
  conserves_inWorld fun _ => rfl

theorem conserves_modifyContext {f : RunContext α → RunContext α}
    (h : ∀ c, (f c).tracer = c.tracer) :
    Conserves told (modifyContext f : Run α (Logged α σ β) β Unit) :=
  fun s => congrArg (·, s.world.2) (h s.context)

theorem tells_work {w : Work α σ β τ} (event : β → EngineEvent α β) :
    Ensures (Tells trail events) (work (Engine.noting w event))
      fun _ s => ∃ basis, Tells trail (events ++ [event basis]) s := by
  rintro ⟨⟨world, log⟩, basis, context⟩ a s' ⟨hcounts, rfl⟩ h
  unfold work Engine.noting at h
  dsimp only at h
  cases hw : w (world, basis) with
  | ok x s =>
      rw [hw] at h
      cases h
      exact ⟨_, hcounts, rfl⟩
  | error e s =>
      rw [hw] at h
      cases h

variable [Scalar α]

theorem tells_traced {label : String} {recorded : TraceLabel} (hlabel : label = recorded.text)
    {w : Work α σ β τ} (event : EngineEvent α β) :
    Ensures (Tells trail events) (traced label (Engine.noting w fun _ => event))
      fun _ => Tells (trail ++ [recorded]) (events ++ [event]) := by
  intro s a s' hs h
  unfold traced at h
  split at h
  · rename_i t hw
    cases h
    obtain ⟨-, hcounts, hlog⟩ := tells_work (fun _ => event) s a t hs hw
    refine ⟨?_, hlog⟩
    rw [List.map_append, hlabel]
    exact hcounts.count _
  · cases h

theorem tells_count (recorded : TraceLabel) :
    Ensures (Tells trail events)
      (modifyContext (·.trace (Tracer.count recorded.text)) : Run α (Logged α σ β) β Unit)
      fun _ => Tells (trail ++ [recorded]) events := by
  apply Ensures.modify
  rintro s ⟨hcounts, hlog⟩
  refine ⟨?_, hlog⟩
  rw [List.map_append]
  exact hcounts.count _

theorem tells_note (label measure : String) (value : α) :
    Ensures (Tells trail events)
      (modifyContext (·.trace (Tracer.note label measure value)) : Run α (Logged α σ β) β Unit)
      fun _ => Tells trail events :=
  Ensures.modify fun _ hs => ⟨hs.1.note _ _ _, hs.2⟩

end Run

namespace AttackLoop

open RunState

variable [Scalar α] (loop : AttackLoop α σ β) {trail : List TraceLabel}
  {events : List (EngineEvent α β)}

/-- What entering a phase records. -/
def entering (progress : Progress) (phase : Phase) : List TraceLabel :=
  if progress.phase = phase then [] else [.state phase]

theorem tells_enter (progress : Progress) (phase : Phase) :
    Ensures (Tells trail events) (enter progress phase : Run α (Logged α σ β) β Progress)
      fun q s => Tells (trail ++ entering progress phase) events s ∧
        q = { progress with phase } := by
  unfold enter entering
  split
  · rename_i hphase
    apply Ensures.pure
    intro s hs
    rw [List.append_nil, ← hphase]
    exact ⟨hs, rfl⟩
  · refine Ensures.bind (Run.tells_count (.state phase)) fun _ => ?_
    exact Ensures.pure fun s hs => ⟨hs, rfl⟩

theorem conserves_profile : Conserves told loop.recorded.profile :=
  Conserves.get.bind fun _ => Conserves.ofExcept _

theorem conserves_goalReached : Conserves told loop.recorded.goalReached :=
  Conserves.get.bind fun _ => (Conserves.ofExcept _).bind fun _ => Conserves.pure _

theorem conserves_evaluate (blocksize : Nat) (reductionTime : α) :
    Conserves told (loop.recorded.evaluate blocksize reductionTime) := by
  unfold evaluate
  dsimp only
  apply loop.conserves_profile.bind
  intro profile
  apply (Conserves.ofExcept _).bind
  intro needed
  split
  · exact Conserves.pure none
  apply (Conserves.ofExcept _).bind
  intro upcoming
  apply Conserves.get.bind
  intro s
  apply (Run.conserves_inWorld (Lookahead.conserves_simulate loop.engine _ _ _ _ _ _)).bind
  intro steps
  split
  · exact Conserves.pure none
  · exact Conserves.pure _

theorem tells_clean : Ensures (Tells trail events) (Run.work loop.recorded.engine.clean)
    fun _ s => ∃ basis, Tells trail (events ++ [.clean basis]) s :=
  Run.tells_work .clean

theorem tells_reduce (blocksize : Nat) :
    Ensures (Tells trail events) (loop.recorded.reduce blocksize) fun _ s =>
      ∃ jumping order basis,
        Tells (trail ++ [.tour jumping blocksize]) (events ++ [.tour order, .clean basis]) s ∧
          order.blocksize = blocksize := by
  let ordered := loop.parameters.tourOrder loop.targetNorm blocksize
  obtain ⟨jumping, hlabel⟩ :=
    TraceLabel.exists_text_tourOrder loop.parameters loop.targetNorm blocksize
  have hclean (time : α) : Ensures
      (Tells (trail ++ [.tour jumping blocksize]) (events ++ [.tour ordered.1]))
      (Run.work loop.recorded.engine.clean >>= fun _ =>
        (pure time : Run α (Logged α σ β) β α)) fun _ s =>
      ∃ jumping order basis,
        Tells (trail ++ [.tour jumping blocksize]) (events ++ [.tour order, .clean basis]) s ∧
          order.blocksize = blocksize := by
    refine Ensures.bind loop.tells_clean fun _ => Ensures.pure ?_
    rintro s ⟨basis, hs⟩
    rw [List.append_assoc] at hs
    exact ⟨jumping, ordered.1, basis, hs, blocksize_tourOrder _ _ _⟩
  unfold reduce
  dsimp only
  refine Run.tells_skip (Run.conserves_now loop.clock) fun start => ?_
  refine Ensures.bind (Run.tells_traced hlabel (.tour ordered.1)) fun _ => ?_
  refine Run.tells_skip (Run.conserves_now loop.clock) fun reductionStop => ?_
  refine Run.tells_skip Conserves.get fun t => ?_
  refine Run.tells_skip (Run.conserves_now loop.clock) fun tourStop => ?_
  refine Run.tells_skip (Run.conserves_modifyContext fun _ => rfl) fun _ => ?_
  split
  · refine Run.tells_skip loop.conserves_profile fun profile => ?_
    exact Ensures.bind (Run.tells_note _ _ _) fun _ => hclean _
  · exact hclean _

theorem tells_search (window : Window) (goal : α) :
    Ensures (Tells trail events) (loop.recorded.search window goal) fun _ s => ∃ basis,
      Tells (trail ++ [.search window.length])
        (events ++ [.search window goal, .clean basis]) s := by
  have hsearch : Ensures (Tells trail events)
      (Run.traced s!"search-{window.length}" (loop.recorded.engine.search window goal))
      fun _ => Tells (trail ++ [.search window.length]) (events ++ [.search window goal]) := by
    have hlabel : s!"search-{window.length}" = (TraceLabel.search window.length).text := rfl
    exact Run.tells_traced hlabel (.search window goal)
  have hclean : Ensures
      (Tells (trail ++ [.search window.length]) (events ++ [.search window goal]))
      (do
        Run.work loop.recorded.engine.clean
        let now ← Run.now loop.recorded.clock
        Run.modifyContext (·.resetReduction now) : Run α (Logged α σ β) β Unit) fun _ s => ∃ basis,
      Tells (trail ++ [.search window.length])
        (events ++ [.search window goal, .clean basis]) s := by
    refine Ensures.bind loop.tells_clean fun _ => Ensures.exists_left fun basis => ?_
    refine Run.tells_skip (Run.conserves_now loop.clock) fun now => ?_
    apply Ensures.modify
    rintro s ⟨hcounts, hlog⟩
    rw [List.append_assoc] at hlog
    exact ⟨basis, hcounts, hlog⟩
  unfold search
  dsimp only
  refine Ensures.bind (Ensures.discard hsearch) fun _ => ?_
  split
  · exact Run.tells_skip loop.conserves_profile.discard fun _ => hclean
  · exact hclean

/-- A round from one progress to another, with what it records and what the engine does in it. -/
inductive RoundTold (blocksize : Nat) (p : Progress) :
    Progress → List TraceLabel → List (EngineEvent α β) → Prop
  | solvedByTour (jumping : Bool) (order : TourOrder α) (basis : β) :
      order.blocksize = blocksize →
      RoundTold blocksize p { p with phase := .done, tours := p.tours + 1 }
        (entering p .reduce ++ [.tour jumping blocksize, .state .done]) [.tour order, .clean basis]
  | unsearched (jumping : Bool) (order : TourOrder α) (basis : β) :
      order.blocksize = blocksize →
      RoundTold blocksize p { p with phase := .evaluate, tours := p.tours + 1 }
        (entering p .reduce ++ [.tour jumping blocksize, .state .evaluate])
        [.tour order, .clean basis]
  | solvedBySearch (jumping : Bool) (order : TourOrder α) (basis : β) (window : Window) (goal : α)
      (searched : β) :
      order.blocksize = blocksize →
      RoundTold blocksize p
        { p with phase := .done, tours := p.tours + 1, searches := p.searches + 1 }
        (entering p .reduce ++ [.tour jumping blocksize, .state .evaluate, .state .search,
          .search window.length, .state .done])
        [.tour order, .clean basis, .search window goal, .clean searched]
  | searched (jumping : Bool) (order : TourOrder α) (basis : β) (window : Window) (goal : α)
      (searched : β) :
      order.blocksize = blocksize →
      RoundTold blocksize p
        { p with phase := .search, tours := p.tours + 1, searches := p.searches + 1 }
        (entering p .reduce ++ [.tour jumping blocksize, .state .evaluate, .state .search,
          .search window.length])
        [.tour order, .clean basis, .search window goal, .clean searched]

theorem tells_round (blocksize : Nat) (p : Progress) :
    Ensures (Tells trail events) (loop.recorded.round blocksize p) fun q s =>
      ∃ more work, RoundTold blocksize p q more work ∧
        Tells (trail ++ more) (events ++ work) s := by
  unfold round
  dsimp only
  refine Ensures.bind (tells_enter p .reduce) fun progress => ?_
  refine Ensures.assume fun hprogress => ?_
  subst hprogress
  refine Ensures.bind (loop.tells_reduce blocksize) fun reductionTime => ?_
  refine Ensures.exists_left fun jumping => ?_
  refine Ensures.exists_left fun order => ?_
  refine Ensures.exists_left fun basis => Ensures.assume fun horder => ?_
  refine Run.tells_skip loop.conserves_goalReached fun reached => ?_
  split
  · refine (tells_enter _ .done).mono (fun _ hs => hs) ?_
    rintro q s ⟨hs, rfl⟩
    refine ⟨_, _, .solvedByTour jumping order basis horder, ?_⟩
    simpa [entering] using hs
  refine Ensures.bind (tells_enter _ .evaluate) fun progress => ?_
  refine Ensures.assume fun hprogress => ?_
  subst hprogress
  refine Run.tells_skip (loop.conserves_evaluate blocksize reductionTime) fun found => ?_
  cases found with
  | none =>
      refine Ensures.pure fun s hs => ?_
      refine ⟨_, _, .unsearched jumping order basis horder, ?_⟩
      simpa [entering] using hs
  | some found =>
      obtain ⟨window, goal⟩ := found
      dsimp only
      refine Ensures.bind (tells_enter _ .search) fun progress => ?_
      refine Ensures.assume fun hprogress => ?_
      subst hprogress
      refine Ensures.bind (loop.tells_search window goal) fun _ => ?_
      refine Ensures.exists_left fun searched => ?_
      refine Run.tells_skip loop.conserves_goalReached fun reached => ?_
      split
      · refine (tells_enter _ .done).mono (fun _ hs => hs) ?_
        rintro q s ⟨hs, rfl⟩
        refine ⟨_, _, .solvedBySearch jumping order basis window goal searched horder, ?_⟩
        simpa [entering] using hs
      · refine Ensures.pure fun s hs => ?_
        refine ⟨_, _, .searched jumping order basis window goal searched horder, ?_⟩
        simpa [entering] using hs

end AttackLoop

end EmbeddingAttack
