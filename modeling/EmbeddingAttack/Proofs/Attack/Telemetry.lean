import EmbeddingAttack.Proofs.Attack.Soundness
import EmbeddingAttack.Proofs.Engine.InStep

/-!
# Telemetry

An attack decides by profiles, readings of the clock and its parameters, but never by its
statistics, and what it does for them it could leave out.  So two attacks that differ in their
telemetry give an engine the same orders and have the same result, as long as the engine can show a
profile of each of its bases: a verbose attack asks for more profiles, and fails where it gets none.
What an attack logs is no part of its run, so that the clock does not notice it.
-/

namespace EmbeddingAttack

variable {α σ σ' β τ : Type}

/-! ## What an engine is ordered to do -/

section Orders

variable [Scalar α]

/-- An order to an engine, with all that the engine is handed. -/
inductive EngineOrder (α β : Type) [Scalar α] where
  | load (basis : SomeLatticeBasis α)
  | tour (order : TourOrder α) (basis : β)
  | search (window : Window) (goal : α) (basis : β)
  | simulate (profile : Profile α) (blocksize tours : Nat)
  | clean (basis : β)

/-- A world beside the orders so far, the latest last. -/
abbrev Observed (α σ β : Type) [Scalar α] :=
  σ × List (EngineOrder α β)

namespace Engine

/-- Lists an order and carries it out, whether it succeeds or fails. -/
def obeying (order : EngineOrder α β) (w : EStateM (Failure α) σ τ) :
    EStateM (Failure α) (Observed α σ β) τ := fun (world, orders) =>
  match w world with
  | .ok x world => .ok x (world, orders ++ [order])
  | .error e world => .error e (world, orders ++ [order])

/-- Lists an order with the basis that it is about, and carries it out. -/
def obeyingOn (order : β → EngineOrder α β) (w : Work α σ β τ) : Work α (Observed α σ β) β τ :=
  fun ((world, orders), basis) => beside w ((world, orders ++ [order basis]), basis)

/-- The same engine with a list of its orders. -/
def observed (E : Engine α σ β) : Engine α (Observed α σ β) β where
  load basis := obeying (.load basis) (E.load basis)
  tour order := obeyingOn (.tour order) (E.tour order)
  search window goal := obeyingOn (.search window goal) (E.search window goal)
  simulate profile blocksize tours :=
    obeying (.simulate profile blocksize tours) (E.simulate profile blocksize tours)
  clean := obeyingOn .clean E.clean
  profile := E.profile
  firstLength := E.firstLength
  firstRow := E.firstRow

theorem inStep_obeying (order : EngineOrder α β) (w : EStateM (Failure α) σ τ) :
    EmbeddingAttack.InStep (fun world t => world = t.1) w (obeying order w) Eq := by
  rintro world ⟨_, orders⟩ rfl
  unfold obeying
  dsimp only
  cases w world with
  | ok a world' => exact .ok rfl rfl
  | error e world' => exact .error rfl

theorem inStep_obeyingOn (order : β → EngineOrder α β) (w : Work α σ β τ) :
    EmbeddingAttack.InStep (Beside fun world t => world = t.1) w (obeyingOn order w) Eq := by
  rintro ⟨world, basis⟩ ⟨⟨_, orders⟩, _⟩ ⟨rfl, rfl⟩
  unfold obeyingOn beside
  dsimp only
  cases w (world, basis) with
  | ok a s => exact .ok rfl ⟨rfl, rfl⟩
  | error e s => exact .error ⟨rfl, rfl⟩

theorem inStep_observed (E : Engine α σ β) : E.InStep (fun world t => world = t.1) E.observed where
  load _ := inStep_obeying _ _
  tour _ := inStep_obeyingOn _ _
  search _ _ := inStep_obeyingOn _ _
  simulate _ _ _ := inStep_obeying _ _
  clean := inStep_obeyingOn _ _
  profile := rfl
  firstLength := rfl
  firstRow := rfl

end Engine

/-- The clock of a world, beside orders. -/
def Clock.observed (clock : Clock α σ) : Clock α (Observed α σ β) := fun (world, orders) =>
  ((clock world).1, ((clock world).2, orders))

theorem Clock.inStep_observed (clock : Clock α σ) :
    clock.InStep (fun world t => world = t.1) (clock.observed (β := β)) := by
  rintro _ ⟨world, orders⟩ rfl
  exact ⟨rfl, rfl⟩

end Orders

/-- The same parameters with other telemetry. -/
def AttackParameters.withTelemetry (p : AttackParameters α) (dummyTracer verbose : Bool) :
    AttackParameters α :=
  { p with dummyTracer, verbose }

/-- The same attack with other telemetry. -/
def Attack.withTelemetry (A : Attack α) (dummyTracer verbose : Bool) : Attack α :=
  { A with parameters := A.parameters.withTelemetry dummyTracer verbose }

variable [Scalar α] {W : σ → σ' → Prop}

/-! ## The loop -/

namespace AttackLoop

/-- The same loop with another engine, another clock and other telemetry. -/
def retold (loop : AttackLoop α σ β) (engine : Engine α σ' β) (clock : Clock α σ')
    (dummyTracer verbose : Bool) : AttackLoop α σ' β :=
  ⟨engine, clock, loop.parameters.withTelemetry dummyTracer verbose, loop.schedule,
    loop.targetNorm⟩

theorem inStep_enter (progress : Progress) (phase : Phase) :
    InStep (RunState.SameButTrace W) (enter progress phase : Run α σ β Progress)
      (enter progress phase : Run α σ' β Progress) Eq := by
  unfold enter
  apply InStep.ite
  · exact fun _ => InStep.pure rfl
  · intro _
    exact (Run.inStep_trace _).bind_eq fun _ => InStep.pure rfl

theorem onlyTraces_profile (loop : AttackLoop α σ β)
    (hprofile : ∀ basis, ∃ p, loop.engine.profile basis = .ok p) :
    Run.OnlyTraces loop.profile := by
  intro s
  obtain ⟨p, hp⟩ := hprofile s.basis
  refine ⟨p, s.context.tracer, ?_⟩
  have hget : (get : Run α σ β _) s = .ok s s := rfl
  unfold profile
  rw [bind_of_ok hget, hp]
  rfl

variable {loop : AttackLoop α σ β} {engine' : Engine α σ' β} {clock' : Clock α σ'}
  {dummy verbose : Bool}

section

variable (hengine : loop.engine.InStep W engine')

include hengine

theorem inStep_profile :
    InStep (RunState.SameButTrace W) loop.profile
      (loop.retold engine' clock' dummy verbose).profile Eq := by
  apply InStep.get_bind
  intro s t hst
  change InStep _ _ (ofExcept (engine'.profile t.basis)) _
  rw [hengine.profile, hst.basis]
  exact InStep.ofExcept _

theorem inStep_goalReached :
    InStep (RunState.SameButTrace W) loop.goalReached
      (loop.retold engine' clock' dummy verbose).goalReached Eq := by
  apply InStep.get_bind
  intro s t hst
  change InStep _ _ (ofExcept (engine'.firstLength t.basis) >>= _) _
  rw [hengine.firstLength, hst.basis]
  exact (InStep.ofExcept _).bind_eq fun length => InStep.pure rfl

theorem inStep_evaluate (blocksize : Nat) (reductionTime : α) :
    InStep (RunState.SameButTrace W) (loop.evaluate blocksize reductionTime)
      ((loop.retold engine' clock' dummy verbose).evaluate blocksize reductionTime) Eq := by
  unfold evaluate
  dsimp only
  apply InStep.bind_eq (inStep_profile hengine)
  intro profile
  apply InStep.bind_eq (InStep.ofExcept _)
  intro needed
  apply InStep.ite
  · exact fun _ => InStep.pure rfl
  intro _
  apply InStep.bind_eq (InStep.ofExcept _)
  intro upcoming
  apply InStep.get_bind
  intro s t hst
  obtain ⟨tracer, hcontext⟩ := hst.context
  rw [hcontext]
  apply InStep.bind_eq (Run.inStep_inWorld (Lookahead.inStep_simulate hengine _ _ _ _ _ _))
  intro steps
  apply InStep.ite
  · exact fun _ => InStep.pure rfl
  · exact fun _ => InStep.pure rfl

variable (hclock : loop.clock.InStep W clock')
  (hprofile : ∀ basis, ∃ p, loop.engine.profile basis = .ok p)

include hclock hprofile

theorem inStep_reduce (blocksize : Nat) :
    InStep (RunState.SameButTrace W) (loop.reduce blocksize)
      ((loop.retold engine' clock' dummy verbose).reduce blocksize) Eq := by
  unfold reduce
  dsimp only
  apply InStep.bind_eq (Run.inStep_now hclock)
  intro start
  apply InStep.bind_eq (Run.inStep_traced _ (hengine.tour _))
  intro _
  apply InStep.bind_eq (Run.inStep_now hclock)
  intro reductionStop
  apply InStep.get_bind
  intro s t hst
  obtain ⟨tracer, hcontext⟩ := hst.context
  rw [hcontext]
  apply InStep.bind_eq (Run.inStep_now hclock)
  intro tourStop
  apply InStep.bind_eq (Run.inStep_modifyContext fun _ _ => ⟨_, rfl⟩)
  intro _
  have hclean (time : α) : InStep (RunState.SameButTrace W)
      (Run.work loop.engine.clean >>= fun _ => (pure time : Run α σ β α))
      (Run.work engine'.clean >>= fun _ => pure time) Eq :=
    (Run.inStep_work hengine.clean).bind_eq fun _ => InStep.pure rfl
  have hleft := loop.onlyTraces_profile hprofile
  have hright := (loop.retold engine' clock' dummy verbose).onlyTraces_profile
    (hengine.profile ▸ hprofile)
  refine Run.inStep_reports (fun h => ?_) (fun h => ?_) (hclean _)
  · apply Run.inStep_skip_left hleft
    intro p
    exact Run.inStep_skip_left (Run.onlyTraces_trace _) fun _ => h
  · apply Run.inStep_skip_right hright
    intro p
    exact Run.inStep_skip_right (Run.onlyTraces_trace _) fun _ => h

theorem inStep_search (window : Window) (goal : α) :
    InStep (RunState.SameButTrace W) (loop.search window goal)
      ((loop.retold engine' clock' dummy verbose).search window goal) Eq := by
  unfold search
  dsimp only
  apply InStep.bind_eq (InStep.discard (Run.inStep_traced _ (hengine.search window goal)))
  intro _
  have hclean : InStep (RunState.SameButTrace W)
      (do
        Run.work loop.engine.clean
        let now ← Run.now loop.clock
        Run.modifyContext (·.resetReduction now) : Run α σ β Unit)
      (do
        Run.work engine'.clean
        let now ← Run.now clock'
        Run.modifyContext (·.resetReduction now)) Eq := by
    apply InStep.bind_eq (Run.inStep_work hengine.clean)
    intro _
    apply InStep.bind_eq (Run.inStep_now hclock)
    intro now
    exact Run.inStep_modifyContext fun _ _ => ⟨_, rfl⟩
  have hleft := (loop.onlyTraces_profile hprofile).discard
  have hright := ((loop.retold engine' clock' dummy verbose).onlyTraces_profile
    (hengine.profile ▸ hprofile)).discard
  exact Run.inStep_reports (fun h => Run.inStep_skip_left hleft fun _ => h)
    (fun h => Run.inStep_skip_right hright fun _ => h) hclean

theorem inStep_round (blocksize : Nat) (progress : Progress) :
    InStep (RunState.SameButTrace W) (loop.round blocksize progress)
      ((loop.retold engine' clock' dummy verbose).round blocksize progress) Eq := by
  unfold round
  dsimp only
  apply InStep.bind_eq (inStep_enter progress .reduce)
  intro progress
  apply InStep.bind_eq (inStep_reduce hengine hclock hprofile blocksize)
  intro reductionTime
  apply InStep.bind_eq (inStep_goalReached hengine)
  intro reached
  apply InStep.ite
  · exact fun _ => inStep_enter _ .done
  intro _
  apply InStep.bind_eq (inStep_enter _ .evaluate)
  intro progress
  apply InStep.bind_eq (inStep_evaluate hengine blocksize reductionTime)
  intro found
  cases found with
  | none => exact InStep.pure rfl
  | some found =>
      obtain ⟨window, goal⟩ := found
      dsimp only
      apply InStep.bind_eq (inStep_enter progress .search)
      intro progress
      apply InStep.bind_eq (inStep_search hengine hclock hprofile window goal)
      intro _
      apply InStep.bind_eq (inStep_goalReached hengine)
      intro reached
      apply InStep.ite
      · exact fun _ => inStep_enter _ .done
      · exact fun _ => InStep.pure rfl

theorem inStep_rounds (blocksize tours : Nat) (progress : Progress) :
    InStep (RunState.SameButTrace W) (loop.rounds blocksize tours progress)
      ((loop.retold engine' clock' dummy verbose).rounds blocksize tours progress) Eq := by
  induction tours generalizing progress with
  | zero => exact InStep.pure rfl
  | succ tours ih =>
      unfold rounds
      apply InStep.bind_eq (inStep_round hengine hclock hprofile blocksize progress)
      intro progress
      apply InStep.ite
      · exact fun _ => InStep.pure rfl
      · exact fun _ => ih progress

theorem inStep_walk (blocksizes : List Nat) (progress : Progress) :
    InStep (RunState.SameButTrace W) (loop.walk blocksizes progress)
      ((loop.retold engine' clock' dummy verbose).walk blocksizes progress) Eq := by
  induction blocksizes generalizing progress with
  | nil => exact InStep.pure rfl
  | cons blocksize rest ih =>
      unfold walk
      apply InStep.bind_eq (inStep_rounds hengine hclock hprofile blocksize _ _)
      intro progress
      apply InStep.ite
      · exact fun _ => InStep.pure rfl
      · exact fun _ => ih progress

theorem inStep_drive :
    InStep (RunState.SameButTrace W) loop.drive
      (loop.retold engine' clock' dummy verbose).drive Eq := by
  unfold drive
  apply InStep.bind_eq (inStep_walk hengine hclock hprofile _ {})
  intro progress
  apply InStep.ite
  · exact fun _ => InStep.pure rfl
  · exact fun _ => inStep_enter progress .exhausted

end

end AttackLoop

/-! ## Whole runs -/

/-- The same outcome but for its statistics. -/
def Outcome.SameButTrace (o o' : Outcome α) : Prop :=
  ∃ trace, o' = { o with trace }

namespace Attack

/-- The same end of a walk but for its statistics. -/
def Finish.SameButTrace (f f' : Finish α) : Prop :=
  ∃ trace, f' = { f with trace }

section

variable (A : Attack α) {engine : Engine α σ β} {engine' : Engine α σ' β} {clock : Clock α σ}
  {clock' : Clock α σ'} (hengine : engine.InStep W engine') (hclock : clock.InStep W clock')
  (hprofile : ∀ basis, ∃ p, engine.profile basis = .ok p) (dummy verbose : Bool)
  (context : RunContext α) (tracer : Tracer α)

include hengine hclock hprofile

theorem inStep_pursue (setup : Preparation α) :
    InStep W (A.pursue engine clock setup context)
      ((A.withTelemetry dummy verbose).pursue engine' clock' setup { context with tracer })
      Finish.SameButTrace := by
  let loop : AttackLoop α σ β := ⟨engine, clock, A.parameters, setup.schedule, setup.targetNorm⟩
  unfold pursue
  apply InStep.bind_eq (hengine.load setup.basis)
  intro basis
  extract_lets walk walk'
  have hwalk : InStep (RunState.SameButTrace W) walk walk' Finish.SameButTrace := by
    have hfinish (progress : Progress) (wallSeconds : α) :
        InStep (RunState.SameButTrace W)
          (do
            let s ← get
            return ⟨progress, wallSeconds, engine.firstRow s.basis, s.context.tracer.report?⟩ :
            Run α σ β (Finish α))
          (do
            let s ← get
            return ⟨progress, wallSeconds, engine'.firstRow s.basis, s.context.tracer.report?⟩ :
            Run α σ' β (Finish α)) Finish.SameButTrace := by
      apply InStep.get_bind
      intro s t hst
      rw [hengine.firstRow, hst.basis]
      exact InStep.pure ⟨_, rfl⟩
    apply InStep.bind_eq (Run.inStep_work hengine.clean)
    intro _
    have hprofiles : InStep (RunState.SameButTrace W) loop.profile
        (loop.retold engine' clock' dummy verbose).profile Eq :=
      AttackLoop.inStep_profile hengine
    apply InStep.bind_eq hprofiles
    intro profile
    apply InStep.bind_eq (Run.inStep_trace _)
    intro _
    apply InStep.bind_eq (Run.inStep_now hclock)
    intro now
    apply InStep.bind_eq (Run.inStep_modifyContext fun _ _ => ⟨_, rfl⟩)
    intro _
    have hdrives : InStep (RunState.SameButTrace W) loop.drive
        (loop.retold engine' clock' dummy verbose).drive Eq :=
      AttackLoop.inStep_drive hengine hclock hprofile
    apply InStep.bind_eq hdrives
    intro progress
    apply InStep.ite
    · intro _
      apply InStep.bind_eq (Run.inStep_now hclock)
      intro now
      apply InStep.get_bind
      intro s t hst
      obtain ⟨earlier, hcontext⟩ := hst.context
      rw [hcontext]
      exact hfinish progress _
    · exact fun _ => hfinish progress 0
  intro world world' hworld
  have h := hwalk ⟨world, basis, context⟩ ⟨world', basis, { context with tracer }⟩
    ⟨hworld, rfl, tracer, rfl⟩
  dsimp only
  generalize walk ⟨world, basis, context⟩ = r at h
  generalize walk' ⟨world', basis, { context with tracer }⟩ = r' at h
  cases h with
  | ok hvalue hstate => exact .ok hvalue hstate.world
  | error hstate => exact .error hstate.world

theorem inStep_runWith (n seed : Nat) :
    InStep (Beside W) (A.runWith engine clock n seed context)
      ((A.withTelemetry dummy verbose).runWith engine' clock' n seed { context with tracer })
      Outcome.SameButTrace := by
  unfold runWith
  change InStep _ _ (ofExcept (A.prepare n seed) >>= _) _
  apply InStep.bind_eq (InStep.ofExcept _)
  intro setup
  apply InStep.bind (Session.inStep_inWorld
    (inStep_pursue A hengine hclock hprofile dummy verbose context tracer setup))
  rintro finish _ ⟨trace, rfl⟩
  dsimp only
  apply InStep.guard
  intro _
  apply InStep.bind_eq (Session.inStep_onFiles _)
  intro artifact
  exact InStep.pure ⟨_, rfl⟩

end

/-- What an attack orders an engine to do. -/
def orders (A : Attack α) (engine : Engine α σ β) (clock : Clock α σ) (n seed : Nat)
    (context : RunContext α) (world : σ) (files : FileTree) : List (EngineOrder α β) :=
  (finalState (A.runWith engine.observed clock.observed n seed context ((world, []), files))).1.2

/-- Telemetry does not influence an attack.  With other telemetry and other statistics to start
with, it gives an engine the same orders in the same order, has the same outcome but for its
statistics or fails alike, and leaves the same world and the same files.  Nor does it matter whether
the orders are listed. -/
theorem runWith_ignores_telemetry (A : Attack α) (engine : Engine α σ β) (clock : Clock α σ)
    (hprofile : ∀ basis, ∃ p, engine.profile basis = .ok p) (n seed : Nat) (context : RunContext α)
    (tracer : Tracer α) (dummy verbose : Bool) (world : σ) (files : FileTree) :
    (A.withTelemetry dummy verbose).orders engine clock n seed { context with tracer } world files =
        A.orders engine clock n seed context world files ∧
      SameResult Eq Outcome.SameButTrace
        (A.runWith engine clock n seed context (world, files))
        ((A.withTelemetry dummy verbose).runWith engine clock n seed { context with tracer }
          (world, files)) ∧
      SameResult (Beside fun world observed => world = observed.1) Outcome.SameButTrace
        (A.runWith engine clock n seed context (world, files))
        (A.runWith engine.observed clock.observed n seed context ((world, []), files)) := by
  refine ⟨?_, ?_, ?_⟩
  · have h := A.inStep_runWith (.refl engine.observed) (.refl clock.observed) hprofile dummy verbose
      context tracer n seed ((world, []), files) ((world, []), files) ⟨rfl, rfl⟩
    exact (congrArg Prod.snd h.finalState.1).symm
  · have h := A.inStep_runWith (.refl engine) (.refl clock) hprofile dummy verbose context tracer
      n seed
    rw [beside_eq] at h
    exact h _ _ rfl
  · exact A.inStep_runWith engine.inStep_observed clock.inStep_observed hprofile
      A.parameters.dummyTracer A.parameters.verbose context context.tracer n seed _ _ ⟨rfl, rfl⟩

/-! ## A run that ends with its first search -/

def steadyProfile : Profile Fraction :=
  ⟨[31, 19, 19, 19, 19, 19], by decide, by decide +kernel⟩

/-- Tours take four seconds and do not change the profile, and a search finds what it looks for in a
second.  A basis only says whether it is solved, and the world is the time. -/
def steadyEngine : Engine Fraction Nat Bool where
  load _ := pure false
  tour _ := modify fun (seconds, solved) => (seconds + 4, solved)
  search _ _ := do
    modify fun (seconds, _) => (seconds + 1, true)
    return ⟨none, true, true⟩
  simulate profile _ _ := pure profile
  clean := pure ()
  profile _ := .ok steadyProfile
  firstLength solved := .ok (if solved then 1 else 31)
  firstRow solved := [if solved then 1 else 0]

def steadyClock : Clock Fraction Nat := fun seconds =>
  ((seconds : Fraction), seconds)

theorem steadyRun_ignores_telemetry :
    let context : RunContext Fraction := .start .dummy 0
    let told : RunContext Fraction := { context with tracer := .start false "lwe" }
    let loud := smallAttack.withTelemetry false true
    (∀ basis, ∃ p, steadyEngine.profile basis = .ok p) ∧
      loud.orders steadyEngine steadyClock 1 0 told 0 (.empty ["home"]) =
        smallAttack.orders steadyEngine steadyClock 1 0 context 0 (.empty ["home"]) ∧
      (smallAttack.orders steadyEngine steadyClock 1 0 context 0 (.empty ["home"])).length = 8 ∧
      ∃ outcome outcome' stop,
        smallAttack.runWith steadyEngine steadyClock 1 0 context (0, .empty ["home"]) =
          .ok outcome stop ∧
        loud.runWith steadyEngine steadyClock 1 0 told (0, .empty ["home"]) = .ok outcome' stop ∧
        outcome.SameButTrace outcome' := by
  intro context told loud
  have hprofile : ∀ basis, ∃ p, steadyEngine.profile basis = .ok p := fun _ => ⟨steadyProfile, rfl⟩
  obtain ⟨horders, hresult, -⟩ := smallAttack.runWith_ignores_telemetry steadyEngine
    steadyClock hprofile 1 0 context (.start false "lwe") false true 0 (.empty ["home"])
  have hsucceeds : succeeds (smallAttack.runWith steadyEngine steadyClock 1 0 context
      (0, .empty ["home"])) = true := by decide +kernel
  obtain ⟨outcome, stop, hrun⟩ := exists_of_succeeds hsucceeds
  refine ⟨hprofile, horders, by decide +kernel, ?_⟩
  rw [hrun] at hresult
  generalize hloud : loud.runWith steadyEngine steadyClock 1 0 told (0, .empty ["home"]) = result
    at hresult
  cases hresult with
  | ok hsame hstop =>
      subst hstop
      exact ⟨outcome, _, stop, hrun, rfl, hsame⟩

end Attack

end EmbeddingAttack
