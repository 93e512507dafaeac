import EmbeddingAttack.Attack.Preparation
import EmbeddingAttack.Attack.Solution

/-!
# Running an attack

A run prepares the attack, hands the basis to an engine, walks the schedule, and writes the first
row of the basis as the solution once it is short enough.
-/

namespace EmbeddingAttack

/-- The report of a solved instance. -/
structure Outcome (α : Type) where
  parameters : InstanceParameters α
  prediction : Prediction
  finalBlocksize : Nat
  tours : Nat
  searches : Nat
  wallSeconds : α
  /-- The first row of the basis: the error vector, extended by a one, up to its sign. -/
  solution : List Int
  /-- The path of the solution file. -/
  artifact : String
  trace : Option (TraceReport α)

/-- A computation in the world of an engine that also changes files. -/
abbrev Session (α σ : Type) :=
  EStateM (Failure α) (σ × FileTree)

namespace Session

variable {α σ τ : Type}

/-- Runs a computation that only changes the world. -/
def inWorld (w : EStateM (Failure α) σ τ) : Session α σ τ := fun (world, files) =>
  match w world with
  | .ok x world => .ok x (world, files)
  | .error e world => .error e (world, files)

/-- Runs a computation that only changes files. -/
def onFiles (w : FileTree.Change α τ) : Session α σ τ := fun (world, files) =>
  match w files with
  | .ok x files => .ok x (world, files)
  | .error e files => .error e (world, files)

end Session

namespace Attack

variable {α σ β : Type} [Scalar α]

/-- What a finished walk leaves: where the loop stands, the time it took, the first row of the
basis and the statistics. -/
structure Finish (α : Type) where
  progress : Progress
  wallSeconds : α
  firstRow : List Int
  trace : Option (TraceReport α)

/-- Loads and cleans the prepared basis and walks the schedule.  The clock starts after the
cleanup.  Its last reading is taken for a solved instance only. -/
def pursue (A : Attack α) (engine : Engine α σ β) (clock : Clock α σ) (setup : Preparation α)
    (context : RunContext α) : EStateM (Failure α) σ (Finish α) := do
  let loop : AttackLoop α σ β :=
    ⟨engine, clock, A.parameters, setup.schedule, setup.targetNorm⟩
  let basis ← engine.load setup.basis
  let walk : Run α σ β (Finish α) := do
    Run.work engine.clean
    let slope := (← loop.profile).slope
    Run.modifyContext (·.trace (Tracer.note "lwe" "initial_slope" slope))
    let now ← Run.now clock
    Run.modifyContext (·.startClocks now)
    let progress ← loop.drive
    let wallSeconds ←
      if progress.phase = .done then
        let now ← Run.now clock
        pure ((← get).context.wallElapsed now)
      else pure 0
    let s ← get
    return ⟨progress, wallSeconds, engine.firstRow s.basis, s.context.tracer.report?⟩
  fun world =>
    match walk ⟨world, basis, context⟩ with
    | .ok x s => .ok x s.world
    | .error e s => .error e s.world

/-- Runs the attack on the instance for a dimension and a seed, with the given statistics. -/
def runWith (A : Attack α) (engine : Engine α σ β) (clock : Clock α σ) (n seed : Nat)
    (context : RunContext α) : Session α σ (Outcome α) := do
  let setup ← ofExcept (A.prepare n seed)
  let finish ← Session.inWorld (A.pursue engine clock setup context)
  let target := setup.parameters
  let progress := finish.progress
  if progress.phase ≠ .done then
    throw (.scheduleExhausted target.n target.alpha progress.lastBlocksize progress.tours)
  let artifact ← Session.onFiles <|
    Solution.write A.parameters.solutionDirectory target.n target.alpha finish.firstRow
  return {
    parameters := target
    prediction := setup.prediction
    finalBlocksize := progress.lastBlocksize
    tours := progress.tours
    searches := progress.searches
    wallSeconds := finish.wallSeconds
    solution := finish.firstRow
    artifact
    trace := finish.trace }

/-- Runs the attack with fresh statistics, as its parameters ask for. -/
def run (A : Attack α) (engine : Engine α σ β) (clock : Clock α σ) (n seed : Nat) :
    Session α σ (Outcome α) := do
  let now ← Session.inWorld fun world =>
    let (x, world) := clock world
    .ok x world
  A.runWith engine clock n seed (.start (.start A.parameters.dummyTracer "lwe") now)

end Attack

end EmbeddingAttack
