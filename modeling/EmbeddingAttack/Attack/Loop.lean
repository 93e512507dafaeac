import EmbeddingAttack.Attack.Lookahead
import EmbeddingAttack.Attack.Parameters
import EmbeddingAttack.Attack.RunContext
import EmbeddingAttack.Attack.Schedule

/-!
# The reduce-or-search loop

An attack walks the schedule of blocksizes one tour at a time.  After each tour it compares the
search dimension that the time spent so far can pay for with the dimension that the basis needs.
Where the search is affordable, and looking ahead does not promise a cheaper way through more
reduction, it searches a window at the end of the basis.  The loop ends when the first row of the
basis is short enough or the schedule is spent.
-/

namespace EmbeddingAttack

/-- What the loop is doing, or how it ended. -/
inductive Phase where
  | reduce
  | evaluate
  | search
  | done
  | exhausted
deriving DecidableEq, Repr

def Phase.name : Phase → String
  | .reduce => "reduce"
  | .evaluate => "evaluate"
  | .search => "search"
  | .done => "done"
  | .exhausted => "exhausted"

/-- Where the loop stands. -/
structure Progress where
  phase : Phase := .reduce
  lastBlocksize : Nat := 0
  tours : Nat := 0
  searches : Nat := 0
deriving DecidableEq, Repr

/-- The squared length up to which a vector is accepted as the error vector of an instance. -/
def targetNorm {α : Type} [Scalar α] (goalMargin alpha : α) (q : Int) (m : Nat) : α :=
  let sigma := alpha * (q : α)
  goalMargin * sigma * sigma * (m : α) + 1

namespace Window

variable {α : Type} [Scalar α]

/-- The first row of a search window: starting from the given row, the window is extended to the
front while the lattice that it spans is expected to have a vector shorter than the projection of
the target. -/
def extend (p : Profile α) (target : α) : (start : Nat) → Nat
  | 0 => 0
  | start + 1 =>
    let d := p.dimension
    if p.suffixGaussianHeuristic (start + 1) <
        target * ((d - (start + 1) : Nat) : α) / (d : α) then
      extend p target start
    else start + 1

/-- The window for a search that may enumerate `dimension` rows after a tour at a blocksize. -/
def forSearch (p : Profile α) (blocksize : Nat) (target : α) (dimension : Nat) : Window :=
  let start := extend p target (p.dimension - blocksize)
  let length := p.dimension - start
  ⟨start, length, length - dimension⟩

end Window

/-- The state of a run: that of the world, the basis, and the context. -/
structure RunState (α σ β : Type) where
  world : σ
  basis : β
  context : RunContext α

/-- A part of a run.  Where it fails, the changes made so far remain. -/
abbrev Run (α σ β : Type) :=
  EStateM (Failure α) (RunState α σ β)

namespace Run

variable {α σ β τ : Type}

def modifyContext (f : RunContext α → RunContext α) : Run α σ β Unit :=
  modify fun s => { s with context := f s.context }

/-- Lets an engine work. -/
def work (w : Work α σ β τ) : Run α σ β τ := fun ⟨world, basis, context⟩ =>
  match w (world, basis) with
  | .ok x (world, basis) => .ok x ⟨world, basis, context⟩
  | .error e (world, basis) => .error e ⟨world, basis, context⟩

/-- Runs a computation that only changes the world. -/
def inWorld (w : EStateM (Failure α) σ τ) : Run α σ β τ := fun ⟨world, basis, context⟩ =>
  match w world with
  | .ok x world => .ok x ⟨world, basis, context⟩
  | .error e world => .error e ⟨world, basis, context⟩

/-- Runs an engine on a basis and counts the call, whether it succeeds or not. -/
def traced [Scalar α] (label : String) (w : Work α σ β τ) : Run α σ β τ := fun s =>
  match work w s with
  | .ok x s => .ok x { s with context := s.context.trace (Tracer.count label) }
  | .error e s => .error e { s with context := s.context.trace (Tracer.count label) }

def now (clock : Clock α σ) : Run α σ β α :=
  inWorld fun world =>
    let (x, world) := clock world
    .ok x world

end Run

/-- What stays fixed in a loop: the engine, the clock, the parameters of the attack, the schedule
and the squared length to reach. -/
structure AttackLoop (α σ β : Type) [Scalar α] where
  engine : Engine α σ β
  clock : Clock α σ
  parameters : AttackParameters α
  schedule : Schedule
  targetNorm : α

namespace AttackParameters

variable {α : Type} [Scalar α]

/-- The cost model of searches. -/
def costModel (p : AttackParameters α) : CostModel α :=
  .of p.costExponent p.costOffset p.threads

/-- The order for a tour at a blocksize, and its label in the statistics. -/
def tourOrder (p : AttackParameters α) (target : α) (blocksize : Nat) : TourOrder α × String :=
  if blocksize < p.enumerationCrossover then (.enumeration blocksize, s!"bkz-{blocksize}")
  else
    (.jumping blocksize p.jump p.extraFreeDimensions p.freeDimensions target,
      s!"jump-bkz-{blocksize}")

end AttackParameters

namespace AttackLoop

variable {α σ β : Type} [Scalar α]

def forecaster (loop : AttackLoop α σ β) : Forecaster α :=
  ⟨loop.parameters.costModel, loop.targetNorm, loop.parameters.goalMargin⟩

/-- Enters a phase.  Each change of phase is counted. -/
def enter (progress : Progress) (phase : Phase) : Run α σ β Progress :=
  if progress.phase = phase then pure progress
  else do
    Run.modifyContext (·.trace (Tracer.count s!"state-{phase.name}"))
    return { progress with phase }

def profile (loop : AttackLoop α σ β) : Run α σ β (Profile α) := do
  ofExcept (loop.engine.profile (← get).basis)

/-- Whether the first row of the basis is short enough. -/
def goalReached (loop : AttackLoop α σ β) : Run α σ β Bool := do
  let length ← ofExcept (loop.engine.firstLength (← get).basis)
  return decide (length ≤ loop.targetNorm)

/-- One tour at a blocksize, its time recorded, and the cleanup after it.  Returns the time of
reduction since the start or the last search, without the cleanup. -/
def reduce (loop : AttackLoop α σ β) (blocksize : Nat) : Run α σ β α := do
  let (order, label) := loop.parameters.tourOrder loop.targetNorm blocksize
  let start ← Run.now loop.clock
  Run.traced label (loop.engine.tour order)
  let reductionStop ← Run.now loop.clock
  let reductionTime := (← get).context.reductionElapsed reductionStop
  let tourStop ← Run.now loop.clock
  Run.modifyContext fun c =>
    { c with timings := c.timings.insert blocksize (tourStop - start) }
  if loop.parameters.verbose then
    let slope := (← loop.profile).slope
    Run.modifyContext (·.trace (Tracer.note label "slope" slope))
  Run.work loop.engine.clean
  return reductionTime

/-- One search, and the cleanup after it.  The time of reduction starts again. -/
def search (loop : AttackLoop α σ β) (window : Window) (goal : α) : Run α σ β Unit := do
  discard <| Run.traced s!"search-{window.length}" (loop.engine.search window goal)
  if loop.parameters.verbose then
    discard loop.profile
  Run.work loop.engine.clean
  let now ← Run.now loop.clock
  Run.modifyContext (·.resetReduction now)

/-- Decides after a tour whether to search now, given the time of reduction.  Returns the window
and the goal of the search. -/
def evaluate (loop : AttackLoop α σ β) (blocksize : Nat) (reductionTime : α) :
    Run α σ β (Option (Window × α)) := do
  let p := loop.parameters
  let attainable := loop.forecaster.attainable reductionTime p.searchTimeFactor
  let profile ← loop.profile
  let needed ← ofExcept (loop.forecaster.successDimension profile)
  if attainable ≤ needed + 1 then
    return none
  let ahead : Lookahead α := ⟨loop.forecaster, needed, 1⟩
  let upcoming ← ofExcept (loop.schedule.tryUpcoming blocksize p.lookaheadSteps)
  let timings := (← get).context.timings
  let steps ← Run.inWorld <| ahead.run loop.engine timings blocksize profile upcoming
  if moreReduction steps then
    return none
  let window := Window.forSearch profile blocksize loop.targetNorm
    (wrapSize (attainable + p.searchDimensionMargin))
  return some (window, loop.targetNorm * (window.length : α) / (profile.dimension : α))

/-- One tour at a blocksize, and a search where it is due. -/
def round (loop : AttackLoop α σ β) (blocksize : Nat) (progress : Progress) :
    Run α σ β Progress := do
  let progress ← enter progress .reduce
  let reductionTime ← loop.reduce blocksize
  let progress := { progress with tours := progress.tours + 1 }
  if ← loop.goalReached then
    enter progress .done
  else
    let progress ← enter progress .evaluate
    match ← loop.evaluate blocksize reductionTime with
    | none => return progress
    | some (window, goal) =>
      let progress ← enter progress .search
      loop.search window goal
      let progress := { progress with searches := progress.searches + 1 }
      if ← loop.goalReached then enter progress .done else return progress

/-- The given number of tours at a blocksize, unless the goal is reached before. -/
def rounds (loop : AttackLoop α σ β) (blocksize : Nat) :
    (tours : Nat) → Progress → Run α σ β Progress
  | 0, progress => return progress
  | tours + 1, progress => do
    let progress ← loop.round blocksize progress
    if progress.phase = .done then return progress else loop.rounds blocksize tours progress

/-- All tours at the given blocksizes in turn, unless the goal is reached before. -/
def walk (loop : AttackLoop α σ β) : List Nat → Progress → Run α σ β Progress
  | [], progress => return progress
  | b :: rest, progress => do
    let progress ← loop.rounds b loop.parameters.tours { progress with lastBlocksize := b }
    if progress.phase = .done then return progress else loop.walk rest progress

/-- Walks the schedule until the goal is reached or every tour is spent. -/
def drive (loop : AttackLoop α σ β) : Run α σ β Progress := do
  let progress ← loop.walk loop.schedule.blocksizes {}
  if progress.phase = .done then return progress else enter progress .exhausted

end AttackLoop

end EmbeddingAttack
