import EmbeddingAttack.Attack.TimingTable
import EmbeddingAttack.Attack.Tracer

/-!
# The state of a run beside its basis

The statistics, the tour times, and the readings of the clock at the start of the run and at the
start of the current reduction.
-/

namespace EmbeddingAttack

/-- A clock in a world with states in `σ`: each reading gives the seconds passed so far. -/
abbrev Clock (α σ : Type) :=
  σ → α × σ

/-- Everything that belongs to one run. -/
structure RunContext (α : Type) where
  tracer : Tracer α
  timings : TimingTable α
  wallStart : α
  reductionStart : α

namespace RunContext

variable {α : Type} [Scalar α]

/-- The context of a run that starts now. -/
def start (tracer : Tracer α) (now : α) : RunContext α :=
  ⟨tracer, {}, now, now⟩

/-- Starts both time spans again. -/
def startClocks (c : RunContext α) (now : α) : RunContext α :=
  { c with wallStart := now, reductionStart := now }

/-- Starts the span of the current reduction again. -/
def resetReduction (c : RunContext α) (now : α) : RunContext α :=
  { c with reductionStart := now }

def wallElapsed (c : RunContext α) (now : α) : α :=
  now - c.wallStart

/-- The seconds of reduction since the start of the run or the last search. -/
def reductionElapsed (c : RunContext α) (now : α) : α :=
  now - c.reductionStart

/-- Changes the statistics. -/
def trace (c : RunContext α) (f : Tracer α → Tracer α) : RunContext α :=
  { c with tracer := f c.tracer }

end RunContext

end EmbeddingAttack
