import EmbeddingAttack.Attack.Outcome
import EmbeddingAttack.Failure.Message

/-!
# Trials

Independent runs of an attack over a range of dimensions and seeds.  A run that fails is a result
like any other, and the reports come in the order of dimensions and seeds, whatever the order in
which the runs end.
-/

namespace EmbeddingAttack

/-- A trial: a dimension and a seed. -/
structure Job where
  n : Nat
  seed : Nat
deriving DecidableEq, Repr

/-- Which trials to run.  The upper bound is excluded; without one there is a single dimension. -/
structure TrialPlan where
  lowerBound : Nat
  upperBound : Option Nat
  stepSize : Nat
  trials : Nat
  seed : Nat

/-- The report of a failed trial. -/
structure TrialFailure where
  kind : FailureKind
  message : String

/-- The report of a trial. -/
structure TrialReport (α : Type) where
  job : Job
  result : Except TrialFailure (Outcome α)

namespace TrialReport

def isSuccess {α : Type} (report : TrialReport α) : Bool :=
  match report.result with
  | .ok _ => true
  | .error _ => false

end TrialReport

namespace TrialPlan

/-- All trials: the seeds of each dimension before the next dimension. -/
def jobs {α : Type} (plan : TrialPlan) : Except (Failure α) (List Job) :=
  if plan.stepSize = 0 then throw (.parameters .stepSize)
  else
    let upper := plan.upperBound.getD (wrapSize (plan.lowerBound + 1))
    let dimensions := (stepsBelow (upper - plan.lowerBound) plan.stepSize).map (plan.lowerBound + ·)
    return dimensions.flatMap fun n => (List.range plan.trials).map fun t => ⟨n, plan.seed + t⟩

end TrialPlan

namespace Trials

/-- A way to run one trial, in a world with states in `σ`. -/
abbrev Kernel (α σ : Type) :=
  Job → σ → Except (Failure α) (Outcome α) × σ

variable {α σ : Type} [ScalarText α]

def report (job : Job) (result : Except (Failure α) (Outcome α)) : TrialReport α :=
  ⟨job, result.mapError fun e => ⟨e.kind, e.message⟩⟩

def runInOrder (kernel : Kernel α σ) : List Job → σ → List (TrialReport α) × σ
  | [], s => ([], s)
  | job :: jobs, s =>
    let (result, s) := kernel job s
    let (reports, s) := runInOrder kernel jobs s
    (report job result :: reports, s)

/-- Whether a report belongs before another one. -/
def precedes {α : Type} (x y : TrialReport α) : Bool :=
  x.job.n < y.job.n || (x.job.n == y.job.n && x.job.seed ≤ y.job.seed)

/-- Runs all trials of a plan.  `order` says in which order they end; it may be any order, and the
reports are sorted in the end. -/
def runAll (plan : TrialPlan) (order : List Job → List Job) (kernel : Kernel α σ) (s : σ) :
    Except (Failure α) (List (TrialReport α) × σ) := do
  let jobs ← plan.jobs
  let (reports, s) := runInOrder kernel (order jobs) s
  return (reports.mergeSort precedes, s)

end Trials

end EmbeddingAttack
