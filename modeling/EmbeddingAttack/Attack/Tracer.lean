import EmbeddingAttack.Scalar
import EmbeddingAttack.Table

/-!
# Run statistics

A tracer counts the events of a run by label, adds up the time spent on them, and keeps the last
value of each measure noted for a label.
-/

namespace EmbeddingAttack

/-- The statistics of one label. -/
structure TraceEntry (α : Type) where
  calls : Nat
  seconds : α
  values : Table String α

/-- The statistics of a run. -/
structure TraceReport (α : Type) where
  root : String
  entries : Table String (TraceEntry α)

/-- A tracer.  The one that collects nothing is for runs that need no statistics. -/
inductive Tracer (α : Type) where
  | dummy
  | statistics (report : TraceReport α)

namespace Tracer

variable {α : Type} [Scalar α]

/-- A fresh tracer. -/
def start (dummy : Bool) (root : String) : Tracer α :=
  if dummy then .dummy else .statistics ⟨root, {}⟩

def isDummy : Tracer α → Bool
  | .dummy => true
  | .statistics _ => false

/-- Changes the statistics of a label. -/
def update (label : String) (f : TraceEntry α → TraceEntry α) : Tracer α → Tracer α
  | .dummy => .dummy
  | .statistics report =>
    .statistics { report with
      entries := report.entries.update label fun entry => f (entry.getD ⟨0, 0, {}⟩) }

/-- Records a call that took the given time. -/
def record (label : String) (seconds : α) : Tracer α → Tracer α :=
  update label fun entry =>
    { entry with calls := entry.calls + 1, seconds := entry.seconds + seconds }

/-- Records a call that takes no time of its own. -/
def count (label : String) : Tracer α → Tracer α :=
  record label 0

def note (label measure : String) (value : α) : Tracer α → Tracer α :=
  update label fun entry => { entry with values := entry.values.insert measure value }

def report? : Tracer α → Option (TraceReport α)
  | .dummy => none
  | .statistics report => some report

end Tracer

/-- A duration in nanoseconds as a number of seconds. -/
def secondsOfNanos {α : Type} [Scalar α] (nanos : Nat) : α :=
  ((nanos / 1000000000 : Nat) : α) + ((nanos % 1000000000 : Nat) : α) / 1e9

end EmbeddingAttack
