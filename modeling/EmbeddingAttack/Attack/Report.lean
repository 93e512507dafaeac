import EmbeddingAttack.Attack.Outcome
import EmbeddingAttack.Json.Value

/-!
# Attacks as JSON values

The parameters, the steps and the results of attacks as JSON values.  How numbers that are no
integers are shown is a parameter, `number`.
-/

namespace EmbeddingAttack

open Json

variable {α : Type}

def InstanceParameters.members (number : α → Value) (p : InstanceParameters α) :
    List (String × Value) :=
  [("n", .nat p.n), ("alpha", number p.alpha), ("q", .int p.q), ("m", .nat p.m)]

def CostModel.toJson (number : α → Value) (model : CostModel α) : Value :=
  .ofMembers [("exponent", number model.exponent), ("dim_offset", number model.offset),
    ("threads", .nat model.threads)]

def Prediction.toJson (p : Prediction) : Value :=
  .ofMembers [("blocksize", .nat p.blocksize), ("search_dim", .nat p.searchDimension),
    ("samples", .nat p.samples)]

def TraceEntry.toJson (number : α → Value) (e : TraceEntry α) : Value :=
  .ofMembers [("calls", .nat e.calls), ("seconds", number e.seconds),
    ("values", .ofMembers (e.values.entries.map fun (name, x) => (name, number x)))]

def TraceReport.toJson (number : α → Value) (r : TraceReport α) : Value :=
  .ofMembers [("root", .text r.root),
    ("entries", .ofMembers (r.entries.entries.map fun (label, e) => (label, e.toJson number)))]

/-- A solved instance.  The statistics are left out where there are none. -/
def Outcome.toJson (number : α → Value) (o : Outcome α) : Value :=
  .ofMembers <|
    o.parameters.members number ++
    [("predicted", o.prediction.toJson), ("final_blocksize", .nat o.finalBlocksize),
      ("tours", .nat o.tours), ("searches", .nat o.searches),
      ("wall_seconds", number o.wallSeconds), ("solution", .list .int o.solution),
      ("artifact", .text o.artifact)] ++
    match o.trace with
    | some trace => [("trace", trace.toJson number)]
    | none => []

def LookaheadStep.toJson (number : α → Value) (s : LookaheadStep α) : Value :=
  .ofMembers [("blocksize", .nat s.blocksize), ("tour_time", number s.tourTime),
    ("extra_time", number s.extraTime), ("success_dim", .nat s.successDimension),
    ("more_reduction", .bool s.moreReduction)]

def Progress.toJson (progress : Progress) : Value :=
  .ofMembers [("state", .text progress.phase.name), ("last_blocksize", .nat progress.lastBlocksize),
    ("tours", .nat progress.tours), ("searches", .nat progress.searches)]

end EmbeddingAttack
