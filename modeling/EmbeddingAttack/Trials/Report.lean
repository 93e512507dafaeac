import EmbeddingAttack.Attack.Report
import EmbeddingAttack.Trials

/-!
# Reports of trials

A list of reports as text, one line for each, or as a JSON value.  How numbers that are no integers
are shown in the JSON value is a parameter.
-/

namespace EmbeddingAttack

open Json

variable {α : Type}

namespace TrialReport

def toJson (number : α → Value) (r : TrialReport α) : Value :=
  .ofMembers [("n", .nat r.job.n), ("seed", .nat r.job.seed), ("result",
    match r.result with
    | .ok outcome => .ofMembers [("Ok", outcome.toJson number)]
    | .error failure => .ofMembers [("Err", .ofMembers
        [("kind", .text failure.kind.name), ("message", .text failure.message)])])]

def line [ScalarText α] (r : TrialReport α) : String :=
  s!"n={r.job.n} seed={r.job.seed}: " ++
    match r.result with
    | .ok o =>
      s!"solved (m={o.parameters.m}, bkz-{o.finalBlocksize}, {o.tours} tours, " ++
        s!"{o.searches} searches, " ++ ScalarText.fixed 2 o.wallSeconds ++ " sec) -> " ++ o.artifact
    | .error failure => failure.kind.name ++ ": " ++ failure.message

end TrialReport

/-- All reports, one line for each, without blanks at the end. -/
def reportLines [ScalarText α] (reports : List (TrialReport α)) : String :=
  String.ofList (Text.trimRight (reports.flatMap fun r => r.line.toList ++ ['\n']))

end EmbeddingAttack
