import EmbeddingAttack.Engine.Journal
import EmbeddingAttack.Json.Value
import EmbeddingAttack.Lattice.FreeDimensionsText

/-!
# Journals as JSON values

How numbers that are no integers are shown is a parameter, `number`.
-/

namespace EmbeddingAttack

open Json

def Window.toJson (w : Window) : Value :=
  .list .nat [w.start, w.length, w.free]

namespace SearchOutcome

/-- The members of a search: its window, its goal and its result.  A search that found nothing has
an infinite length. -/
def members (number : Float → Value) (w : Window) (goal : Float) (o : SearchOutcome Float) :
    List (String × Value) :=
  [("search", w.toJson), ("goal", number goal),
    ("projected_norm", number (o.projectedNorm.getD (1.0 / 0.0))), ("inserted", .bool o.inserted),
    ("reached_goal", .bool o.reachedGoal)]

end SearchOutcome

def TourOrder.members (number : Float → Value) : TourOrder Float → List (String × Value)
  | .enumeration b => [("enumeration", .nat b)]
  | .jumping b jump extra free goal =>
    [("jumping", .nat b), ("jump", .nat jump), ("extra_dim4free", .nat extra),
      ("dim4free_fun", .text free.text), ("goal", number goal)]

def EngineCall.toJson (number : Float → Value) : EngineCall Float → Value
  | .load rank => .ofMembers [("load", .nat rank)]
  | .clean => .text "clean"
  | .tour order after =>
    .ofMembers (order.members number ++ after.toList.flatMap fun (lengths, row) =>
      [("r", .list number lengths), ("first_row", .list .int row)])
  | .search w goal outcome after =>
    .ofMembers (outcome.members number w goal ++ after.toList.map fun lengths =>
      ("r", .list number lengths))
  | .simulate b tours => .ofMembers [("simulate", .list .nat [b, tours])]

def Journal.toJson (number : Float → Value) (j : Journal Float) : Value :=
  .list (EngineCall.toJson number) j.toList

end EmbeddingAttack
