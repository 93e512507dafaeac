import EmbeddingAttack.Decimal.Notation
import EmbeddingAttack.Decimal.Reader
import EmbeddingAttack.Lattice.FreeDimensions
import EmbeddingAttack.Text.Blank

/-!
# Names of the rules for free dimensions

A rule is named `default`, `ducas18` or `linear:A:B`; the first two have an older name each.
-/

namespace EmbeddingAttack

namespace FreeDimensions

def ofText (text : String) : Except (Failure Float) (FreeDimensions Float) := do
  let name := Text.trim text.toList
  if name = "default".toList ∨ name = "default_dim4free_fun".toList then
    return .standard
  if name = "ducas18".toList ∨ name = "theo_dim4free_fun1".toList then
    return .asymptotic
  match Text.splitBy (· == ':') name with
  | [head, a, b] =>
    if head = "linear".toList then
      match Decimal.read a with
      | .error fault => throw (.parse (.intercept (String.ofList a) fault))
      | .ok intercept =>
        match Decimal.read b with
        | .error fault => throw (.parse (.slope (String.ofList b) fault))
        | .ok slope => return .linear intercept slope
    else throw (.parameters (.freeDimensions (String.ofList name)))
  | _ => throw (.parameters (.freeDimensions (String.ofList name)))

/-- The name of a rule. -/
def text : FreeDimensions Float → String
  | .standard => "default"
  | .asymptotic => "ducas18"
  | .linear intercept slope =>
    String.ofList ("linear:".toList ++ Decimal.plain intercept ++ ':' :: Decimal.plain slope)

end FreeDimensions

end EmbeddingAttack
