import EmbeddingAttack.Instance.Basic
import EmbeddingAttack.Text.Integer

/-!
# File names of instances and solutions
-/

namespace EmbeddingAttack

/-- The name of the file of the given kind for an instance: its dimension and noise code, each with
three digits at least. -/
def instanceFileName {α : Type} [Scalar α] (kind : String) (n : Nat) (alpha : α) : String :=
  let number (k : Nat) := String.ofList (Text.padZeros 3 (Text.writeNat k))
  number n ++ "-" ++ number (alphaCode alpha) ++ "-" ++ kind ++ ".txt"

end EmbeddingAttack
