import EmbeddingAttack.FileTree
import EmbeddingAttack.Instance.FileName
import EmbeddingAttack.Text.Blank

/-!
# Solution files
-/

namespace EmbeddingAttack

namespace Solution

def path {α : Type} [Scalar α] (directory : String) (n : Nat) (alpha : α) : String :=
  Path.join directory (instanceFileName "solution" n alpha)

/-- The text of a solution: its entries in parentheses. -/
def format (solution : List Int) : String :=
  String.ofList ('(' :: Text.joinWith [',', ' '] (solution.map Text.writeInt) ++ [')'])

/-- Writes a solution and makes its directory where needed.  Returns the path. -/
def write {α : Type} [Scalar α] (directory : String) (n : Nat) (alpha : α) (solution : List Int) :
    FileTree.Change α String := do
  FileTree.createDirectories directory
  let path := path directory n alpha
  FileTree.write path (format solution)
  return path

end Solution

end EmbeddingAttack
