import EmbeddingAttack.FileTree
import EmbeddingAttack.Instance.Challenge
import EmbeddingAttack.Instance.FileName

/-!
# Challenge directories

A directory that holds one challenge file for each pair of a dimension and a noise rate.
-/

namespace EmbeddingAttack

namespace ChallengeDirectory

def path (directory : String) (n : Nat) (alpha : Float) : String :=
  Path.join directory (instanceFileName "challenge" n alpha)

def readFile (files : FileTree) (path : String) (alpha : Float) :
    Except (Failure Float) (LweInstance Float) := do
  Challenge.parse (← files.read path) alpha

/-- The challenges of a directory as a source of instances.  A challenge counts only if it is there
and has the dimension that its file is named for; the seed plays no part. -/
def source (files : FileTree) (directory : String) : InstanceSource Float := fun n alpha _ => do
  let path := path directory n alpha
  if files.contains path then
    let I ← readFile files path alpha
    if I.n ≠ n then
      throw (.instanceNotFound n alpha (.otherDimension path I.n))
    return I
  else throw (.instanceNotFound n alpha (.noFile path))

end ChallengeDirectory

end EmbeddingAttack
