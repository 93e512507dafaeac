import EmbeddingAttack.CommandLine.Program

/-!
# The program's entry point

Reads the files that the arguments call for, runs the program, and writes what it leaves.
-/

namespace EmbeddingAttack.CommandLine

/-- The paths that a run with the given arguments may look at. -/
def inputPaths (args : List String) (files : FileTree) : List String :=
  match specification.read args with
  | .arguments a =>
    let S := settings a
    match S.parameterFile, S.attackParameters files with
    | some path, .error _ => [path]
    | _, .error _ => []
    | _, .ok p =>
      match (S.plan.jobs : Except (Failure Float) (List Job)) with
      | .error _ => []
      | .ok jobs =>
        S.parameterFile.toList ++ p.solutionDirectory ::
          ((jobs.map (·.n)).eraseDups.map fun n =>
            ChallengeDirectory.path S.challengeDirectory n p.alpha)
  | _ => []

/-- The paths that a path passes, itself included. -/
def passedPaths (path : String) : List String :=
  let segments := Path.segments path
  (List.range segments.length).map fun k => Path.ofSteps (segments.take (k + 1))

end EmbeddingAttack.CommandLine

open EmbeddingAttack EmbeddingAttack.CommandLine

/-- Adds what stands at a path to the files that are known. -/
def explore (files : FileTree) (path : String) : IO FileTree := do
  if path.isEmpty then return files
  try
    let text ← IO.FS.readFile path
    return files.addFile path text
  catch _ =>
    if ← ((← IO.currentDir) / path).isDir then return files.addDirectory path
    else return files

def main (args : List String) : IO UInt32 := do
  let current ← IO.currentDir
  let home := (Path.segments current.toString).filter (!·.isEmpty)
  let explorePaths (paths : List String) (files : FileTree) : IO FileTree :=
    (paths.flatMap passedPaths).foldlM explore files
  let empty : FileTree := .empty home
  let known ← explorePaths (inputPaths args empty) empty
  let found ← explorePaths (inputPaths args known) known
  let result := run args found
  let before := found.filesBelow "/"
  for (path, text) in result.files.filesBelow "/" do
    unless before.contains (path, text) do
      let place := Path.segments path
      IO.FS.createDirAll ("/" ++ Path.ofSteps place.dropLast)
      IO.FS.writeFile ("/" ++ path) text
  IO.print result.stdout
  IO.eprint result.stderr
  return UInt32.ofNat result.exitCode
