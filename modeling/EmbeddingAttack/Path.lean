import EmbeddingAttack.Text.Blank

/-!
# Paths

A path names its steps between slashes.  Empty segments and single dots stay where they are, and
double dots lead one step back.  A path that starts with a slash starts at the root.
-/

namespace EmbeddingAttack.Path

/-- The path of an entry of a directory.  An entry that starts at the root stands for itself. -/
def join (directory entry : String) : String :=
  if directory.isEmpty || entry.startsWith "/" then entry
  else if directory.endsWith "/" then directory ++ entry
  else directory ++ "/" ++ entry

def segments (path : String) : List String :=
  (Text.splitBy (· == '/') path.toList).map String.ofList

/-- Whether a path can be looked up: it holds something, but no null character and no more than
4095 bytes. -/
def isValid (path : String) : Bool :=
  !path.isEmpty && path.utf8ByteSize ≤ 4095 && path.toList.all (·.toNat != 0)

/-- Whether an entry of a directory may have a name: it has no more than 255 bytes. -/
def fits (name : String) : Bool :=
  name.utf8ByteSize ≤ 255

/-- Whether a segment stays where it is. -/
def stays (segment : String) : Bool :=
  segment == "" || segment == "."

/-- The place to which a segment leads.  Places are lists of steps from the root. -/
def step (here : List String) (segment : String) : List String :=
  if stays segment then here
  else if segment = ".." then here.dropLast
  else here ++ [segment]

/-- The segments before the last one that leads elsewhere. -/
def leading (segments : List String) : List String :=
  ((segments.reverse.dropWhile stays).drop 1).reverse

/-- Whether a dot follows all segments that lead elsewhere. -/
def endsInDot (segments : List String) : Bool :=
  (segments.reverse.takeWhile stays).contains "."

def ofSteps (steps : List String) : String :=
  "/".intercalate steps

end EmbeddingAttack.Path
