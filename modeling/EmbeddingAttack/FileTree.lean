import EmbeddingAttack.Failure
import EmbeddingAttack.Path

/-!
# File trees

The files and directories that a run reads and leaves behind, as a value.  A place in the tree is
the list of the steps that lead to it from the root.  A path leads to a place only through
directories that are there, so `absent/..` leads nowhere, and neither does `file/.`.
-/

namespace EmbeddingAttack

/-- What stands at a place. -/
inductive FileNode where
  | file (text : String)
  | directory (entries : List (String × FileNode))

namespace FileNode

def entry? : FileNode → String → Option FileNode
  | .file _, _ => none
  | .directory entries, name => entries.lookup name

/-- Gives a name a node among the entries of a directory. -/
def setEntry (name : String) (node : FileNode) :
    List (String × FileNode) → List (String × FileNode)
  | [] => [(name, node)]
  | (other, old) :: rest =>
    if other = name then (name, node) :: rest else (other, old) :: setEntry name node rest

/-- Puts a node at the end of the given steps, along which directories are made where nothing is.
Nothing can be put below a file. -/
def put (new : FileNode) : List String → FileNode → FileNode
  | [], _ => new
  | _ :: _, .file text => .file text
  | name :: rest, .directory entries =>
    let old := (entries.lookup name).getD (.directory [])
    .directory (setEntry name (put new rest old) entries)

mutual

/-- The files at and below a node, with the steps that lead to them. -/
def files : FileNode → List (List String × String)
  | .file text => [([], text)]
  | .directory entries => filesOf entries

def filesOf : List (String × FileNode) → List (List String × String)
  | [] => []
  | (name, node) :: rest =>
    node.files.map (fun (steps, text) => (name :: steps, text)) ++ filesOf rest

end

end FileNode

/-- A tree of files with a working directory, at which paths without a leading slash start. -/
structure FileTree where
  root : FileNode
  home : List String

namespace FileTree

/-- The node at a place. -/
def node? (t : FileTree) (place : List String) : Option FileNode :=
  place.foldlM FileNode.entry? t.root

def isDirectory (t : FileTree) (place : List String) : Bool :=
  match t.node? place with
  | some (.directory _) => true
  | _ => false

def put (t : FileTree) (place : List String) (node : FileNode) : FileTree :=
  { t with root := node.put place t.root }

/-- The place where a path starts. -/
def start (t : FileTree) (path : String) : List String :=
  if path.startsWith "/" then [] else t.home

/-- Follows segments from a place.  All places but the last one have to be directories. -/
def follow? (t : FileTree) (here : List String) : List String → Option (List String)
  | [] => some here
  | segment :: rest =>
    if t.isDirectory here then t.follow? (Path.step here segment) rest else none

/-- The place to which a path leads. -/
def place? (t : FileTree) (path : String) : Option (List String) :=
  if Path.isValid path then t.follow? (t.start path) (Path.segments path) else none

/-- What stands at the end of a path. -/
def find? (t : FileTree) (path : String) : Option FileNode :=
  (t.place? path).bind t.node?

/-- Whether something stands at the end of a path. -/
def contains (t : FileTree) (path : String) : Bool :=
  (t.find? path).isSome

def read {α : Type} (t : FileTree) (path : String) : Except (Failure α) String :=
  match t.find? path with
  | some (.file text) => return text
  | _ => throw (.file .system)

/-- The files below a path with the paths that lead on to them. -/
def filesBelow (t : FileTree) (path : String) : List (String × String) :=
  match t.find? path with
  | some node => node.files.map fun (steps, text) => (Path.ofSteps steps, text)
  | none => []

variable {α : Type}

/-- A computation that changes files.  Where it fails, the changes made so far remain. -/
abbrev Change (α : Type) := EStateM (Failure α) FileTree

/-- Makes a directory at each place where nothing is, on the way along the given segments. -/
def createAlong (here : List String) : List String → Change α Unit
  | [] => pure ()
  | segment :: rest => do
    let next := Path.step here segment
    match (← get).node? next with
    | some (.file _) => throw (.file .system)
    | some (.directory _) => pure ()
    | none =>
      if Path.fits segment then modify (·.put next (.directory []))
      else throw (.file .system)
    createAlong next rest

/-- Makes a directory at the end of a path, with all directories that lead to it.  A path that ends
in a dot does not make the directory that the dot stands for, but only those before it. -/
def createDirectories (path : String) : Change α Unit := do
  if path.isEmpty then return
  unless Path.isValid path do throw (.file .system)
  let start := (← get).start path
  let segments := Path.segments path
  if Path.endsInDot segments then
    createAlong start (Path.leading segments)
    match (← get).find? path with
    | some (.directory _) => return
    | _ => throw (.file .system)
  else createAlong start segments

/-- Writes a file at the end of a path.  Its directory must be there, and it may replace only a
file. -/
def write (path text : String) : Change α Unit := do
  let t ← get
  match t.place? path with
  | none => throw (.file .system)
  | some place =>
    match t.node? place with
    | some (.directory _) => throw (.file .system)
    | some (.file _) => set (t.put place (.file text))
    | none =>
      if place.getLast?.all Path.fits then set (t.put place (.file text))
      else throw (.file .system)

/-- The place that a path names if all directories on its way are made. -/
def lexicalPlace (t : FileTree) (path : String) : List String :=
  (Path.segments path).foldl Path.step (t.start path)

/-- Adds a file, and the directories on its way. -/
def addFile (t : FileTree) (path text : String) : FileTree :=
  t.put (t.lexicalPlace path) (.file text)

/-- Adds a directory, and the directories on its way, unless something is there. -/
def addDirectory (t : FileTree) (path : String) : FileTree :=
  let place := t.lexicalPlace path
  if (t.node? place).isSome then t else t.put place (.directory [])

/-- The tree with nothing but a working directory. -/
def empty (home : List String) : FileTree :=
  ⟨FileNode.put (.directory []) home (.directory []), home⟩

/-- The tree with a working directory and the given files. -/
def ofFiles (home : List String) (files : List (String × String)) : FileTree :=
  files.foldl (fun t (path, text) => t.addFile path text) (empty home)

end FileTree

end EmbeddingAttack
