import EmbeddingAttack.Decimal.Reader
import EmbeddingAttack.Text.Integer

/-!
# Command line arguments

A command line is a list of arguments.  Options are written `--name value` or `--name=value`, flags
`--name`; an argument that is no option is positional, and after `--` all are.  An option or a flag
may occur only once.  An option that ends the reading may also be written as a dash and a letter,
and what follows that letter is not looked at.
-/

namespace EmbeddingAttack.CommandLine

/-- How an option takes its value. -/
inductive OptionKind where
  | flag
  | value (accepts : String → Bool)
  /-- An option that ends the reading at once. -/
  | immediate (letter : Char)

structure OptionSpec where
  name : String
  kind : OptionKind

def OptionSpec.hasLetter (o : OptionSpec) (c : Char) : Bool :=
  match o.kind with
  | .immediate letter => letter == c
  | _ => false

/-- What an application takes: its options, and which texts its positional arguments may be. -/
structure Specification where
  options : List OptionSpec
  positional : List (String → Bool)

/-- Arguments that have been read: the values of options, flags having an empty one, and the
positional arguments. -/
structure Arguments where
  options : List (String × String) := []
  positional : List String := []

/-- How the reading of a command line ends. -/
inductive Reading where
  | arguments (a : Arguments)
  /-- An option that ends the reading was there. -/
  | immediate (name : String)
  | usage

namespace Arguments

def value? (a : Arguments) (name : String) : Option String :=
  a.options.lookup name

def has (a : Arguments) (name : String) : Bool :=
  (a.value? name).isSome

/-- Adds an option that has not occurred yet, if its value is accepted. -/
def add? (a : Arguments) (o : OptionSpec) (text : String) : Option Arguments :=
  let accepted :=
    match o.kind with
    | .value accepts => accepts text
    | _ => true
  if accepted && !a.has o.name then some { a with options := a.options ++ [(o.name, text)] }
  else none

end Arguments

namespace Specification

variable (spec : Specification)

/-- Adds a positional argument, if there is room for it and it is accepted. -/
def addPositional? (a : Arguments) (text : String) : Option Arguments :=
  match spec.positional[a.positional.length]? with
  | some accepts =>
    if accepts text then some { a with positional := a.positional ++ [text] } else none
  | none => none

/-- Whether an argument looks like an option. -/
def isOptionLike (text : String) : Bool :=
  text.startsWith "-" && text != "-"

/-- Splits an argument at its first equals sign. -/
def splitValue (text : String) : String × Option String :=
  let (name, rest) := text.toList.span (· != '=')
  match rest with
  | [] => (text, none)
  | _ :: value => (String.ofList name, some (String.ofList value))

/-- The option that an argument names, and the value after an equals sign. -/
def findOption? (text : String) : Option (OptionSpec × Option String) :=
  let (name, value) := splitValue text
  let found := spec.options.find? fun o => name == "--" ++ o.name
  found.map fun o => (o, value)

/-- The option whose letter follows the dash at the start of an argument. -/
def findLetter? (text : String) : Option OptionSpec :=
  match text.toList with
  | _ :: c :: _ => spec.options.find? (·.hasLetter c)
  | _ => none

def readPositional (a : Arguments) : List String → Reading
  | [] => .arguments a
  | text :: rest =>
    match spec.addPositional? a text with
    | some a => readPositional a rest
    | none => .usage

/-- Reads the arguments from left to right, up to the first that is wrong or ends the reading. -/
def readFrom (a : Arguments) : List String → Reading
  | [] => .arguments a
  | text :: rest =>
    if text = "--" then spec.readPositional a rest
    else if isOptionLike text && !text.startsWith "--" then
      match spec.findLetter? text with
      | none => .usage
      | some o => .immediate o.name
    else if isOptionLike text then
      match spec.findOption? text with
      | none => .usage
      | some (o, attached) =>
        match o.kind, attached with
        | .immediate _, none => .immediate o.name
        | .immediate _, some _ => .usage
        | .flag, none =>
          match a.add? o "" with
          | some a => readFrom a rest
          | none => .usage
        | .flag, some _ => .usage
        | .value _, some value =>
          match a.add? o value with
          | some a => readFrom a rest
          | none => .usage
        | .value _, none =>
          match rest with
          | [] => .usage
          | value :: rest =>
            if isOptionLike value then .usage
            else
              match a.add? o value with
              | some a => readFrom a rest
              | none => .usage
    else
      match spec.addPositional? a text with
      | some a => readFrom a rest
      | none => .usage

/-- Reads a command line, in which no positional argument may be missing. -/
def read (args : List String) : Reading :=
  match spec.readFrom {} args with
  | .arguments a =>
    if a.positional.length = spec.positional.length then .arguments a else .usage
  | other => other

end Specification

def nat? (text : String) : Option Nat :=
  (Text.readNat text.toList).toOption

def float? (text : String) : Option Float :=
  (Decimal.read text.toList).toOption

def bool? (text : String) : Option Bool :=
  if text = "true" then some true else if text = "false" then some false else none

end EmbeddingAttack.CommandLine
