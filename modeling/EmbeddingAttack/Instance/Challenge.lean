import EmbeddingAttack.Decimal.Notation
import EmbeddingAttack.Decimal.Reader
import EmbeddingAttack.Instance.Basic
import EmbeddingAttack.Text.Blank

/-!
# The challenge text format

A challenge is a text of lines: the length `n` of the secret, the number `m` of samples, the
modulus `q`, then optionally the noise rate, then the vector `c` and the `m` rows of the matrix
`a`, each in brackets.  Empty lines and white space around lines mean nothing.  The entries of a
vector stand between commas or white space.
-/

namespace EmbeddingAttack

namespace Challenge

open Text

/-- Reads a header line that holds an integer.  Returns the lines after it. -/
def readHeader (name : String) : List (List Char) →
    Except (Failure Float) (Int × List (List Char))
  | [] => throw (.parse (.missingLine name))
  | line :: lines =>
    match readInt line with
    | .error fault => throw (.parse (.integerLine name (String.ofList line) fault))
    | .ok x => return (x, lines)

def readEntries : List (List Char) → Except (Failure Float) (List Int)
  | [] => return []
  | entry :: entries =>
    match readInt entry with
    | .error fault => throw (.parse (.entry (String.ofList entry) fault))
    | .ok x => return x :: (← readEntries entries)

def inBrackets? (line : List Char) : Option (List Char) :=
  match line with
  | '[' :: rest => if rest.getLast? = some ']' then some rest.dropLast else none
  | _ => none

def readVector (line : List Char) : Except (Failure Float) (List Int) :=
  match inBrackets? line with
  | none => throw (.parse (.vector (String.ofList line)))
  | some inner => readEntries ((splitBy (fun c => c == ',' || isBlank c) inner).filter (!·.isEmpty))

def readVectors : List (List Char) → Except (Failure Float) (List (List Int))
  | [] => return []
  | line :: lines => return (← readVector line) :: (← readVectors lines)

/-- Reads the noise rate, unless the first line holds a vector, and then that vector.  Returns the
lines after it. -/
def readNoiseAndVector (alpha : Float) : List (List Char) →
    Except (Failure Float) (Float × List Int × List (List Char))
  | [] => throw (.parse .missingVector)
  | line :: lines =>
    if line.head? = some '[' then return (alpha, ← readVector line, lines)
    else
      match Decimal.read line with
      | .error fault => throw (.parse (.alphaLine (String.ofList line) fault))
      | .ok alpha =>
        match lines with
        | [] => throw (.parse .missingVector)
        | line :: lines => return (alpha, ← readVector line, lines)

/-- Reads a challenge.  `alpha` is the noise rate of a text that names none. -/
def parse (text : String) (alpha : Float) : Except (Failure Float) (LweInstance Float) := do
  let lines := inhabitedLines text.toList
  let (n, lines) ← readHeader "n" lines
  let (m, lines) ← readHeader "m" lines
  let (q, lines) ← readHeader "q" lines
  if n ≤ 0 ∨ m ≤ 0 then
    throw (.parse (.sizes n m))
  let (alpha, c, lines) ← readNoiseAndVector alpha lines
  let a ← readVectors lines
  let I : LweInstance Float := ⟨n.toNat, q, alpha, a, c, none⟩
  I.validate
  if (I.samples : Int) ≠ m then
    throw (.parse (.sampleCount m I.samples))
  return I

def vectorText (v : List Int) : List Char :=
  '[' :: joinWith [' '] (v.map writeInt) ++ [']']

def lines (I : LweInstance Float) : List (List Char) :=
  [writeNat I.n, writeNat I.samples, writeInt I.q, Decimal.plain I.alpha, vectorText I.c] ++
    I.a.map vectorText

/-- The text of an instance.  The secret is not part of it. -/
def format (I : LweInstance Float) : String :=
  String.ofList ((lines I).flatMap (· ++ ['\n']))

end Challenge

end EmbeddingAttack
