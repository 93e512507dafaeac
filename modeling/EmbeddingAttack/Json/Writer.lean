import EmbeddingAttack.Decimal.Notation
import EmbeddingAttack.Json.Value

/-!
# Writing JSON

Two layouts: on one line, in ASCII, for exchange; and on many lines, indented, for people.
-/

namespace EmbeddingAttack.Json

open Text

def hexDigit (n : Nat) : Char :=
  (Nat.toDigits 16 n).headD '0'

/-- The escape of a 16-bit code unit. -/
def unitEscape (x : Nat) : List Char :=
  ['\\', 'u', hexDigit (x / 4096 % 16), hexDigit (x / 256 % 16), hexDigit (x / 16 % 16),
    hexDigit (x % 16)]

/-- A character inside a string.  In ASCII texts all others are written as code units. -/
def escape (ascii : Bool) (c : Char) : List Char :=
  let x := c.toNat
  if c = '"' then ['\\', '"']
  else if c = '\\' then ['\\', '\\']
  else if c = '\n' then ['\\', 'n']
  else if c = '\r' then ['\\', 'r']
  else if c = '\t' then ['\\', 't']
  else if x < 0x20 then unitEscape x
  else if ascii = false ∨ x < 0x7F then [c]
  else if x < 0x10000 then unitEscape x
  else
    let y := x - 0x10000
    unitEscape (0xD800 + y / 0x400) ++ unitEscape (0xDC00 + y % 0x400)

def quoted (ascii : Bool) (s : String) : List Char :=
  '"' :: s.toList.flatMap (escape ascii) ++ ['"']

/-- A number.  Integers are written in full, others as data fields. -/
def numberText (n : Number) : List Char :=
  if n.isIntegral then Decimal.signed n.negative n.whole
  else
    match Decimal.field? n.magnitude.toFloat with
    | some text => Decimal.signed n.negative text
    | none => ['n', 'u', 'l', 'l']

mutual

/-- A value on one line, in ASCII. -/
def compact : Value → List Char
  | .null => ['n', 'u', 'l', 'l']
  | .bool true => ['t', 'r', 'u', 'e']
  | .bool false => ['f', 'a', 'l', 's', 'e']
  | .number n => numberText n
  | .string s => quoted true s.text
  | .array values => '[' :: compactElements values ++ [']']
  | .object members => '\x7b' :: compactMembers members ++ ['\x7d']

def compactElements : List Value → List Char
  | [] => []
  | [value] => compact value
  | value :: values => compact value ++ ',' :: compactElements values

def compactMembers : List (Str × Value) → List Char
  | [] => []
  | [(name, value)] => quoted true name.text ++ ':' :: compact value
  | (name, value) :: members =>
    quoted true name.text ++ ':' :: compact value ++ ',' :: compactMembers members

end

/-- A new line with the given indentation. -/
def newLine (depth : Nat) : List Char :=
  '\n' :: List.replicate (2 * depth) ' '

mutual

/-- A value on many lines. -/
def pretty (depth : Nat) : Value → List Char
  | .null => ['n', 'u', 'l', 'l']
  | .bool true => ['t', 'r', 'u', 'e']
  | .bool false => ['f', 'a', 'l', 's', 'e']
  | .number n => numberText n
  | .string s => quoted false s.text
  | .array [] => ['[', ']']
  | .array values => '[' :: prettyElements (depth + 1) values ++ newLine depth ++ [']']
  | .object [] => ['\x7b', '\x7d']
  | .object members => '\x7b' :: prettyMembers (depth + 1) members ++ newLine depth ++ ['\x7d']

def prettyElements (depth : Nat) : List Value → List Char
  | [] => []
  | [value] => newLine depth ++ pretty depth value
  | value :: values =>
    newLine depth ++ pretty depth value ++ ',' :: prettyElements depth values

def prettyMembers (depth : Nat) : List (Str × Value) → List Char
  | [] => []
  | [(name, value)] => newLine depth ++ quoted false name.text ++ ':' :: ' ' :: pretty depth value
  | (name, value) :: members =>
    newLine depth ++ quoted false name.text ++ ':' :: ' ' :: pretty depth value ++
      ',' :: prettyMembers depth members

end

end EmbeddingAttack.Json
