import EmbeddingAttack.Json.Value

/-!
# Reading JSON

A reader for single JSON values that fill a text.  It accepts the grammar of JSON and nothing
beyond it: no comments, no trailing commas, no byte order mark.
-/

namespace EmbeddingAttack.Json

open Decimal Text

def skipBlank (s : List Char) : List Char :=
  s.dropWhile fun c => c == ' ' || c == '\t' || c == '\n' || c == '\r'

def hexValue? (c : Char) : Option Nat :=
  if '0' ≤ c ∧ c ≤ '9' then some (c.toNat - '0'.toNat)
  else if 'a' ≤ c ∧ c ≤ 'f' then some (c.toNat - 'a'.toNat + 10)
  else if 'A' ≤ c ∧ c ≤ 'F' then some (c.toNat - 'A'.toNat + 10)
  else none

/-- The code unit that four hexadecimal digits stand for. -/
def codeUnit? (a b c d : Char) : Option Nat := do
  return ((← hexValue? a) * 16 + (← hexValue? b)) * 256 + (← hexValue? c) * 16 + (← hexValue? d)

/-- The character that a letter after a backslash stands for. -/
def escaped? : Char → Option Nat
  | '"' => some 0x22
  | '\\' => some 0x5C
  | '/' => some 0x2F
  | 'b' => some 0x08
  | 'f' => some 0x0C
  | 'n' => some 0x0A
  | 'r' => some 0x0D
  | 't' => some 0x09
  | _ => none

/-- Reads the code points of a string up to the closing quote.  Halves of surrogate pairs stay
apart. -/
def readCodePoints : List Char → Option (List Nat × List Char)
  | [] => none
  | '"' :: rest => some ([], rest)
  | '\\' :: 'u' :: a :: b :: c :: d :: rest => do
    let unit ← codeUnit? a b c d
    let (units, rest) ← readCodePoints rest
    return (unit :: units, rest)
  | '\\' :: c :: rest => do
    let x ← escaped? c
    let (units, rest) ← readCodePoints rest
    return (x :: units, rest)
  | c :: rest =>
    if c.toNat < 0x20 ∨ c = '\\' then none
    else do
      let (units, rest) ← readCodePoints rest
      return (c.toNat :: units, rest)

/-- Whether a code unit is the first half of a surrogate pair. -/
def isHighHalf (x : Nat) : Bool :=
  0xD800 ≤ x && x < 0xDC00

/-- Whether a code unit is the second half of a surrogate pair. -/
def isLowHalf (x : Nat) : Bool :=
  0xDC00 ≤ x && x < 0xE000

/-- Joins surrogate pairs.  Returns the characters, and whether no half is left alone; such a half
becomes a replacement character. -/
def joinHalves : List Nat → List Char × Bool
  | [] => ([], true)
  | [x] => if isHighHalf x || isLowHalf x then (['\uFFFD'], false) else ([Char.ofNat x], true)
  | x :: y :: rest =>
    if isHighHalf x && isLowHalf y then
      let (chars, paired) := joinHalves rest
      (Char.ofNat (0x10000 + (x - 0xD800) * 0x400 + (y - 0xDC00)) :: chars, paired)
    else
      let (chars, paired) := joinHalves (y :: rest)
      if isHighHalf x || isLowHalf x then ('\uFFFD' :: chars, false)
      else (Char.ofNat x :: chars, paired)

def readString (s : List Char) : Option (Str × List Char) := do
  let (units, rest) ← readCodePoints s
  let (chars, paired) := joinHalves units
  return (⟨String.ofList chars, paired⟩, rest)

/-- Reads the digits before a point: a zero alone, or digits that do not start with one. -/
def readWhole? (s : List Char) : Option (List Char × List Char) :=
  match s with
  | '0' :: rest => if (rest.head?.bind digitValue?).isSome then none else some (['0'], rest)
  | _ =>
    let (digits, rest) := spanDigits s
    if digits.isEmpty then none else some (digits, rest)

/-- Reads a fraction: none, or a point and at least one digit. -/
def readFraction? (s : List Char) : Option (List Char × List Char) :=
  match s with
  | '.' :: rest =>
    let (digits, rest) := spanDigits rest
    if digits.isEmpty then none else some (digits, rest)
  | _ => some ([], s)

/-- Reads a power of ten: none, or a letter, a sign and at least one digit. -/
def readExponent? (s : List Char) : Option (Option Int × List Char) :=
  match s with
  | c :: rest =>
    if c = 'e' ∨ c = 'E' then
      let (negative, rest) := spanSign rest
      let (digits, rest) := spanDigits rest
      if digits.isEmpty then none
      else
        let n : Int := digitsValue digits
        some (some (if negative then -n else n), rest)
    else some (none, s)
  | [] => some (none, s)

def readNumber (s : List Char) : Option (Number × List Char) := do
  let (negative, s) :=
    match s with
    | '-' :: rest => (true, rest)
    | _ => (false, s)
  let (whole, s) ← readWhole? s
  let (fraction, s) ← readFraction? s
  let (power, s) ← readExponent? s
  return (⟨negative, whole, fraction, power⟩, s)

/-- Reads a text that must stand here. -/
def expect (expected : List Char) (s : List Char) : Option (List Char) :=
  if expected.isPrefixOf s then some (s.drop expected.length) else none

mutual

/-- Reads a value.  Every step into a value takes a character, so that the length of the text bounds
the number of steps. -/
def readValue : (steps : Nat) → List Char → Option (Value × List Char)
  | 0, _ => none
  | steps + 1, s =>
    match skipBlank s with
    | 'n' :: rest => (expect ['u', 'l', 'l'] rest).map fun rest => (.null, rest)
    | 't' :: rest => (expect ['r', 'u', 'e'] rest).map fun rest => (.bool true, rest)
    | 'f' :: rest => (expect ['a', 'l', 's', 'e'] rest).map fun rest => (.bool false, rest)
    | '"' :: rest => (readString rest).map fun (s, rest) => (.string s, rest)
    | '[' :: rest =>
      match skipBlank rest with
      | ']' :: rest => some (.array [], rest)
      | rest => (readElements steps rest).map fun (values, rest) => (.array values, rest)
    | '\x7b' :: rest =>
      match skipBlank rest with
      | '\x7d' :: rest => some (.object [], rest)
      | rest => (readMembers steps rest).map fun (members, rest) => (.object members, rest)
    | rest => (readNumber rest).map fun (n, rest) => (.number n, rest)

def readElements : (steps : Nat) → List Char → Option (List Value × List Char)
  | 0, _ => none
  | steps + 1, s => do
    let (value, rest) ← readValue steps s
    match skipBlank rest with
    | ',' :: rest =>
      let (values, rest) ← readElements steps rest
      return (value :: values, rest)
    | ']' :: rest => return ([value], rest)
    | _ => none

def readMembers : (steps : Nat) → List Char → Option (List (Str × Value) × List Char)
  | 0, _ => none
  | steps + 1, s => do
    let rest ← expect ['"'] (skipBlank s)
    let (name, rest) ← readString rest
    let rest ← expect [':'] (skipBlank rest)
    let (value, rest) ← readValue steps rest
    match skipBlank rest with
    | ',' :: rest =>
      let (members, rest) ← readMembers steps rest
      return ((name, value) :: members, rest)
    | '\x7d' :: rest => return ([(name, value)], rest)
    | _ => none

end

def read (text : String) : Option Value := do
  let s := text.toList
  let (value, rest) ← readValue (2 * s.length + 2) s
  if (skipBlank rest).isEmpty then some value else none

end EmbeddingAttack.Json
