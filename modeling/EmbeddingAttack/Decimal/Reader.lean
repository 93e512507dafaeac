import EmbeddingAttack.Failure
import EmbeddingAttack.Text.Integer

/-!
# Reading decimal numbers

A decimal number has an optional sign, digits with an optional point among, before or after them,
and an optional power of ten.  The names of the infinite and undefined values are read without
regard to case.  Numbers are rounded to binary64 once, ties to even.
-/

namespace EmbeddingAttack.Decimal

open Text

/-- An unsigned decimal `mantissa * 10 ^ exponent`. -/
structure Scaled where
  mantissa : Nat
  exponent : Int
deriving DecidableEq, Repr

/-- The binary64 number nearest to a decimal.  A decimal with a leading digit far beyond the range
of exponents needs no arithmetic. -/
def Scaled.toFloat (d : Scaled) : Float :=
  if d.mantissa = 0 then 0
  else
    let leading := d.exponent + (writeNat d.mantissa).length
    if leading < -400 then 0
    else if 400 < leading then 1.0 / 0.0
    else Float.ofScientific d.mantissa (d.exponent < 0) d.exponent.natAbs

def spanDigits (s : List Char) : List Char × List Char :=
  s.span fun c => (digitValue? c).isSome

def digitsValue (digits : List Char) : Nat :=
  digits.foldl (fun n c => 10 * n + (digitValue? c).getD 0) 0

def spanSign : List Char → Bool × List Char
  | '-' :: s => (true, s)
  | '+' :: s => (false, s)
  | s => (false, s)

/-- Reads the power of ten after the digits, which may be missing; nothing may follow it. -/
def readPower? : List Char → Option Int
  | [] => some 0
  | c :: s =>
    if c = 'e' ∨ c = 'E' then
      let (negative, s) := spanSign s
      let (digits, rest) := spanDigits s
      if digits.isEmpty ∨ ¬ rest.isEmpty then none
      else some (if negative then -(digitsValue digits : Int) else digitsValue digits)
    else none

/-- Reads an unsigned decimal that fills the whole text. -/
def readScaled? (s : List Char) : Option Scaled :=
  let (whole, rest) := spanDigits s
  let (fraction, rest) :=
    match rest with
    | '.' :: rest => spanDigits rest
    | rest => ([], rest)
  if whole.isEmpty ∧ fraction.isEmpty then none
  else do
    let power ← readPower? rest
    return ⟨digitsValue (whole ++ fraction), power - fraction.length⟩

/-- The letters of a text in lower case, where they are ASCII. -/
def lowerCase (s : List Char) : List Char :=
  s.map Char.toLower

def readUnsigned? (s : List Char) : Option Float :=
  if lowerCase s = ['n', 'a', 'n'] then some (0.0 / 0.0)
  else if lowerCase s = ['i', 'n', 'f'] ∨ lowerCase s = "infinity".toList then some (1.0 / 0.0)
  else (readScaled? s).map Scaled.toFloat

def read (s : List Char) : Except DecimalFault Float :=
  if s.isEmpty then .error .empty
  else
    let (negative, s) := spanSign s
    match readUnsigned? s with
    | none => .error .invalid
    | some x => .ok (if negative then -x else x)

end EmbeddingAttack.Decimal
