import EmbeddingAttack.Decimal.Shortest
import EmbeddingAttack.Text.Integer

/-!
# Texts of numbers

Four ways to write a binary64 number: with the fewest digits that identify it, in plain positional
notation or as a data field; with a fixed number of decimal places; and with a fixed number of
significant digits.
-/

namespace EmbeddingAttack.Decimal

open Text

/-- The digits of `n` with a point before the last `places` of them. -/
def setPoint (n places : Nat) : List Char :=
  let digits := padZeros (places + 1) (writeNat n)
  let whole := digits.take (digits.length - places)
  if places = 0 then whole else whole ++ '.' :: digits.drop (digits.length - places)

/-- A sign before the text of a negative number. -/
def signed (negative : Bool) (s : List Char) : List Char :=
  if negative then '-' :: s else s

/-- A decimal in positional notation. -/
def positional (d : Digits) : List Char :=
  if 0 ≤ d.exponent then writeNat (d.digits * Nat.pow 10 d.exponent.toNat)
  else setPoint d.digits (-d.exponent).toNat

/-- A number in positional notation with the fewest digits that identify it. -/
def plain (x : Float) : List Char :=
  match BinaryValue.ofFloat x with
  | .undefined => ['N', 'a', 'N']
  | .infinite negative => signed negative ['i', 'n', 'f']
  | .finite negative magnitude => signed negative (positional (shortest magnitude))

def fixed (places : Nat) (x : Float) : List Char :=
  match BinaryValue.ofFloat x with
  | .undefined => ['N', 'a', 'N']
  | .infinite negative => signed negative ['i', 'n', 'f']
  | .finite negative magnitude =>
    signed negative
      (setPoint (roundToPower magnitude.numerator magnitude.denominator (-places)) places)

/-- The digits of `n` with a point after the first, and the power of ten. -/
def withExponent (n : Nat) (exponent : Int) : List Char :=
  let digits := writeNat n
  let fraction := digits.drop 1
  digits.take 1 ++ (if fraction.isEmpty then [] else '.' :: fraction) ++ 'e' :: writeInt exponent

/-- A number rounded to `places + 1` significant digits, with a power of ten. -/
def scientific (places : Nat) (x : Float) : List Char :=
  match BinaryValue.ofFloat x with
  | .undefined => ['N', 'a', 'N']
  | .infinite negative => signed negative ['i', 'n', 'f']
  | .finite negative magnitude =>
    signed negative <|
      if magnitude.mantissa = 0 then setPoint 0 places ++ ['e', '0']
      else
        let k := leadingExponent magnitude.numerator magnitude.denominator
        let n := roundToPower magnitude.numerator magnitude.denominator (k - places)
        if n < Nat.pow 10 (places + 1) then withExponent n k else withExponent (n / 10) (k + 1)

/-- A number as a data field, with the fewest digits that identify it: positional with a point
for exponents of the leading digit from `-5` to `15`, else with a power of ten.  Numbers that are
not finite have no such text. -/
def field? (x : Float) : Option (List Char) :=
  match BinaryValue.ofFloat x with
  | .undefined => none
  | .infinite _ => none
  | .finite negative magnitude =>
    let d := shortest magnitude
    let leading := d.exponent + (writeNat d.digits).length - 1
    some <| signed negative <|
      if leading < -5 ∨ 15 < leading then withExponent d.digits leading
      else if 0 ≤ d.exponent then positional d ++ ['.', '0']
      else positional d

end EmbeddingAttack.Decimal
