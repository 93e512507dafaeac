import EmbeddingAttack.Decimal.Reader

/-!
# JSON numbers

A number keeps the digits that it is written with.  As a binary64 number it is read in a way that
needs one machine word: `leading` takes as many digits as the word has room for, and the word is
rounded and then scaled by a power of ten, so that the result need not be the closest number.
-/

namespace EmbeddingAttack.Json

open Decimal Text

/-- A number as it is written: its sign, the digits before and after the point, and the power of
ten. -/
structure Number where
  negative : Bool
  whole : List Char
  fraction : List Char
  power : Option Int
deriving DecidableEq

/-- Takes digits into a word as long as it has room for them.  Returns the digits that are left. -/
def takeDigits (word : Nat) : List Char → Nat × List Char
  | [] => (word, [])
  | c :: rest =>
    let longer := 10 * word + (digitValue? c).getD 0
    if longer ≤ maxWord64 then takeDigits longer rest else (word, c :: rest)

/-- The power of ten, which is a binary64 number up to `10 ^ 308`. -/
def powerOfTen (e : Nat) : Float :=
  (⟨1, e⟩ : Scaled).toFloat

/-- Divides a number by `10 ^ e`, by no more than `10 ^ 308` at a time. -/
def divideByPower (x : Float) (e : Nat) : Float :=
  if e ≤ 308 then x / powerOfTen e
  else if x == 0 then x
  else divideByPower (x / powerOfTen 308) (e - 308)
termination_by e

/-- Multiplies a number by `10 ^ e`, if the product is finite. -/
def multiplyByPower? (x : Float) (e : Nat) : Option Float :=
  if e ≤ 308 then
    let y := x * powerOfTen e
    if y.isFinite then some y else none
  else if x == 0 then some x
  else none

namespace Number

def ofInt (x : Int) : Number :=
  ⟨x < 0, writeNat x.natAbs, [], none⟩

/-- Whether a number is written as an integer, without a fraction or a power of ten. -/
def isIntegral (n : Number) : Bool :=
  n.fraction.isEmpty && n.power.isNone

/-- The exact value without the sign. -/
def magnitude (n : Number) : Scaled :=
  ⟨digitsValue (n.whole ++ n.fraction), n.power.getD 0 - n.fraction.length⟩

/-- The natural number below `2 ^ 64` that is written as an integer without a sign. -/
def toNat? (n : Number) : Option Nat :=
  let x := digitsValue n.whole
  if n.isIntegral ∧ n.negative = false ∧ x ≤ maxWord64 then some x else none

/-- The integer that is written, if it is one. -/
def toInt? (n : Number) : Option Int :=
  let x := digitsValue n.whole
  if n.isIntegral then some (if n.negative then -(x : Int) else x) else none

/-- The leading digits, as many as fit into a word of 64 bits, with the power of ten that goes with
them.  Digits before the point for which there is no room only count as places.  The digits after
the point are tried again from the first on, and those from the first that does not fit are left
out. -/
def leading (n : Number) : Scaled :=
  let (word, skipped) := takeDigits 0 n.whole
  let (word, left) := takeDigits word n.fraction
  ⟨word, n.power.getD 0 + skipped.length - (n.fraction.length - left.length)⟩

/-- The binary64 number that a number is read as, which must be finite. -/
def toFloat? (n : Number) : Option Float :=
  let ⟨word, exponent⟩ := n.leading
  let x := Float.ofNat word
  let scaled :=
    if exponent < 0 then some (divideByPower x exponent.natAbs)
    else multiplyByPower? x exponent.natAbs
  scaled.map fun y => if n.negative then -y else y

end Number

end EmbeddingAttack.Json
