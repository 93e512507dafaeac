import EmbeddingAttack.Arithmetic.Words
import EmbeddingAttack.Failure

/-!
# Decimal integers

Writing integers, and reading them from texts within the range of a machine word.  A text that is
no such integer is refused for the first character that rules it out.
-/

namespace EmbeddingAttack.Text

def digitValue? (c : Char) : Option Nat :=
  if '0' ≤ c ∧ c ≤ '9' then some (c.toNat - '0'.toNat) else none

/-- Reads digits after a number `value`, none of which may take the number beyond `bound`. -/
def readDigits (beyond : IntegerFault) (bound : Nat) : List Char → Nat → Except IntegerFault Nat
  | [], value => .ok value
  | c :: s, value =>
    match digitValue? c with
    | none => .error .invalidDigit
    | some d =>
      let value := 10 * value + d
      if bound < value then .error beyond else readDigits beyond bound s value

/-- Reads the digits of a number, of which there must be one at least. -/
def readMagnitude (beyond : IntegerFault) (bound : Nat) (s : List Char) : Except IntegerFault Nat :=
  if s.isEmpty then .error .invalidDigit else readDigits beyond bound s 0

/-- Reads a signed 64-bit integer: an optional sign and digits. -/
def readInt (s : List Char) : Except IntegerFault Int :=
  match s with
  | [] => .error .empty
  | '-' :: s => (readMagnitude .tooSmall (maxInt64 + 1) s).map fun n => -(n : Int)
  | '+' :: s => (readMagnitude .tooLarge maxInt64 s).map Int.ofNat
  | s => (readMagnitude .tooLarge maxInt64 s).map Int.ofNat

/-- Reads an unsigned 64-bit integer: an optional plus sign and digits. -/
def readNat (s : List Char) : Except IntegerFault Nat :=
  match s with
  | [] => .error .empty
  | '+' :: s => readMagnitude .tooLarge maxWord64 s
  | s => readMagnitude .tooLarge maxWord64 s

def writeNat (n : Nat) : List Char :=
  Nat.toDigits 10 n

/-- The digits of a number with a minus sign before those of a negative one. -/
def writeInt : Int → List Char
  | .ofNat n => writeNat n
  | .negSucc n => '-' :: writeNat (n + 1)

/-- A text with zeros before it, up to the given length. -/
def padZeros (width : Nat) (s : List Char) : List Char :=
  List.replicate (width - s.length) '0' ++ s

end EmbeddingAttack.Text
