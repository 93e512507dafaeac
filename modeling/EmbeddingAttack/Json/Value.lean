import EmbeddingAttack.Decimal.Shortest
import EmbeddingAttack.Json.Number

/-!
# JSON values
-/

namespace EmbeddingAttack.Json

/-- A string.  A text may name half of a surrogate pair by an escape; such a string is not `paired`
and stands for no text. -/
structure Str where
  text : String
  paired : Bool := true
deriving DecidableEq

/-- A JSON value.  The members of an object keep their order, and a name may occur twice. -/
inductive Value where
  | null
  | bool (b : Bool)
  | number (n : Number)
  | string (s : Str)
  | array (values : List Value)
  | object (members : List (Str × Value))

namespace Value

/-- A text. -/
def text (s : String) : Value :=
  .string ⟨s, true⟩

def ofMembers (members : List (String × Value)) : Value :=
  .object (members.map fun (name, value) => (⟨name, true⟩, value))

def int (x : Int) : Value :=
  .number (.ofInt x)

def nat (x : Nat) : Value :=
  .int x

/-- A binary64 number with the fewest digits that identify it.  There is no JSON number for one that
is not finite. -/
def float (x : Float) : Value :=
  match BinaryValue.ofFloat x with
  | .finite negative magnitude =>
    let d := Decimal.shortest magnitude
    .number ⟨negative, Text.writeNat d.digits, [], some d.exponent⟩
  | _ => .null

def list {τ : Type} (f : τ → Value) (xs : List τ) : Value :=
  .array (xs.map f)

end Value

end EmbeddingAttack.Json
