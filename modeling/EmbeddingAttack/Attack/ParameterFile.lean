import EmbeddingAttack.Attack.Parameters
import EmbeddingAttack.FileTree
import EmbeddingAttack.Json.Reader

/-!
# Parameter files

Attack parameters as a JSON value: an object that names some of the parameters, or an array of the
first of them in their order.  Parameters that are not given keep their standard values; names that
are not known are ignored.
-/

namespace EmbeddingAttack

open Json

def Json.valuesOf (name : String) (members : List (Str × Value)) : List Value :=
  members.filterMap fun (s, v) => if s.text = name then some v else none

def FreeDimensions.ofJson? : Value → Option (FreeDimensions Float)
  | .string ⟨"default", true⟩ => some .standard
  | .string ⟨"ducas18", true⟩ => some .asymptotic
  | .object [(⟨"default", true⟩, .null)] => some .standard
  | .object [(⟨"ducas18", true⟩, .null)] => some .asymptotic
  | .object [(⟨"linear", true⟩, .array [.number a, .number b])] => do
    return .linear (← a.toFloat?) (← b.toFloat?)
  | .object [(⟨"linear", true⟩, .object members)] =>
    if members.all (·.1.paired) then
      match Json.valuesOf "intercept" members, Json.valuesOf "slope" members with
      | [.number a], [.number b] => do return .linear (← a.toFloat?) (← b.toFloat?)
      | _, _ => none
    else none
  | _ => none

def FreeDimensions.toJson (number : Float → Value) : FreeDimensions Float → Value
  | .standard => .text "default"
  | .asymptotic => .text "ducas18"
  | .linear intercept slope =>
    .ofMembers [("linear", .ofMembers [("intercept", number intercept), ("slope", number slope)])]

/-- A value that may be missing. -/
def Json.ofOption {τ : Type} (f : τ → Value) : Option τ → Value
  | some x => f x
  | none => .null

/-- All parameters by name.  How numbers that are no integers are shown is a parameter. -/
def AttackParameters.toJson (number : Float → Value) (p : AttackParameters Float) : Value :=
  .ofMembers
    [("alpha", number p.alpha), ("samples", Json.ofOption .nat p.samples),
      ("goal_margin", number p.goalMargin), ("svp_bkz_time_factor", number p.searchTimeFactor),
      ("blocksizes", Json.ofOption .text p.blocksizes), ("tours", .nat p.tours),
      ("jump", .nat p.jump), ("extra_dim4free", .nat p.extraFreeDimensions),
      ("enum_crossover", .nat p.enumerationCrossover),
      ("dim4free_fun", p.freeDimensions.toJson number), ("dummy_tracer", .bool p.dummyTracer),
      ("verbose", .bool p.verbose), ("threads", .nat p.threads),
      ("lookahead_steps", .nat p.lookaheadSteps),
      ("search_dim_margin", .nat p.searchDimensionMargin),
      ("cost_exponent", number p.costExponent), ("cost_dim_offset", number p.costOffset),
      ("solution_dir", .text p.solutionDirectory)]

namespace ParameterFile

/-- What a parameter file may hold in one place: a name, and how its value changes the
parameters. -/
structure Field where
  name : String
  set : Value → AttackParameters Float → Option (AttackParameters Float)

def floatField (name : String)
    (set : AttackParameters Float → Float → AttackParameters Float) : Field where
  name := name
  set
    | .number n, p => n.toFloat?.map (set p)
    | _, _ => none

def natField (name : String)
    (set : AttackParameters Float → Nat → AttackParameters Float) : Field where
  name := name
  set
    | .number n, p => n.toNat?.map (set p)
    | _, _ => none

def boolField (name : String)
    (set : AttackParameters Float → Bool → AttackParameters Float) : Field where
  name := name
  set
    | .bool b, p => some (set p b)
    | _, _ => none

def fields : List Field :=
  [floatField "alpha" fun p x => { p with alpha := x },
    ⟨"samples", fun v p =>
      match v with
      | .null => some { p with samples := none }
      | .number n => n.toNat?.map fun m => { p with samples := some m }
      | _ => none⟩,
    floatField "goal_margin" fun p x => { p with goalMargin := x },
    floatField "svp_bkz_time_factor" fun p x => { p with searchTimeFactor := x },
    ⟨"blocksizes", fun v p =>
      match v with
      | .null => some { p with blocksizes := none }
      | .string ⟨text, true⟩ => some { p with blocksizes := some text }
      | _ => none⟩,
    natField "tours" fun p x => { p with tours := x },
    natField "jump" fun p x => { p with jump := x },
    natField "extra_dim4free" fun p x => { p with extraFreeDimensions := x },
    natField "enum_crossover" fun p x => { p with enumerationCrossover := x },
    ⟨"dim4free_fun", fun v p =>
      (FreeDimensions.ofJson? v).map fun f => { p with freeDimensions := f }⟩,
    boolField "dummy_tracer" fun p x => { p with dummyTracer := x },
    boolField "verbose" fun p x => { p with verbose := x },
    natField "threads" fun p x => { p with threads := x },
    natField "lookahead_steps" fun p x => { p with lookaheadSteps := x },
    natField "search_dim_margin" fun p x => { p with searchDimensionMargin := x },
    floatField "cost_exponent" fun p x => { p with costExponent := x },
    floatField "cost_dim_offset" fun p x => { p with costOffset := x },
    ⟨"solution_dir", fun v p =>
      match v with
      | .string ⟨text, true⟩ => some { p with solutionDirectory := text }
      | _ => none⟩]

/-- Reads the members of an object.  `pending` are the fields that have not occurred: a field may
occur only once. -/
def readMembers : (pending : List Field) → List (Str × Value) → AttackParameters Float →
    Option (AttackParameters Float)
  | _, [], p => some p
  | pending, (name, value) :: members, p =>
    if name.paired = false then none
    else if fields.all (·.name ≠ name.text) then readMembers pending members p
    else
      match pending.find? (·.name = name.text) with
      | none => none
      | some field => do
        readMembers (pending.filter (·.name ≠ name.text)) members (← field.set value p)

/-- Reads the values of an array, one for each field from the first on. -/
def readValues : (pending : List Field) → List Value → AttackParameters Float →
    Option (AttackParameters Float)
  | _, [], p => some p
  | [], _ :: _, _ => none
  | field :: pending, value :: values, p => do readValues pending values (← field.set value p)

def ofValue? : Value → Option (AttackParameters Float)
  | .object members => readMembers fields members .standard
  | .array values => readValues fields values .standard
  | _ => none

def parse (text : String) : Except (Failure Float) (AttackParameters Float) :=
  match (Json.read text).bind ofValue? with
  | none => throw (.parse .json)
  | some p => do
    p.validate
    return p

def load (files : FileTree) (path : String) : Except (Failure Float) (AttackParameters Float) := do
  parse (← files.read path)

end ParameterFile

end EmbeddingAttack
