import EmbeddingAttack.Decimal.Notation
import EmbeddingAttack.Failure

/-!
# The wording of failures

One message per cause.  Noise rates are shown with four decimal places and target norms with
three; all other numbers have the fewest digits that identify them.
-/

namespace EmbeddingAttack

/-- The two ways to write a scalar in a message: with the fewest digits that identify it, and rounded
to a number of decimal places. -/
class ScalarText (α : Type) where
  plain : α → String
  fixed : Nat → α → String

instance : ScalarText Float where
  plain x := String.ofList (Decimal.plain x)
  fixed places x := String.ofList (Decimal.fixed places x)

open ScalarText

variable {α : Type} [ScalarText α]

def pairText (p : Nat × Nat) : String :=
  s!"({p.1}, {p.2})"

def IntegerFault.message : IntegerFault → String
  | .empty => "cannot parse integer from empty string"
  | .invalidDigit => "invalid digit found in string"
  | .tooLarge => "number too large to fit in target type"
  | .tooSmall => "number too small to fit in target type"

def DecimalFault.message : DecimalFault → String
  | .empty => "cannot parse float from empty string"
  | .invalid => "invalid float literal"

def ParameterFault.message : ParameterFault α → String
  | .emptyMatrix => "Matrix cannot be empty"
  | .emptyBasis => "Basis matrix cannot be empty"
  | .emptyProfile => "Basis profile cannot be empty"
  | .zeroCombination => "cannot insert the zero vector"
  | .lovaszFactor delta => "Delta must be in (0.25, 1.0), got " ++ plain delta
  | .sizeBound eta => "Eta must be in [0.5, sqrt(delta)), got " ++ plain eta
  | .reductionRange start stop rank => s!"LLL range {start}..{stop} invalid for rank {rank}"
  | .noNodes => "max_nodes must be positive"
  | .noCandidates => "max_candidates must be positive"
  | .radiusFactor factor => "Radius factor must be in (0, 1], got " ++ plain factor
  | .enumerationBlock start stop rank =>
    s!"enumeration block {start}..{stop} invalid for rank {rank}"
  | .searchWindow start length free liftTo rank =>
    s!"search window llb={start} len={length} free={free} lift_to={liftTo} " ++
      s!"invalid for rank {rank}"
  | .blocksize b => s!"Block size must be at least 2, got {b}"
  | .samplesRequested available requested =>
    s!"Only m={available} samples available, {requested} requested"
  | .samplesAvailable available => s!"Only m={available} samples available."
  | .tooFewSamples samples coordinates =>
    "embedding needs more samples than secret coordinates " ++
      s!"(m={samples}, n={coordinates})"
  | .noInvertibleSubsystem samples coordinates modulus =>
    s!"the {samples} samples contain no invertible {coordinates}x{coordinates} subsystem " ++
      s!"mod {modulus}"
  | .dimension n => s!"n={n} too small"
  | .noiseRange x => "alpha=" ++ plain x ++ " out of range"
  | .alpha x => "alpha must be in (0, 1), got " ++ plain x
  | .goalMargin margin => "goal_margin must be positive, got " ++ plain margin
  | .timeFactor factor => "svp_bkz_time_factor must be non-negative, got " ++ plain factor
  | .costExponent exponent => "cost_exponent must be positive, got " ++ plain exponent
  | .noTours => "tours must be at least 1"
  | .noJump => "jump must be at least 1"
  | .noThreads => "threads must be at least 1"
  | .noSamples => "samples must be positive"
  | .freeDimensions text =>
    "unknown dim4free function '" ++ text ++ "' (expected default, ducas18 or linear:A:B)"
  | .blocksizeEntry text fault => "blocksizes '" ++ text ++ "': " ++ fault.message
  | .blocksizeArity text => "blocksizes '" ++ text ++ "' must be high, low:high or low:high:inc"
  | .blocksizeIncrement text => "blocksizes '" ++ text ++ "': increment must not be zero"
  | .emptySchedule => "blocksize schedule is empty"
  | .noTourTime b => s!"no tour time recorded for blocksize {b}"
  | .stepSize => "step size must be at least 1"
  | .other text => text

def NumericalFault.message : NumericalFault α → String
  | .orthogonalLength index length =>
    s!"Gram-Schmidt length r[{index}] = " ++ plain length ++ " (dependent basis?)"
  | .profileLength index length =>
    s!"non-positive Gram-Schmidt length r[{index}] = " ++ plain length
  | .notConverged iterations => s!"LLL did not converge within {iterations} iterations"
  | .vanishingSwap => "zero Gram-Schmidt length during LLL swap"
  | .other text => text

def ParseFault.message : ParseFault → String
  | .missingLine name => "missing " ++ name ++ " line"
  | .integerLine name line fault => name ++ " line '" ++ line ++ "': " ++ fault.message
  | .sizes n m => s!"invalid sizes n={n} m={m}"
  | .missingVector => "missing c vector"
  | .alphaLine line fault => "alpha line '" ++ line ++ "': " ++ fault.message
  | .vector line => "expected a bracketed vector, got '" ++ line ++ "'"
  | .entry text fault => "entry '" ++ text ++ "': " ++ fault.message
  | .modulus q => s!"modulus q={q} too small"
  | .sampleCount announced found =>
    s!"header announces m={announced} samples, file holds {found}"
  | .intercept text fault => "dim4free intercept '" ++ text ++ "': " ++ fault.message
  | .slope text fault => "dim4free slope '" ++ text ++ "': " ++ fault.message
  | .json => "JSON: not a valid parameter object"
  | .other text => text

def MissingInstance.message : MissingInstance → String
  | .noFile path => path ++ " does not exist"
  | .otherDimension path n => path ++ s!" holds an instance with n={n}"
  | .other text => text

def FileFault.message : FileFault → String
  | .system => "I/O Error: operation not possible"
  | .other text => text

namespace Failure

def message : Failure α → String
  | .infeasible n alpha q =>
    s!"No winning parameters for n={n}, alpha=" ++ fixed 4 alpha ++ s!", q={q}"
  | .scheduleExhausted n alpha lastBlocksize tours =>
    s!"No solution found for n={n}, alpha=" ++ fixed 4 alpha ++
      s!": schedule exhausted at blocksize {lastBlocksize} after {tours} tours " ++
      "(try more or larger blocksizes)"
  | .degenerateProfile dimension targetNorm =>
    s!"Degenerate basis profile: no search dimension below {dimension} reaches target norm " ++
      fixed 3 targetNorm
  | .instanceNotFound n alpha reason =>
    s!"LWE instance n={n}, alpha=" ++ fixed 4 alpha ++ " not found: " ++ reason.message
  | .dimensions expected found =>
    "Invalid dimensions: expected " ++ pairText expected ++ ", found " ++ pairText found
  | .parameters fault => "Invalid parameters: " ++ fault.message
  | .numerical fault => "Numerical instability: " ++ fault.message
  | .parse fault => "Parse error: " ++ fault.message
  | .file fault => "I/O error: " ++ fault.message
  | .outOfRange => "index out of range"
  | .noQuotient => "attempt to divide with overflow"

/-- The class of a failure. -/
def kind {α : Type} : Failure α → FailureKind
  | .infeasible .. => .infeasibleParameters
  | .scheduleExhausted .. => .scheduleExhausted
  | .degenerateProfile .. => .degenerateProfile
  | .instanceNotFound .. => .instanceNotFound
  | .dimensions .. => .invalidInput
  | .parameters .. => .invalidInput
  | .parse .. => .invalidInput
  | .outOfRange => .invalidInput
  | .noQuotient => .invalidInput
  | .numerical .. => .numerical
  | .file .. => .io

end Failure

def FailureKind.name : FailureKind → String
  | .infeasibleParameters => "InfeasibleParameters"
  | .scheduleExhausted => "ScheduleExhausted"
  | .degenerateProfile => "DegenerateProfile"
  | .instanceNotFound => "InstanceNotFound"
  | .invalidInput => "InvalidInput"
  | .numerical => "Numerical"
  | .io => "Io"

end EmbeddingAttack
