/-!
# Failures

Why an operation gave no result.  A failure records its cause as data; its wording and its class
are functions of the cause.  Scalars inside a cause are of the same type `α` as in the computation
that failed.
-/

namespace EmbeddingAttack

/-- Why a text is no integer of the range asked for. -/
inductive IntegerFault where
  | empty
  | invalidDigit
  | tooLarge
  | tooSmall
deriving DecidableEq, Repr

/-- Why a text is no decimal number. -/
inductive DecimalFault where
  | empty
  | invalid
deriving DecidableEq, Repr

/-- What is wrong with the arguments of an operation. -/
inductive ParameterFault (α : Type) where
  | emptyMatrix
  | emptyBasis
  | emptyProfile
  | zeroCombination
  | lovaszFactor (delta : α)
  | sizeBound (eta : α)
  | reductionRange (start stop rank : Nat)
  | noNodes
  | noCandidates
  | radiusFactor (factor : α)
  | enumerationBlock (start stop rank : Nat)
  | searchWindow (start length free liftTo rank : Nat)
  | blocksize (blocksize : Nat)
  | samplesRequested (available requested : Nat)
  | samplesAvailable (available : Nat)
  | tooFewSamples (samples coordinates : Nat)
  | noInvertibleSubsystem (samples coordinates : Nat) (modulus : Int)
  | dimension (n : Nat)
  | noiseRange (alpha : α)
  | alpha (alpha : α)
  | goalMargin (margin : α)
  | timeFactor (factor : α)
  | costExponent (exponent : α)
  | noTours
  | noJump
  | noThreads
  | noSamples
  | freeDimensions (text : String)
  | blocksizeEntry (text : String) (fault : IntegerFault)
  | blocksizeArity (text : String)
  | blocksizeIncrement (text : String)
  | emptySchedule
  | noTourTime (blocksize : Nat)
  | stepSize
  | other (text : String)
deriving DecidableEq

/-- What went wrong in the arithmetic on scalars. -/
inductive NumericalFault (α : Type) where
  | orthogonalLength (index : Nat) (length : α)
  | profileLength (index : Nat) (length : α)
  | notConverged (iterations : Nat)
  | vanishingSwap
  | other (text : String)
deriving DecidableEq

/-- Why a text is no challenge, no parameter file or no number. -/
inductive ParseFault where
  | missingLine (name : String)
  | integerLine (name line : String) (fault : IntegerFault)
  | sizes (n m : Int)
  | missingVector
  | alphaLine (line : String) (fault : DecimalFault)
  | vector (line : String)
  | entry (text : String) (fault : IntegerFault)
  | modulus (q : Int)
  | sampleCount (announced : Int) (found : Nat)
  | intercept (text : String) (fault : DecimalFault)
  | slope (text : String) (fault : DecimalFault)
  | json
  | other (text : String)
deriving DecidableEq

/-- Why an instance was not found. -/
inductive MissingInstance where
  | noFile (path : String)
  | otherDimension (path : String) (n : Nat)
  | other (text : String)
deriving DecidableEq

/-- Why a file operation failed. -/
inductive FileFault where
  | system
  | other (text : String)
deriving DecidableEq

/-- Everything that can end a computation without its result. -/
inductive Failure (α : Type) where
  | infeasible (n : Nat) (alpha : α) (q : Int)
  | scheduleExhausted (n : Nat) (alpha : α) (lastBlocksize tours : Nat)
  | degenerateProfile (dimension : Nat) (targetNorm : α)
  | instanceNotFound (n : Nat) (alpha : α) (reason : MissingInstance)
  | dimensions (expected found : Nat × Nat)
  | parameters (fault : ParameterFault α)
  | numerical (fault : NumericalFault α)
  | parse (fault : ParseFault)
  | file (fault : FileFault)
  /-- An index beyond the end of a list.  The caller broke the contract of the operation, so this
  is no answer about its arguments. -/
  | outOfRange
  /-- A quotient of two words that is none: that of the least word by minus one. -/
  | noQuotient
deriving DecidableEq

/-- The classes into which reports sort failures. -/
inductive FailureKind where
  | infeasibleParameters
  | scheduleExhausted
  | degenerateProfile
  | instanceNotFound
  | invalidInput
  | numerical
  | io
deriving DecidableEq, Repr

end EmbeddingAttack
