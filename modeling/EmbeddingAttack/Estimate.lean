import EmbeddingAttack.Profile.GaussianHeuristic

/-!
# Predicted parameters

Which blocksize, search dimension and number of samples an attack is expected to need.  The
prediction assumes that the logarithms of the orthogonalised lengths of a reduced basis fall on a
line, whose slope depends on the blocksize.
-/

namespace EmbeddingAttack

/-- Predicted parameters: the blocksize of the reduction, the dimension of the last search, and the
number of samples. -/
structure Prediction where
  blocksize : Nat
  searchDimension : Nat
  samples : Nat
deriving DecidableEq, Repr

/-- A way to predict parameters for an instance with the given dimension, noise rate and modulus.
The flag allows a search dimension above the blocksize; the last argument bounds the samples. -/
abbrev Estimator (α : Type) :=
  Nat → α → Int → Bool → Option Nat → Except (Failure α) Prediction

namespace Estimate

variable {α : Type} [Scalar α]

/-- Measured root-Hermite factors for small blocksizes. -/
@[specialize] def smallFactors : List (Nat × α) :=
  [(2, 1.02190), (5, 1.01862), (10, 1.01616), (15, 1.01485), (20, 1.01420), (25, 1.01342),
    (28, 1.01331), (40, 1.01295)]

/-- Interpolates between the measured points, the last one before `k` being `previous`. -/
@[specialize] def interpolate (k : Nat) : (previous : Nat × α) → List (Nat × α) → α
  | previous, [] => previous.2
  | previous, (b, factor) :: rest =>
    if k ≤ b then
      if b = previous.1 then factor
      else
        let t := ((k - previous.1 : Nat) : α) / ((b - previous.1 : Nat) : α)
        previous.2 + t * (factor - previous.2)
    else interpolate k (b, factor) rest

/-- The root-Hermite factor that reduction with blocksize `k` reaches: measured up to blocksize
forty, asymptotic beyond. -/
@[specialize] def rootHermite (k : Nat) : α :=
  if k ≤ 40 then interpolate k (2, 1.02190) smallFactors
  else
    let x : α := k
    Scalar.pow (x / (2.0 * Scalar.pi * Scalar.e) * Scalar.pow (Scalar.pi * x) (1 / x))
      (1 / (2.0 * (x - 1)))

/-- Whether a search in the last `s` of `d` dimensions is expected to find an error of standard
deviation `sigma` in a basis reduced with blocksize `b`, the logarithm of whose volume is given. -/
@[specialize] def succeeds (logVolume : α) (d b s : Nat) (sigma : α) : Bool :=
  let slope := Scalar.log (rootHermite b)
  let (x, y) := ((d : α), (s : α))
  let projected := y * logVolume / x - y * (x - y) * slope
  let logLength := (projected - ballLogVolume s) / y
  decide (sigma * Scalar.sqrt y ≤ Scalar.exp logLength)

/-- The binary logarithm of the expected work: that of the reduction and, where the search has a
dimension of its own, that of the search. -/
@[specialize] def logCost (exponent : α) (d b s : Nat) (decouple : Bool) : α :=
  let tour := exponent * (b : α) + Scalar.log2 (d : α)
  if decouple then
    let search := exponent * (s : α)
    let (high, low) := if search < tour then (tour, search) else (search, tour)
    high + Scalar.log2 (1 + Scalar.exp2 (low - high))
  else tour

/-- What is fixed for the search for parameters. -/
structure Setting (α : Type) where
  n : Nat
  q : Int
  sigma : α
  exponent : α
  decouple : Bool

/-- The least search dimension that succeeds in dimension `d` with blocksize `b`: one from `b` up
to `d`, or only `b` itself. -/
@[specialize] def searchDimension? (S : Setting α) (logVolume : α) (d b : Nat) : Option Nat :=
  let candidates := if S.decouple then List.range' b (d + 1 - b) else [b]
  candidates.find? fun s => succeeds logVolume d b s S.sigma

/-- The better of the best parameters so far and those for `m` samples and blocksize `b`. -/
@[specialize] def consider (S : Setting α) (m b s : Nat) (best : Option (α × Prediction)) :
    Option (α × Prediction) :=
  let cost := logCost S.exponent (m + 1) b s S.decouple
  match best with
  | none => some (cost, ⟨b, s, m⟩)
  | some (least, _) => if cost < least then some (cost, ⟨b, s, m⟩) else best

/-- Tries the given blocksizes for `m` samples.  Unless the search has a dimension of its own, the
first blocksize that succeeds is the cheapest. -/
@[specialize] def tryBlocksizes (S : Setting α) (m : Nat) (logVolume : α) :
    List Nat → Option (α × Prediction) → Option (α × Prediction)
  | [], best => best
  | b :: rest, best =>
    match searchDimension? S logVolume (m + 1) b with
    | none => tryBlocksizes S m logVolume rest best
    | some s =>
      let best := consider S m b s best
      if S.decouple then tryBlocksizes S m logVolume rest best else best

/-- Tries all blocksizes for `m` samples. -/
@[specialize] def trySamples (S : Setting α) (best : Option (α × Prediction)) (m : Nat) :
    Option (α × Prediction) :=
  let logVolume := ((m - S.n : Nat) : α) * Scalar.log (S.q : α)
  tryBlocksizes S m logVolume (List.range' 2 m) best

/-- The cheapest parameters for an instance.  The samples are bounded by those available and by a
multiple of the dimension. -/
@[specialize] def cheapest (exponent : α) (sampleFactor : Nat) : Estimator α :=
  fun n alpha q decouple available =>
    if n = 0 ∨ q < 2 ∨ ¬ 0 < alpha then throw (.infeasible n alpha q)
    else
      let bound := wrapSize (sampleFactor * n)
      let most := min (available.getD bound) bound
      let S : Setting α := ⟨n, q, alpha * (q : α), exponent, decouple⟩
      match (List.range' (n + 1) (most - n)).foldl (trySamples S) none with
      | some (_, prediction) => return prediction
      | none => throw (.infeasible n alpha q)

end Estimate

end EmbeddingAttack
