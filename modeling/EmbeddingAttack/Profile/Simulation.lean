import EmbeddingAttack.Profile.GaussianHeuristic

/-!
# Simulated block reduction

What a tour of block reduction does to a profile, without running it.  Each block is expected to
reach the Gaussian heuristic of its volume; the last rows of the basis, where blocks get small,
take the shape of a fully reduced random lattice.  The simulator works with logarithms of lengths,
which are half the logarithms of the squared lengths in a profile.
-/

namespace EmbeddingAttack

namespace Simulation

variable {α : Type} [Scalar α]

/-- The dimension up to which blocks follow the fully reduced shape. -/
def tailDimension : Nat := 45

/-- The logarithm of the expected length of a shortest vector of a lattice of dimension `k` and
volume one, never below zero. -/
@[specialize] def unitLogHeuristic (k : Nat) : α :=
  let x : α := k
  let log := Scalar.logGamma (x / 2.0 + 1) / x - Scalar.log (Scalar.sqrt Scalar.pi)
  if 0 < log then log else 0

/-- The logarithmic lengths of a fully reduced lattice of dimension `dimensions` whose volume has
the logarithm `remaining`: each vector meets the heuristic of what is left. -/
@[specialize] def fullyReduced : (dimensions : Nat) → (remaining : α) → List α
  | 0, _ => []
  | k + 1, remaining =>
    let length := unitLogHeuristic (k + 1) + remaining / ((k + 1 : Nat) : α)
    length :: fullyReduced k (remaining - length)

/-- The shape of the tail: a fully reduced lattice of volume one. -/
@[specialize] def tailShape : List α :=
  fullyReduced tailDimension 0

/-- The mean of a list of length `n`. -/
@[specialize] def mean (xs : List α) (n : Nat) : α :=
  Scalar.sum xs / (n : α)

/-- How far the first vector of a reduced block of dimension `1`, `2`, … lies above the mean of the
block, up to the dimension `blocksize` and at least up to that of the tail. -/
@[specialize] def blockConstants (blocksize : Nat) : Array α :=
  let shape : List α := tailShape
  let small := (List.range' 1 tailDimension).map fun j =>
    let tail := shape.drop (tailDimension - j)
    tail.headD 0 - mean tail j
  let large := (List.range' (tailDimension + 1) (blocksize - tailDimension)).map unitLogHeuristic
  (small ++ large).toArray

/-- The running sums of a simulated tour.  `unchanged` holds until the first row that improves;
`oldPrefix` and `newPrefix` are the sums of the old and new logarithms before the current row, and
`window` is that of the old logarithms in the current block. -/
structure Running (α : Type) where
  unchanged : Bool
  oldPrefix : α
  newPrefix : α
  window : α

/-- The new logarithms of the first rows, one for each of the block dimensions given.  `old` and
`incoming` are the old logarithms from the current row and from the end of its block on. -/
@[specialize] def headRows (constants : Array α) : (blocks : List Nat) → (old incoming : List α) →
    Running α → List α × Bool
  | [], _, _, s => ([], s.unchanged)
  | _ :: _, [], _, s => ([], s.unchanged)
  | beta :: blocks, x :: old, incoming, s =>
    let volume := s.oldPrefix + s.window - s.newPrefix
    let expected := volume / (beta : α) + constants.getD (beta - 1) 0
    let unchanged := s.unchanged && !decide (expected < x)
    let y := if unchanged then x else expected
    let window := s.window - x
    let next : Running α :=
      { unchanged
        oldPrefix := s.oldPrefix + x
        newPrefix := s.newPrefix + y
        window := match incoming with
          | [] => window
          | z :: _ => window + z }
    let (rest, result) := headRows constants blocks old (incoming.drop 1) next
    (y :: rest, result)

/-- Whether two lists of scalars agree entry by entry. -/
@[specialize] def same (xs ys : List α) : Bool :=
  xs.length == ys.length && (xs.zip ys).all fun (x, y) => Scalar.equal x y

/-- One simulated tour on the logarithms `old`, or nothing if the tour changes none of them. -/
@[specialize] def tour? (constants : Array α) (shape : List α) (blocksize : Nat) (old : List α) :
    Option (List α) :=
  let d := old.length
  let tailLength := min (min tailDimension blocksize) d
  let head := d - min tailDimension blocksize
  let start : Running α := ⟨true, 0, 0, Scalar.sum (old.take (min blocksize d))⟩
  let blocks := (List.range head).map fun k => min blocksize (d - k)
  let (front, unchanged) := headRows constants blocks old (old.drop blocksize) start
  if unchanged || same old (front ++ old.drop head) then none
  else
    let volume := Scalar.sum old - Scalar.sum front
    let tail := shape.drop (tailDimension - tailLength)
    let center := mean tail tailLength
    let new := front ++ tail.map fun s => volume / (tailLength : α) + (s - center)
    if same old new then none else some new

/-- At most `tours` simulated tours in a row, ending with the first that changes nothing. -/
@[specialize] def tours (constants : Array α) (shape : List α) (blocksize : Nat) :
    (tours : Nat) → List α → List α
  | 0, logs => logs
  | t + 1, logs =>
    match tour? constants shape blocksize logs with
    | none => logs
    | some logs => tours constants shape blocksize t logs

end Simulation

namespace Profile

variable {α : Type} [Scalar α]

/-- The profile expected after the given number of tours, at least one, at the given blocksize. -/
@[specialize] def simulate (p : Profile α) (blocksize tours : Nat) :
    Except (Failure α) (Profile α) :=
  if blocksize < 2 then throw (.parameters (.blocksize blocksize))
  else
    let logs := p.lengths.map fun r => Scalar.log r / 2.0
    let after := Simulation.tours (Simulation.blockConstants blocksize) Simulation.tailShape
      blocksize (max tours 1) logs
    ofLengths (after.map fun l => Scalar.exp (2.0 * l))

end Profile

end EmbeddingAttack
