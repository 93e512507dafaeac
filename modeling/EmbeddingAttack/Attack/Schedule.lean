import EmbeddingAttack.Arithmetic.Words
import EmbeddingAttack.Failure
import EmbeddingAttack.Text.Blank
import EmbeddingAttack.Text.Integer

/-!
# Blocksize schedules

The blocksizes of an attack in the order in which they are used.
-/

namespace EmbeddingAttack

/-- A schedule of blocksizes.  A blocksize may occur more than once. -/
structure Schedule where
  blocksizes : List Nat
deriving DecidableEq, Repr

/-- The integers `start`, `start + step`, … that come before `stop` in the direction of the step. -/
def steppedRange (start stop step : Int) : List Int :=
  let count :=
    if 0 < step then (stop - start + step - 1) / step
    else if step < 0 then (start - stop - step - 1) / (-step)
    else 0
  (List.range count.toNat).map fun i : Nat => start + i * step

namespace Schedule

/-- The schedule of those integers that are blocksizes, which are two at least. -/
def ofInts (xs : List Int) : Schedule :=
  ⟨(xs.filter (2 ≤ ·)).map Int.toNat⟩

def readEntries {α : Type} (text : String) : List (List Char) → Except (Failure α) (List Int)
  | [] => return []
  | part :: parts =>
    match Text.readInt (Text.trim part) with
    | .error fault => throw (.parameters (.blocksizeEntry text fault))
    | .ok x => return x :: (← readEntries text parts)

/-- An explicit schedule: a short ramp, then a range given as `high`, `low:high` or
`low:high:step`. -/
def explicit {α : Type} (text : String) : Except (Failure α) Schedule := do
  let (low, high, step) ←
    match ← readEntries text (Text.splitBy (· == ':') text.toList) with
    | [high] => pure (0, high, 1)
    | [low, high] => pure (low, high, 1)
    | [low, high, step] => pure (low, high, step)
    | _ => throw (.parameters (.blocksizeArity text))
  if step = 0 then
    throw (.parameters (.blocksizeIncrement text))
  return ofInts (steppedRange 10 40 1 ++ steppedRange low high step)

/-- The default schedule: a ramp up to 50, then blocksizes that get denser towards the predicted one
and go beyond it.  What lies below the end of the ramp is left out. -/
def ofPrediction (predicted : Nat) : Schedule :=
  let b := wrapInt64 predicted
  let before := wrapInt64 (b - 15)
  let beyond := steppedRange (wrapInt64 (b - 13)) (wrapInt64 (b + 25)) 2
  let tail := steppedRange 70 before 10 ++ [before] ++ beyond
  ofInts (steppedRange 10 50 1 ++ tail.filter (50 ≤ ·))

/-- The explicit schedule where there is one, else the default one. -/
def build {α : Type} (text : Option String) (predicted : Nat) : Except (Failure α) Schedule :=
  match text with
  | some text => explicit text
  | none => return ofPrediction predicted

/-- The given number of entries after the first occurrence of a blocksize. -/
def upcoming (schedule : Schedule) (blocksize steps : Nat) : List Nat :=
  match schedule.blocksizes.idxOf? blocksize with
  | some i => (schedule.blocksizes.take (wrapSize (i + 1 + steps))).drop (i + 1)
  | none => []

/-- The same for a caller who may ask for more entries than a size can count.  The end of the
entries then lies before their start. -/
def tryUpcoming {α : Type} (schedule : Schedule) (blocksize steps : Nat) :
    Except (Failure α) (List Nat) :=
  if (schedule.blocksizes.idxOf? blocksize).any fun i => wrapSize (i + 1 + steps) < i + 1 then
    throw .outOfRange
  else return schedule.upcoming blocksize steps

/-- The entry at a position, with the position after it; at the end the position stays. -/
def next (schedule : Schedule) (position : Nat) : Option Nat × Nat :=
  match schedule.blocksizes[position]? with
  | some b => (some b, position + 1)
  | none => (none, position)

/-- The entries of the given number of steps from a position on, each with the position after it. -/
def walk (schedule : Schedule) : (steps position : Nat) → List (Option Nat × Nat)
  | 0, _ => []
  | steps + 1, position =>
    let step := schedule.next position
    step :: schedule.walk steps step.2

end Schedule

end EmbeddingAttack
