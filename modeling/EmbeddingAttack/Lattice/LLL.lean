import EmbeddingAttack.Lattice.Basis
import EmbeddingAttack.Lattice.Statistics

/-!
# LLL reduction

The reduction of Lenstra, Lenstra and Lovász on a range of rows.  Each step makes the row `k`
small against the rows before it, then either goes on to the next row or, where the Lovász
condition fails, exchanges the row with its predecessor and goes back.  The Gram–Schmidt data
follow each step in place and are recomputed at the end.
-/

namespace EmbeddingAttack

/-- Parameters of the reduction: the Lovász factor, the bound on the coefficients, the number of
steps after which the reduction gives up, and the tolerance of the check on its result. -/
structure LLL (α : Type) where
  delta : α
  eta : α
  maxIterations : Nat
  tolerance : α

namespace LLL

variable {α : Type} [Scalar α] {n m : Nat}

/-- The parameters in general use. -/
def standard : LLL α where
  delta := 0.99
  eta := 0.51
  maxIterations := 1000000
  tolerance := 1e-9

/-- Checks that the reduction can converge with these parameters. -/
@[specialize] def validate (p : LLL α) : Except (Failure α) Unit := do
  if ¬ (0.25 < p.delta ∧ p.delta < 1) then
    throw (.parameters (.lovaszFactor p.delta))
  if ¬ (0.5 ≤ p.eta ∧ p.eta < Scalar.sqrt p.delta) then
    throw (.parameters (.sizeBound p.eta))

/-- Makes the coefficient of row `k` along row `j` small by a multiple of row `j`, unless it is
small already. -/
@[specialize] def reduceAlong (p : LLL α) (k j : Nat) (L : LatticeBasis α n m) :
    LatticeBasis α n m :=
  let c := L.coefficient k j
  if Scalar.abs c ≤ p.eta then L
  else
    let q := Scalar.round c
    let along := if h : j < n then L.mu[j] else Vector.replicate n 0
    let moved := L.setBasis (·.subScaledRow (Scalar.integers α) k j (Scalar.toWord q))
    moved.modifyCoefficients k fun row =>
      row.mapIdx fun i x =>
        if i < j then x - q * along.getD i 0 else if i = j then x - q else x

/-- Makes row `k` small along the rows `j - 1`, …, `0`. -/
@[specialize] def sizeReduceBelow (p : LLL α) (k : Nat) :
    (j : Nat) → LatticeBasis α n m → LatticeBasis α n m
  | 0, L => L
  | j + 1, L => sizeReduceBelow p k j (reduceAlong p k j L)

/-- Makes row `k` small along all rows before it. -/
@[inline] def sizeReduce (p : LLL α) (k : Nat) (L : LatticeBasis α n m) : LatticeBasis α n m :=
  sizeReduceBelow p k k L

/-- The Gram–Schmidt data after the exchange of the rows `k - 1` and `k`, from those before it and
the new squared length `square` of row `k - 1`. -/
@[specialize] def exchangeData (k : Nat) (square : α) (L : LatticeBasis α n m) :
    LatticeBasis α n m :=
  let c := L.coefficient k (k - 1)
  let below := L.length (k - 1)
  let c' := c * below / square
  let upper := if h : k - 1 < n then L.mu[k - 1] else Vector.replicate n 0
  let lower := if h : k < n then L.mu[k] else Vector.replicate n 0
  let exchanged := (L.modifyCoefficients (k - 1) fun row =>
      row.mapIdx fun j x => if j < k - 1 then lower.getD j 0 else x)
    |>.modifyCoefficients k fun row =>
      row.mapIdx fun j x => if j < k - 1 then upper.getD j 0 else if j = k - 1 then c' else x
  let mu := exchanged.mu.mapIdx fun i row =>
    if k < i then
      let t := row.getD k 0
      let u := row.getD (k - 1) 0 - c * t
      (row.setIfInBounds k u).setIfInBounds (k - 1) (t + c' * u)
    else row
  (({ exchanged with mu }).setLength k (below * L.length k / square)).setLength (k - 1) square

/-- Exchanges row `k` with its predecessor. -/
@[specialize] def exchange (k : Nat) : Reduction α n m Unit := do
  modify (·.setBasis (·.swapRows (k - 1) k))
  let L ← get
  let c := L.coefficient k (k - 1)
  let square := L.length k + c * c * L.length (k - 1)
  if ¬ 0 < square then
    throw (.numerical .vanishingSwap)
  modify (exchangeData k square)

/-- Whether row `k` may stay behind its predecessor. -/
@[specialize] def lovasz (p : LLL α) (L : LatticeBasis α n m) (k : Nat) : Bool :=
  let c := L.coefficient k (k - 1)
  decide ((p.delta - c * c) * L.length (k - 1) ≤ L.length k)

/-- Reduces the rows up to `stop`, row `k` being the next, with at most `budget` further steps. -/
@[specialize] def run (p : LLL α) (start stop : Nat) :
    (budget k : Nat) → Statistics → Reduction α n m Statistics
  | 0, k, stats =>
    if k < stop then throw (.numerical (.notConverged stats.iterations)) else pure stats
  | budget + 1, k, stats => do
    if k < stop then
      modify (sizeReduce p k)
      let stats := { stats with iterations := stats.iterations + 1 }
      if lovasz p (← get) k then
        run p start stop budget (k + 1) stats
      else
        exchange k
        run p start stop budget (if start + 1 < k then k - 1 else k)
          { stats with changes := stats.changes + 1 }
    else pure stats

/-- Reduces the rows from `start` to before `stop`. -/
@[specialize] def reduceRange (p : LLL α) (start stop : Nat) : Reduction α n m Statistics := do
  ofExcept p.validate
  if n < stop ∨ stop ≤ start then
    throw (.parameters (.reductionRange start stop n))
  LatticeBasis.orthogonalize
  if 0 < start then
    modify (sizeReduce p start)
  let stats ← run p start stop p.maxIterations (start + 1) {}
  LatticeBasis.orthogonalize
  return stats

@[specialize] def reduce (p : LLL α) : Reduction α n m Statistics :=
  reduceRange p 0 n

/-- Whether the coefficients of row `k` are small and the Lovász condition holds at `k`, both up to
the tolerance. -/
@[specialize] def isReducedAt (p : LLL α) (L : LatticeBasis α n m) (k : Nat) : Bool :=
  let c := L.coefficient k (k - 1)
  (List.range k).all (fun j => !decide (p.eta + p.tolerance < Scalar.abs (L.coefficient k j))) &&
    !decide (L.length k < (p.delta - c * c) * L.length (k - 1) * (1 - p.tolerance))

/-- Whether the basis is reduced up to the tolerance. -/
@[specialize] def isReduced (p : LLL α) (L : LatticeBasis α n m) : Bool :=
  (List.range' 1 (n - 1)).all (isReducedAt p L)

end LLL

end EmbeddingAttack
