import EmbeddingAttack.Lattice.BlockSearch
import EmbeddingAttack.Lattice.LLL

/-!
# Block reduction tours

A tour passes once over the basis and improves block after block, with LLL between the blocks.
An enumeration tour takes every block of the blocksize.  A jumping tour takes windows: it moves on
by more than one row at a time, gets some dimensions of each window for free by lifting, and stops
as soon as the first row is short enough.
-/

namespace EmbeddingAttack

/-- Parameters of block reduction: those of LLL and those of the enumeration. -/
structure BlockReduction (α : Type) where
  lll : LLL α
  limits : SearchLimits α

/-- A window of `length` rows from `start` on, of which the first `free` are not enumerated. -/
structure Window where
  start : Nat
  length : Nat
  free : Nat
deriving DecidableEq, Repr

structure JumpingTour (α : Type) where
  blocksize : Nat
  jump : Nat
  freeDimensions : Nat
  extraFreeDimensions : Nat
  goal : α

/-- The multiples of `step` below `stop`. -/
def stepsBelow (stop step : Nat) : List Nat :=
  (List.range ((stop + step - 1) / step)).map (· * step)

theorem mem_stepsBelow {stop step x : Nat} (hstep : 0 < step) :
    x ∈ stepsBelow stop step ↔ ∃ i, x = i * step ∧ x < stop := by
  have hrange (i : Nat) : i < (stop + step - 1) / step ↔ i * step < stop := by
    rw [← Nat.succ_le_iff, Nat.le_div_iff_mul_le hstep, Nat.succ_mul]
    omega
  simp only [stepsBelow, List.mem_map, List.mem_range, hrange]
  constructor
  · rintro ⟨i, hi, rfl⟩
    exact ⟨i, rfl, hi⟩
  · rintro ⟨i, rfl, hi⟩
    exact ⟨i, hi, rfl⟩

theorem pairwise_stepsBelow {stop step : Nat} (hstep : 0 < step) :
    (stepsBelow stop step).Pairwise (· < ·) := by
  unfold stepsBelow
  rw [List.pairwise_map]
  exact List.pairwise_lt_range.imp fun hij => Nat.mul_lt_mul_of_pos_right hij hstep

namespace JumpingTour

variable {α : Type}

/-- The windows of the tour on a basis of rank `d`: growing windows at the front, full windows,
and shrinking windows at the end. -/
def windows (tour : JumpingTour α) (d : Nat) : List Window :=
  let blocksize := min (wrapSize (tour.blocksize + tour.extraFreeDimensions)) d
  let free := min (wrapSize (tour.freeDimensions + tour.extraFreeDimensions)) (blocksize - 2)
  let jump := max tour.jump 1
  (stepsBelow free jump).map (fun i => ⟨0, blocksize - free + i, i⟩) ++
  (stepsBelow (d - blocksize) jump).map (fun kappa => ⟨kappa, blocksize, free⟩) ++
  (stepsBelow free jump).map (fun i => ⟨d - blocksize + i, blocksize - i, free - i⟩)

end JumpingTour

namespace BlockReduction

variable {α : Type} [Scalar α] {n m : Nat}

/-- The parameters in general use. -/
def standard : BlockReduction α where
  lll := .standard
  limits := .standard

/-- Checks all parameters. -/
@[specialize] def validate (p : BlockReduction α) : Except (Failure α) Unit := do
  p.lll.validate
  p.limits.validate

@[specialize] def checkTour (p : BlockReduction α) (blocksize : Nat) :
    Except (Failure α) Unit := do
  p.validate
  if blocksize < 2 then
    throw (.parameters (.blocksize blocksize))

/-- Improves the blocks at the given rows in turn. -/
@[specialize] def improveBlocks (p : BlockReduction α) (blocksize : Nat) :
    List Nat → Statistics → Reduction α n m Statistics
  | [], stats => pure stats
  | kappa :: rest, stats => do
    let stop := min (wrapSize (kappa + blocksize)) n
    let (improved, nodes) ← LatticeBasis.improveBlock p.limits kappa stop
    if improved then
      discard <| p.lll.reduceRange kappa stop
    improveBlocks p blocksize rest
      (stats.add ⟨if improved then 1 else 0, 1, nodes⟩)

/-- One tour that improves every block of the blocksize. -/
@[specialize] def enumerationTour (p : BlockReduction α) (blocksize : Nat) :
    Reduction α n m Statistics := do
  ofExcept (p.checkTour blocksize)
  discard p.lll.reduce
  improveBlocks p blocksize (List.range (n - 1)) {}

/-- Searches the given windows in turn, until the first row meets the goal. -/
@[specialize] def searchWindows (p : BlockReduction α) (goal : α) :
    List Window → Statistics → Reduction α n m Statistics
  | [], stats => pure stats
  | w :: rest, stats => do
    let findings ← LatticeBasis.searchWindow p.limits w.start w.length w.free w.start goal
    let inserted := findings.insertedAt.isSome
    if inserted then
      discard <| p.lll.reduceRange 0 (w.start + w.length)
    let stats := stats.add ⟨if inserted then 1 else 0, 1, findings.nodes⟩
    if (← get).length 0 ≤ goal then pure stats
    else searchWindows p goal rest stats

@[specialize] def jumpingTour (p : BlockReduction α) (tour : JumpingTour α) :
    Reduction α n m Statistics := do
  ofExcept (p.checkTour tour.blocksize)
  discard p.lll.reduce
  let stats ← searchWindows p tour.goal (tour.windows n) {}
  discard p.lll.reduce
  return stats

end BlockReduction

end EmbeddingAttack
