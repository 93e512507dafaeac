import EmbeddingAttack.Proofs.Profile.Simulation

/-!
# Profiles at different scales

Multiplying the squared lengths of a profile by a positive number adds the same constant to all
logarithms.  A simulated tour compares and averages logarithms only, so it passes such a constant
through, and the Gaussian heuristic, a squared length, is multiplied by the same number.
-/

namespace EmbeddingAttack

namespace Simulation

variable {constants : Array ℝ} {shape : List ℝ} {blocksize : Nat}

/-- The running sums when both prefixes have grown by `a` and the window by `w`. -/
def Running.shift (s : Running ℝ) (a w : ℝ) : Running ℝ :=
  ⟨s.unchanged, s.oldPrefix + a, s.newPrefix + a, s.window + w⟩

/-- The growth of the prefixes cancels, and that of the window reaches the new logarithm divided by
the block dimension. -/
theorem row_shift (c a : ℝ) {beta : Nat} (h : 0 < beta) (x : ℝ) (incoming : Option ℝ)
    (s : Running ℝ) :
    row constants beta (x + c) (incoming.map (· + c)) (s.shift a (beta * c)) =
      ((row constants beta x incoming s).1 + c, (row constants beta x incoming s).2.shift (a + c)
        ((if incoming.isSome then beta else beta - 1 : Nat) * c)) := by
  have hbeta : (beta : ℝ) ≠ 0 := Nat.cast_ne_zero.mpr h.ne'
  have hexpected (constant : ℝ) :
      (s.oldPrefix + a + (s.window + beta * c) - (s.newPrefix + a)) / (beta : ℝ) + constant =
        (s.oldPrefix + s.window - s.newPrefix) / beta + constant + c := by
    field_simp
    ring
  have hwindow : (incoming.map (· + c)).elim (s.window + beta * c - (x + c))
      (s.window + beta * c - (x + c) + ·) =
        incoming.elim (s.window - x) (s.window - x + ·) +
          (if incoming.isSome then beta else beta - 1 : Nat) * c := by
    cases incoming with
    | none =>
        change s.window + beta * c - (x + c) = s.window - x + (beta - 1 : Nat) * c
        rw [Nat.cast_sub h, Nat.cast_one]
        ring
    | some z =>
        change s.window + beta * c - (x + c) + (z + c) = s.window - x + z + beta * c
        ring
  unfold row Running.shift
  dsimp only
  rw [hexpected, hwindow]
  simp only [add_lt_add_iff_right, ← apply_ite (· + c), add_add_add_comm]

variable {old : List ℝ}

theorem headRows_shift (c a : ℝ) (n k : Nat) (hpositive : 0 < blocksize) (hn : k + n ≤ old.length)
    (s : Running ℝ) :
    headRows constants ((List.range' k n).map fun i => min blocksize (old.length - i))
        ((old.drop k).map (· + c)) ((old.drop (k + blocksize)).map (· + c))
        (s.shift a ((min blocksize (old.length - k) : Nat) * c)) =
      let (rows, unchanged) := headRows constants
        ((List.range' k n).map fun i => min blocksize (old.length - i)) (old.drop k)
        (old.drop (k + blocksize)) s
      (rows.map (· + c), unchanged) := by
  induction n generalizing k a s with
  | zero => rfl
  | succ n ih =>
      have hk : k < old.length := by omega
      -- The block keeps its dimension as long as a row enters its window.
      have hnext : (if (old.drop (k + blocksize)).head?.isSome then min blocksize (old.length - k)
          else min blocksize (old.length - k) - 1) = min blocksize (old.length - (k + 1)) := by
        rw [List.head?_drop]
        by_cases hinside : k + blocksize < old.length
        · rw [List.getElem?_eq_getElem hinside, Option.isSome_some, if_pos rfl]
          omega
        · rw [List.getElem?_eq_none (by omega)]
          simp only [Option.isSome_none]
          rw [if_neg Bool.false_ne_true]
          omega
      rw [List.range'_succ, List.map_cons, List.drop_eq_getElem_cons hk, List.map_cons,
        headRows_cons, headRows_cons, List.head?_map, row_shift c a (by omega), hnext,
        ← List.map_drop, List.drop_drop]
      dsimp only
      rw [Nat.add_right_comm, ih (a + c) (k + 1) (by omega)]
      rfl

/-- The rows before the tail, in a tour from the start. -/
theorem headRows_start_shift (hpositive : 0 < blocksize) (c : ℝ) {head : Nat}
    (hhead : head ≤ old.length) :
    headRows constants ((List.range head).map fun i => min blocksize (old.length - i))
        (old.map (· + c)) ((old.map (· + c)).drop blocksize)
        ⟨true, 0, 0, Scalar.sum ((old.map (· + c)).take (min blocksize old.length))⟩ =
      let (rows, unchanged) := headRows constants
        ((List.range head).map fun i => min blocksize (old.length - i)) old (old.drop blocksize)
        ⟨true, 0, 0, Scalar.sum (old.take (min blocksize old.length))⟩
      (rows.map (· + c), unchanged) := by
  have hstart : Running.shift ⟨true, 0, 0, Scalar.sum (old.take (min blocksize old.length))⟩ 0
      ((min blocksize (old.length - 0) : Nat) * c) =
        ⟨true, 0, 0, Scalar.sum ((old.map (· + c)).take (min blocksize old.length))⟩ := by
    unfold Running.shift
    rw [← List.map_take, sum_eq, sum_eq, sum_map_add_const, List.length_take]
    simp
  have hrows := @headRows_shift constants blocksize old c 0 head 0 hpositive (by omega)
    ⟨true, 0, 0, Scalar.sum (old.take (min blocksize old.length))⟩
  rw [hstart, List.drop_zero, Nat.zero_add, ← List.range_eq_range'] at hrows
  rw [← List.map_drop]
  exact hrows

/-- What the rows before the tail leave over, divided among the rows in the tail. -/
theorem remaining_shift (c : ℝ) {front old : List ℝ} {tailLength : Nat} (hpositive : 0 < tailLength)
    (hlength : front.length + tailLength = old.length) :
    (Scalar.sum (old.map (· + c)) - Scalar.sum (front.map (· + c))) / (tailLength : ℝ) =
      (Scalar.sum old - Scalar.sum front) / tailLength + c := by
  have hcast : (front.length : ℝ) + tailLength = old.length := by
    exact_mod_cast hlength
  rw [sum_eq, sum_eq, sum_eq, sum_eq, sum_map_add_const, sum_map_add_const,
    div_add' _ _ _ (Nat.cast_ne_zero.mpr hpositive.ne')]
  congr 1
  linear_combination c * (-hcast)

theorem same_shift (c : ℝ) (xs ys : List ℝ) :
    same (xs.map (· + c)) (ys.map (· + c)) = same xs ys := by
  have hinjective : Function.Injective (List.map (· + c)) :=
    List.map_injective_iff.mpr (add_left_injective c)
  rw [Bool.eq_iff_iff, same_iff, same_iff, hinjective.eq_iff]

theorem tour?_shift (hpositive : 0 < blocksize) (c : ℝ) (old : List ℝ) :
    tour? constants shape blocksize (old.map (· + c)) =
      (tour? constants shape blocksize old).map (·.map (· + c)) := by
  by_cases hne : old = []
  · have hnil : tour? constants shape blocksize [] = none := by
      simp [tour?, headRows]
    rw [hne, List.map_nil, hnil]
    rfl
  have hd : 0 < old.length := List.length_pos_iff.mpr hne
  unfold tour?
  dsimp only
  rw [List.length_map, headRows_start_shift hpositive c (Nat.sub_le _ _)]
  have hlength := length_headRows constants ((List.range (old.length - min tailDimension
    blocksize)).map fun i => min blocksize (old.length - i)) old (old.drop blocksize)
    ⟨true, 0, 0, Scalar.sum (old.take (min blocksize old.length))⟩
  generalize headRows constants ((List.range (old.length - min tailDimension blocksize)).map
    fun i => min blocksize (old.length - i)) old (old.drop blocksize)
    ⟨true, 0, 0, Scalar.sum (old.take (min blocksize old.length))⟩ = result at hlength
  obtain ⟨front, unchanged⟩ := result
  have htail : 0 < min (min tailDimension blocksize) old.length := by
    unfold tailDimension
    omega
  have hfront : front.length + min (min tailDimension blocksize) old.length = old.length := by
    change front.length = _ at hlength
    rw [List.length_map, List.length_range] at hlength
    omega
  have hnew (shares : List ℝ) (share center : ℝ) :
      front.map (· + c) ++ shares.map (fun s => share + c + (s - center)) =
        (front ++ shares.map fun s => share + (s - center)).map (· + c) := by
    rw [List.map_append, List.map_map]
    congr 2
    funext s
    exact add_right_comm _ _ _
  dsimp only
  rw [remaining_shift c htail hfront, hnew, ← List.map_drop, ← List.map_append, same_shift,
    same_shift]
  split
  · rfl
  split
  · rfl
  · rfl

theorem tours_shift (hpositive : 0 < blocksize) (c : ℝ) (t : Nat) (logs : List ℝ) :
    tours constants shape blocksize t (logs.map (· + c)) =
      (tours constants shape blocksize t logs).map (· + c) := by
  induction t generalizing logs with
  | zero => rfl
  | succ t ih =>
      unfold tours
      rw [tour?_shift hpositive]
      cases tour? constants shape blocksize logs with
      | none => rfl
      | some new => exact ih new

end Simulation

theorem gaussianHeuristic_scale {L : ℝ} (h : 0 < L) {lengths : List ℝ}
    (hpos : ∀ r ∈ lengths, 0 < r) :
    gaussianHeuristic (lengths.map (L * ·)) = L * gaussianHeuristic lengths := by
  by_cases hempty : lengths = []
  · rw [hempty, List.map_nil]
    exact (mul_zero L).symm
  have hn : (lengths.length : ℝ) ≠ 0 := by
    simpa using hempty
  have hlogs : (lengths.map (L * ·)).map Real.log =
      (lengths.map Real.log).map (· + Real.log L) := by
    rw [List.map_map, List.map_map]
    apply List.map_congr_left
    intro r hr
    change Real.log (L * r) = Real.log r + Real.log L
    rw [Real.log_mul h.ne' (hpos r hr).ne', add_comm]
  have hexponent (volume ball : ℝ) : (volume + lengths.length * Real.log L - ball) /
      lengths.length = (volume - ball) / lengths.length + Real.log L := by
    field_simp
    ring
  have hnonempty : lengths.isEmpty = false := by
    simpa using hempty
  unfold gaussianHeuristic
  rw [List.isEmpty_map, hnonempty, if_neg Bool.false_ne_true, if_neg Bool.false_ne_true]
  change Real.exp ((Scalar.sum ((lengths.map (L * ·)).map Real.log) - _) / _) =
    L * Real.exp ((Scalar.sum (lengths.map Real.log) - _) / _)
  rw [hlogs, List.length_map, sum_eq, sum_eq, sum_map_add_const, List.length_map, hexponent,
    Real.exp_add, Real.exp_log h, mul_comm]

namespace Profile

/-- The profile of the same lattice at another scale. -/
noncomputable def scale (L : ℝ) (h : 0 < L) (p : Profile ℝ) : Profile ℝ :=
  positive (p.lengths.map (L * ·)) (by simpa using p.nonempty) (by
    intro r hr
    obtain ⟨x, hx, rfl⟩ := List.mem_map.mp hr
    exact mul_pos h (p.pos_of_mem hx))

variable {L : ℝ} (h : 0 < L) (p : Profile ℝ)

theorem lengths_scale : (p.scale L h).lengths = p.lengths.map (L * ·) :=
  rfl

theorem dimension_scale : (p.scale L h).dimension = p.dimension :=
  List.length_map _

theorem suffixGaussianHeuristic_scale (start : Nat) :
    (p.scale L h).suffixGaussianHeuristic start = L * p.suffixGaussianHeuristic start := by
  unfold suffixGaussianHeuristic
  rw [lengths_scale, ← List.map_drop]
  apply gaussianHeuristic_scale h
  intro r hr
  exact p.pos_of_mem (List.mem_of_mem_drop hr)

theorem logs_scale : (p.scale L h).logs = p.logs.map (· + Real.log L / 2) := by
  unfold logs
  rw [lengths_scale, List.map_map, List.map_map]
  apply List.map_congr_left
  intro r hr
  have hr_pos := p.pos_of_mem hr
  change Real.log (L * r) / 2.0 = Real.log r / 2.0 + Real.log L / 2
  rw [Real.log_mul h.ne' hr_pos.ne', two_eq]
  ring

theorem simulatedLogs_scale {blocksize : Nat} (hpositive : 0 < blocksize) (tours : Nat) :
    (p.scale L h).simulatedLogs blocksize tours =
      (p.simulatedLogs blocksize tours).map (· + Real.log L / 2) := by
  unfold simulatedLogs
  rw [logs_scale, Simulation.tours_shift hpositive]

/-- The simulation works at every scale in the same way. -/
theorem simulate_scale (blocksize tours : Nat) :
    (p.scale L h).simulate blocksize tours = (p.simulate blocksize tours).map (scale L h) := by
  by_cases hsmall : blocksize < 2
  · unfold simulate
    rw [if_pos hsmall, if_pos hsmall]
    rfl
  · obtain ⟨p', hsimulate, hlogs⟩ := p.simulate_logs (Nat.le_of_not_lt hsmall) tours
    obtain ⟨q, hscaled, hlogs'⟩ := (p.scale L h).simulate_logs (Nat.le_of_not_lt hsmall) tours
    have hq : q = p'.scale L h := by
      apply eq_of_logs
      rw [logs_scale, hlogs', hlogs, p.simulatedLogs_scale h (by omega)]
    rw [hsimulate, hscaled, hq]
    rfl

end Profile

end EmbeddingAttack
