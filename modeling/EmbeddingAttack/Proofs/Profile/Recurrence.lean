import EmbeddingAttack.Proofs.Profile.Simulation
import Mathlib.Data.List.GetD

/-!
# The recurrence of simulated tours

The simulation walks along the basis once and keeps running sums.  Here a tour is a recurrence in
which every row adds up anew: the block from a row on has the volume of the old rows up to its end,
less what the new rows before it have used up.  The shape of the tail is given in the same way.

The running sums are these sums at every row, also near the end of the basis, where the window stops
growing.  A tour that ends without a result is one that changes nothing, so that the simulation is
the recurrence applied as often as there are tours.
-/

namespace EmbeddingAttack

namespace Simulation

namespace Recurrence

/-- The first logarithmic lengths of a fully reduced lattice of dimension `d` and volume one: each
vector meets the heuristic of what those before it leave. -/
noncomputable def reducedRows (d : ℕ) : ℕ → List ℝ
  | 0 => []
  | i + 1 => reducedRows d i ++
      [unitLogHeuristic (d - i) - (reducedRows d i).sum / ((d - i : ℕ) : ℝ)]

/-- The last logarithmic lengths of the shape of the tail. -/
noncomputable def shape (n : ℕ) : List ℝ :=
  (reducedRows tailDimension tailDimension).drop (tailDimension - n)

/-- How far the first vector of a reduced block of dimension `w` is expected to lie above the mean
of the block. -/
noncomputable def blockConstant (w : ℕ) : ℝ :=
  if w ≤ tailDimension then (shape w).headD 0 - (shape w).sum / w else unitLogHeuristic w

/-- The logarithm that the block from row `k` on is expected to reach, where `new` starts with the
new logarithms of the rows before. -/
noncomputable def expected (blocksize : ℕ) (old new : List ℝ) (k : ℕ) : ℝ :=
  let w := min blocksize (old.length - k)
  ((old.take (k + w)).sum - (new.take k).sum) / w + blockConstant w

/-- Row `k` is expected to get shorter. -/
def Improves (blocksize : ℕ) (old new : List ℝ) (k : ℕ) : Prop :=
  expected blocksize old new k < old.getD k 0

noncomputable instance (blocksize : ℕ) (old new : List ℝ) (k : ℕ) :
    Decidable (Improves blocksize old new k) :=
  inferInstanceAs (Decidable (_ < _))

/-- The new logarithm of row `k`: the old one before the first row that improves, and what is
expected from there on. -/
noncomputable def entry (blocksize : ℕ) (old new : List ℝ) (k : ℕ) : ℝ :=
  if ∃ i ≤ k, Improves blocksize old new i then expected blocksize old new k else old.getD k 0

/-- The new logarithms of the first rows, each from those before it. -/
noncomputable def rows (blocksize : ℕ) (old : List ℝ) : ℕ → List ℝ
  | 0 => []
  | k + 1 => rows blocksize old k ++ [entry blocksize old (rows blocksize old k) k]

/-- The logarithms after a tour.  The last rows get the shape of the tail with the volume that is
left, unless no row before them improves. -/
noncomputable def tour (blocksize : ℕ) (old : List ℝ) : List ℝ :=
  let tailLength := min (min tailDimension blocksize) old.length
  let head := old.length - min tailDimension blocksize
  let front := rows blocksize old head
  if ∃ k < head, Improves blocksize old front k then
    front ++ (shape tailLength).map fun s =>
      (old.sum - front.sum) / tailLength + (s - (shape tailLength).sum / tailLength)
  else old

/-! ## Shape and constants -/

theorem reducedRows_append_fullyReduced {d i k : ℕ} (h : i + k = d) :
    reducedRows d i ++ fullyReduced k (-(reducedRows d i).sum) = reducedRows d d := by
  induction k generalizing i with
  | zero =>
      rw [← h]
      exact List.append_nil _
  | succ k ih =>
      have hleft : d - i = k + 1 := by omega
      have hsucc : reducedRows d (i + 1) = reducedRows d i ++
          [unitLogHeuristic (k + 1) + -(reducedRows d i).sum / ((k + 1 : ℕ) : ℝ)] := by
        rw [reducedRows, hleft, neg_div, ← sub_eq_add_neg]
      rw [← ih (i := i + 1) (by omega), hsucc, List.sum_append, List.sum_singleton, neg_add',
        List.append_assoc]
      rfl

theorem drop_tailShape (n : ℕ) : tailShape.drop (tailDimension - n) = shape n := by
  have hwhole := reducedRows_append_fullyReduced (Nat.zero_add tailDimension)
  rw [reducedRows, List.nil_append, List.sum_nil, neg_zero] at hwhole
  unfold tailShape shape
  rw [hwhole]

theorem getD_blockConstants {w blocksize : ℕ} (hpositive : 0 < w) (hw : w ≤ blocksize) :
    (blockConstants blocksize : Array ℝ).getD (w - 1) 0 = blockConstant w := by
  unfold blockConstants blockConstant
  dsimp only
  rw [Array.getD_eq_getD_getElem?, List.getElem?_toArray]
  by_cases hsmall : w ≤ tailDimension
  · have hindex : (List.range' 1 tailDimension)[w - 1]? = some w := by
      rw [List.getElem?_range' (by omega)]
      congr 1
      omega
    rw [if_pos hsmall, List.getElem?_append_left (by simp; omega), List.getElem?_map, hindex,
      Option.map_some, Option.getD_some, drop_tailShape, mean, sum_eq]
  · have hindex : (List.range' (tailDimension + 1) (blocksize - tailDimension))[
        w - 1 - tailDimension]? = some w := by
      rw [List.getElem?_range' (by omega)]
      congr 1
      omega
    rw [if_neg hsmall, List.getElem?_append_right (by simp; omega), List.length_map,
      List.length_range', List.getElem?_map, hindex, Option.map_some, Option.getD_some]

variable {blocksize : ℕ} {old : List ℝ}

/-! ## Rows depend on those before them only -/

theorem rows_succ (k : ℕ) : rows blocksize old (k + 1) =
    rows blocksize old k ++ [entry blocksize old (rows blocksize old k) k] :=
  rfl

theorem length_rows (n : ℕ) : (rows blocksize old n).length = n := by
  induction n with
  | zero => rfl
  | succ n ih => rw [rows_succ, List.length_append, ih, List.length_singleton]

theorem take_rows {k n : ℕ} (h : k ≤ n) :
    (rows blocksize old n).take k = rows blocksize old k := by
  induction n, h using Nat.le_induction with
  | base => rw [List.take_of_length_le (length_rows k).le]
  | succ n h ih => rw [rows_succ, List.take_append_of_le_length (by rwa [length_rows]), ih]

theorem getElem?_rows {k n : ℕ} (h : k < n) :
    (rows blocksize old n)[k]? = some (entry blocksize old (rows blocksize old k) k) := by
  rw [← List.getElem?_take_of_lt (Nat.lt_succ_self k), take_rows h, rows_succ,
    List.getElem?_append_right (length_rows k).le, length_rows, Nat.sub_self]
  rfl

theorem improves_rows {k n : ℕ} (h : k ≤ n) :
    Improves blocksize old (rows blocksize old n) k ↔
      Improves blocksize old (rows blocksize old k) k := by
  unfold Improves expected
  rw [take_rows h, take_rows le_rfl]

theorem exists_improves_rows_succ (k : ℕ) :
    (∃ i < k + 1, Improves blocksize old (rows blocksize old (k + 1)) i) ↔
      ∃ i ≤ k, Improves blocksize old (rows blocksize old k) i := by
  constructor
  · rintro ⟨i, hi, himproves⟩
    have hle : i ≤ k := Nat.lt_succ_iff.mp hi
    exact ⟨i, hle, (improves_rows hle).mpr ((improves_rows hi.le).mp himproves)⟩
  · rintro ⟨i, hi, himproves⟩
    exact ⟨i, Nat.lt_succ_of_le hi,
      (improves_rows (Nat.le_succ_of_le hi)).mpr ((improves_rows hi).mp himproves)⟩

/-- A row that improves changes. -/
theorem ne_rows_append {n : ℕ}
    (himproves : ∃ k < n, Improves blocksize old (rows blocksize old n) k) (rest : List ℝ) :
    old ≠ rows blocksize old n ++ rest := by
  obtain ⟨k, hk, himproves⟩ := himproves
  rw [improves_rows hk.le] at himproves
  intro hsame
  have hentry : old[k]? = some (expected blocksize old (rows blocksize old k) k) := calc
    old[k]? = (rows blocksize old n ++ rest)[k]? := congrArg (·[k]?) hsame
    _ = (rows blocksize old n)[k]? := List.getElem?_append_left (by rwa [length_rows])
    _ = some (entry blocksize old (rows blocksize old k) k) := getElem?_rows hk
    _ = some (expected blocksize old (rows blocksize old k) k) :=
        congrArg some (if_pos ⟨k, le_rfl, himproves⟩)
  apply himproves.ne
  rw [List.getD_eq_getElem?_getD, hentry, Option.getD_some]

/-! ## The running sums -/

/-- The running sums at row `k`, each added up anew. -/
noncomputable def sumsAt (blocksize : ℕ) (old : List ℝ) (k : ℕ) : Running ℝ where
  unchanged := decide (¬ ∃ i < k, Improves blocksize old (rows blocksize old k) i)
  oldPrefix := (old.take k).sum
  newPrefix := (rows blocksize old k).sum
  window := (old.take (k + min blocksize (old.length - k))).sum - (old.take k).sum

theorem sumsAt_zero : sumsAt blocksize old 0 =
    ⟨true, 0, 0, Scalar.sum (old.take (min blocksize old.length))⟩ := by
  unfold sumsAt
  simp [rows, sum_eq]

theorem unchanged_sumsAt (k : ℕ) : (sumsAt blocksize old k).unchanged = true ↔
    ¬ ∃ i < k, Improves blocksize old (rows blocksize old k) i := by
  unfold sumsAt
  exact decide_eq_true_iff

theorem unchanged_sumsAt_succ (k : ℕ) : (sumsAt blocksize old (k + 1)).unchanged = true ↔
    ¬ ∃ i ≤ k, Improves blocksize old (rows blocksize old k) i := by
  rw [unchanged_sumsAt, exists_improves_rows_succ]

/-- The window loses its first row, and gains the one after its end if there is one. -/
theorem window_sumsAt_succ {k : ℕ} (hk : k < old.length) :
    old[k + blocksize]?.elim ((sumsAt blocksize old k).window - old[k])
      ((sumsAt blocksize old k).window - old[k] + ·) = (sumsAt blocksize old (k + 1)).window := by
  have hfirst : (old.take (k + 1)).sum = (old.take k).sum + old[k] := List.sum_take_succ old k hk
  unfold sumsAt
  dsimp only
  rw [hfirst]
  by_cases hinside : k + blocksize < old.length
  · have hlast : (old.take (k + blocksize + 1)).sum =
        (old.take (k + blocksize)).sum + old[k + blocksize] := List.sum_take_succ old _ hinside
    have hstop : k + min blocksize (old.length - k) = k + blocksize := by omega
    have hnext : k + 1 + min blocksize (old.length - (k + 1)) = k + blocksize + 1 := by omega
    rw [List.getElem?_eq_getElem hinside, Option.elim_some, hstop, hnext, hlast]
    ring
  · have hstop : k + min blocksize (old.length - k) = old.length := by omega
    have hnext : k + 1 + min blocksize (old.length - (k + 1)) = old.length := by omega
    rw [List.getElem?_eq_none (by omega), Option.elim_none, hstop, hnext]
    ring

/-- Row `k` of the simulation takes the running sums from one row to the next. -/
theorem row_sumsAt (hpositive : 0 < blocksize) {k : ℕ} (hk : k < old.length) :
    row (blockConstants blocksize) (min blocksize (old.length - k)) old[k] old[k + blocksize]?
        (sumsAt blocksize old k) =
      (entry blocksize old (rows blocksize old k) k, sumsAt blocksize old (k + 1)) := by
  have hexpected : ((sumsAt blocksize old k).oldPrefix + (sumsAt blocksize old k).window -
      (sumsAt blocksize old k).newPrefix) / ((min blocksize (old.length - k) : ℕ) : ℝ) +
        (blockConstants blocksize : Array ℝ).getD (min blocksize (old.length - k) - 1) 0 =
      expected blocksize old (rows blocksize old k) k := by
    rw [getD_blockConstants (by omega) (Nat.min_le_left _ _)]
    unfold sumsAt expected
    rw [add_sub_cancel, take_rows le_rfl]
  have hunchanged : ((sumsAt blocksize old k).unchanged &&
      !decide (expected blocksize old (rows blocksize old k) k < old[k])) =
        (sumsAt blocksize old (k + 1)).unchanged := by
    rw [Bool.eq_iff_iff, Bool.and_eq_true, Bool.not_eq_true', decide_eq_false_iff_not,
      unchanged_sumsAt, unchanged_sumsAt_succ, ← not_or]
    simp only [← Nat.lt_succ_iff, Nat.exists_lt_succ_right, Improves, List.getD_eq_getElem _ _ hk]
  have hentry : (if (sumsAt blocksize old (k + 1)).unchanged = true then old[k]
      else expected blocksize old (rows blocksize old k) k) =
        entry blocksize old (rows blocksize old k) k := by
    unfold entry
    rw [List.getD_eq_getElem _ _ hk]
    by_cases hsome : ∃ i ≤ k, Improves blocksize old (rows blocksize old k) i
    · rw [if_pos hsome, if_neg (mt (unchanged_sumsAt_succ k).mp (not_not_intro hsome))]
    · rw [if_neg hsome, if_pos ((unchanged_sumsAt_succ k).mpr hsome)]
  have hold : (sumsAt blocksize old k).oldPrefix + old[k] =
      (sumsAt blocksize old (k + 1)).oldPrefix :=
    (List.sum_take_succ old k hk).symm
  have hnew : (sumsAt blocksize old k).newPrefix + entry blocksize old (rows blocksize old k) k =
      (sumsAt blocksize old (k + 1)).newPrefix := by
    unfold sumsAt
    rw [rows_succ, List.sum_append, List.sum_singleton]
  unfold row
  dsimp only
  rw [hexpected, hunchanged, hentry, window_sumsAt_succ hk, hold, hnew]

theorem headRows_sumsAt (hpositive : 0 < blocksize) (n : ℕ) {k : ℕ} (hn : k + n ≤ old.length) :
    ∃ rest, headRows (blockConstants blocksize)
        ((List.range' k n).map fun i => min blocksize (old.length - i)) (old.drop k)
        (old.drop (k + blocksize)) (sumsAt blocksize old k) =
          (rest, (sumsAt blocksize old (k + n)).unchanged) ∧
      rows blocksize old (k + n) = rows blocksize old k ++ rest := by
  induction n generalizing k with
  | zero => exact ⟨[], rfl, (List.append_nil _).symm⟩
  | succ n ih =>
      have hk : k < old.length := by omega
      obtain ⟨rest, hrest, hrows⟩ := ih (k := k + 1) (by omega)
      refine ⟨entry blocksize old (rows blocksize old k) k :: rest, ?_, ?_⟩
      · rw [List.range'_succ, List.map_cons, List.drop_eq_getElem_cons hk, headRows_cons,
          List.head?_drop, row_sumsAt hpositive hk, List.drop_drop, Nat.add_right_comm]
        dsimp only
        rw [hrest, Nat.add_right_comm, Nat.add_assoc]
      · rw [← Nat.add_assoc, Nat.add_right_comm, hrows, rows_succ, List.append_assoc,
          List.singleton_append]

/-- The rows before the tail, in a tour from the start. -/
theorem headRows_eq_rows (hpositive : 0 < blocksize) {head : ℕ} (hhead : head ≤ old.length) :
    headRows (blockConstants blocksize)
        ((List.range head).map fun i => min blocksize (old.length - i)) old (old.drop blocksize)
        ⟨true, 0, 0, Scalar.sum (old.take (min blocksize old.length))⟩ =
      (rows blocksize old head, (sumsAt blocksize old head).unchanged) := by
  have hstart : 0 + head ≤ old.length := by omega
  obtain ⟨front, hfront, hrows⟩ := headRows_sumsAt hpositive head hstart
  rw [sumsAt_zero, List.drop_zero, Nat.zero_add, Nat.zero_add, ← List.range_eq_range'] at hfront
  rw [Nat.zero_add] at hrows
  rw [hfront, hrows]
  rfl

/-! ## Whole tours -/

/-- A tour without a result is one that changes nothing. -/
theorem getD_tour? (hpositive : 0 < blocksize) (old : List ℝ) :
    (tour? (blockConstants blocksize) tailShape blocksize old).getD old = tour blocksize old := by
  unfold tour? tour
  dsimp only
  rw [headRows_eq_rows hpositive (Nat.sub_le _ _), drop_tailShape]
  generalize old.length - min tailDimension blocksize = head
  dsimp only
  by_cases himproves : ∃ k < head, Improves blocksize old (rows blocksize old head) k
  · have hchanged (rest : List ℝ) : ((sumsAt blocksize old head).unchanged ||
        same old (rows blocksize old head ++ rest)) = false := by
      rw [Bool.or_eq_false_iff, ← Bool.not_eq_true, ← Bool.not_eq_true, unchanged_sumsAt, same_iff]
      exact ⟨not_not_intro himproves, ne_rows_append himproves rest⟩
    rw [hchanged, if_neg Bool.false_ne_true, if_pos himproves]
    simp only [sum_eq, mean]
    split
    · rename_i hsame
      exact same_iff.mp hsame
    · rfl
  · have hunchanged : (sumsAt blocksize old head).unchanged = true :=
      (unchanged_sumsAt head).mpr himproves
    rw [hunchanged, Bool.true_or, if_pos rfl, if_neg himproves]
    rfl

/-- Ending early makes no difference. -/
theorem tours_eq_iterate (hpositive : 0 < blocksize) (t : ℕ) (logs : List ℝ) :
    tours (blockConstants blocksize) tailShape blocksize t logs = (tour blocksize)^[t] logs := by
  induction t generalizing logs with
  | zero => rfl
  | succ t ih =>
      have htour := getD_tour? hpositive logs
      unfold tours
      cases hresult : tour? (blockConstants blocksize) tailShape blocksize logs with
      | none =>
          rw [hresult] at htour
          exact (Function.iterate_fixed htour.symm _).symm
      | some new =>
          rw [hresult] at htour
          rw [Function.iterate_succ_apply, ← htour]
          exact ih new

end Recurrence

end Simulation

namespace Profile

open Simulation

theorem simulatedLogs_eq_iterate (p : Profile ℝ) {blocksize : ℕ} (h : 0 < blocksize) (tours : ℕ) :
    p.simulatedLogs blocksize tours = (Recurrence.tour blocksize)^[max tours 1] p.logs :=
  Recurrence.tours_eq_iterate h _ _

/-- The simulation is the recurrence, applied once for every tour and at least once. -/
theorem simulate_follows_recurrence (p : Profile ℝ) (blocksize tours : ℕ) (h : 2 ≤ blocksize) :
    ∃ p', p.simulate blocksize tours = .ok p' ∧
      p'.lengths = ((Recurrence.tour blocksize)^[max 1 tours]
        (p.lengths.map fun r => Real.log r / 2)).map fun l => Real.exp (2 * l) := by
  obtain ⟨p', hsimulate, hlengths⟩ := p.simulate_eq h tours
  refine ⟨p', hsimulate, ?_⟩
  rw [hlengths, p.simulatedLogs_eq_iterate (by omega), max_comm]
  unfold logs
  simp only [two_eq]

theorem simulate_follows_recurrence_triple :
    2 ≤ 2 ∧ ∃ p', (positive [16, 4, 1] (by simp) (by simp)).simulate 2 3 = .ok p' ∧
      p'.lengths = ((Recurrence.tour 2)^[3]
        [Real.log 16 / 2, Real.log 4 / 2, Real.log 1 / 2]).map fun l => Real.exp (2 * l) := by
  have h : 2 ≤ 2 := le_rfl
  exact ⟨h, simulate_follows_recurrence (positive [16, 4, 1] (by simp) (by simp)) 2 3 h⟩

end Profile

end EmbeddingAttack
