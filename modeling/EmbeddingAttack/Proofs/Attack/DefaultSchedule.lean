import EmbeddingAttack.Proofs.Arithmetic.Words
import EmbeddingAttack.Proofs.Attack.SteppedRange
import Mathlib.Data.List.Nodup
import Mathlib.Data.List.Pairwise

/-!
# The default schedule

The default schedule ascends whatever blocksize is predicted within the words, although it is put
together from ranges whose ends may lie anywhere.  So no blocksize occurs twice, and to look a
blocksize up by its value is to look it up by its position: what lies ahead of it is what a walk
along the schedule meets next.
-/

namespace EmbeddingAttack.Schedule

variable {α : Type} {predicted : Nat}

/-! ## Walks -/

theorem next_of_lt (schedule : Schedule) {position : Nat}
    (h : position < schedule.blocksizes.length) :
    schedule.next position = (some schedule.blocksizes[position], position + 1) := by
  unfold next
  rw [List.getElem?_eq_getElem h]

theorem next_of_le (schedule : Schedule) {position : Nat}
    (h : schedule.blocksizes.length ≤ position) : schedule.next position = (none, position) := by
  unfold next
  rw [List.getElem?_eq_none h]

theorem next_eq_some_iff {schedule : Schedule} {position position' x : Nat} :
    schedule.next position = (some x, position') ↔
      schedule.blocksizes[position]? = some x ∧ position' = position + 1 := by
  unfold next
  cases schedule.blocksizes[position]? with
  | none => simp
  | some b => simp [eq_comm]

/-- A walk meets the blocksizes from its position on, one with each step, and stays at the end. -/
theorem filterMap_walk (schedule : Schedule) (steps position : Nat) :
    (schedule.walk steps position).filterMap Prod.fst =
      (schedule.blocksizes.drop position).take steps := by
  induction steps generalizing position with
  | zero => rfl
  | succ steps ih =>
      unfold walk
      dsimp only
      rcases Nat.lt_or_ge position schedule.blocksizes.length with hlt | hge
      · rw [schedule.next_of_lt hlt, List.filterMap_cons_some (f := Prod.fst) rfl, ih,
          List.drop_eq_getElem_cons hlt, List.take_succ_cons]
      · rw [schedule.next_of_le hge, List.filterMap_cons_none rfl, ih,
          List.drop_of_length_le hge, List.take_nil, List.take_nil]

/-- Where no blocksize occurs twice, those ahead of the one met last are the next ones met. -/
theorem tryUpcoming_eq_walk {schedule : Schedule} (h : schedule.blocksizes.Nodup)
    {position position' x steps : Nat} (hnext : schedule.next position = (some x, position'))
    (hsize : position' + steps < 2 ^ 64) :
    (schedule.tryUpcoming x steps : Except (Failure α) (List Nat)) =
      .ok ((schedule.walk steps position').filterMap Prod.fst) := by
  obtain ⟨hx, rfl⟩ := next_eq_some_iff.mp hnext
  obtain ⟨hlt, rfl⟩ := List.getElem?_eq_some_iff.mp hx
  have hfirst : schedule.blocksizes.idxOf? schedule.blocksizes[position] = some position := by
    exact List.findIdx?_eq_some_iff_findIdx_eq.mpr ⟨hlt, h.idxOf_getElem position hlt⟩
  have hstart : ¬ wrapSize (position + 1 + steps) < position + 1 := by
    rw [wrapSize_eq hsize]
    omega
  unfold tryUpcoming upcoming
  rw [hfirst, if_neg (by simpa using hstart), filterMap_walk]
  dsimp only
  rw [wrapSize_eq hsize, List.drop_take, Nat.add_sub_cancel_left]
  rfl

/-! ## The parts of the schedule -/

/-- The blocksizes that approach the predicted one and go beyond it. -/
def approach (b : Int) : List Int :=
  steppedRange 70 (b - 15) 10 ++ [b - 15] ++ steppedRange (b - 13) (b + 25) 2

theorem mem_approach {b x : Int} : x ∈ approach b ↔
    (∃ i : Nat, x = 70 + i * 10 ∧ x < b - 15) ∨ x = b - 15 ∨
      ∃ i : Nat, x = b - 13 + i * 2 ∧ x < b + 25 := by
  unfold approach
  rw [List.mem_append, List.mem_append, List.mem_singleton, mem_steppedRange, mem_steppedRange,
    comesBefore_of_pos (by decide), comesBefore_of_pos (by decide), or_assoc]
  rw [and_comm, and_comm (a := x < b + 25), exists_and_right, exists_and_right]

/-- Each part ends before the next one starts. -/
theorem pairwise_approach (b : Int) : (approach b).Pairwise (· < ·) := by
  have hcoarse : ∀ x ∈ steppedRange 70 (b - 15) 10, x < b - 15 := fun x hx =>
    (comesBefore_of_pos (by decide)).mp (mem_steppedRange.mp hx).1
  have hfine : ∀ x ∈ steppedRange (b - 13) (b + 25) 2, b - 15 < x := by
    intro x hx
    obtain ⟨-, i, rfl⟩ := mem_steppedRange.mp hx
    omega
  unfold approach
  rw [List.pairwise_append, List.pairwise_append]
  refine ⟨⟨pairwise_steppedRange 70 _ (by decide), List.pairwise_singleton _ _, ?_⟩,
    pairwise_steppedRange _ _ (by decide), ?_⟩
  · intro x hx y hy
    rw [List.mem_singleton.mp hy]
    exact hcoarse x hx
  · intro x hx y hy
    have hy := hfine y hy
    rcases List.mem_append.mp hx with hx | hx
    · exact (hcoarse x hx).trans hy
    · rwa [List.mem_singleton.mp hx]

/-- Of what approaches the predicted blocksize, all that the ramp has not passed is used. -/
def late (predicted : Nat) : List Nat :=
  ((approach predicted).filter (50 ≤ ·)).map Int.toNat

theorem mem_late {predicted x : Nat} :
    x ∈ late predicted ↔ 50 ≤ x ∧ (x : Int) ∈ approach predicted := by
  unfold late
  rw [List.mem_map]
  constructor
  · rintro ⟨y, hy, rfl⟩
    obtain ⟨hmem, hlow⟩ := List.mem_filter.mp hy
    rw [decide_eq_true_eq] at hlow
    rw [Int.toNat_of_nonneg (by omega)]
    exact ⟨by omega, hmem⟩
  · rintro ⟨hlow, hmem⟩
    exact ⟨x, List.mem_filter.mpr ⟨hmem, decide_eq_true (by omega)⟩, Int.toNat_natCast x⟩

theorem pairwise_late (predicted : Nat) : (late predicted).Pairwise (· < ·) := by
  refine List.pairwise_map.mpr ?_
  refine ((pairwise_approach predicted).filter _).imp_of_mem ?_
  intro x y hx _ hxy
  have hlow := (List.mem_filter.mp hx).2
  rw [decide_eq_true_eq] at hlow
  omega

theorem blocksizes_ofPrediction (hwords : predicted + 25 < 2 ^ 63) :
    (ofPrediction predicted).blocksizes = List.range' 10 40 ++ late predicted := by
  have hramp : ((steppedRange 10 50 1).filter (2 ≤ ·)).map Int.toNat = List.range' 10 40 := by
    decide
  have hkept : ((approach predicted).filter (50 ≤ ·)).filter (2 ≤ ·) =
      (approach predicted).filter (50 ≤ ·) := by
    refine List.filter_eq_self.mpr fun x hx => ?_
    have hlow := (List.mem_filter.mp hx).2
    rw [decide_eq_true_eq] at hlow ⊢
    omega
  have hword {z : Int} (hlow : -15 ≤ z) (hhigh : z ≤ predicted + 25) : wrapInt64 z = z :=
    wrapInt64_eq (by unfold InInt64 maxInt64; omega)
  have happroach : (ofPrediction predicted).blocksizes =
      ((steppedRange 10 50 1 ++ (approach predicted).filter (50 ≤ ·)).filter (2 ≤ ·)).map
        Int.toNat := by
    unfold ofPrediction approach
    dsimp only
    rw [hword (z := predicted) (by omega) (by omega),
      hword (z := predicted - 15) (by omega) (by omega),
      hword (z := predicted - 13) (by omega) (by omega),
      hword (z := predicted + 25) (by omega) (by omega)]
    rfl
  rw [happroach, List.filter_append, List.map_append, hramp, hkept, late]

theorem pairwise_ofPrediction (hwords : predicted + 25 < 2 ^ 63) :
    (ofPrediction predicted).blocksizes.Pairwise (· < ·) := by
  rw [blocksizes_ofPrediction hwords, List.pairwise_append]
  refine ⟨List.pairwise_lt_range', pairwise_late predicted, fun x hx y hy => ?_⟩
  rw [List.mem_range'_1] at hx
  have hlow := (mem_late.mp hy).1
  omega

/-- As long as the integers around the predicted blocksize are words, the default schedule ascends.
It starts with the ramp from `10` to `49` and goes on with those of the blocksizes around the
predicted one that lie beyond the ramp.  After a walk along it has met a blocksize, the blocksizes
ahead of that one are what the walk meets in its next steps: one with each step, until none
remains.  Only the end of the steps must be a size. -/
theorem ofPrediction_ascends (hwords : predicted + 25 < 2 ^ 63) :
    (ofPrediction predicted).blocksizes.Pairwise (· < ·) ∧
    (∃ late, (ofPrediction predicted).blocksizes = List.range' 10 40 ++ late ∧
      ∀ x : Nat, x ∈ late ↔ 50 ≤ x ∧
        ((∃ i : Nat, (x : Int) = 70 + i * 10 ∧ (x : Int) < predicted - 15) ∨
          (x : Int) = predicted - 15 ∨
          ∃ i : Nat, (x : Int) = predicted - 13 + i * 2 ∧ (x : Int) < predicted + 25)) ∧
    ∀ position position' x, (ofPrediction predicted).next position = (some x, position') →
      ∀ steps, position' + steps < 2 ^ 64 →
        ∃ ahead, (ofPrediction predicted).tryUpcoming x steps =
            (.ok ahead : Except (Failure α) (List Nat)) ∧
          ahead = ((ofPrediction predicted).walk steps position').filterMap Prod.fst ∧
          ahead.length = min steps ((ofPrediction predicted).blocksizes.length - position') := by
  have hascends := pairwise_ofPrediction hwords
  refine ⟨hascends, ⟨late predicted, blocksizes_ofPrediction hwords, fun x => ?_⟩, ?_⟩
  · rw [mem_late, mem_approach]
  · intro position position' x hnext steps hsize
    refine ⟨_, tryUpcoming_eq_walk (hascends.imp Nat.ne_of_lt) hnext hsize, rfl, ?_⟩
    rw [filterMap_walk, List.length_take, List.length_drop]

/-- After the ramp, the schedule around the blocksize `100` goes on with `70`, `80` and `85`. -/
theorem ofPrediction_ascends_hundred :
    100 + 25 < 2 ^ 63 ∧ (ofPrediction 100).next 39 = (some 49, 40) ∧ 40 + 3 < 2 ^ 64 ∧
      (ofPrediction 100).tryUpcoming 49 3 =
        (.ok [70, 80, 85] : Except (Failure Float) (List Nat)) := by
  have hnext : (ofPrediction 100).next 39 = (some 49, 40) := by decide
  have hwords : 100 + 25 < 2 ^ 63 := by decide
  obtain ⟨-, -, hahead⟩ := ofPrediction_ascends (α := Float) hwords
  obtain ⟨ahead, hahead, hwalk, -⟩ := hahead 39 40 49 hnext 3 (by decide)
  refine ⟨hwords, hnext, by decide, hahead.trans (congrArg _ (hwalk.trans ?_))⟩
  decide

/-- More steps than a size can count from a position end before they start. -/
theorem tryUpcoming_fails_beyond_sizes :
    (ofPrediction 60).next 0 = (some 10, 1) ∧ (ofPrediction 60).next 1 = (some 11, 2) ∧
      (ofPrediction 60).tryUpcoming 10 (2 ^ 64 - 1) =
        (.error .outOfRange : Except (Failure Float) (List Nat)) := by
  refine ⟨by decide, by decide, if_pos ?_⟩
  decide

end EmbeddingAttack.Schedule
