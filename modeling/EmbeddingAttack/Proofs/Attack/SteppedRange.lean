import EmbeddingAttack.Attack.Schedule
import Mathlib.Data.List.Basic
import Mathlib.Tactic.Ring

/-!
# Stepped ranges

A stepped range starts at a number and goes on by a step of either sign, as long as it has not
reached its end.  It is counted out in advance: a multiple of the step belongs to it exactly where
the number that it leads to still comes before the end.
-/

namespace EmbeddingAttack

/-- The number `x` comes before `stop` in the direction of the step. -/
def ComesBefore (step stop x : Int) : Prop :=
  0 < step ∧ x < stop ∨ step < 0 ∧ stop < x

instance (step stop x : Int) : Decidable (ComesBefore step stop x) :=
  inferInstanceAs (Decidable (_ ∨ _))

/-- As many multiples of a positive step fit before a distance as the distance divided by the step,
rounded up. -/
theorem lt_toNat_ceil_iff {step : Int} (hstep : 0 < step) (distance : Int) (i : Nat) :
    i < ((distance + step - 1) / step).toNat ↔ i * step < distance := by
  calc
    i < ((distance + step - 1) / step).toNat ↔ (i : Int) + 1 ≤ (distance + step - 1) / step := by
      omega
    _ ↔ ((i : Int) + 1) * step ≤ distance + step - 1 := Int.le_ediv_iff_mul_le hstep
    _ ↔ i * step < distance := by
      rw [Int.add_mul, Int.one_mul]
      omega

/-- A range consists of the first multiples of its step, up to the last one that leads to a number
before its end. -/
theorem exists_steppedRange_eq (start stop step : Int) :
    ∃ count : Nat, (∀ i : Nat, i < count ↔ ComesBefore step stop (start + i * step)) ∧
      steppedRange start stop step = (List.range count).map fun i : Nat => start + i * step := by
  refine ⟨_, fun i => ?_, rfl⟩
  unfold ComesBefore
  rcases Int.lt_trichotomy step 0 with hneg | rfl | hpos
  · have hceil := lt_toNat_ceil_iff (Int.neg_pos_of_neg hneg) (start - stop) i
    rw [if_neg (by omega), if_pos hneg, show start - stop - step - 1 = start - stop + -step - 1 by
      omega, hceil, Int.mul_neg]
    omega
  · simp
  · have hceil := lt_toNat_ceil_iff hpos (stop - start) i
    rw [if_pos hpos, hceil]
    omega

theorem mem_steppedRange {start stop step x : Int} :
    x ∈ steppedRange start stop step ↔
      ComesBefore step stop x ∧ ∃ i : Nat, x = start + i * step := by
  obtain ⟨count, hcount, hrange⟩ := exists_steppedRange_eq start stop step
  rw [hrange, List.mem_map]
  constructor
  · rintro ⟨i, hi, rfl⟩
    exact ⟨(hcount i).mp (List.mem_range.mp hi), i, rfl⟩
  · rintro ⟨hbefore, i, rfl⟩
    exact ⟨i, List.mem_range.mpr ((hcount i).mpr hbefore), rfl⟩

/-- The numbers of a range with a positive step ascend. -/
theorem pairwise_steppedRange (start stop : Int) {step : Int} (hstep : 0 < step) :
    (steppedRange start stop step).Pairwise (· < ·) := by
  obtain ⟨count, -, hrange⟩ := exists_steppedRange_eq start stop step
  rw [hrange, List.pairwise_map]
  refine List.pairwise_lt_range.imp fun {i j} hij => ?_
  have hmul : (i : Int) * step < j * step := Int.mul_lt_mul_of_pos_right (by omega) hstep
  omega

theorem comesBefore_of_pos {step stop x : Int} (hstep : 0 < step) :
    ComesBefore step stop x ↔ x < stop := by
  unfold ComesBefore
  omega

/-- A range ends where its start is not before the end; else its start is followed by the range
from the next number on. -/
theorem steppedRange_eq (start stop step : Int) :
    steppedRange start stop step =
      if ComesBefore step stop start then start :: steppedRange (start + step) stop step
      else [] := by
  obtain ⟨count, hcount, hrange⟩ := exists_steppedRange_eq start stop step
  obtain ⟨rest, hrest, hnext⟩ := exists_steppedRange_eq (start + step) stop step
  have hfirst : 0 < count ↔ ComesBefore step stop start := by simpa using hcount 0
  split
  · rename_i hbefore
    obtain ⟨k, rfl⟩ := Nat.exists_eq_succ_of_ne_zero (hfirst.mpr hbefore).ne'
    have hshift (i : Nat) : start + step + i * step = start + ((i + 1 : Nat) : Int) * step := by
      push_cast
      ring
    have hlength : rest = k := eq_of_forall_lt_iff fun i => by
      rw [hrest, hshift, ← hcount, Nat.succ_lt_succ_iff]
    rw [hrange, hnext, hlength, List.range_succ_eq_map, List.map_cons, List.map_map]
    simp [hshift, Function.comp_def]
  · rename_i hafter
    obtain rfl : count = 0 := by
      by_contra hne
      exact hafter (hfirst.mp (Nat.pos_of_ne_zero hne))
    exact hrange

end EmbeddingAttack
