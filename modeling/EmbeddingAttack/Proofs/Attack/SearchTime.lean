import EmbeddingAttack.Attack.Lookahead
import EmbeddingAttack.Proofs.Arithmetic.RealScalar
import Mathlib.Analysis.SpecialFunctions.Pow.Real

/-!
# Times of searches over the reals

The expected time of a search is exponential in its dimension, so that a further dimension is a
factor.  The attainable dimension turns this around: it is the greatest dimension that the budget
pays for.
-/

namespace EmbeddingAttack

namespace CostModel

variable (model : CostModel ℝ)

theorem searchTime_eq (dim : ℝ) :
    model.searchTime dim = 2 ^ (model.exponent * (dim - model.offset)) / model.threads := rfl

theorem ratio_eq (target source : ℝ) :
    model.ratio target source = 2 ^ (model.exponent * (target - source)) := rfl

theorem ratio_pos (target source : ℝ) : 0 < model.ratio target source :=
  Real.rpow_pos_of_pos two_pos _

theorem ratio_self (dim : ℝ) : model.ratio dim dim = 1 := by
  rw [ratio_eq, sub_self, mul_zero, Real.rpow_zero]

theorem ratio_mul_ratio (target middle source : ℝ) :
    model.ratio middle source * model.ratio target middle = model.ratio target source := by
  rw [ratio_eq, ratio_eq, ratio_eq, ← Real.rpow_add two_pos]
  congr 1
  ring

theorem searchTime_add (dim more : ℝ) :
    model.searchTime (dim + more) = 2 ^ (model.exponent * more) * model.searchTime dim := by
  rw [searchTime_eq, searchTime_eq, ← mul_div_assoc, ← Real.rpow_add two_pos]
  congr 2
  ring

variable {model}

theorem searchTime_mono (h : 0 < model.exponent) {dim dim' : ℝ} (hdim : dim ≤ dim') :
    model.searchTime dim ≤ model.searchTime dim' := by
  rw [searchTime_eq, searchTime_eq]
  gcongr
  exact one_le_two

/-- The saving, which is computed as a part of the current time, makes up for the difference. -/
theorem paysOff_iff (h : 0 < model.exponent) (current simulated : Nat) {extraTime : ℝ}
    (hextra : 0 ≤ extraTime) : model.paysOff current simulated extraTime = true ↔
      extraTime + model.searchTime simulated < model.searchTime current := by
  unfold paysOff
  by_cases hle : current ≤ simulated
  · have hmono := searchTime_mono h (Nat.cast_le (α := ℝ).mpr hle)
    rw [if_pos hle]
    constructor
    · intro hfalse
      cases hfalse
    · intro hlt
      linarith
  · have hsimulated : (simulated : ℝ) = current + -((current - simulated : Nat) : ℝ) := by
      rw [Nat.cast_sub (by omega)]
      ring
    have hsaved : (1 - 2 ^ (-model.exponent * ((current - simulated : Nat) : ℝ))) *
        model.searchTime current = model.searchTime current - model.searchTime simulated := by
      rw [hsimulated, searchTime_add, neg_mul_comm]
      ring
    rw [if_neg hle, decide_eq_true_iff]
    change extraTime < (1 - 2 ^ (-model.exponent * ((current - simulated : Nat) : ℝ))) *
      model.searchTime current ↔ _
    rw [hsaved, lt_sub_iff_add_lt]

theorem attainable_eq (budget : ℝ) : model.attainable budget =
    if 0 < budget then
      if 0 < model.offset + Real.logb 2 (budget * model.threads) / model.exponent then
        min ⌊(⌊model.offset + Real.logb 2 (budget * model.threads) / model.exponent⌋ : ℝ)⌋₊
          maxWord64
      else 0
    else 0 := by
  change (if 0 < budget then if true = true ∧ _ then _ else 0 else 0) = _
  simp only [true_and]
  rfl

theorem attainable_of_nonpos {budget : ℝ} (h : budget ≤ 0) : model.attainable budget = 0 := by
  rw [attainable_eq, if_neg (not_lt.mpr h)]

theorem attainable_lt (budget : ℝ) : model.attainable budget < 2 ^ 64 := by
  rw [attainable_eq]
  split
  · split
    · exact Nat.lt_succ_of_le (min_le_right _ _)
    · exact Nat.two_pow_pos 64
  · exact Nat.two_pow_pos 64

/-- The attainable dimension is the greatest size whose search the budget pays for. -/
theorem le_attainable_iff (h : 0 < model.exponent) (hthreads : 0 < model.threads) {budget : ℝ}
    {k : Nat} (hk : 0 < k) (hsize : k < 2 ^ 64) :
    k ≤ model.attainable budget ↔ model.searchTime k ≤ budget := by
  have hthreads' : (0 : ℝ) < model.threads := Nat.cast_pos.mpr hthreads
  by_cases hbudget : 0 < budget
  · have hlog : model.searchTime k ≤ budget ↔
        (k : ℝ) ≤ model.offset + Real.logb 2 (budget * model.threads) / model.exponent := by
      rw [searchTime_eq, div_le_iff₀ hthreads',
        ← Real.le_logb_iff_rpow_le one_lt_two (mul_pos hbudget hthreads'), mul_comm,
        ← le_div_iff₀ h, sub_le_iff_le_add']
    rw [hlog, attainable_eq, if_pos hbudget]
    have hk' : (0 : ℝ) < k := Nat.cast_pos.mpr hk
    split
    · have hword : k ≤ maxWord64 := Nat.le_of_lt_succ hsize
      rw [le_min_iff, and_iff_left hword, Nat.le_floor_iff' hk.ne',
        ← Int.cast_natCast, Int.cast_le, Int.le_floor]
    · rename_i hnonpos
      constructor
      · intro hzero
        omega
      · intro hle
        exact absurd (hk'.trans_le hle) hnonpos
  · have hpositive : 0 < model.searchTime k := by
      rw [searchTime_eq]
      positivity
    rw [attainable_of_nonpos (not_lt.mp hbudget)]
    constructor
    · intro hzero
      omega
    · intro hle
      exact absurd (hpositive.trans_le hle) hbudget

/-- A greater budget and faster searches never make a dimension unattainable. -/
theorem attainable_mono {model' : CostModel ℝ} (h : 0 < model.exponent) (h' : 0 < model'.exponent)
    (hthreads : 0 < model.threads) (hthreads' : 0 < model'.threads) {budget budget' : ℝ}
    (hbudget : budget ≤ budget') (hfaster : ∀ dim, model'.searchTime dim ≤ model.searchTime dim) :
    model.attainable budget ≤ model'.attainable budget' := by
  rcases Nat.eq_zero_or_pos (model.attainable budget) with hnone | hpos
  · rw [hnone]
    exact Nat.zero_le _
  · have hsize := model.attainable_lt budget
    have hpaid := (le_attainable_iff h hthreads hpos hsize).mp le_rfl
    exact (le_attainable_iff h' hthreads' hpos hsize).mpr ((hfaster _).trans (hpaid.trans hbudget))

section Threads

variable (exponent offset : ℝ) {threads threads' : ℕ}

theorem threads_of_pos : 0 < (of exponent offset threads).threads :=
  Nat.le_max_right _ _

theorem searchTime_of_le (h : threads ≤ threads') (dim : ℝ) :
    (of exponent offset threads').searchTime dim ≤ (of exponent offset threads).searchTime dim := by
  have hmax : (of exponent offset threads).threads ≤ (of exponent offset threads').threads :=
    max_le_max_right 1 h
  have hpos : (0 : ℝ) < (of exponent offset threads).threads :=
    Nat.cast_pos.mpr (threads_of_pos exponent offset)
  rw [searchTime_eq, searchTime_eq]
  change (2 : ℝ) ^ (exponent * (dim - offset)) / _ ≤ 2 ^ (exponent * (dim - offset)) / _
  gcongr

end Threads

/-- The attainable dimension inverts the search time, for every offset and every number of threads
asked for: a dimension that a size can count is attainable if and only if its search is paid for.
So more time, a greater share of it for searches and more threads make no dimension
unattainable. -/
theorem attainable_inverts_searchTime (exponent offset : ℝ) (threads : ℕ) (h : 0 < exponent) :
    (∀ budget, 0 < budget → ∀ k : ℕ, 1 ≤ k → k < 2 ^ 64 →
      (k ≤ (of exponent offset threads).attainable budget ↔
        (of exponent offset threads).searchTime k ≤ budget)) ∧
    (∀ budget, budget ≤ 0 → (of exponent offset threads).attainable budget = 0) ∧
    ∀ (targetNorm goalMargin elapsed elapsed' factor factor' : ℝ) (threads' : ℕ),
      0 ≤ elapsed → elapsed ≤ elapsed' → 0 ≤ factor → factor ≤ factor' → threads ≤ threads' →
      (Forecaster.mk (of exponent offset threads) targetNorm goalMargin).attainable elapsed factor ≤
        (Forecaster.mk (of exponent offset threads') targetNorm goalMargin).attainable
          elapsed' factor' := by
  refine ⟨?_, ?_, ?_⟩
  · intro budget _ k hk hsize
    exact le_attainable_iff h (threads_of_pos exponent offset) hk hsize
  · intro budget hbudget
    exact attainable_of_nonpos hbudget
  · intro targetNorm goalMargin elapsed elapsed' factor factor' threads' helapsed hlater hfactor
      hmore hthreads
    have hbudget : factor * elapsed ≤ factor' * elapsed' :=
      mul_le_mul hmore hlater helapsed (hfactor.trans hmore)
    exact attainable_mono h h (threads_of_pos exponent offset) (threads_of_pos exponent offset)
      hbudget (searchTime_of_le exponent offset hthreads)

/-- Four threads search dimension three in two seconds, and dimension four in four. -/
theorem attainable_inverts_four_threads :
    (0 : ℝ) < 1 ∧ (of 1 0 4 : CostModel ℝ).attainable 2 = 3 ∧
      (of 1 0 4 : CostModel ℝ).attainable (-2) = 0 := by
  obtain ⟨hinverts, hnonpos, -⟩ := attainable_inverts_searchTime 1 0 4 one_pos
  refine ⟨one_pos, le_antisymm ?_ ?_, hnonpos (-2) (by norm_num)⟩
  · by_contra hmore
    have hpaid := (hinverts 2 two_pos 4 (by omega) (by omega)).mp (by omega)
    change (2 : ℝ) ^ ((1 : ℝ) * ((4 : ℕ) - 0)) / (4 : ℕ) ≤ 2 at hpaid
    norm_num at hpaid
  · apply (hinverts 2 two_pos 3 (by omega) (by omega)).mpr
    change (2 : ℝ) ^ ((1 : ℝ) * ((3 : ℕ) - 0)) / (4 : ℕ) ≤ 2
    norm_num

/-- A dimension that no size can count is not attainable, however cheap its search is. -/
theorem attainable_stops_at_sizes :
    let model : CostModel ℝ := of 1 (2 ^ 65) 1
    0 < model.exponent ∧ (0 : ℝ) < 1 ∧ model.searchTime ((2 ^ 64 : ℕ) : ℝ) ≤ 1 ∧
      ¬ 2 ^ 64 ≤ model.attainable 1 := by
  intro model
  refine ⟨one_pos, one_pos, ?_, not_le.mpr (attainable_lt 1)⟩
  have hthreads : (model.threads : ℝ) = 1 := Nat.cast_one
  rw [searchTime_eq, hthreads, div_one]
  refine Real.rpow_le_one_of_one_le_of_nonpos one_le_two ?_
  change (1 : ℝ) * (((2 ^ 64 : ℕ) : ℝ) - 2 ^ 65) ≤ 0
  norm_num

end CostModel

end EmbeddingAttack
