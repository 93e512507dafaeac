import EmbeddingAttack.Proofs.Arithmetic.Words
import Mathlib.Analysis.SpecialFunctions.Gamma.Basic
import Mathlib.Analysis.SpecialFunctions.Log.Base
import Mathlib.Analysis.SpecialFunctions.Trigonometric.Basic
import Mathlib.Analysis.Real.Sqrt

/-!
# Real numbers as scalars

The numeric side in exact arithmetic.  Every number is finite, and an operation answers what it
stands for.  The integers are of any size; `realWords` takes those of 64 bits instead, which is what
a program can hold.
-/

namespace EmbeddingAttack

/-- The nearest integer and, from halfway, the one away from zero. -/
noncomputable def roundHalfAway (x : ℝ) : ℤ :=
  if 0 ≤ x then ⌊x + 1 / 2⌋ else ⌈x - 1 / 2⌉

/-- The integer part, the fraction being cut off. -/
noncomputable def truncate (x : ℝ) : ℤ :=
  if 0 ≤ x then ⌊x⌋ else ⌈x⌉

-- Named for the reals, so that the operations of a field are found before those of a scalar.
noncomputable instance realDiv : Div ℝ := inferInstance

noncomputable instance realOfScientific : OfScientific ℝ := inferInstance

noncomputable instance realScalar : Scalar ℝ where
  toZero := inferInstance
  toOne := inferInstance
  toNatCast := inferInstance
  toIntCast := inferInstance
  toOfScientific := inferInstance
  toAdd := inferInstance
  toSub := inferInstance
  toMul := inferInstance
  toDiv := inferInstance
  toNeg := inferInstance
  toLE := inferInstance
  toLT := inferInstance
  decidableLE := inferInstance
  decidableLT := inferInstance
  isFinite _ := true
  abs := abs
  sqrt := Real.sqrt
  round x := roundHalfAway x
  floor x := (⌊x⌋ : ℤ)
  exp := Real.exp
  exp2 x := 2 ^ x
  log := Real.log
  log2 := Real.logb 2
  pow x y := x ^ y
  logGamma x := Real.log (Real.Gamma x)
  pi := Real.pi
  e := Real.exp 1
  toInt := truncate
  toNat x := ⌊x⌋₊
  integers := .unbounded

/-- The reals with integers of 64 bits. -/
noncomputable abbrev realWords : Scalar ℝ :=
  { realScalar with integers := .words }

instance : ExactIntegers ℝ := ⟨rfl⟩

/-! ## Integers among the reals -/

theorem abs_sub_roundHalfAway (x : ℝ) : |x - roundHalfAway x| ≤ 1 / 2 := by
  unfold roundHalfAway
  rw [abs_le]
  split
  · have hle := Int.floor_le (x + 1 / 2)
    have hlt := Int.lt_floor_add_one (x + 1 / 2)
    constructor <;> linarith
  · have hle := Int.le_ceil (x - 1 / 2)
    have hlt := Int.ceil_lt_add_one (x - 1 / 2)
    constructor <;> linarith

theorem roundHalfAway_zero : roundHalfAway 0 = 0 := by
  unfold roundHalfAway
  rw [if_pos le_rfl, Int.floor_eq_zero_iff]
  constructor <;> norm_num

@[simp] theorem truncate_intCast (k : ℤ) : truncate (k : ℝ) = k := by
  unfold truncate
  split
  · exact Int.floor_intCast k
  · exact Int.ceil_intCast k

theorem equal_iff {x y : ℝ} : Scalar.equal x y = true ↔ x = y := by
  unfold Scalar.equal
  rw [Bool.and_eq_true, decide_eq_true_eq, decide_eq_true_eq]
  exact le_antisymm_iff.symm

theorem toWord_intCast (k : ℤ) : Scalar.toWord (k : ℝ) = k :=
  truncate_intCast k

theorem equal_intCast_zero (k : ℤ) : Scalar.equal (k : ℝ) 0 = decide (k = 0) := by
  rw [Bool.eq_iff_iff, equal_iff, decide_eq_true_eq, Int.cast_eq_zero]

/-! ## Numerals and sums -/

theorem two_eq : (2.0 : ℝ) = 2 := by
  norm_num

theorem sum_eq (xs : List ℝ) : Scalar.sum xs = xs.sum :=
  List.sum_eq_foldl.symm

theorem sum_map_add_const (c : ℝ) (xs : List ℝ) :
    (xs.map (· + c)).sum = xs.sum + xs.length * c := by
  induction xs with
  | nil => simp
  | cons x xs ih =>
      rw [List.map_cons, List.sum_cons, ih, List.sum_cons, List.length_cons]
      push_cast
      ring

end EmbeddingAttack
