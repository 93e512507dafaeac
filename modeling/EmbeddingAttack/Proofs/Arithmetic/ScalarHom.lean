import EmbeddingAttack.Proofs.Arithmetic.Fraction
import EmbeddingAttack.Proofs.Arithmetic.RealScalar
import Mathlib.Data.Rat.Cast.OfScientific

/-!
# Numbers among other numbers

A map from scalars to scalars that respects sums, products, comparisons and the way to the integers
carries a computation along: what is done with some numbers is done alike with their images.  So a
run on fractions, which can be evaluated, is a run on the reals.
-/

namespace EmbeddingAttack

variable {α β : Type}

/-- A map that respects the operations of scalars which a lattice basis is reduced with, and between
numbers whose integers are the same. -/
class ScalarHom [Scalar α] [Scalar β] (f : α → β) : Prop where
  image_zero : f 0 = 0
  image_one : f 1 = 1
  image_natCast : ∀ n : Nat, f n = n
  image_intCast : ∀ k : Int, f k = k
  image_ofScientific : ∀ mantissa negative exponent,
    f (OfScientific.ofScientific mantissa negative exponent) =
      OfScientific.ofScientific mantissa negative exponent
  image_add : ∀ x y, f (x + y) = f x + f y
  image_sub : ∀ x y, f (x - y) = f x - f y
  image_mul : ∀ x y, f (x * y) = f x * f y
  image_div : ∀ x y, f (x / y) = f x / f y
  image_neg : ∀ x, f (-x) = -f x
  le_iff : ∀ x y, f x ≤ f y ↔ x ≤ y
  lt_iff : ∀ x y, f x < f y ↔ x < y
  isFinite_map : ∀ x, Scalar.isFinite (f x) = Scalar.isFinite x
  image_abs : ∀ x, f (Scalar.abs x) = Scalar.abs (f x)
  image_round : ∀ x, f (Scalar.round x) = Scalar.round (f x)
  toInt_map : ∀ x, Scalar.toInt (f x) = Scalar.toInt x
  integers_map : Scalar.integers β = Scalar.integers α

namespace ScalarHom

variable [Scalar α] [Scalar β] (f : α → β) [hom : ScalarHom f]

theorem pos_map (x : α) : 0 < f x ↔ 0 < x := by
  rw [← hom.image_zero]
  exact hom.lt_iff 0 x

theorem toWord_map (x : α) : Scalar.toWord (f x) = Scalar.toWord x := by
  unfold Scalar.toWord
  rw [toInt_map, integers_map f]

theorem equal_map (x y : α) : Scalar.equal (f x) (f y) = Scalar.equal x y := by
  unfold Scalar.equal
  rw [decide_eq_decide.mpr (le_iff x y), decide_eq_decide.mpr (le_iff y x)]

end ScalarHom

namespace Fraction

/-- A fraction as a real number. -/
noncomputable def toReal (x : Fraction) : ℝ :=
  ((show ℚ from x : ℚ) : ℝ)

theorem roundHalfAway_cast (x : ℚ) : roundHalfAway (x : ℝ) = round x := by
  unfold roundHalfAway round
  split
  · rename_i hx
    rw [if_pos (by exact_mod_cast hx), ← Rat.floor_cast (α := ℝ)]
    push_cast
    rfl
  · rename_i hx
    rw [if_neg (by exact_mod_cast hx), ← Int.ceil_neg, ← Rat.ceil_cast (α := ℝ)]
    push_cast
    ring_nf

theorem truncate_cast (x : ℚ) : EmbeddingAttack.truncate (x : ℝ) = truncate x := by
  unfold EmbeddingAttack.truncate truncate
  split
  · rename_i hx
    rw [if_pos (by exact_mod_cast hx), Rat.floor_cast]
  · rename_i hx
    rw [if_neg (by exact_mod_cast hx), ← Int.ceil_neg, neg_neg, Rat.ceil_cast]

theorem abs_cast (x : ℚ) : (((if 0 ≤ x then x else -x : ℚ)) : ℝ) = |(x : ℝ)| := by
  split
  · rename_i hx
    rw [abs_of_nonneg (by exact_mod_cast hx)]
  · rename_i hx
    rw [abs_of_neg (by exact_mod_cast not_le.mp hx), Rat.cast_neg]

/-- The fractions lie among the reals, whichever integers both are used with. -/
theorem scalarHom_toReal (Z : Integers) :
    @ScalarHom Fraction ℝ { scalar with integers := Z } { realScalar with integers := Z }
      toReal :=
  @ScalarHom.mk Fraction ℝ { scalar with integers := Z } { realScalar with integers := Z }
    toReal Rat.cast_zero Rat.cast_one Rat.cast_natCast Rat.cast_intCast Rat.cast_ofScientific
    Rat.cast_add Rat.cast_sub Rat.cast_mul Rat.cast_div Rat.cast_neg (fun _ _ => Rat.cast_le)
    (fun _ _ => Rat.cast_lt) (fun _ => rfl) abs_cast
    (fun x => (Rat.cast_intCast _).trans (congrArg Int.cast (roundHalfAway_cast x)).symm)
    truncate_cast rfl

instance : @ScalarHom Fraction ℝ scalar realWords toReal :=
  scalarHom_toReal .words

instance : @ScalarHom Fraction ℝ scalar.unbounded realScalar toReal :=
  scalarHom_toReal .unbounded

end Fraction

end EmbeddingAttack
