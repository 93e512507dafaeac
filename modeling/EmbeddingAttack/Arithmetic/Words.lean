/-!
# Integers and sizes of 64 bits

The program holds integers in signed words of 64 bits and sizes in unsigned ones.  A sum or a
product that leaves the range of its words wraps around, and a number that is cut to an integer is
clamped to the range.

`Integers` says which integers a program works with.  A run on words and the same run on integers
of any size differ in nothing else, so that a statement about the exact run is one about the words
as soon as the two runs agree.
-/

namespace EmbeddingAttack

/-- The greatest signed 64-bit integer, `2 ^ 63 - 1`. -/
def maxInt64 : Nat := 9223372036854775807

/-- The greatest unsigned 64-bit integer, `2 ^ 64 - 1`. -/
def maxWord64 : Nat := 18446744073709551615

/-- The signed integers of 64 bits. -/
def InInt64 (z : Int) : Prop :=
  -(maxInt64 + 1 : Int) ≤ z ∧ z ≤ maxInt64

instance (z : Int) : Decidable (InInt64 z) :=
  inferInstanceAs (Decidable (_ ∧ _))

/-- The signed word that agrees with an integer modulo `2 ^ 64`. -/
@[inline] def wrapInt64 (z : Int) : Int :=
  (Int64.ofInt z).toInt

/-- The signed word closest to an integer. -/
@[inline] def clampInt64 (z : Int) : Int :=
  max (-(maxInt64 + 1 : Int)) (min z maxInt64)

/-- The unsigned word that agrees with a size modulo `2 ^ 64`. -/
@[inline] def wrapSize (n : Nat) : Nat :=
  n % (maxWord64 + 1)

theorem wrapInt64_eq {z : Int} (h : InInt64 z) : wrapInt64 z = z := by
  unfold InInt64 maxInt64 at h
  rw [wrapInt64, Int64.toInt_ofInt, show Int64.size = 2 ^ 64 from rfl]
  exact Int.bmod_eq_of_le_mul_two (by omega) (by omega)

theorem clampInt64_eq {z : Int} (h : InInt64 z) : clampInt64 z = z := by
  unfold InInt64 at h
  unfold clampInt64
  omega

/-- Integers as a program works with them: what it keeps of the result of an operation, and what it
makes of an integer that a number is cut to.  Either leaves the integers of 64 bits as they are. -/
structure Integers where
  keep : Int → Int
  clamp : Int → Int
  keep_eq : ∀ {z}, InInt64 z → keep z = z
  clamp_eq : ∀ {z}, InInt64 z → clamp z = z

namespace Integers

/-- Whether the quotient of two integers is one of those that a program works with. -/
def hasQuotient (Z : Integers) (x y : Int) : Bool :=
  Z.keep (x.tdiv y) = x.tdiv y

/-- The integers of 64 bits. -/
def words : Integers where
  keep := wrapInt64
  clamp := clampInt64
  keep_eq := wrapInt64_eq
  clamp_eq := clampInt64_eq

/-- All integers. -/
def unbounded : Integers where
  keep z := z
  clamp z := z
  keep_eq _ := rfl
  clamp_eq _ := rfl

@[simp] theorem keep_unbounded (z : Int) : unbounded.keep z = z := rfl

@[simp] theorem clamp_unbounded (z : Int) : unbounded.clamp z = z := rfl

@[simp] theorem hasQuotient_unbounded (x y : Int) : unbounded.hasQuotient x y = true :=
  decide_eq_true rfl

end Integers

end EmbeddingAttack
