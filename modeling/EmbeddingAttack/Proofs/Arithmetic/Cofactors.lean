import EmbeddingAttack.Proofs.Arithmetic.Bezout
import EmbeddingAttack.Proofs.Text.Integer
import Mathlib.Algebra.Order.Ring.Int

/-!
# The size of Bézout coefficients

Along a division with remainder the coefficients of consecutive remainders have opposite signs,
relative to those of the remainders, so that their absolute values only add up: the crosswise
products of the remainders and the coefficients keep their sum, which is one of the two numbers
given.  Hence no number on the way is larger than the larger of the two, and the coefficients at the
end are no larger than the two numbers without their common divisor.
-/

namespace EmbeddingAttack

namespace Bezout

/-! ## Turns of the division -/

/-- What a turn leaves of `current`: the remainder, with the coefficients that express it. -/
def remainder (current next : Bezout) : Bezout :=
  let q := current.gcd.tdiv next.gcd
  ⟨current.gcd - q * next.gcd, current.left - q * next.left, current.right - q * next.right⟩

/-- The numbers that a turn computes before its differences: the quotient and its products. -/
def products (current next : Bezout) : List Int :=
  let q := current.gcd.tdiv next.gcd
  [q, q * next.gcd, q * next.left, q * next.right]

/-- A remainder and its coefficients. -/
def numbers (d : Bezout) : List Int :=
  [d.gcd, d.left, d.right]

/-- The pairs of consecutive remainders that the division of `a` by `b` goes through. -/
inductive Reaches (a b : Int) : Bezout → Bezout → Prop where
  | start : Reaches a b ⟨a, 1, 0⟩ ⟨b, 0, 1⟩
  | turn {current next : Bezout} (h : Reaches a b current next) (hne : next.gcd ≠ 0) :
      Reaches a b next (remainder current next)

/-- The division ends: it reaches a pair with the remainder zero, before which its result stands. -/
theorem exists_reaches_reduce {a b : Int} {current next : Bezout} (h : Reaches a b current next) :
    ∃ last, Reaches a b (reduce current next) last ∧ last.gcd = 0 := by
  fun_induction reduce current next with
  | case1 current next hzero => exact ⟨next, h, hzero⟩
  | case2 current next hne q ih => exact ih (h.turn hne)

theorem gcd_remainder (current next : Bezout) :
    (remainder current next).gcd = current.gcd.tmod next.gcd := by
  rw [remainder, Int.tmod_def, Int.mul_comm]

/-! ## Signs -/

/-- A quotient has the sign of the product. -/
theorem tdiv_mul_nonneg (r r' : Int) : 0 ≤ r.tdiv r' * (r * r') := by
  rw [← Int.sign_nonneg_iff, Int.sign_mul, Int.sign_mul, Int.sign_tdiv]
  split
  · rw [Int.zero_mul]
  · exact mul_self_nonneg _

/-- A remainder has the sign of the number divided. -/
theorem tmod_mul_nonneg (r r' : Int) : 0 ≤ r.tmod r' * r := by
  rw [← Int.sign_nonneg_iff, Int.sign_mul, Int.sign_tmod]
  split
  · rw [Int.zero_mul]
  · exact mul_self_nonneg _

/-- The coefficients `x` and `y` beside the remainders `r` and `r'` have opposite signs, unless
the remainders have. -/
def Opposed (r r' x y : Int) : Prop :=
  x * y * (r * r') ≤ 0

section Opposed

variable {r r' x y : Int}

theorem Opposed.mul_tdiv_nonpos (h : Opposed r r' x y) : x * (r.tdiv r' * y) ≤ 0 := by
  by_cases hzero : r * r' = 0
  · rcases mul_eq_zero.mp hzero with rfl | rfl <;> simp
  · have hsquare : 0 < (r * r') * (r * r') := mul_self_pos.mpr hzero
    apply nonpos_of_mul_nonpos_left (b := (r * r') * (r * r')) _ hsquare
    calc
      x * (r.tdiv r' * y) * ((r * r') * (r * r')) = x * y * (r * r') * (r.tdiv r' * (r * r')) := by
        ring
      _ ≤ 0 := mul_nonpos_of_nonpos_of_nonneg h (tdiv_mul_nonneg r r')

/-- The next coefficient is opposed to the last in turn. -/
theorem Opposed.turn (h : Opposed r r' x y) : Opposed r' (r.tmod r') y (x - r.tdiv r' * y) := by
  have hsame : y * (x - r.tdiv r' * y) * (r' * r) ≤ 0 := by
    calc
      y * (x - r.tdiv r' * y) * (r' * r) = x * y * (r * r') - y * y * (r.tdiv r' * (r * r')) := by
        ring
      _ ≤ 0 := sub_nonpos.mpr (h.trans (mul_nonneg (mul_self_nonneg y) (tdiv_mul_nonneg r r')))
  unfold Opposed
  by_cases hzero : r = 0
  · rw [hzero, Int.zero_tmod, mul_zero, mul_zero]
  · -- The remainder counts as the number divided does, which has its sign.
    apply nonpos_of_mul_nonpos_left (b := r * r) _ (mul_self_pos.mpr hzero)
    calc
      y * (x - r.tdiv r' * y) * (r' * r.tmod r') * (r * r) =
          y * (x - r.tdiv r' * y) * (r' * r) * (r.tmod r' * r) := by ring
      _ ≤ 0 := mul_nonpos_of_nonpos_of_nonneg hsame (tmod_mul_nonneg r r')

theorem natAbs_sub_of_mul_nonpos {u v : Int} (h : u * v ≤ 0) :
    (u - v).natAbs = u.natAbs + v.natAbs := by
  rcases mul_nonpos_iff.mp h with ⟨hu, hv⟩ | ⟨hu, hv⟩ <;> omega

/-- Opposed coefficients only add up. -/
theorem Opposed.natAbs_sub (h : Opposed r r' x y) :
    (x - r.tdiv r' * y).natAbs = x.natAbs + r.natAbs / r'.natAbs * y.natAbs := by
  rw [natAbs_sub_of_mul_nonpos h.mul_tdiv_nonpos, Int.natAbs_mul, Int.natAbs_tdiv]
  rfl

end Opposed

/-! ## Columns of coefficients -/

/-- The coefficients `x` and `y` beside the consecutive remainders `r` and `r'`, of which `g` is a
common divisor. -/
structure Column (g total : Nat) (r r' x y : Int) : Prop where
  opposed : Opposed r r' x y
  crosswise : r.natAbs * y.natAbs + r'.natAbs * x.natAbs = total
  current : x.natAbs * g ≤ max g total
  next : y.natAbs * g ≤ max g total

namespace Column

variable {g total : Nat} {r r' x y : Int}

theorem crosswise_turn (h : Column g total r r' x y) :
    r'.natAbs * (x - r.tdiv r' * y).natAbs + (r.tmod r').natAbs * y.natAbs = total := by
  rw [h.opposed.natAbs_sub, Int.natAbs_tmod, ← h.crosswise]
  calc
    r'.natAbs * (x.natAbs + r.natAbs / r'.natAbs * y.natAbs) + r.natAbs % r'.natAbs * y.natAbs =
        (r'.natAbs * (r.natAbs / r'.natAbs) + r.natAbs % r'.natAbs) * y.natAbs +
          r'.natAbs * x.natAbs := by ring
    _ = r.natAbs * y.natAbs + r'.natAbs * x.natAbs := by rw [Nat.div_add_mod]

theorem turn (h : Column g total r r' x y) (hg : g ≤ r'.natAbs) :
    Column g total r' (r.tmod r') y (x - r.tdiv r' * y) where
  opposed := h.opposed.turn
  crosswise := h.crosswise_turn
  current := h.next
  next := by
    refine le_max_of_le_right ?_
    calc
      (x - r.tdiv r' * y).natAbs * g ≤ (x - r.tdiv r' * y).natAbs * r'.natAbs :=
        Nat.mul_le_mul_left _ hg
      _ ≤ total := by
        rw [Nat.mul_comm, ← h.crosswise_turn]
        exact Nat.le_add_right _ _

/-- The product that a turn subtracts is no larger than what it leaves. -/
theorem natAbs_product_le (h : Column g total r r' x y) : (r.tdiv r' * y).natAbs ≤ total := by
  rcases eq_or_ne r' 0 with rfl | hne
  · rw [Int.tdiv_zero, Int.zero_mul]
    exact Nat.zero_le _
  calc
    (r.tdiv r' * y).natAbs = r.natAbs / r'.natAbs * y.natAbs := by
      rw [Int.natAbs_mul, Int.natAbs_tdiv]
      rfl
    _ ≤ (x - r.tdiv r' * y).natAbs := by
      rw [h.opposed.natAbs_sub]
      exact Nat.le_add_left _ _
    _ ≤ r'.natAbs * (x - r.tdiv r' * y).natAbs :=
      Nat.le_mul_of_pos_left _ (Int.natAbs_pos.mpr hne)
    _ ≤ total := by
      rw [← h.crosswise_turn]
      exact Nat.le_add_right _ _

end Column

/-! ## Whole divisions -/

/-- What holds of every pair that the division of `a` by `b` goes through. -/
structure Balanced (a b : Int) (current next : Bezout) : Prop where
  gcd : Int.gcd current.gcd next.gcd = Int.gcd a b
  current_le : current.gcd.natAbs ≤ max a.natAbs b.natAbs
  next_le : next.gcd.natAbs ≤ max a.natAbs b.natAbs
  left : Column (Int.gcd a b) b.natAbs current.gcd next.gcd current.left next.left
  right : Column (Int.gcd a b) a.natAbs current.gcd next.gcd current.right next.right

theorem balanced_start (a b : Int) : Balanced a b ⟨a, 1, 0⟩ ⟨b, 0, 1⟩ where
  gcd := rfl
  current_le := le_max_left _ _
  next_le := le_max_right _ _
  left := ⟨by simp [Opposed], by simp, by simp, by simp⟩
  right := ⟨by simp [Opposed], by simp, by simp, by simp⟩

namespace Balanced

variable {a b : Int} {current next : Bezout}

theorem turn (h : Balanced a b current next) (hne : next.gcd ≠ 0) :
    Balanced a b next (remainder current next) := by
  have hg : Int.gcd a b ≤ next.gcd.natAbs := by
    rw [← h.gcd]
    exact Int.gcd_le_natAbs_right _ hne
  have hleft := h.left.turn hg
  have hright := h.right.turn hg
  rw [← gcd_remainder] at hleft hright
  refine ⟨?_, h.next_le, ?_, hleft, hright⟩
  · rw [← h.gcd, Int.gcd_comm next.gcd]
    exact Int.gcd_sub_mul_right_left _ _ _
  · rw [gcd_remainder, Int.natAbs_tmod]
    exact (Nat.mod_le _ _).trans h.current_le

theorem of_reaches (h : Reaches a b current next) : Balanced a b current next := by
  induction h with
  | start => exact balanced_start a b
  | turn _ hne ih => exact ih.turn hne

end Balanced

theorem le_max_one_div {x g total : Nat} (hg : 0 < g) (h : x * g ≤ max g total) :
    x ≤ max 1 (total / g) := by
  rcases le_max_iff.mp h with h | h
  · exact le_max_of_le_left (Nat.le_of_mul_le_mul_right (by rwa [Nat.one_mul]) hg)
  · exact le_max_of_le_right ((Nat.le_div_iff_mul_le hg).mpr h)

/-- The numbers of a pair, and those that a turn computes from them. -/
def computed (current next : Bezout) : List Int :=
  numbers current ++ numbers next ++ products current next

/-- No number of a division is larger than the larger of the two numbers given, unless it is a one
that a coefficient starts with. -/
theorem natAbs_computed_le {a b : Int} {current next : Bezout} (hgcd : 0 < Int.gcd a b)
    (h : Reaches a b current next) :
    ∀ x ∈ computed current next, x.natAbs ≤ max 1 (max a.natAbs b.natAbs) := by
  have hbalanced := Balanced.of_reaches h
  have hcoefficient {x total : Nat} (htotal : total ≤ max a.natAbs b.natAbs)
      (hx : x * Int.gcd a b ≤ max (Int.gcd a b) total) : x ≤ max 1 (max a.natAbs b.natAbs) :=
    (le_max_one_div hgcd hx).trans (max_le_max le_rfl ((Nat.div_le_self _ _).trans htotal))
  have hdivided {x : Nat} (hx : x ≤ current.gcd.natAbs) : x ≤ max 1 (max a.natAbs b.natAbs) :=
    le_max_of_le_right (hx.trans hbalanced.current_le)
  simp only [computed, numbers, products, List.cons_append, List.nil_append, List.forall_mem_cons,
    List.not_mem_nil, false_imp_iff, implies_true, and_true]
  refine ⟨hdivided le_rfl, ?_, ?_, le_max_of_le_right hbalanced.next_le, ?_, ?_, ?_, ?_, ?_, ?_⟩
  · exact hcoefficient (le_max_right _ _) hbalanced.left.current
  · exact hcoefficient (le_max_left _ _) hbalanced.right.current
  · exact hcoefficient (le_max_right _ _) hbalanced.left.next
  · exact hcoefficient (le_max_left _ _) hbalanced.right.next
  · refine hdivided ?_
    rw [Int.natAbs_tdiv]
    exact Nat.div_le_self _ _
  · refine hdivided ?_
    rw [Int.natAbs_mul, Int.natAbs_tdiv]
    exact Nat.div_mul_le_self _ _
  · exact le_max_of_le_right (hbalanced.left.natAbs_product_le.trans (le_max_right _ _))
  · exact le_max_of_le_right (hbalanced.right.natAbs_product_le.trans (le_max_left _ _))

theorem numbers_of (a b : Int) : ∃ current last, Reaches a b current last ∧ last.gcd = 0 ∧
    numbers (of a b) =
      if current.gcd < 0 then (numbers current).map (- ·) else numbers current := by
  obtain ⟨last, hreaches, hlast⟩ := exists_reaches_reduce (Reaches.start (a := a) (b := b))
  refine ⟨_, last, hreaches, hlast, ?_⟩
  unfold of
  dsimp only
  split <;> rfl

theorem natAbs_of {a b : Int} {current : Bezout} (h : numbers (of a b) =
      if current.gcd < 0 then (numbers current).map (- ·) else numbers current) :
    (of a b).left.natAbs = current.left.natAbs ∧ (of a b).right.natAbs = current.right.natAbs := by
  split at h
  all_goals
    simp only [numbers, List.map_cons, List.cons.injEq] at h
    obtain ⟨-, hleft, hright, -⟩ := h
    rw [hleft, hright]
  · exact ⟨Int.natAbs_neg _, Int.natAbs_neg _⟩
  · exact ⟨rfl, rfl⟩

/-- The division of two numbers, not both zero, ends, with their positive greatest common divisor as
a combination of them whose coefficients are no larger than the numbers without the divisor.  No
number that it computes is larger than the larger of the two, or than one.  So all of them are
signed integers of 64 bits where the two are and neither is the least of these.  Hence there is an
inverse modulo `q` exactly for the numbers that share no divisor with `q`, and it is a residue that
multiplies to one. -/
theorem of_inverts_within_words :
    (∀ a b : Int, a ≠ 0 ∨ b ≠ 0 →
      (∃ current last, Reaches a b current last ∧ last.gcd = 0 ∧ numbers (of a b) =
        if current.gcd < 0 then (numbers current).map (- ·) else numbers current) ∧
      (of a b).gcd = Int.gcd a b ∧ 0 < (of a b).gcd ∧
      (of a b).left * a + (of a b).right * b = (of a b).gcd ∧
      (of a b).left.natAbs ≤ max 1 (b.natAbs / Int.gcd a b) ∧
      (of a b).right.natAbs ≤ max 1 (a.natAbs / Int.gcd a b) ∧
      ∀ current next, Reaches a b current next →
        (∀ x ∈ computed current next, x.natAbs ≤ max 1 (max a.natAbs b.natAbs)) ∧
        (InInt64 a → a ≠ -2 ^ 63 → InInt64 b → b ≠ -2 ^ 63 →
          ∀ x ∈ computed current next, InInt64 x ∧ InInt64 (-x))) ∧
    ∀ a q : Int, 2 ≤ q →
      ((∃ x, modInverse? a q = some x) ↔ Int.gcd a q = 1) ∧
      ∀ x, modInverse? a q = some x → 0 ≤ x ∧ x < q ∧ a * x ≡ 1 [ZMOD q] := by
  refine ⟨fun a b hne => ?_, fun a q hq => ⟨?_, fun x hx => ?_⟩⟩
  · have hgcd : 0 < Int.gcd a b := Int.gcd_pos_iff.mpr hne
    obtain ⟨current, last, hreaches, hlast, hnumbers⟩ := numbers_of a b
    have hbalanced := Balanced.of_reaches hreaches
    obtain ⟨hleft, hright⟩ := natAbs_of hnumbers
    refine ⟨⟨current, last, hreaches, hlast, hnumbers⟩, gcd_of a b, ?_, represents_of a b, ?_, ?_,
      fun current next h => ⟨natAbs_computed_le hgcd h, fun ha ha' hb hb' x hx => ?_⟩⟩
    · rw [gcd_of]
      exact Int.natCast_pos.mpr hgcd
    · rw [hleft]
      exact le_max_one_div hgcd hbalanced.left.current
    · rw [hright]
      exact le_max_one_div hgcd hbalanced.right.current
    · have hx := natAbs_computed_le hgcd h x hx
      unfold InInt64 maxInt64 at *
      omega
  · rw [exists_modInverse?_iff, Int.isCoprime_iff_gcd_eq_one]
  · obtain ⟨⟨h0, hlt⟩, hone⟩ := (modInverse?_eq_some_iff (by omega)).mp hx
    exact ⟨h0, hlt, hone⟩

theorem of_inverts_within_words_signed :
    ((-7 : Int) ≠ 0 ∨ (5 : Int) ≠ 0) ∧ of (-7) 5 = ⟨1, 2, 3⟩ ∧
      (of (-7) 5).left.natAbs ≤ max 1 (5 / 1) ∧ (of (-7) 5).right.natAbs ≤ max 1 (7 / 1) ∧
      InInt64 (-7) ∧ InInt64 5 ∧
      Reaches (-7) 5 ⟨5, 0, 1⟩ ⟨-2, 1, 1⟩ ∧
      (∀ x ∈ computed ⟨5, 0, 1⟩ ⟨-2, 1, 1⟩, InInt64 x ∧ InInt64 (-x)) ∧
      (2 : Int) ≤ 9 ∧ modInverse? (-4) 9 = some 2 ∧ (-4) * 2 ≡ 1 [ZMOD 9] := by
  obtain ⟨hof, hinverse⟩ := of_inverts_within_words
  obtain ⟨-, -, -, -, hleft, hright, hcomputed⟩ := hof (-7) 5 (by decide)
  have hseven : InInt64 (-7) := by decide
  have hfive : InInt64 5 := by decide
  have hreaches : Reaches (-7) 5 ⟨5, 0, 1⟩ ⟨-2, 1, 1⟩ := .turn .start (by decide)
  have hsome : modInverse? (-4) 9 = some 2 := by decide +kernel
  refine ⟨by decide, by decide +kernel, hleft, hright, hseven, hfive, hreaches, ?_, by decide, hsome,
    ?_⟩
  · exact (hcomputed _ _ hreaches).2 hseven (by decide) hfive (by decide)
  · exact ((hinverse (-4) 9 (by decide)).2 2 hsome).2.2

/-- The least integer of 64 bits has no quotient by minus one among them. -/
example : (2 ^ 63 : Int) ∈ computed ⟨-2 ^ 63, 1, 0⟩ ⟨-1, 0, 1⟩ := by decide

end Bezout

end EmbeddingAttack
