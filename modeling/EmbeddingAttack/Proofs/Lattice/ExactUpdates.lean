import EmbeddingAttack.Proofs.Lattice.CarriedReductions
import EmbeddingAttack.Proofs.Lattice.GramDeterminant
import EmbeddingAttack.Proofs.Lattice.ReductionSteps
import Mathlib.Logic.Equiv.Basic

/-!
# The steps of a reduction over the reals

A size reduction changes a row along the directions of the rows before it, and the directions stay.
An exchange turns the two directions of its rows.  In exact arithmetic the cached data follow both,
so that recomputing them changes nothing, and the new length after an exchange is never zero.
-/

namespace EmbeddingAttack

variable {n m : Nat}

open Finset

namespace IntMatrix

theorem realRow_subScaledRow (M : IntMatrix n m) {target source i : Nat} (c : Int)
    (hne : target ≠ source) (hi : i < n) :
    (M.subScaledRow .unbounded target source c).realRow i =
      if target = i then M.realRow target - (c : ℝ) • M.realRow source else M.realRow i := by
  unfold subScaledRow
  split
  · rename_i hc
    have hzero : c = 0 := hc.resolve_right hne
    split
    · rename_i hti
      rw [hzero, Int.cast_zero, zero_smul, sub_zero, hti]
    · rfl
  · funext j
    unfold realRow
    rw [row_of_lt _ hi, rows_modifyRow _ _ _ hi]
    split
    · rename_i hti
      subst hti
      simp [get_eq_getElem, row_of_lt M hi]
    · rw [row_of_lt M hi]

theorem realRow_swapRows (M : IntMatrix n m) {i j k : Nat} (hi : i < n) (hj : j < n) (hk : k < n) :
    (M.swapRows i j).realRow k = M.realRow (Equiv.swap i j k) := by
  have hrow : (M.swapRows i j).row k = M.row (Equiv.swap i j k) := by
    rw [row_of_lt _ hk, rows_swapRows M hi hj hk, Equiv.swap_apply_def]
    split_ifs
    · rw [row_of_lt M hj]
    · rw [row_of_lt M hi]
    · rw [row_of_lt M hk]
  funext l
  unfold realRow
  rw [hrow]

end IntMatrix

namespace LLL

open LatticeBasis IntMatrix

/-! ## Size reduction -/

theorem lower_reduceAlong {p : LLL ℝ} {k j l : Nat} {L : LatticeBasis ℝ n m}
    (h : ¬ |L.coefficient k j| ≤ p.eta) (hj : j < k) (hk : k < n) (hl : l < n)
    (hdiagonal : L.coefficient j j = 1) :
    (reduceAlong p k j L).lower k l =
      L.lower k l - roundHalfAway (L.coefficient k j) * L.lower j l := by
  have hentry := coefficient_reduceAlong h hk (show j < n by omega) hl
  by_cases hkl : k < l
  · rw [lower_of_lt _ hkl, lower_of_lt _ hkl, lower_of_lt _ (by omega), mul_zero, sub_zero]
  · rw [lower_of_le _ (by omega), lower_of_le _ (by omega), hentry]
    rcases Nat.lt_trichotomy l j with hlt | rfl | hgt
    · rw [if_pos hlt, lower_of_le _ hlt.le]
      rfl
    · rw [if_neg (lt_irrefl _), if_pos rfl, lower_of_le _ le_rfl, hdiagonal, mul_one]
      rfl
    · rw [if_neg (by omega), if_neg (by omega), lower_of_lt _ hgt, mul_zero, sub_zero]

theorem gramSchmidt_reduceAlong (p : LLL ℝ) {k j : Nat} (hj : j < k) (hk : k < n)
    {L : LatticeBasis ℝ n m} {v : Nat → Fin m → ℝ} (h : L.GramSchmidt v) :
    (reduceAlong p k j L).GramSchmidt v := by
  by_cases hsmall : |L.coefficient k j| ≤ p.eta
  · rwa [reduceAlong_of_small hsmall]
  have hjn : j < n := by omega
  have hbasis := basis_reduceAlong hsmall
  have hround : Scalar.toWord (Scalar.round (L.coefficient k j)) =
      roundHalfAway (L.coefficient k j) := toWord_intCast _
  rw [hround, integers_eq] at hbasis
  exact {
    row := by
      intro i hi
      rw [hbasis, realRow_subScaledRow _ _ hj.ne' hi]
      split
      · rename_i hki
        subst hki
        rw [h.row k hk, h.row j hjn, smul_sum, ← sum_sub_distrib]
        refine sum_congr rfl fun l hl => ?_
        rw [lower_reduceAlong hsmall hj hk (mem_range.mp hl) (h.diagonal j hjn), sub_smul,
          mul_smul]
      · rename_i hki
        rw [h.row i hi]
        refine sum_congr rfl fun l _ => ?_
        unfold lower
        rw [coefficient_reduceAlong_of_ne p j l L hki]
    orthogonal := h.orthogonal
    square := fun i hi => (h.square i hi).trans (length_reduceAlong p k j i L).symm
    positive := fun i hi => (h.positive i hi).trans_eq (length_reduceAlong p k j i L).symm
    diagonal := by
      intro i hi
      by_cases hki : k = i
      · subst hki
        rw [coefficient_reduceAlong hsmall hk hjn hk, if_neg (by omega), if_neg (by omega),
          h.diagonal k hk]
      · rw [coefficient_reduceAlong_of_ne p j i L hki, h.diagonal i hi] }

theorem gramSchmidt_sizeReduceBelow (p : LLL ℝ) {k j : Nat} (hj : j ≤ k) (hk : k < n)
    {L : LatticeBasis ℝ n m} {v : Nat → Fin m → ℝ} (h : L.GramSchmidt v) :
    (sizeReduceBelow p k j L).GramSchmidt v := by
  induction j generalizing L with
  | zero => exact h
  | succ j ih => exact ih (by omega) (gramSchmidt_reduceAlong p hj hk h)

theorem isCurrent_sizeReduce (p : LLL ℝ) {k : Nat} (hk : k < n) {L : LatticeBasis ℝ n m}
    (h : L.IsCurrent) : (sizeReduce p k L).IsCurrent :=
  (gramSchmidt_sizeReduceBelow p le_rfl hk h.gramSchmidt).isCurrent

/-! ## Exchange -/

/-- The directions after the exchange of row `k` with its predecessor. -/
noncomputable def exchangedDirection (L : LatticeBasis ℝ n m) (k : Nat) (v : Nat → Fin m → ℝ)
    (i : Nat) : Fin m → ℝ :=
  let c := L.coefficient k (k - 1)
  let first := v k + c • v (k - 1)
  if i = k - 1 then first
  else if i = k then v (k - 1) - (c * L.length (k - 1) / exchangedSquare L k) • first
  else v i

/-- The coefficients along the new directions: the row that stands at `i` brings its old ones, and
those along the two directions that turn are expressed anew. -/
theorem lower_exchanged {L : LatticeBasis ℝ n m} {k i j : Nat} (hpos : 0 < k) (hk : k < n)
    (hi : i < n) (hj : j < n) (hdiagonal : ∀ i < n, L.coefficient i i = 1) :
    (exchanged L k).lower i j =
      let c := L.coefficient k (k - 1)
      let c' := c * L.length (k - 1) / exchangedSquare L k
      let x := L.lower (Equiv.swap (k - 1) k i)
      if j = k - 1 then x k + c' * (x (k - 1) - c * x k)
      else if j = k then x (k - 1) - c * x k
      else x j := by
  have hentry := coefficient_exchangeData (L.setBasis (·.swapRows (k - 1) k)) (exchangedSquare L k)
    hpos hk hi hj
  simp only [coefficient_setBasis, length_setBasis] at hentry
  have hlower : (exchanged L k).lower i j = if j ≤ i then
      (exchangeData k (exchangedSquare L k) (L.setBasis (·.swapRows (k - 1) k))).coefficient i j
      else 0 := rfl
  have hk1 := hdiagonal k hk
  have hk2 := hdiagonal (k - 1) (by omega)
  rw [hlower, hentry]
  dsimp only
  rcases Nat.lt_trichotomy i k with hlt | rfl | hgt
  · by_cases hik : i = k - 1
    · subst hik
      rw [Equiv.swap_apply_left]
      unfold lower
      grind
    · rw [Equiv.swap_apply_of_ne_of_ne hik hlt.ne]
      unfold lower
      grind
  · rw [Equiv.swap_apply_right]
    unfold lower
    grind
  · rw [Equiv.swap_apply_of_ne_of_ne (by omega) hgt.ne']
    unfold lower
    grind

section Exchange

variable {k : Nat} {L : LatticeBasis ℝ n m} {v : Nat → Fin m → ℝ}

theorem exchangedSquare_pos (hk : k < n) (h : L.GramSchmidt v) : 0 < exchangedSquare L k :=
  add_pos_of_pos_of_nonneg (h.positive k hk)
    (mul_nonneg (mul_self_nonneg _) (h.positive (k - 1) (by omega)).le)

/-- A combination of directions does not change when two of them turn and the coefficients
follow. -/
theorem sum_turned {a : Nat} (hak : a ≠ k) (ha : a < n) (hk : k < n) (x : Nat → ℝ)
    (v : Nat → Fin m → ℝ) (c c' : ℝ) :
    ∑ l ∈ range n,
      (if l = a then x k + c' * (x a - c * x k) else if l = k then x a - c * x k else x l) •
        (if l = a then v k + c • v a else if l = k then v a - c' • (v k + c • v a) else v l) =
      ∑ l ∈ range n, x l • v l := by
  let first := v k + c • v a
  let atFirst := (x k + c' * (x a - c * x k)) • first - x a • v a
  let atSecond := (x a - c * x k) • (v a - c' • first) - x k • v k
  -- Only the summands at `a` and `k` change, and their changes cancel.
  have hsplit (l : Nat) :
      (if l = a then x k + c' * (x a - c * x k) else if l = k then x a - c * x k else x l) •
        (if l = a then v k + c • v a else if l = k then v a - c' • (v k + c • v a) else v l) =
      x l • v l + ((if l = a then atFirst else 0) + if l = k then atSecond else 0) := by
    by_cases hla : l = a
    · subst hla
      simp only [if_pos, if_neg hak, atFirst, first]
      module
    · by_cases hlk : l = k
      · subst hlk
        simp only [if_neg hla, if_pos, atSecond, first]
        module
      · simp only [if_neg hla, if_neg hlk, add_zero]
  have hbalance : atFirst + atSecond = 0 := by
    simp only [atFirst, atSecond, first]
    module
  rw [sum_congr rfl fun l _ => hsplit l, sum_add_distrib, sum_add_distrib, sum_ite_eq', sum_ite_eq',
    if_pos (mem_range.mpr ha), if_pos (mem_range.mpr hk), hbalance, add_zero]

/-- Two orthogonal directions `x` and `y` turn: `y` with its part along `x` comes first, and what
`x` has left beside it comes second. -/
theorem dot_turned {x y : Fin m → ℝ} (hxy : x ⬝ᵥ y = 0) (c square : ℝ)
    (hsquare : square = y ⬝ᵥ y + c * c * (x ⬝ᵥ x)) (hne : square ≠ 0) :
    let first := y + c • x
    let second := x - (c * (x ⬝ᵥ x) / square) • first
    first ⬝ᵥ first = square ∧ first ⬝ᵥ second = 0 ∧
      second ⬝ᵥ second = (x ⬝ᵥ x) * (y ⬝ᵥ y) / square := by
  intro first second
  have hfirst_x : first ⬝ᵥ x = c * (x ⬝ᵥ x) := by
    rw [add_dotProduct, smul_dotProduct, dotProduct_comm, hxy, zero_add, smul_eq_mul]
  have hfirst : first ⬝ᵥ first = square := by
    calc
      first ⬝ᵥ first = first ⬝ᵥ y + c * (first ⬝ᵥ x) := by
        rw [← smul_eq_mul, ← dotProduct_smul, ← dotProduct_add]
      _ = y ⬝ᵥ y + c * (c * (x ⬝ᵥ x)) := by
        rw [hfirst_x, add_dotProduct, smul_dotProduct, hxy, smul_zero, add_zero]
      _ = square := by rw [hsquare, mul_assoc]
  have hfirst_second : first ⬝ᵥ second = 0 := by
    rw [dotProduct_sub, dotProduct_smul, hfirst_x, hfirst, smul_eq_mul, div_mul_cancel₀ _ hne,
      sub_self]
  have hsecond : second ⬝ᵥ second = x ⬝ᵥ x - c * (x ⬝ᵥ x) / square * (c * (x ⬝ᵥ x)) := by
    calc
      second ⬝ᵥ second = x ⬝ᵥ second - c * (x ⬝ᵥ x) / square * (first ⬝ᵥ second) := by
        rw [← smul_eq_mul, ← smul_dotProduct, ← sub_dotProduct]
      _ = x ⬝ᵥ x - c * (x ⬝ᵥ x) / square * (c * (x ⬝ᵥ x)) := by
        rw [hfirst_second, mul_zero, sub_zero, dotProduct_sub, dotProduct_smul,
          dotProduct_comm x first, hfirst_x, smul_eq_mul]
  refine ⟨hfirst, hfirst_second, ?_⟩
  rw [hsecond, eq_div_iff hne, sub_mul, mul_right_comm, div_mul_cancel₀ _ hne, hsquare]
  ring

theorem dot_turned_other {x y z : Fin m → ℝ} (hx : x ⬝ᵥ z = 0) (hy : y ⬝ᵥ z = 0) (c c' : ℝ) :
    (y + c • x) ⬝ᵥ z = 0 ∧ (x - c' • (y + c • x)) ⬝ᵥ z = 0 := by
  have hfirst : (y + c • x) ⬝ᵥ z = 0 := by
    rw [add_dotProduct, smul_dotProduct, hx, hy, smul_zero, add_zero]
  refine ⟨hfirst, ?_⟩
  rw [sub_dotProduct, smul_dotProduct, hfirst, hx, smul_zero, sub_zero]

theorem exchangedDirection_products (hpos : 0 < k) (hk : k < n) (h : L.GramSchmidt v) :
    let w := exchangedDirection L k v
    w (k - 1) ⬝ᵥ w (k - 1) = exchangedSquare L k ∧ w (k - 1) ⬝ᵥ w k = 0 ∧
      w k ⬝ᵥ w k = L.length (k - 1) * L.length k / exchangedSquare L k := by
  have hk' : k - 1 < n := by omega
  have hne : k - 1 ≠ k := by omega
  have hsquare : exchangedSquare L k = v k ⬝ᵥ v k +
      L.coefficient k (k - 1) * L.coefficient k (k - 1) * (v (k - 1) ⬝ᵥ v (k - 1)) := by
    rw [h.square k hk, h.square (k - 1) hk', exchangedSquare]
  have hturned := dot_turned (h.orthogonal (k - 1) hk' k hk hne) _ _ hsquare
    (exchangedSquare_pos hk h).ne'
  rw [h.square k hk, h.square (k - 1) hk'] at hturned
  simp only [exchangedDirection, if_pos, if_neg hne.symm]
  exact hturned

theorem exchangedDirection_other (hpos : 0 < k) (hk : k < n) (h : L.GramSchmidt v) {i j : Nat}
    (hi : i = k - 1 ∨ i = k) (hj : j < n) (hj1 : j ≠ k - 1) (hj2 : j ≠ k) :
    exchangedDirection L k v i ⬝ᵥ exchangedDirection L k v j = 0 := by
  have hk' : k - 1 < n := by omega
  obtain ⟨hfirst, hsecond⟩ := dot_turned_other (h.orthogonal (k - 1) hk' j hj hj1.symm)
    (h.orthogonal k hk j hj hj2.symm) (L.coefficient k (k - 1))
    (L.coefficient k (k - 1) * L.length (k - 1) / exchangedSquare L k)
  simp only [exchangedDirection, if_neg hj1, if_neg hj2]
  rcases hi with rfl | rfl
  · rw [if_pos rfl]
    exact hfirst
  · rw [if_neg (by omega), if_pos rfl]
    exact hsecond

theorem orthogonal_exchangedDirection (hpos : 0 < k) (hk : k < n) (h : L.GramSchmidt v) {i j : Nat}
    (hi : i < n) (hj : j < n) (hij : i ≠ j) :
    exchangedDirection L k v i ⬝ᵥ exchangedDirection L k v j = 0 := by
  obtain ⟨-, hturned, -⟩ := exchangedDirection_products hpos hk h
  by_cases hi' : i = k - 1 ∨ i = k
  · by_cases hj' : j = k - 1 ∨ j = k
    · rcases hi' with rfl | rfl <;> rcases hj' with rfl | rfl
      · exact absurd rfl hij
      · exact hturned
      · rw [dotProduct_comm, hturned]
      · exact absurd rfl hij
    · rw [not_or] at hj'
      exact exchangedDirection_other hpos hk h hi' hj hj'.1 hj'.2
  · rw [not_or] at hi'
    by_cases hj' : j = k - 1 ∨ j = k
    · rw [dotProduct_comm]
      exact exchangedDirection_other hpos hk h hj' hi hi'.1 hi'.2
    · rw [not_or] at hj'
      simp only [exchangedDirection, if_neg hi'.1, if_neg hi'.2, if_neg hj'.1, if_neg hj'.2]
      exact h.orthogonal i hi j hj hij

theorem length_exchanged {i : Nat} (hi : i < n) : (exchanged L k).length i =
    if i = k - 1 then exchangedSquare L k
    else if i = k then L.length (k - 1) * L.length k / exchangedSquare L k
    else L.length i :=
  length_exchangeData _ _ hi

theorem realRow_exchanged {i : Nat} (hk : k < n) (hi : i < n) :
    (exchanged L k).basis.realRow i = L.basis.realRow (Equiv.swap (k - 1) k i) :=
  realRow_swapRows L.basis (by omega) hk hi

theorem gramSchmidt_exchanged (hpos : 0 < k) (hk : k < n) (h : L.GramSchmidt v) :
    (exchanged L k).GramSchmidt (exchangedDirection L k v) := by
  have hk' : k - 1 < n := by omega
  have hne : k - 1 ≠ k := by omega
  have hsquare := exchangedSquare_pos hk h
  exact {
    row := by
      intro i hi
      have hswap : Equiv.swap (k - 1) k i < n := by
        rw [Equiv.swap_apply_def]
        split_ifs <;> assumption
      rw [realRow_exchanged hk hi, h.row _ hswap,
        ← sum_turned hne hk' hk (L.lower (Equiv.swap (k - 1) k i)) v (L.coefficient k (k - 1))
        (L.coefficient k (k - 1) * L.length (k - 1) / exchangedSquare L k)]
      refine sum_congr rfl fun l hl => ?_
      rw [lower_exchanged hpos hk hi (mem_range.mp hl) h.diagonal]
      rfl
    orthogonal := fun i hi j hj hij => orthogonal_exchangedDirection hpos hk h hi hj hij
    square := by
      intro i hi
      obtain ⟨hfirst, -, hsecond⟩ := exchangedDirection_products hpos hk h
      rw [length_exchanged hi]
      split_ifs with hi1 hi2
      · rw [hi1, hfirst]
      · rw [hi2, hsecond]
      · simp only [exchangedDirection, if_neg hi1, if_neg hi2]
        exact h.square i hi
    positive := by
      intro i hi
      rw [length_exchanged hi]
      split_ifs
      · exact hsquare
      · exact div_pos (mul_pos (h.positive (k - 1) hk') (h.positive k hk)) hsquare
      · exact h.positive i hi
    diagonal := by
      intro i hi
      have hentry := coefficient_exchangeData (L.setBasis (·.swapRows (k - 1) k))
        (exchangedSquare L k) hpos hk hi hi
      simp only [coefficient_setBasis] at hentry
      refine Eq.trans hentry ?_
      have hdiagonal := h.diagonal i hi
      grind }

theorem isCurrent_exchanged (hpos : 0 < k) (hk : k < n) (h : L.IsCurrent) :
    (exchanged L k).IsCurrent :=
  (gramSchmidt_exchanged hpos hk h.gramSchmidt).isCurrent

end Exchange

/-! ## Any number of steps -/

/-- A step of a reduction of `n` rows. -/
inductive Update (n : Nat) where
  | sizeReduce (k : Fin n)
  | exchange (k : Fin n) (pos : 0 < k.val)

namespace Update

variable {α β : Type} [Scalar α]

def perform (p : LLL α) : Update n → Reduction α n m Unit
  | .sizeReduce k => modify (p.sizeReduce k)
  | .exchange k _ => LLL.exchange k

def performAll (p : LLL α) : List (Update n) → Reduction α n m Unit
  | [] => pure ()
  | update :: rest => do
    update.perform p
    performAll p rest

theorem carries_performAll [Scalar β] (f : α → β) [ScalarHom f] (p : LLL α)
    (updates : List (Update n)) :
    Carries (LatticeBasis.map f) id (performAll p updates : Reduction α n m Unit)
      (performAll (p.map f) updates : Reduction β n m Unit) := by
  have hperform (update : Update n) :
      Carries (LatticeBasis.map f) id (update.perform p : Reduction α n m Unit)
        (update.perform (p.map f) : Reduction β n m Unit) := by
    cases update with
    | sizeReduce k => exact Carries.modify fun L => (map_sizeReduceBelow f p k k L).symm
    | exchange k pos => exact carries_exchange f k
  induction updates with
  | nil => exact Carries.pure _
  | cons update rest ih => exact (hperform update).bind fun _ => ih

theorem exists_perform (p : LLL ℝ) (update : Update n) {L : LatticeBasis ℝ n m}
    (h : L.IsCurrent) : ∃ L', update.perform p L = .ok () L' ∧ L'.IsCurrent := by
  cases update with
  | sizeReduce k => exact ⟨_, rfl, isCurrent_sizeReduce p k.isLt h⟩
  | exchange k pos =>
      exact ⟨_, exchange_eq_ok_iff.mpr ⟨exchangedSquare_pos k.isLt h.gramSchmidt, rfl⟩,
        isCurrent_exchanged pos k.isLt h⟩

theorem exists_performAll (p : LLL ℝ) (updates : List (Update n)) {L : LatticeBasis ℝ n m}
    (h : L.IsCurrent) : ∃ L', performAll p updates L = .ok () L' ∧ L'.IsCurrent := by
  induction updates generalizing L with
  | nil => exact ⟨L, rfl, h⟩
  | cons update rest ih =>
      obtain ⟨M, hM, hcurrent⟩ := exists_perform p update h
      obtain ⟨L', hL', hcurrent'⟩ := ih hcurrent
      exact ⟨L', (bind_of_ok hM).trans hL', hcurrent'⟩

/-- In exact arithmetic, and as long as the integers of the rows fit in words, every sequence of
size reductions and exchanges succeeds on independent rows, and the data that it leaves are those
that an orthogonalisation computes from the changed rows. -/
theorem performAll_agrees_with_orthogonalize (p : LLL ℝ) (L : LatticeBasis ℝ n m)
    (updates : List (Update n)) (hrows : LinearIndependent ℤ L.basis.vector)
    (hdata : finalState (@LatticeBasis.orthogonalize ℝ realWords n m L) = L)
    (hfits : FitsWords realWords fun S => @performAll n m ℝ S p updates L) :
    ∃ L', @performAll n m ℝ realWords p updates L = .ok () L' ∧
      @LatticeBasis.orthogonalize ℝ realWords n m L' = .ok () L' := by
  simp only [orthogonalize_words] at hdata ⊢
  obtain ⟨M, hM⟩ := exists_orthogonalize_of_independent hrows
  have hcurrent : L.IsCurrent := by
    rw [hM] at hdata
    exact hM.trans (congrArg _ hdata)
  obtain ⟨L', hL', hcurrent'⟩ := exists_performAll p updates hcurrent
  exact ⟨L', hfits.trans hL', hcurrent'⟩

open Fraction

theorem linearIndependent_slanted : LinearIndependent ℤ slantedBasis.basis.vector :=
  IsCurrent.linearIndependent (L := slantedBasis.map toReal)
    ((orthogonalize_words _).symm.trans orthogonalize_slanted)

theorem linearIndependent_steep : LinearIndependent ℤ steepBasis.basis.vector :=
  IsCurrent.linearIndependent (L := steepBasis.map toReal)
    ((orthogonalize_words _).symm.trans orthogonalize_steep)

theorem linearIndependent_leaning : LinearIndependent ℤ leaningBasis.basis.vector :=
  IsCurrent.linearIndependent (L := leaningBasis.map toReal)
    ((orthogonalize_words _).symm.trans orthogonalize_leaning)

theorem performAll_agrees_slanted :
    let L : LatticeBasis ℝ 2 2 := slantedBasis.map toReal
    let updates : List (Update 2) := [.sizeReduce 1, .exchange 1 Nat.one_pos]
    LinearIndependent ℤ L.basis.vector ∧
      finalState (@LatticeBasis.orthogonalize ℝ realWords 2 2 L) = L ∧
      (FitsWords realWords fun S => @performAll 2 2 ℝ S (@standard _ realScalar) updates L) ∧
      ∃ L', @performAll 2 2 ℝ realWords standard updates L = .ok () L' ∧
        @LatticeBasis.orthogonalize ℝ realWords 2 2 L' = .ok () L' := by
  intro L updates
  have hdata : finalState (@LatticeBasis.orthogonalize ℝ realWords 2 2 L) = L :=
    congrArg finalState orthogonalize_slanted
  have hwords := @carries_performAll 2 2 Fraction ℝ scalar realWords toReal _ standard updates
    slantedBasis () exchangedBasis (by decide +kernel)
  have hexact := @carries_performAll 2 2 Fraction ℝ scalar.unbounded realScalar toReal _
    (@standard _ scalar) updates slantedBasis () exchangedBasis (by decide +kernel)
  have hstandard : LLL.map toReal (@standard _ scalar) = standard := Fraction.map_standard
  rw [hstandard] at hwords hexact
  have hfits' := hwords.trans hexact.symm
  exact ⟨linearIndependent_slanted, hdata, hfits',
    performAll_agrees_with_orthogonalize _ L updates linearIndependent_slanted hdata hfits'⟩

/-- A size reduction whose multiple is no word leaves a coefficient of zero, and the rows have one
of one. -/
theorem sizeReduce_steep_disagrees :
    let L : LatticeBasis ℝ 2 3 := steepBasis.map toReal
    LinearIndependent ℤ L.basis.vector ∧
      finalState (@LatticeBasis.orthogonalize ℝ realWords 2 3 L) = L ∧
      ∃ L', @performAll 2 3 ℝ realWords standard [.sizeReduce 1] L = .ok () L' ∧
        @LatticeBasis.orthogonalize ℝ realWords 2 3 L' ≠ .ok () L' := by
  intro L
  have hstandard : LLL.map toReal (@standard _ scalar) = standard := Fraction.map_standard
  have hperform := @carries_performAll 2 3 Fraction ℝ scalar realWords toReal _ standard
    [.sizeReduce 1] steepBasis () (shearedBasis 0) (by decide +kernel)
  rw [hstandard] at hperform
  refine ⟨linearIndependent_steep, congrArg finalState orthogonalize_steep, _, hperform, ?_⟩
  have hrecomputed : @LatticeBasis.orthogonalize ℝ realWords 2 3 ((shearedBasis 0).map toReal) =
      .ok () ((shearedBasis 1).map toReal) :=
    orthogonalize_toReal (by decide +kernel)
  intro hsame
  have hdata := EStateM.Result.ok.inj (hrecomputed.symm.trans hsame)
  have hcoefficient (c : ℚ) : ((shearedBasis c).map toReal).coefficient 1 0 = (c : ℝ) :=
    coefficient_toReal rfl
  have hone : ((1 : ℚ) : ℝ) = (0 : ℚ) := by
    rw [← hcoefficient 1, ← hcoefficient 0]
    exact congrArg (coefficient · 1 0) hdata.2
  norm_num at hone

end Update

end LLL

end EmbeddingAttack
