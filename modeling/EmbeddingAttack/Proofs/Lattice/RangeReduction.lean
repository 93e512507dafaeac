import EmbeddingAttack.Proofs.Arithmetic.Fraction
import EmbeddingAttack.Proofs.Lattice.InsertedRow

/-!
# The rows around a reduced range

LLL on a range subtracts from its rows multiples of rows that stand before them, and exchanges
neighbours within the range.  So the rows around the range stay what they are.  As long as no entry
leaves words, the first rows keep their lattice, too, as many of them as do not end within the
range.  Both hold wherever the reduction stops, and whatever its numeric operations answer.
-/

namespace EmbeddingAttack

variable {n m : Nat}

namespace IntMatrix

/-! ## The lattice of the first rows -/

/-- All integer combinations of the first `k` rows. -/
def leadingLattice (M : IntMatrix n m) (k : Nat) : Submodule ℤ (Fin m → ℤ) :=
  Submodule.span ℤ (M.intRow '' Set.Iio k)

theorem intRow_mem_leadingLattice (M : IntMatrix n m) {i k : Nat} (hi : i < k) :
    M.intRow i ∈ M.leadingLattice k :=
  Submodule.subset_span ⟨i, hi, rfl⟩

theorem intRow_of_le (M : IntMatrix n m) {i : Nat} (hi : n ≤ i) : M.intRow i = 0 := by
  funext j
  simp [intRow, row_of_le M hi, get_eq_getElem]

theorem leadingLattice_le {M : IntMatrix n m} {k : Nat} {Λ : Submodule ℤ (Fin m → ℤ)}
    (h : ∀ i < n, i < k → M.intRow i ∈ Λ) : M.leadingLattice k ≤ Λ := by
  apply Submodule.span_le.mpr
  rintro _ ⟨i, hik, rfl⟩
  by_cases hi : i < n
  · exact h i hi hik
  · rw [M.intRow_of_le (Nat.le_of_not_lt hi)]
    exact Λ.zero_mem

theorem leadingLattice_congr {M N : IntMatrix n m} {k : Nat}
    (h : ∀ i < k, N.row i = M.row i) : N.leadingLattice k = M.leadingLattice k := by
  unfold leadingLattice
  congr 1
  refine Set.image_congr fun i hi => ?_
  unfold intRow
  rw [h i hi]

/-! ## Elementary operations -/

section SubScaledRow

variable (M : IntMatrix n m) {target source : Nat} (c : Int)

theorem row_subScaledRow_of_ne (Z : Integers) {i : Nat} (hi : target ≠ i) :
    (M.subScaledRow Z target source c).row i = M.row i := by
  unfold subScaledRow
  split
  · rfl
  · by_cases hin : i < n
    · rw [row_of_lt _ hin, rows_modifyRow _ _ _ hin, if_neg hi, row_of_lt M hin]
    · rw [row_of_le _ (Nat.le_of_not_lt hin), row_of_le _ (Nat.le_of_not_lt hin)]

theorem intRow_subScaledRow (hne : target ≠ source) (htarget : target < n) :
    (M.subScaledRow .unbounded target source c).intRow target =
      M.intRow target - c • M.intRow source := by
  unfold subScaledRow
  split
  · rename_i hc
    rw [hc.resolve_right hne, zero_smul, sub_zero]
  · dsimp only
    rw [intRow_modifyRow _ _ _ htarget, if_pos rfl]
    ext j
    simp [intRow, get_eq_getElem]

/-- A row takes part in the lattice together with each row that is subtracted from it. -/
theorem leadingLattice_subScaledRow (hne : target ≠ source) {k : Nat} (hsource : source < k) :
    (M.subScaledRow .unbounded target source c).leadingLattice k = M.leadingLattice k := by
  have hother {i : Nat} (hi : target ≠ i) :
      (M.subScaledRow .unbounded target source c).intRow i = M.intRow i := by
    unfold intRow
    rw [M.row_subScaledRow_of_ne c .unbounded hi]
  apply le_antisymm
  · refine leadingLattice_le fun i hin hik => ?_
    by_cases hi : target = i
    · subst hi
      rw [M.intRow_subScaledRow c hne hin]
      exact sub_mem (M.intRow_mem_leadingLattice hik)
        (Submodule.smul_mem _ c (M.intRow_mem_leadingLattice hsource))
    · rw [hother hi]
      exact M.intRow_mem_leadingLattice hik
  · refine leadingLattice_le fun i hin hik => ?_
    by_cases hi : target = i
    · subst hi
      have hback : M.intRow target = (M.subScaledRow .unbounded target source c).intRow target +
          c • (M.subScaledRow .unbounded target source c).intRow source := by
        rw [M.intRow_subScaledRow c hne hin, hother hne, sub_add_cancel]
      rw [hback]
      exact add_mem (intRow_mem_leadingLattice _ hik)
        (Submodule.smul_mem _ c (intRow_mem_leadingLattice _ hsource))
    · rw [← hother hi]
      exact intRow_mem_leadingLattice _ hik

end SubScaledRow

section SwapRows

variable (M : IntMatrix n m) {i j : Nat} (hi : i < n) (hj : j < n)

include hi hj

theorem row_swapRows_of_ne {l : Nat} (hli : l ≠ i) (hlj : l ≠ j) :
    (M.swapRows i j).row l = M.row l := by
  by_cases hl : l < n
  · rw [row_of_lt _ hl, rows_swapRows M hi hj hl, if_neg hli, if_neg hlj, row_of_lt M hl]
  · rw [row_of_le _ (Nat.le_of_not_lt hl), row_of_le _ (Nat.le_of_not_lt hl)]

theorem leadingLattice_swapRows {k : Nat} (hik : i < k) (hjk : j < k) :
    (M.swapRows i j).leadingLattice k = M.leadingLattice k := by
  have hrow {l : Nat} (hl : l < n) :
      (M.swapRows i j).intRow l = M.intRow (Equiv.swap i j l) := by
    rw [M.intRow_swapRows hi hj hl, Equiv.swap_apply_def]
    split_ifs <;> rfl
  have hbelow {l b : Nat} (hl : l < b) (hib : i < b) (hjb : j < b) : Equiv.swap i j l < b := by
    rw [Equiv.swap_apply_def]
    split_ifs <;> assumption
  apply le_antisymm
  · refine leadingLattice_le fun l hln hlk => ?_
    rw [hrow hln]
    exact M.intRow_mem_leadingLattice (hbelow hlk hik hjk)
  · refine leadingLattice_le fun l hln hlk => ?_
    have hback := hrow (hbelow hln hi hj)
    rw [Equiv.swap_apply_self] at hback
    rw [← hback]
    exact intRow_mem_leadingLattice _ (hbelow hlk hik hjk)

end SwapRows

/-! ## What surrounds a range -/

/-- The rows before and after the rows `start, …, stop - 1`. -/
def outerRows (start stop : Nat) (M : IntMatrix n m) :
    {i // i < start ∨ stop ≤ i} → Vector Int m :=
  fun i => M.row i

/-- The lattices of the first rows, where these do not end within the rows `start, …, stop - 1`. -/
def outerLattices (start stop : Nat) (M : IntMatrix n m) :
    {k // k ≤ start ∨ stop ≤ k} → Submodule ℤ (Fin m → ℤ) :=
  fun k => M.leadingLattice k

/-- The operations of a reduction of the rows `start, …, stop - 1` do not change the answer of
`f`. -/
structure Surrounds {τ : Type} (Z : Integers) (start stop : Nat) (f : IntMatrix n m → τ) :
    Prop where
  subScaledRow : ∀ (M : IntMatrix n m) (c : Int) {target source : Nat}, start ≤ target →
    target < stop → source < target → f (M.subScaledRow Z target source c) = f M
  swapRows : ∀ (M : IntMatrix n m) {i j : Nat}, start ≤ i ∧ i < stop → start ≤ j ∧ j < stop →
    stop ≤ n → f (M.swapRows i j) = f M

variable {start stop : Nat}

theorem surrounds_outerRows (Z : Integers) :
    Surrounds Z start stop (outerRows start stop : IntMatrix n m → _) where
  subScaledRow M c target source hstart hstop hsource := by
    funext ⟨i, hi⟩
    exact M.row_subScaledRow_of_ne c Z (show target ≠ i by omega)
  swapRows M i j hi hj hstop := by
    funext ⟨l, hl⟩
    exact M.row_swapRows_of_ne (by omega) (by omega) (show l ≠ i by omega) (show l ≠ j by omega)

/-- Up to `start` the lattices follow from the rows. -/
theorem outerLattices_eq {M N : IntMatrix n m}
    (hrows : N.outerRows start stop = M.outerRows start stop)
    (hlattices : ∀ k, stop ≤ k → N.leadingLattice k = M.leadingLattice k) :
    N.outerLattices start stop = M.outerLattices start stop := by
  funext ⟨k, hk⟩
  rcases hk with hk | hk
  · exact leadingLattice_congr fun i hi => congrFun hrows ⟨i, .inl (hi.trans_le hk)⟩
  · exact hlattices k hk

theorem surrounds_outerLattices :
    Surrounds .unbounded start stop (outerLattices start stop : IntMatrix n m → _) where
  subScaledRow M c target source hstart hstop hsource :=
    outerLattices_eq ((surrounds_outerRows _).subScaledRow M c hstart hstop hsource)
      fun k hk => M.leadingLattice_subScaledRow c (by omega) (by omega)
  swapRows M i j hi hj hstop :=
    outerLattices_eq ((surrounds_outerRows .unbounded).swapRows M hi hj hstop)
      fun k hk => M.leadingLattice_swapRows (by omega) (by omega) (by omega) (by omega)

end IntMatrix

namespace LLL

open LatticeBasis IntMatrix

variable {α : Type}

section Surrounds

variable [Scalar α] {τ : Type} {start stop : Nat} {f : IntMatrix n m → τ}
  (hf : Surrounds (Scalar.integers α) start stop f)

include hf

theorem surrounds_sizeReduceBelow (p : LLL α) {k j : Nat} (hstart : start ≤ k)
    (hstop : k < stop) (hj : j ≤ k) (L : LatticeBasis α n m) :
    f (sizeReduceBelow p k j L).basis = f L.basis := by
  induction j generalizing L with
  | zero => rfl
  | succ j ih =>
      rw [sizeReduceBelow, ih (by omega)]
      by_cases hsmall : Scalar.abs (L.coefficient k j) ≤ p.eta
      · rw [reduceAlong_of_small hsmall]
      · rw [basis_reduceAlong hsmall]
        exact hf.subScaledRow L.basis _ hstart hstop hj

theorem surrounds_exchange {k : Nat} (hstart : start < k) (hstop : k < stop) (hn : stop ≤ n) :
    Conserves (fun L => f L.basis) (exchange k : Reduction α n m Unit) := by
  unfold exchange
  refine Conserves.bind (Conserves.modify fun L => ?_) fun _ => ?_
  · exact hf.swapRows L.basis (by omega) (by omega) hn
  · refine Conserves.get.bind fun L => ?_
    exact Conserves.guard fun _ => Conserves.modify fun L => rfl

/-- The row at hand is never the first of the range, so that an exchange stays within it. -/
theorem surrounds_run (p : LLL α) (hn : stop ≤ n) (budget : Nat) {k : Nat} (hstart : start < k)
    (stats : Statistics) :
    Conserves (fun L => f L.basis)
      (run p start stop budget k stats : Reduction α n m Statistics) := by
  induction budget generalizing k stats with
  | zero =>
      unfold run
      split
      · exact Conserves.throw _
      · exact Conserves.pure _
  | succ budget ih =>
      unfold run
      split
      · rename_i hstop
        refine Conserves.bind (Conserves.modify ?_) fun _ => ?_
        · exact surrounds_sizeReduceBelow hf p hstart.le hstop le_rfl
        · refine Conserves.get.bind fun L => ?_
          split
          · exact ih (by omega) _
          · refine (surrounds_exchange hf hstart hstop hn).bind fun _ => ih ?_ _
            split <;> omega
      · exact Conserves.pure _

theorem surrounds_reduceRange (p : LLL α) :
    Conserves (fun L => f L.basis) (reduceRange p start stop : Reduction α n m Statistics) := by
  have horthogonalize : Conserves (fun L => f L.basis) (orthogonalize : Reduction α n m Unit) :=
    conserves_basis_orthogonalize.comp f
  unfold reduceRange
  refine (Conserves.ofExcept _).bind fun _ => ?_
  refine Conserves.guard fun hrange => ?_
  refine horthogonalize.bind fun _ => ?_
  extract_lets rest
  have hrest (u : Unit) : Conserves (fun L => f L.basis) (rest u) :=
    (surrounds_run hf p (by omega) _ (Nat.lt_succ_self start) _).bind fun stats =>
      horthogonalize.bind fun _ => Conserves.pure stats
  split
  · refine Conserves.bind (Conserves.modify ?_) hrest
    exact surrounds_sizeReduceBelow hf p le_rfl (by omega) le_rfl
  · exact hrest ⟨⟩

end Surrounds

/-- Four rows, with data that have never been computed. -/
def stackedBasis : LatticeBasis Fraction 4 4 where
  basis := ⟨#v[#v[1, 0, 0, 0], #v[0, 5, 0, 0], #v[3, 1, 1, 0], #v[7, 7, 7, 1]]⟩
  mu := Vector.replicate 4 (Vector.replicate 4 0)
  r := Vector.replicate 4 0

/-- The parameters in general use, for one step. -/
def oneStep : LLL Fraction :=
  { LLL.standard with maxIterations := 1 }

/-- What this step leaves of the four rows. -/
def stoppedStack : LatticeBasis Fraction 4 4 where
  basis := ⟨#v[#v[1, 0, 0, 0], #v[0, 1, 1, 0], #v[0, 5, 0, 0], #v[7, 7, 7, 1]]⟩
  mu := #v[#v[1, 0, 0, 0], #v[0, 1, 0, 0], #v[0, (5 / 2 : ℚ), 1, 0], #v[(7 : ℚ), (7 : ℚ), 0, 1]]
  r := #v[1, (2 : ℚ), (25 / 2 : ℚ), 1]

/-- Two rows whose entries are close to the greatest words. -/
def extremeBasis : LatticeBasis Fraction 2 2 where
  basis := ⟨#v[#v[-2 ^ 61, 2 ^ 63 - 1], #v[2 ^ 63 - 1, 2 ^ 63 - 1]]⟩
  mu := Vector.replicate 2 (Vector.replicate 2 0)
  r := Vector.replicate 2 0

end LLL

end EmbeddingAttack
