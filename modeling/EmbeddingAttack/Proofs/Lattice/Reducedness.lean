import EmbeddingAttack.Proofs.Lattice.CarriedReductions
import EmbeddingAttack.Proofs.Lattice.ExactUpdates

/-!
# A reduction delivers a reduced basis

In exact arithmetic the reduction keeps all rows before the one it works on reduced.  Going back
after an exchange gives up one row only, and that one takes the small coefficients of the row that
moved.  So where the reduction ends, all rows of its range are reduced, and reducing them once more
changes nothing.
-/

namespace EmbeddingAttack

variable {n m : Nat}

namespace LLL

open LatticeBasis

/-- The coefficients of row `i` along the rows before it are small. -/
def SizeReduced (p : LLL ℝ) (L : LatticeBasis ℝ n m) (i : Nat) : Prop :=
  ∀ j < i, |L.coefficient i j| ≤ p.eta

/-- The direction of row `i` is not much shorter than the one before it. -/
def LovaszAt (p : LLL ℝ) (L : LatticeBasis ℝ n m) (i : Nat) : Prop :=
  (p.delta - L.coefficient i (i - 1) ^ 2) * L.length (i - 1) ≤ L.length i

/-- The cached data are current, and the rows from `start` to before `k` are reduced. -/
structure ReducedBelow (p : LLL ℝ) (start k : Nat) (L : LatticeBasis ℝ n m) : Prop where
  current : L.IsCurrent
  small : ∀ i, start ≤ i → i < k → p.SizeReduced L i
  lovasz : ∀ i, start < i → i < k → p.LovaszAt L i

theorem ReducedBelow.mono {p : LLL ℝ} {start k k' : Nat} {L : LatticeBasis ℝ n m}
    (h : p.ReducedBelow start k L) (hk : k' ≤ k) : p.ReducedBelow start k' L where
  current := h.current
  small i hi hik := h.small i hi (by omega)
  lovasz i hi hik := h.lovasz i hi (by omega)

theorem ReducedBelow.single {p : LLL ℝ} {start : Nat} {L : LatticeBasis ℝ n m}
    (hcurrent : L.IsCurrent) (hsmall : p.SizeReduced L start) :
    p.ReducedBelow start (start + 1) L where
  current := hcurrent
  small i hi hik := by
    obtain rfl : i = start := by omega
    exact hsmall
  lovasz i hi hik := by omega

theorem ReducedBelow.succ {p : LLL ℝ} {start k : Nat} {L : LatticeBasis ℝ n m}
    (h : p.ReducedBelow start k L) (hsmall : p.SizeReduced L k) (hlovasz : p.LovaszAt L k) :
    p.ReducedBelow start (k + 1) L where
  current := h.current
  small i hi hik := by
    rcases Nat.lt_succ_iff_lt_or_eq.mp hik with hlt | rfl
    · exact h.small i hi hlt
    · exact hsmall
  lovasz i hi hik := by
    rcases Nat.lt_succ_iff_lt_or_eq.mp hik with hlt | rfl
    · exact h.lovasz i hi hlt
    · exact hlovasz

theorem lovasz_iff (p : LLL ℝ) (L : LatticeBasis ℝ n m) (k : Nat) :
    p.lovasz L k = true ↔ p.LovaszAt L k := by
  rw [LovaszAt, pow_two]
  exact decide_eq_true_iff

theorem validate_eq_ok {p : LLL ℝ} (h : p.validate = .ok ()) :
    1 / 2 ≤ p.eta ∧ p.eta ^ 2 < p.delta := by
  unfold validate at h
  obtain ⟨-, h⟩ := guard_eq_ok.mp h
  obtain ⟨heta, -⟩ := guard_eq_ok.mp h
  rw [not_not] at heta
  have hhalf : (1 : ℝ) / 2 ≤ p.eta := by
    have hleft := heta.1
    norm_num at hleft ⊢
    exact hleft
  exact ⟨hhalf, (Real.lt_sqrt (by linarith)).mp heta.2⟩

/-! ## Size reduction -/

section SizeReduction

variable {p : LLL ℝ} {k : Nat} {L : LatticeBasis ℝ n m}

theorem length_sizeReduceBelow (p : LLL ℝ) (k j i : Nat) (L : LatticeBasis ℝ n m) :
    (sizeReduceBelow p k j L).length i = L.length i := by
  induction j generalizing L with
  | zero => rfl
  | succ j ih => rw [sizeReduceBelow, ih, length_reduceAlong]

theorem coefficient_sizeReduceBelow_of_ne (p : LLL ℝ) {k i : Nat} (j l : Nat)
    (L : LatticeBasis ℝ n m) (hi : k ≠ i) :
    (sizeReduceBelow p k j L).coefficient i l = L.coefficient i l := by
  induction j generalizing L with
  | zero => rfl
  | succ j ih => rw [sizeReduceBelow, ih, coefficient_reduceAlong_of_ne p j l L hi]

theorem coefficient_sizeReduceBelow (p : LLL ℝ) {k j l : Nat} (L : LatticeBasis ℝ n m)
    (hk : k < n) (hjl : j ≤ l) (hl : l < n) :
    (sizeReduceBelow p k j L).coefficient k l = L.coefficient k l := by
  induction j generalizing L with
  | zero => rfl
  | succ j ih =>
      rw [sizeReduceBelow, ih _ (by omega)]
      by_cases hsmall : |L.coefficient k j| ≤ p.eta
      · rw [reduceAlong_of_small hsmall]
      · rw [coefficient_reduceAlong hsmall hk (by omega) hl, if_neg (by omega), if_neg (by omega)]

theorem abs_coefficient_reduceAlong (heta : 1 / 2 ≤ p.eta) {j : Nat} (hj : j < k) (hk : k < n) :
    |(reduceAlong p k j L).coefficient k j| ≤ p.eta := by
  by_cases hsmall : |L.coefficient k j| ≤ p.eta
  · rwa [reduceAlong_of_small hsmall]
  · rw [coefficient_reduceAlong hsmall hk (by omega) (by omega), if_neg (lt_irrefl _), if_pos rfl]
    exact (abs_sub_roundHalfAway _).trans heta

theorem sizeReduced_sizeReduce (heta : 1 / 2 ≤ p.eta) (hk : k < n) :
    p.SizeReduced (sizeReduce p k L) k := by
  -- Coefficients are made small from the last to the first, and those made small stay.
  have hbelow (j : Nat) (hj : j ≤ k) (L : LatticeBasis ℝ n m) :
      ∀ l < j, |(sizeReduceBelow p k j L).coefficient k l| ≤ p.eta := by
    induction j generalizing L with
    | zero => nofun
    | succ j ih =>
        intro l hl
        rw [sizeReduceBelow]
        rcases Nat.lt_succ_iff_lt_or_eq.mp hl with hlt | rfl
        · exact ih (by omega) _ l hlt
        · rw [coefficient_sizeReduceBelow p _ hk le_rfl (by omega)]
          exact abs_coefficient_reduceAlong heta hj hk
  exact hbelow k le_rfl L

theorem reducedBelow_sizeReduce {start : Nat} (hk : k < n) (h : p.ReducedBelow start k L) :
    p.ReducedBelow start k (sizeReduce p k L) where
  current := isCurrent_sizeReduce p hk h.current
  small i hi hik j hj := by
    rw [sizeReduce, coefficient_sizeReduceBelow_of_ne p k j L hik.ne']
    exact h.small i hi hik j hj
  lovasz i hi hik := by
    rw [LovaszAt, sizeReduce, coefficient_sizeReduceBelow_of_ne p k _ L hik.ne',
      length_sizeReduceBelow, length_sizeReduceBelow]
    exact h.lovasz i hi hik

end SizeReduction

/-! ## Exchange -/

theorem coefficient_exchanged_of_lt {k i j : Nat} (L : LatticeBasis ℝ n m) (hk : k < n)
    (hik : i + 1 < k) (hj : j < n) : (exchanged L k).coefficient i j = L.coefficient i j := by
  refine (coefficient_exchangeData _ _ (by omega) hk (by omega) hj).trans ?_
  dsimp only
  rw [if_neg (by omega), if_neg (by omega), if_neg (by omega), coefficient_setBasis]

theorem coefficient_exchanged_pred {k j : Nat} (L : LatticeBasis ℝ n m) (hk : k < n)
    (hj : j < k - 1) : (exchanged L k).coefficient (k - 1) j = L.coefficient k j := by
  refine (coefficient_exchangeData _ _ (by omega) hk (by omega) (by omega)).trans ?_
  dsimp only
  rw [if_neg (by omega), if_neg (by omega), if_pos rfl, if_pos hj, coefficient_setBasis]

theorem reducedBelow_exchanged {p : LLL ℝ} {start k : Nat} {L : LatticeBasis ℝ n m}
    (hstart : start < k) (hk : k < n) (h : p.ReducedBelow start k L) (hsmall : p.SizeReduced L k) :
    p.ReducedBelow start (if start + 1 < k then k - 1 else k) (exchanged L k) where
  current := isCurrent_exchanged (by omega) hk h.current
  small i hi hik j hj := by
    by_cases hpred : i = k - 1
    · -- The row that moved has the small coefficients that row `k` had.
      subst hpred
      rw [coefficient_exchanged_pred L hk hj]
      exact hsmall j (by omega)
    · have hlt : i + 1 < k := by
        split at hik <;> omega
      rw [coefficient_exchanged_of_lt L hk hlt (by omega)]
      exact h.small i hi (by omega) j hj
  lovasz i hi hik := by
    have hlt : i + 1 < k := by
      split at hik <;> omega
    rw [LovaszAt, coefficient_exchanged_of_lt L hk hlt (by omega), length_exchanged (by omega),
      length_exchanged (by omega), if_neg (by omega), if_neg (by omega), if_neg (by omega),
      if_neg (by omega)]
    exact h.lovasz i hi (by omega)

/-! ## The whole reduction -/

theorem ensures_exchange {p : LLL ℝ} {start k : Nat} (hstart : start < k) (hk : k < n) :
    Ensures (fun L : LatticeBasis ℝ n m => p.ReducedBelow start k L ∧ p.SizeReduced L k)
      (exchange k) fun _ => p.ReducedBelow start (if start + 1 < k then k - 1 else k) := by
  rintro L u L' ⟨h, hsmall⟩ hrun
  obtain ⟨-, rfl⟩ := exchange_eq_ok_iff.mp hrun
  exact reducedBelow_exchanged hstart hk h hsmall

theorem ensures_run {p : LLL ℝ} (heta : 1 / 2 ≤ p.eta) {start stop : Nat} (hstop : stop ≤ n)
    (budget : Nat) {k : Nat} (hk : start < k) (stats : Statistics) :
    Ensures (fun L : LatticeBasis ℝ n m => p.ReducedBelow start k L)
      (run p start stop budget k stats) fun _ L => p.ReducedBelow start stop L := by
  induction budget generalizing k stats with
  | zero =>
      unfold run
      split
      · exact Ensures.throw _
      · exact Ensures.pure fun L hL => hL.mono (by omega)
  | succ budget ih =>
      unfold run
      split
      · rename_i hkstop
        have hkn : k < n := by omega
        refine Ensures.bind (Q := fun _ L => p.ReducedBelow start k L ∧ p.SizeReduced L k)
          (Ensures.modify fun L hL =>
            ⟨reducedBelow_sizeReduce hkn hL, sizeReduced_sizeReduce heta hkn⟩) fun _ => ?_
        refine Ensures.get.bind fun L => ?_
        split
        · rename_i hlovasz
          refine (ih (by omega) _).mono ?_ fun _ _ hs => hs
          rintro _ ⟨rfl, hL, hsmall⟩
          exact hL.succ hsmall ((lovasz_iff p L k).mp hlovasz)
        · -- The step goes back by one row, unless it stands right after the first row of the range.
          refine ((ensures_exchange hk hkn).mono (fun _ hs => hs.2) fun _ _ hs => hs).bind
            fun _ => ?_
          refine ih ?_ _
          split <;> omega
      · exact Ensures.pure fun L hL => hL.mono (by omega)

/-- A reduction that ends has had a step for each row. -/
theorem ensures_run_steps (p : LLL ℝ) (start stop budget k : Nat) (stats : Statistics) :
    Ensures (fun _ : LatticeBasis ℝ n m => True) (run p start stop budget k stats)
      fun _ _ => stop ≤ k + budget := by
  induction budget generalizing k stats with
  | zero =>
      unfold run
      split
      · exact Ensures.throw _
      · exact Ensures.pure fun _ _ => by omega
  | succ budget ih =>
      unfold run
      split
      · refine Ensures.bind (Ensures.trivial _) fun _ => ?_
        refine Ensures.bind (Ensures.trivial _) fun L => ?_
        split
        · exact (ih _ _).mono (fun _ hs => hs) fun _ _ hs => by omega
        · refine Ensures.bind (Ensures.trivial _) fun _ => ?_
          refine (ih _ _).mono (fun _ hs => hs) fun _ _ hs => ?_
          split at hs <;> omega
      · exact Ensures.pure fun _ _ => by omega

theorem ensures_reduceRange (p : LLL ℝ) (start stop : Nat) :
    Ensures (fun _ : LatticeBasis ℝ n m => True) (p.reduceRange start stop) fun _ L =>
      p.ReducedBelow start stop L ∧ p.validate = .ok () ∧ start < stop ∧
        stop ≤ start + 1 + p.maxIterations := by
  unfold reduceRange
  refine Ensures.bind (Q := fun _ _ => True ∧ p.validate = .ok ())
    (Ensures.ofExcept fun _ _ hvalid _ => ⟨trivial, hvalid⟩) fun _ => ?_
  refine Ensures.assume fun hvalid => ?_
  obtain ⟨heta, -⟩ := validate_eq_ok hvalid
  refine Ensures.guard fun hrange => ?_
  rw [not_or, not_lt, not_le] at hrange
  obtain ⟨hstop, hstart⟩ := hrange
  refine Ensures.bind ensures_isCurrent_orthogonalize fun _ => ?_
  extract_lets rest
  have hrest (u : Unit) : Ensures (p.ReducedBelow start (start + 1)) (rest u) fun _ L =>
      p.ReducedBelow start stop L ∧ p.validate = .ok () ∧ start < stop ∧
        stop ≤ start + 1 + p.maxIterations := by
    have hrun := (ensures_run heta hstop p.maxIterations (Nat.lt_succ_self start) {}).and
      (ensures_run_steps (n := n) (m := m) p start stop p.maxIterations (start + 1) {})
    refine Ensures.bind (hrun.mono (fun _ hs => ⟨hs, trivial⟩) fun _ _ hs => hs) fun stats => ?_
    refine Ensures.bind (Q := fun _ L => p.ReducedBelow start stop L ∧
      stop ≤ start + 1 + p.maxIterations) ?_ fun _ => ?_
    · -- The data are current already.
      rintro L u L' ⟨hL, hsteps⟩ horthogonalize
      rw [hL.current] at horthogonalize
      cases horthogonalize
      exact ⟨hL, hsteps⟩
    · exact Ensures.pure fun L hL => ⟨hL.1, hvalid, hstart, hL.2⟩
  split
  · refine Ensures.bind (Ensures.modify fun L hL => ?_) hrest
    exact .single (isCurrent_sizeReduce p (by omega) hL) (sizeReduced_sizeReduce heta (by omega))
  · -- The range starts at the first row, which has no coefficients.
    refine (hrest ⟨⟩).mono (fun L hL => ?_) fun _ _ hs => hs
    exact .single hL fun j hj => by omega

/-! ## The whole basis -/

theorem isReduced_of_reducedBelow {p : LLL ℝ} {L : LatticeBasis ℝ n m}
    (hvalid : p.validate = .ok ()) (htolerance : 0 ≤ p.tolerance) (h : p.ReducedBelow 0 n L) :
    p.isReduced L = true := by
  obtain ⟨hhalf, heta⟩ := validate_eq_ok hvalid
  refine List.all_eq_true.mpr fun k hk => ?_
  obtain ⟨hk0, hkn⟩ : 0 < k ∧ k < n := by
    rw [List.mem_range'_1] at hk
    omega
  have hsmall := h.small k (Nat.zero_le k) hkn
  have hpredecessor : 0 < L.length (k - 1) := h.current.gramSchmidt.positive (k - 1) (by omega)
  have hfactor : 0 ≤ p.delta - L.coefficient k (k - 1) ^ 2 := by
    have hsquare : L.coefficient k (k - 1) ^ 2 ≤ p.eta ^ 2 :=
      sq_le_sq' (abs_le.mp (hsmall (k - 1) (by omega))).1 (abs_le.mp (hsmall (k - 1) (by omega))).2
    linarith
  unfold isReducedAt
  rw [Bool.and_eq_true, List.all_eq_true, Bool.not_eq_true', decide_eq_false_iff_not, not_lt]
  constructor
  · intro j hj
    rw [Bool.not_eq_true', decide_eq_false_iff_not, not_lt]
    exact (hsmall j (List.mem_range.mp hj)).trans (le_add_of_nonneg_right htolerance)
  · have hlovasz : p.LovaszAt L k := h.lovasz k hk0 hkn
    calc
      (p.delta - L.coefficient k (k - 1) * L.coefficient k (k - 1)) * L.length (k - 1) *
            (1 - p.tolerance) =
          (p.delta - L.coefficient k (k - 1) ^ 2) * L.length (k - 1) * (1 - p.tolerance) := by
        rw [pow_two]
      _ ≤ (p.delta - L.coefficient k (k - 1) ^ 2) * L.length (k - 1) := by
        have hproduct := mul_nonneg (mul_nonneg hfactor hpredecessor.le) htolerance
        linarith
      _ ≤ L.length k := hlovasz

/-! ## Reducing once more -/

section Again

variable {α : Type} [Scalar α] {p : LLL α} {L : LatticeBasis α n m}

theorem sizeReduce_of_small {k : Nat} (h : ∀ j < k, Scalar.abs (L.coefficient k j) ≤ p.eta) :
    sizeReduce p k L = L := by
  have hbelow (j : Nat) (hj : j ≤ k) : sizeReduceBelow p k j L = L := by
    induction j with
    | zero => rfl
    | succ j ih => rw [sizeReduceBelow, reduceAlong_of_small (h j hj), ih (by omega)]
  exact hbelow k le_rfl

variable (hsmall : ∀ k < n, ∀ j < k, Scalar.abs (L.coefficient k j) ≤ p.eta)
  (hlovasz : ∀ k, 0 < k → k < n → p.lovasz L k = true)

include hsmall hlovasz

theorem run_of_reduced (budget : Nat) {k : Nat} (hk : 0 < k) (hbudget : n ≤ k + budget)
    (stats : Statistics) :
    ∃ again, run p 0 n budget k stats L = .ok again L ∧ again.changes = stats.changes := by
  induction budget generalizing k stats with
  | zero => exact ⟨stats, run_of_le 0 hbudget stats, rfl⟩
  | succ budget ih =>
      by_cases hkn : k < n
      · have hsame : sizeReduce p k L = L := sizeReduce_of_small (hsmall k hkn)
        have hnext : p.lovasz (sizeReduce p k L) k = true := hsame.symm ▸ hlovasz k hk hkn
        rw [run_of_lovasz budget hkn hnext stats, hsame]
        exact ih (by omega) (by omega) { stats with iterations := stats.iterations + 1 }
      · exact ⟨stats, run_of_le _ (by omega) stats, rfl⟩

theorem reduce_of_reduced (hn : 0 < n) (hvalid : p.validate = .ok ())
    (hbudget : n ≤ 1 + p.maxIterations) (hcurrent : L.IsCurrent) :
    ∃ again, p.reduce L = .ok again L ∧ again.changes = 0 := by
  obtain ⟨again, hrun, hchanges⟩ :=
    run_of_reduced hsmall hlovasz p.maxIterations Nat.one_pos hbudget {}
  refine ⟨again, ?_, hchanges⟩
  rw [reduce, reduceRange_eq_run hvalid hn le_rfl hcurrent]
  exact (bind_of_ok hrun).trans (bind_of_ok hcurrent)

end Again

/-- In exact arithmetic, and as long as the integers of the rows fit in words, where the reduction
of a range of rows ends: the coefficients of its rows along all rows before them are small, and the
Lovász condition holds between its rows.  A whole basis then counts as reduced, and its next
reduction exchanges no rows and changes nothing. -/
theorem reduceRange_delivers_reduced (p : LLL ℝ) (start stop : Nat) (L L' : LatticeBasis ℝ n m)
    (stats : Statistics)
    (hfits : FitsWords realWords fun S => @reduceRange ℝ S n m p start stop L)
    (h : @reduceRange ℝ realWords n m p start stop L = .ok stats L') :
    @LatticeBasis.orthogonalize ℝ realWords n m L' = .ok () L' ∧
      (∀ k, start ≤ k → k < stop → ∀ j < k, |L'.coefficient k j| ≤ p.eta) ∧
      (∀ k, start < k → k < stop →
        (p.delta - L'.coefficient k (k - 1) ^ 2) * L'.length (k - 1) ≤ L'.length k) ∧
      (start = 0 → stop = n →
        (0 ≤ p.tolerance → @isReduced ℝ realWords n m p L' = true) ∧
          ∃ again, @reduce ℝ realWords n m p L' = .ok again L' ∧ again.changes = 0) := by
  obtain ⟨hreduced, hvalid, hstart, hbudget⟩ :=
    p.ensures_reduceRange start stop L stats L' trivial (hfits.symm.trans h)
  have hcurrent : @LatticeBasis.orthogonalize ℝ realWords n m L' = .ok () L' :=
    (orthogonalize_words L').trans hreduced.current
  refine ⟨hcurrent, hreduced.small, hreduced.lovasz, ?_⟩
  rintro rfl rfl
  refine ⟨fun htolerance => isReduced_of_reducedBelow hvalid htolerance hreduced, ?_⟩
  exact @reduce_of_reduced _ m ℝ realWords p L' (fun k => hreduced.small k (Nat.zero_le k))
    (fun k hk hkn => (lovasz_iff p L' k).mpr (hreduced.lovasz k hk hkn)) hstart hvalid (by omega)
    hcurrent

open Fraction in
theorem reduceRange_delivers_slanted :
    let L : LatticeBasis ℝ 2 2 := slantedBasis.map toReal
    let L' : LatticeBasis ℝ 2 2 := straightBasis.map toReal
    (FitsWords realWords fun S => @reduceRange ℝ S 2 2 (@standard _ realScalar) 0 2 L) ∧
      @reduceRange ℝ realWords 2 2 standard 0 2 L = .ok ⟨1, 2, 0⟩ L' ∧
      @LatticeBasis.orthogonalize ℝ realWords 2 2 L' = .ok () L' ∧
      (∀ k < 2, ∀ j < k, |L'.coefficient k j| ≤ 0.51) ∧
      (0.99 - L'.coefficient 1 0 ^ 2) * L'.length 0 ≤ L'.length 1 ∧
      @isReduced ℝ realWords 2 2 standard L' = true ∧
      ∃ again, @reduce ℝ realWords 2 2 standard L' = .ok again L' ∧ again.changes = 0 := by
  intro L L'
  obtain ⟨hcurrent, hsmall, hlovasz, hwhole⟩ :=
    reduceRange_delivers_reduced standard 0 2 L L' _ fitsWords_reduce_slanted reduce_slanted
  obtain ⟨hreduced, hagain⟩ := hwhole rfl rfl
  have htolerance : (0 : ℝ) ≤ 1e-9 := by norm_num
  exact ⟨fitsWords_reduce_slanted, reduce_slanted, hcurrent,
    fun k hk => hsmall k (Nat.zero_le k) hk, hlovasz 1 Nat.one_pos Nat.one_lt_two,
    hreduced htolerance, hagain⟩

open Fraction in
/-- The multiple of the first row that has to be taken off the second is no word: the rows that the
reduction leaves have a coefficient of two thirds. -/
theorem reduce_steep_leaves_large :
    let L : LatticeBasis ℝ 2 3 := steepBasis.map toReal
    let L' : LatticeBasis ℝ 2 3 := tiltedBasis.map toReal
    @LatticeBasis.ofMatrix ℝ realWords 2 3 steepBasis.basis = .ok L ∧
      @LLL.validate ℝ realWords standard = .ok () ∧
      @reduce ℝ realWords 2 3 standard L = .ok ⟨1, 2, 0⟩ L' ∧
      ¬ |L'.coefficient 1 0| ≤ (standard : LLL ℝ).eta := by
  intro L L'
  have hcoefficient : L'.coefficient 1 0 = ((2 / 3 : ℚ) : ℝ) := coefficient_toReal rfl
  have heta : (standard : LLL ℝ).eta = 0.51 := rfl
  refine ⟨ofMatrix_steepBasis, validate_standard_words, reduce_steep, ?_⟩
  rw [hcoefficient, heta, not_le]
  norm_num [abs_of_pos]

end LLL

end EmbeddingAttack
