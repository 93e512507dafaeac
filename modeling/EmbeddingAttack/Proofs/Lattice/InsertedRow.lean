import EmbeddingAttack.Proofs.Lattice.GramDeterminant

/-!
# The row that an insertion makes

A combination is gathered in one row, pair by pair, each time divided by the common divisor of the
two coefficients.  The divisors taken off make up the weight of the row reached: times its weight it
is the combination, and up to its sign the weight is the greatest common divisor of all
coefficients.  So the row inserted is the combination divided by it.
-/

namespace EmbeddingAttack

variable {n m : Nat}

open Finset

namespace IntMatrix

/-- The combination of the rows from `start` on with the given coefficients. -/
def combination (M : IntMatrix n m) (start : Nat) (c : List Int) : Fin m → ℤ :=
  ∑ i ∈ range c.length, c.getD i 0 • M.intRow (start + i)

theorem combination_cons (M : IntMatrix n m) (start : Nat) (x : Int) (c : List Int) :
    M.combination start (x :: c) = x • M.intRow start + M.combination (start + 1) c := by
  unfold combination
  rw [List.length_cons, sum_range_succ', add_comm]
  congr 1
  apply sum_congr rfl
  intro i _
  rw [List.getD_cons_succ, show start + (i + 1) = start + 1 + i by omega]

/-! ## Rows after an elementary operation -/

theorem intRow_modifyRow (M : IntMatrix n m) (i : Nat) (f : Vector Int m → Vector Int m) {k : Nat}
    (hk : k < n) :
    (M.modifyRow i f).intRow k = if i = k then (f (M.row k)).get else M.intRow k := by
  funext j
  unfold intRow
  rw [row_of_lt _ hk, rows_modifyRow _ _ _ hk, row_of_lt M hk]
  split <;> rfl

section CombineRows

variable (M : IntMatrix n m) {i j k : Nat} (a b c d : Int)

theorem intRow_combineRows_left (hi : i < n) (hij : i ≠ j) :
    (M.combineRows .unbounded i j a b c d).intRow i = a • M.intRow i + b • M.intRow j := by
  unfold combineRows
  rw [intRow_modifyRow _ _ _ hi, if_neg hij.symm, intRow_modifyRow _ _ _ hi, if_pos rfl]
  ext l
  simp [intRow, get_eq_getElem]

theorem intRow_combineRows_of_ne (hk : k < n) (hik : i ≠ k) (hjk : j ≠ k) :
    (M.combineRows .unbounded i j a b c d).intRow k = M.intRow k := by
  unfold combineRows
  rw [intRow_modifyRow _ _ _ hk, if_neg hjk, intRow_modifyRow _ _ _ hk, if_neg hik]

end CombineRows

theorem intRow_negateRow (M : IntMatrix n m) (i : Nat) {k : Nat} (hk : k < n) :
    (M.negateRow .unbounded i).intRow k = if i = k then -M.intRow k else M.intRow k := by
  unfold negateRow
  rw [intRow_modifyRow _ _ _ hk]
  split
  · ext l
    simp [intRow, get_eq_getElem]
  · rfl

theorem intRow_swapRows (M : IntMatrix n m) {i j k : Nat} (hi : i < n) (hj : j < n) (hk : k < n) :
    (M.swapRows i j).intRow k =
      if k = i then M.intRow j else if k = j then M.intRow i else M.intRow k := by
  unfold intRow
  rw [row_of_lt _ hk, rows_swapRows M hi hj hk, row_of_lt M hi, row_of_lt M hj, row_of_lt M hk]
  split_ifs <;> rfl

/-- The row moved comes to stand at its target. -/
theorem intRow_rotateRowUp (M : IntMatrix n m) {source target : Nat} (hsource : source < n)
    (htarget : target ≤ source) :
    (M.rotateRowUp source target).intRow target = M.intRow source := by
  induction source generalizing M with
  | zero =>
      obtain rfl : target = 0 := by omega
      rfl
  | succ source ih =>
      unfold rotateRowUp
      split
      · rw [ih _ (by omega) (by omega), M.intRow_swapRows (by omega) hsource (by omega), if_pos rfl]
      · obtain rfl : target = source + 1 := by omega
        rfl

/-! ## Gathering -/

/-- What gathering the given rows with their coefficients leads to: a matrix, the row reached and
its weight. -/
structure Gathered (M : IntMatrix n m) (rows : List (Nat × Int))
    (result : IntMatrix n m × Nat × Int) : Prop where
  position : result.2.1 ∈ rows.map Prod.fst
  weight : |result.2.2| = (rows.map Prod.snd : Multiset ℤ).gcd
  row : result.2.2 • result.1.intRow result.2.1 = (rows.map fun r => r.2 • M.intRow r.1).sum

/-- One step of gathering leaves the sum of two weighted rows in one row.  Its weight is the divisor
that the step takes off the pair of weights. -/
theorem exists_gather_cons (M : IntMatrix n m) {position i : Nat} {weight x : Int}
    (rest : List (Nat × Int)) (hi : i < n) (hx : x ≠ 0) (hne : i ≠ position) :
    ∃ (N : IntMatrix n m) (d : Int),
      M.gather .unbounded position weight ((i, x) :: rest) = N.gather .unbounded i d rest ∧
      d ≠ 0 ∧ d = GCDMonoid.gcd weight x ∧
      d • N.intRow i = weight • M.intRow position + x • M.intRow i ∧
      ∀ k < n, i ≠ k → position ≠ k → N.intRow k = M.intRow k := by
  let d := Bezout.of x weight
  have hd : d.gcd = Int.gcd x weight := Bezout.gcd_of x weight
  have hx' : d.gcd * x.tdiv d.gcd = x := by
    rw [Int.mul_tdiv_cancel']
    rw [hd]
    exact Int.gcd_dvd_left x weight
  have hweight' : d.gcd * weight.tdiv d.gcd = weight := by
    rw [Int.mul_tdiv_cancel']
    rw [hd]
    exact Int.gcd_dvd_right x weight
  refine ⟨M.combineRows .unbounded i position (x.tdiv d.gcd) (weight.tdiv d.gcd) (-d.right) d.left,
    d.gcd, rfl, ?_, ?_, ?_, ?_⟩
  · rw [hd, Ne, Int.natCast_eq_zero, Int.gcd_eq_zero_iff]
    exact fun h => hx h.1
  · rw [hd, Int.coe_gcd, gcd_comm]
  · rw [M.intRow_combineRows_left _ _ _ _ hi hne, smul_add, smul_smul, smul_smul, hx', hweight',
      add_comm]
  · intro k hk hik hpk
    exact M.intRow_combineRows_of_ne _ _ _ _ hk hik hpk

theorem gathered_gather (M : IntMatrix n m) (position : Nat) (weight : Int)
    (rows : List (Nat × Int)) (hrows : ∀ r ∈ (position, weight) :: rows, r.1 < n ∧ r.2 ≠ 0)
    (hdistinct : (((position, weight) :: rows).map Prod.fst).Nodup) :
    M.Gathered ((position, weight) :: rows) (M.gather .unbounded position weight rows) := by
  induction rows generalizing M position weight with
  | nil =>
      exact {
        position := List.mem_cons_self
        weight := by
          rw [gather, Int.abs_eq_normalize]
          exact Multiset.gcd_singleton.symm
        row := by simp [gather] }
  | cons next rest ih =>
      obtain ⟨i, x⟩ := next
      obtain ⟨hi, hx⟩ := hrows (i, x) (by simp)
      obtain ⟨hnotin, hrest⟩ := List.nodup_cons.mp hdistinct
      have hne : i ≠ position := by
        rintro rfl
        simp at hnotin
      obtain ⟨N, d, hgather, hd, hgcd, hsum, hsame⟩ := M.exists_gather_cons rest hi hx hne
      have hrest' : rest.map (fun r => r.2 • N.intRow r.1) =
          rest.map fun r => r.2 • M.intRow r.1 := by
        apply List.map_congr_left
        intro r hr
        have hmem : r.1 ∈ rest.map Prod.fst := List.mem_map_of_mem hr
        have hir : i ≠ r.1 := by
          rintro rfl
          exact (List.nodup_cons.mp hrest).1 hmem
        have hpr : position ≠ r.1 := by
          rintro rfl
          exact hnotin (List.mem_cons_of_mem _ hmem)
        rw [hsame r.1 (hrows r (by simp [hr])).1 hir hpr]
      have h : N.Gathered ((i, d) :: rest) (N.gather .unbounded i d rest) := by
        refine ih N i d (fun r hr => ?_) hrest
        rcases List.mem_cons.mp hr with rfl | hr
        · exact ⟨hi, hd⟩
        · exact hrows r (by simp [hr])
      rw [hgather]
      exact {
        position := List.mem_cons_of_mem _ h.position
        weight := by
          rw [h.weight, List.map_cons, List.map_cons, List.map_cons, ← Multiset.cons_coe,
            ← Multiset.cons_coe, ← Multiset.cons_coe, Multiset.gcd_cons, Multiset.gcd_cons,
            Multiset.gcd_cons, hgcd, gcd_assoc]
        row := by
          rw [h.row, List.map_cons, List.sum_cons, hsum, hrest', List.map_cons, List.map_cons,
            List.sum_cons, List.sum_cons, add_assoc] }

/-- The row inserted is the combination divided by the greatest common divisor of its
coefficients. -/
theorem intRow_insertCombination (M : IntMatrix n m) {start : Nat} {rows : List (Nat × Int)}
    (hrows : ∀ r ∈ rows, (start ≤ r.1 ∧ r.1 < n) ∧ r.2 ≠ 0)
    (hdistinct : (rows.map Prod.fst).Nodup) (hne : rows ≠ []) :
    (rows.map Prod.snd : Multiset ℤ).gcd •
        (M.insertCombination .unbounded start rows).intRow start =
      (rows.map fun r => r.2 • M.intRow r.1).sum := by
  cases rows with
  | nil => exact absurd rfl hne
  | cons first rest =>
      obtain ⟨i, x⟩ := first
      have h := M.gathered_gather i x rest
        (fun r hr => ⟨(hrows r hr).1.2, (hrows r hr).2⟩) hdistinct
      unfold insertCombination
      dsimp only
      generalize M.gather .unbounded i x rest = result at h ⊢
      obtain ⟨N, position, weight⟩ := result
      obtain ⟨hposition, hweight, hrow⟩ := h
      dsimp only at hposition hweight hrow ⊢
      obtain ⟨r, hr, rfl⟩ := List.mem_map.mp hposition
      obtain ⟨hle, hlt⟩ := (hrows r hr).1
      rw [← hweight, ← hrow]
      split
      · rename_i hneg
        rw [intRow_rotateRowUp _ hlt hle, intRow_negateRow _ _ hlt, if_pos rfl, abs_of_neg hneg,
          neg_smul_neg]
      · rename_i hnonneg
        rw [intRow_rotateRowUp _ hlt hle, abs_of_nonneg (not_lt.mp hnonneg)]

end IntMatrix

namespace LatticeBasis

theorem le_of_mem_support {start : Nat} {coefficients : List Int} {r : Nat × Int}
    (h : r ∈ support start coefficients) : start ≤ r.1 := by
  unfold support at h
  simp only [List.mem_reverse, List.mem_filterMap, Prod.exists] at h
  obtain ⟨x, i, hmem, hr⟩ := h
  split at hr
  · cases hr
  · cases hr
    exact List.le_snd_of_mem_zipIdx hmem

theorem gcd_support (start : Nat) (coefficients : List Int) :
    ((support start coefficients).map Prod.snd : Multiset ℤ).gcd =
      (coefficients : Multiset ℤ).gcd := by
  induction coefficients generalizing start with
  | nil => rfl
  | cons x rest ih =>
      rw [support_cons, List.map_append, ← Multiset.coe_add, Multiset.gcd_add, ih,
        ← Multiset.cons_coe, Multiset.gcd_cons, gcd_comm]
      by_cases hx : x = 0
      · simp [hx]
      · rw [if_neg hx, List.map_singleton, Multiset.coe_singleton, Multiset.gcd_singleton]
        exact (normalize_associated x).gcd_eq_left _

theorem sum_support (M : IntMatrix n m) (start : Nat) (coefficients : List Int) :
    ((support start coefficients).map fun r => r.2 • M.intRow r.1).sum =
      M.combination start coefficients := by
  induction coefficients generalizing start with
  | nil => rfl
  | cons x rest ih =>
      rw [support_cons, List.map_append, List.sum_append, ih, M.combination_cons, add_comm]
      by_cases hx : x = 0 <;> simp [hx]

theorem gcd_pos {coefficients : List Int} (h : ∃ x ∈ coefficients, x ≠ 0) :
    0 < (coefficients : Multiset ℤ).gcd := by
  obtain ⟨x, hx, hne⟩ := h
  have hnonzero : (coefficients : Multiset ℤ).gcd ≠ 0 := fun hzero =>
    hne ((Multiset.gcd_eq_zero_iff _).mp hzero x hx)
  have hnonneg : 0 ≤ (coefficients : Multiset ℤ).gcd := by
    rw [← Multiset.normalize_gcd, ← Int.abs_eq_normalize]
    exact abs_nonneg _
  exact lt_of_le_of_ne hnonneg hnonzero.symm

theorem intRow_insertSupport (M : IntMatrix n m) {start : Nat} {coefficients : List Int}
    (hstop : start + coefficients.length ≤ n) (hnonzero : ∃ x ∈ coefficients, x ≠ 0) :
    (coefficients : Multiset ℤ).gcd •
        (M.insertCombination .unbounded start (support start coefficients)).intRow start =
      M.combination start coefficients := by
  rw [← sum_support, ← gcd_support start]
  refine M.intRow_insertCombination (fun r hr => ?_) (nodup_support start coefficients) ?_
  · obtain ⟨hlt, hne⟩ := mem_support hr
    exact ⟨⟨le_of_mem_support hr, by omega⟩, hne⟩
  · rw [Ne, support_eq_nil_iff]
    simpa using hnonzero

@[simp] theorem hasQuotients_unbounded (rows : List (Nat × Int)) :
    hasQuotients .unbounded rows = true := by
  have hfrom (weight : Int) (rows : List (Nat × Int)) :
      hasQuotientsFrom .unbounded weight rows = true := by
    induction rows generalizing weight with
    | nil => rfl
    | cons r rest ih => simp [hasQuotientsFrom, ih]
  cases rows with
  | nil => rfl
  | cons r rest => exact hfrom _ rest

variable {α : Type} [Scalar α]

/-- An insertion that is not refused is an orthogonalisation of the changed rows. -/
theorem insertCombination_eq_orthogonalize (L : LatticeBasis α n m) {start : Nat}
    {coefficients : List Int} (hstop : start + coefficients.length ≤ n)
    (hnonzero : ∃ x ∈ coefficients, x ≠ 0)
    (hquotients : hasQuotients (Scalar.integers α) (support start coefficients) = true) :
    insertCombination start coefficients L = orthogonalize (L.setBasis
      (·.insertCombination (Scalar.integers α) start (support start coefficients))) := by
  have hsupport : (support start coefficients).isEmpty ≠ true := by
    rw [Ne, List.isEmpty_iff, support_eq_nil_iff]
    simpa using hnonzero
  unfold insertCombination
  rw [if_neg (by omega), if_neg hsupport, if_neg (by simp [hquotients])]
  rfl

/-- The rows change before the data are recomputed, and remain changed where that fails. -/
theorem basis_insertCombination [ExactIntegers α] (L : LatticeBasis α n m) {start : Nat}
    {coefficients : List Int} (hstop : start + coefficients.length ≤ n)
    (hnonzero : ∃ x ∈ coefficients, x ≠ 0) :
    (finalState (insertCombination start coefficients L)).basis =
      L.basis.insertCombination .unbounded start (support start coefficients) := by
  rw [L.insertCombination_eq_orthogonalize hstop hnonzero (by simp), integers_eq]
  exact conserves_basis_orthogonalize _

theorem valid_of_insertCombination {L L' : LatticeBasis α n m} {start : Nat}
    {coefficients : List Int} (h : insertCombination start coefficients L = .ok () L') :
    start + coefficients.length ≤ n ∧ ∃ x ∈ coefficients, x ≠ 0 := by
  have hvalid : Ensures (fun _ : LatticeBasis α n m => True) (insertCombination start coefficients)
      fun _ _ => start + coefficients.length ≤ n ∧ ∃ x ∈ coefficients, x ≠ 0 := by
    unfold insertCombination
    refine Ensures.guard fun hstop => Ensures.guard fun hempty => ?_
    rw [List.isEmpty_iff, support_eq_nil_iff] at hempty
    exact fun _ _ _ _ _ => ⟨by omega, by simpa using hempty⟩
  exact hvalid L () L' trivial h

end LatticeBasis

end EmbeddingAttack
