import EmbeddingAttack.Proofs.Embedding.KannanLattice
import EmbeddingAttack.Proofs.Lattice.Recomputation
import Mathlib.Algebra.BigOperators.ModEq
import Mathlib.Data.Int.ModEq
import Mathlib.LinearAlgebra.Matrix.Determinant.Basic
import Mathlib.RingTheory.Int.Basic
import Mathlib.RingTheory.PrincipalIdealDomain

/-!
# Invertible subsystems

A reduction that finds a pivot for every column has found as many rows whose determinant has an
inverse modulo `q`: the reduced columns are the old ones times the inverse of the rows chosen.  The
converse holds where the residues without an inverse are closed under addition, that is, where `q`
is a power of a prime.  Then a column left over vanishes modulo the prime in every row tried, and
the determinants of all choices vanish with it.
-/

namespace EmbeddingAttack

open Finset

/-! ## Determinants modulo `q` -/

theorem det_modEq {k : Nat} {M N : Matrix (Fin k) (Fin k) ℤ} {q : ℤ}
    (h : ∀ i j, M i j ≡ N i j [ZMOD q]) : M.det ≡ N.det [ZMOD q] := by
  rw [Matrix.det_apply', Matrix.det_apply']
  apply Int.ModEq.sum
  intro σ _
  apply Int.ModEq.mul_left
  apply Int.ModEq.prod
  intro i _
  exact h (σ i) i

theorem dvd_det_of_column {k : Nat} {M : Matrix (Fin k) (Fin k) ℤ} {p : ℤ} (j : Fin k)
    (h : ∀ i, p ∣ M i j) : p ∣ M.det := by
  have hzero : (M.updateCol j (0 : Fin k → ℤ)).det = 0 :=
    Matrix.det_eq_zero_of_column_eq_zero j fun i => by simp
  have hmod : M.det ≡ (M.updateCol j (0 : Fin k → ℤ)).det [ZMOD p] := by
    apply det_modEq
    intro i l
    by_cases hl : l = j
    · subst hl
      rw [Matrix.updateCol_self]
      exact Int.modEq_zero_iff_dvd.mpr (h i)
    · rw [Matrix.updateCol_ne hl]
  rw [hzero] at hmod
  exact Int.modEq_zero_iff_dvd.mp hmod

namespace Embedding

variable {m : Nat} {q : Int}

/-! ## Columns in terms of others -/

theorem exists_combination {columns : List (Column m)} {v : Fin m → ℤ}
    (h : v ∈ columnLattice q columns) : ∃ c : Fin columns.length → ℤ,
      ∀ i, v i ≡ ∑ j, c j * entries (columns.get j) i [ZMOD q] := by
  induction h using Submodule.span_induction with
  | mem v hv =>
      rcases hv with ⟨column, hcolumn, rfl⟩ | hv
      · obtain ⟨j, rfl⟩ := List.get_of_mem hcolumn
        refine ⟨Pi.single j 1, fun i => ?_⟩
        simp [Pi.single_apply]
      · refine ⟨0, fun i => ?_⟩
        simpa using Int.modEq_zero_iff_dvd.mpr (hv i)
  | zero => exact ⟨0, fun i => by simp⟩
  | add v w _ _ hv hw =>
      obtain ⟨c, hc⟩ := hv
      obtain ⟨d, hd⟩ := hw
      refine ⟨c + d, fun i => ?_⟩
      simpa [add_mul, sum_add_distrib] using (hc i).add (hd i)
  | smul a v _ hv =>
      obtain ⟨c, hc⟩ := hv
      refine ⟨a • c, fun i => ?_⟩
      simpa [mul_sum, mul_assoc] using (hc i).mul_left a

/-- The rows `f` of a list of columns. -/
def chosenRows {n : Nat} (columns : List (Column m)) (hn : columns.length = n) (f : Fin n → Fin m) :
    Matrix (Fin n) (Fin n) ℤ :=
  .of fun i j => entries (columns.get (j.cast hn.symm)) (f i)

/-! ## Success -/

/-- Where every column has a pivot row, the pivot rows form an invertible subsystem. -/
theorem exists_invertible_choice {original : List (Column m)} {n : Nat} {C : Columns m}
    (h : C.Invariant q original m) (hn : original.length = n) (hreduced : C.reduced.length = n) :
    ∃ f : Fin n ↪ Fin m, IsCoprime (chosenRows original hn f).det q := by
  have hpivots : C.pivots.length = n := h.length_pivots.trans hreduced
  let place (i : Fin n) : Fin m :=
    ⟨C.pivots.get (i.cast hpivots.symm), h.pivots_lt _ (List.get_mem _ _)⟩
  have hplace : Function.Injective place := by
    intro i j hij
    have hget : C.pivots.get (i.cast hpivots.symm) = C.pivots.get (j.cast hpivots.symm) :=
      Fin.mk.inj_iff.mp hij
    simpa using h.nodup_pivots.get_inj_iff.mp hget
  have hmem (i : Fin n) : (place i).val ∈ C.pivots := List.get_mem _ _
  choose column hcolumn hone hzero using fun i => h.unit_reduced _ (hmem i)
  have hcombination (i : Fin n) : ∃ c : Fin original.length → ℤ, ∀ l,
      entries (column i) l ≡ ∑ j, c j * entries (original.get j) l [ZMOD q] := by
    apply exists_combination
    rw [← h.lattice_eq]
    exact entries_mem_columnLattice (List.mem_append_left _ (hcolumn i))
  choose c hc using hcombination
  let X : Matrix (Fin n) (Fin n) ℤ := .of fun i j => c i (j.cast hn.symm)
  have hproduct : ∀ i j, (X * (chosenRows original hn place).transpose) i j ≡
      (1 : Matrix (Fin n) (Fin n) ℤ) i j [ZMOD q] := by
    intro i j
    have hsum : (X * (chosenRows original hn place).transpose) i j =
        ∑ l, c i l * entries (original.get l) (place j) := by
      rw [Matrix.mul_apply]
      exact Fintype.sum_equiv (finCongr hn.symm) _ _ fun l => rfl
    rw [hsum]
    refine (hc i (place j)).symm.trans ?_
    rw [← getD_eq_entries]
    by_cases hij : i = j
    · subst hij
      rw [Matrix.one_apply_eq]
      exact hone i
    · rw [Matrix.one_apply_ne hij]
      refine hzero i _ (hmem j) fun hsame => hij ?_
      exact (hplace (Fin.ext hsame)).symm
  have hdet := det_modEq hproduct
  rw [Matrix.det_mul, Matrix.det_transpose, Matrix.det_one] at hdet
  obtain ⟨t, ht⟩ := hdet.symm.dvd
  refine ⟨⟨place, hplace⟩, X.det, -t, ?_⟩
  show X.det * (chosenRows original hn place).det + -t * q = 1
  linear_combination ht

/-! ## Failure -/

theorem modInverse?_of_takeInvertible? {row : Nat} {pending : List (Column m)}
    (h : takeInvertible? q row pending = none) :
    ∀ column ∈ pending, modInverse? (column.getD row 0) q = none := by
  cases pending with
  | nil => simp
  | cons first rest =>
      cases hfirst : modInverse? (first.getD row 0) q with
      | some x => simp [takeInvertible?, hfirst] at h
      | none =>
          simp only [takeInvertible?, hfirst] at h
          split at h
          · rename_i hfind
            have hrest : ∀ column ∈ rest, modInverse? (column.getD row 0) q = none := by
              simpa using List.findIdx?_eq_none_iff.mp hfind
            exact List.forall_mem_cons.mpr ⟨hfirst, hrest⟩
          · rename_i i hfind
            obtain ⟨hi, hsome, -⟩ := List.findIdx?_eq_some_iff_getElem.mp hfind
            rw [Option.map_eq_none_iff, List.getD_eq_getElem _ _ hi] at h
            simp [h] at hsome

section PrimePower

variable {p : ℤ} (hp : p ∣ q) (hshared : ∀ x, ¬ IsCoprime x q → p ∣ x)

include hp hshared

/-- The residues without an inverse are the multiples of `p`.  So the columns without a pivot row
vanish modulo `p` in every row that has been tried. -/
theorem dvd_pending_addPivot {C : Columns m} {k : Nat}
    (h : ∀ column ∈ C.pending, ∀ i < k, p ∣ column.getD i 0) :
    ∀ column ∈ (C.addPivot .unbounded q k).pending, ∀ i < k + 1, p ∣ column.getD i 0 := by
  unfold Columns.addPivot
  split
  · rename_i htake
    intro column hcolumn i hi
    rcases Nat.lt_succ_iff_lt_or_eq.mp hi with hlt | rfl
    · exact h column hcolumn i hlt
    · apply hshared
      exact modInverse?_eq_none_iff.mp (modInverse?_of_takeInvertible? htake column hcolumn)
  · rename_i inverse found rest htake
    obtain ⟨hperm, hinverse⟩ := takeInvertible?_spec htake
    have hfound : found ∈ C.pending := hperm.subset List.mem_cons_self
    dsimp only [Integers.keep_unbounded]
    generalize hpivot : (found.map fun x => (x * inverse).tmod q) = pivot
    have hscale (i : Nat) : pivot.getD i 0 ≡ inverse * found.getD i 0 [ZMOD q] := by
      rw [← hpivot]
      exact getD_scale_modEq inverse found i
    intro column hcolumn i hi
    obtain ⟨other, hother, rfl⟩ := List.mem_map.mp hcolumn
    rcases Nat.lt_succ_iff_lt_or_eq.mp hi with hlt | rfl
    · have hclear := (getD_clearRow_modEq (q := q) k pivot other i).of_dvd hp
      have hdvd : p ∣ pivot.getD i 0 :=
        ((hscale i).of_dvd hp).dvd_iff.mpr ((h found hfound i hlt).mul_left _)
      have hbefore := h other (hperm.subset (List.mem_cons_of_mem _ hother)) i hlt
      exact hclear.dvd_iff.mpr (dvd_sub hbefore (hdvd.mul_left _))
    · have hone : pivot.getD i 0 ≡ 1 [ZMOD q] := by
        refine (hscale i).trans ?_
        rw [mul_comm]
        exact modEq_of_modInverse? hinverse
      exact hp.trans (Int.modEq_zero_iff_dvd.mp (getD_clearRow_of_one hone other))

theorem dvd_pending_reduceColumns (original : List (Column m)) :
    ∀ column ∈ (reduceColumns .unbounded q original).pending, ∀ i < m, p ∣ column.getD i 0 := by
  have hrun (k : Nat) : ∀ column ∈ ((List.range k).foldl (Columns.addPivot .unbounded q)
      ⟨[], original.map (·.map (· % q)), []⟩).pending, ∀ i < k, p ∣ column.getD i 0 := by
    induction k with
    | zero => simp
    | succ k ih =>
        rw [List.range_succ, List.foldl_append]
        exact dvd_pending_addPivot hp hshared ih
  exact hrun m

/-- A column left over makes all determinants vanish modulo `p`. -/
theorem dvd_det_chosenRows {original : List (Column m)} {n : Nat} (hn : original.length = n)
    (hleft : (reduceColumns .unbounded q original).reduced.length < n) (f : Fin n → Fin m) :
    p ∣ (chosenRows original hn f).det := by
  have h := Columns.Invariant.reduceColumns q original
  have hpending := dvd_pending_reduceColumns hp hshared original
  generalize reduceColumns .unbounded q original = C at h hpending hleft
  have hlength : (C.reduced ++ C.pending).length = n := by
    rw [List.length_append, h.length_eq, hn]
  obtain ⟨column, hcolumn⟩ : ∃ column, column ∈ C.pending := by
    apply List.exists_mem_of_length_pos
    have := h.length_eq
    omega
  obtain ⟨l, hl⟩ := List.get_of_mem (List.mem_append_right C.reduced hcolumn)
  have hcombination (j : Fin n) : ∃ y : Fin (C.reduced ++ C.pending).length → ℤ, ∀ i,
      entries (original.get (j.cast hn.symm)) i ≡
        ∑ k, y k * entries ((C.reduced ++ C.pending).get k) i [ZMOD q] := by
    apply exists_combination
    rw [h.lattice_eq]
    exact entries_mem_columnLattice (List.get_mem _ _)
  choose y hy using hcombination
  let Y : Matrix (Fin n) (Fin n) ℤ := .of fun k j => y j (k.cast hlength.symm)
  have hproduct : ∀ i j, chosenRows original hn f i j ≡
      (chosenRows (C.reduced ++ C.pending) hlength f * Y) i j [ZMOD p] := by
    intro i j
    have hsum : (chosenRows (C.reduced ++ C.pending) hlength f * Y) i j =
        ∑ k, y j k * entries ((C.reduced ++ C.pending).get k) (f i) := by
      rw [Matrix.mul_apply]
      exact Fintype.sum_equiv (finCongr hlength.symm) _ _ fun k => mul_comm _ _
    rw [hsum]
    exact (hy j (f i)).of_dvd hp
  have hdet := det_modEq hproduct
  rw [Matrix.det_mul] at hdet
  apply hdet.dvd_iff.mpr
  apply Dvd.dvd.mul_right
  apply dvd_det_of_column (l.cast hlength)
  intro i
  have hentry : chosenRows (C.reduced ++ C.pending) hlength f i (l.cast hlength) =
      column.getD (f i) 0 := by
    rw [getD_eq_entries, ← hl]
    rfl
  rw [hentry]
  exact hpending column hcolumn _ (f i).isLt

end PrimePower

end Embedding

/-! ## The embedding -/

/-- Whether a failure is about rows of integers or about their arithmetic. -/
def Failure.ConcernsRows {α : Type} : Failure α → Prop
  | .parameters .emptyMatrix | .parameters .emptyBasis | .dimensions .. | .numerical _ => True
  | _ => False

namespace LweInstance

open EmbeddingAttack.Embedding

variable {α : Type} {I : LweInstance α} {m : Nat}

/-- The rows `f` of `a`. -/
def subsystem (I : LweInstance α) (f : Fin I.n → Fin m) : Matrix (Fin I.n) (Fin I.n) ℤ :=
  .of fun i j => I.coefficient (f i) j

theorem length_columns : (I.columns m).length = I.n := by
  simp [columns]

theorem chosenRows_columns (f : Fin I.n → Fin m) :
    chosenRows (I.columns m) length_columns f = I.subsystem f := by
  ext i j
  have hget : (I.columns m).get (j.cast length_columns.symm) =
      Vector.ofFn fun i => (I.a.getD i []).getD j 0 := by
    simp only [columns, List.get_eq_getElem, List.getElem_map, List.getElem_range]
    rfl
  show entries ((I.columns m).get _) (f i) = _
  rw [hget]
  simp [subsystem, entries_apply, get_eq_getElem, coefficient]

variable [Scalar α]

/-- Once its rows are there, a basis fails for them only. -/
theorem failsOnly_ofRows (rows : List (List Int)) :
    FailsOnly Failure.ConcernsRows (SomeLatticeBasis.ofRows rows : Except (Failure α) _) := by
  refine .bind ?_ fun M _ => .bind ?_ fun L _ => .pure _
  · unfold SomeIntMatrix.ofRows
    split
    · exact .throw trivial
    · dsimp only
      split
      · exact .throw trivial
      · exact .pure _
  · intro e h
    unfold LatticeBasis.ofMatrix at h
    split at h
    · cases h
      trivial
    split at h
    · cases h
      trivial
    dsimp only at h
    split at h
    · cases h
    · rename_i horthogonalize
      cases h
      obtain ⟨fault, rfl⟩ := LatticeBasis.throws_orthogonalize _ _ _ trivial horthogonalize
      trivial

/-- With all samples there, the embedding fails for a missing subsystem exactly where the reduction
leaves a column without a pivot row. -/
theorem primalBasis_eq_error_iff (hsmall : (I.q - 1) ^ 2 < 2 ^ 63) (hsamples : m ≤ I.samples)
    (hm : I.n < m) (hfull : I.hasSamples m = true) :
    I.primalBasis m = .error (.parameters (.noInvertibleSubsystem m I.n I.q)) ↔
      (reduceColumns .unbounded I.q (I.columns m)).reduced.length < I.n := by
  have hq : I.q ≠ 0 := by
    simp only [hasSamples, Bool.and_eq_true, decide_eq_true_eq] at hfull
    exact hfull.1.1
  unfold primalBasis
  rw [if_neg (by omega), if_neg (by omega), if_neg (by simp [hfull]),
    reduceColumns_eq_unbounded _ hq hsmall]
  dsimp only
  split
  · rename_i hleft
    exact iff_of_true rfl hleft
  · rename_i hall
    exact iff_of_false (failsOnly_ofRows _ _) hall

/-- The embedding fails for a missing subsystem wherever no `n` of the `m` rows form a matrix with a
determinant that has an inverse modulo `q`, and modulo a power of a prime only there, as long as the
products of residues modulo `q` are words. -/
theorem primalBasis_fails_without_subsystem (hsmall : (I.q - 1) ^ 2 < 2 ^ 63)
    (hsamples : m ≤ I.samples) (hm : I.n < m) (hfull : I.hasSamples m = true) :
    ((∀ f : Fin I.n ↪ Fin m, ¬ IsCoprime (I.subsystem f).det I.q) →
      I.primalBasis m = .error (.parameters (.noInvertibleSubsystem m I.n I.q))) ∧
    ∀ p k : ℕ, p.Prime → k ≠ 0 → I.q = p ^ k →
      I.primalBasis m = .error (.parameters (.noInvertibleSubsystem m I.n I.q)) →
        ∀ f : Fin I.n ↪ Fin m, ¬ IsCoprime (I.subsystem f).det I.q := by
  rw [primalBasis_eq_error_iff hsmall hsamples hm hfull]
  constructor
  · intro hnone
    have h := Columns.Invariant.reduceColumns I.q (I.columns m)
    by_contra hall
    have hlength : (reduceColumns .unbounded I.q (I.columns m)).reduced.length = I.n := by
      have hsum := h.length_eq
      rw [length_columns] at hsum
      omega
    obtain ⟨f, hf⟩ := exists_invertible_choice h length_columns hlength
    rw [chosenRows_columns] at hf
    exact hnone f hf
  · intro p k hp hk hq hleft f hcoprime
    have hprime : Prime (p : ℤ) := Nat.prime_iff_prime_int.mp hp
    have hdvd : (p : ℤ) ∣ I.q := by
      rw [hq]
      exact dvd_pow_self _ hk
    have hshared : ∀ x : ℤ, ¬ IsCoprime x I.q → (p : ℤ) ∣ x := by
      intro x hx
      by_contra hnot
      apply hx
      rw [hq]
      exact ((hprime.irreducible.coprime_iff_not_dvd).mpr hnot).symm.pow_right
    have hdet := dvd_det_chosenRows hdvd hshared length_columns hleft f
    rw [chosenRows_columns] at hdet
    exact hprime.not_isUnit (hcoprime.isUnit_of_dvd' hdet hdvd)

/-- An instance whose first sample has no entry with an inverse modulo `q`. -/
def evenRowInstance (q : Int) : LweInstance Fraction where
  n := 2
  q := q
  alpha := 0.05
  a := [[2, 3], [1, 1], [0, 0]]
  c := [1, 2, 3]
  secret := none

/-- The first two samples of the instance. -/
def firstTwo : Fin 2 ↪ Fin 3 :=
  Fin.castLEEmb (by decide)

theorem isCoprime_det_evenRowInstance (q : Int) :
    IsCoprime ((evenRowInstance q).subsystem firstTwo).det q := by
  have hdet : ((evenRowInstance q).subsystem firstTwo).det = -1 := Matrix.det_fin_two _
  rw [hdet]
  exact isCoprime_one_left.neg_left

/-- Modulo five the first two samples are found. -/
theorem primalBasis_finds_subsystem_mod_five :
    ((evenRowInstance 5).q - 1) ^ 2 < 2 ^ 63 ∧ 3 ≤ (evenRowInstance 5).samples ∧
      (evenRowInstance 5).n < 3 ∧
      (evenRowInstance 5).hasSamples 3 = true ∧
      ((∀ f : Fin 2 ↪ Fin 3, ¬ IsCoprime ((evenRowInstance 5).subsystem f).det 5) →
        (evenRowInstance 5).primalBasis 3 = .error (.parameters (.noInvertibleSubsystem 3 2 5))) ∧
      (evenRowInstance 5).primalBasis 3 ≠ .error (.parameters (.noInvertibleSubsystem 3 2 5)) := by
  have hsmall : ((evenRowInstance 5).q - 1) ^ 2 < 2 ^ 63 := by decide
  have hsamples : 3 ≤ (evenRowInstance 5).samples := by decide
  have hm : (evenRowInstance 5).n < 3 := by decide
  have hfull : (evenRowInstance 5).hasSamples 3 = true := by decide
  obtain ⟨hnone, hpower⟩ := primalBasis_fails_without_subsystem hsmall hsamples hm hfull
  refine ⟨hsmall, hsamples, hm, hfull, hnone, fun herror => ?_⟩
  exact hpower 5 1 Nat.prime_five (by decide) (by decide) herror firstTwo
    (isCoprime_det_evenRowInstance 5)

/-- Modulo six the first sample `(2, 3)` is passed over for want of an invertible entry, although
its determinant with the second, `-1`, is invertible. -/
theorem primalBasis_passes_over_subsystem_mod_six :
    (evenRowInstance 6).primalBasis 3 = .error (.parameters (.noInvertibleSubsystem 3 2 6)) ∧
      ∃ f : Fin 2 ↪ Fin 3, IsCoprime ((evenRowInstance 6).subsystem f).det 6 := by
  constructor
  · apply (primalBasis_eq_error_iff (by decide) (by decide) (by decide) (by decide)).mpr
    decide +kernel
  · exact ⟨firstTwo, isCoprime_det_evenRowInstance 6⟩

end LweInstance

end EmbeddingAttack
