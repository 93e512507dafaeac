import EmbeddingAttack.Instance.Synthetic
import EmbeddingAttack.Proofs.Arithmetic.Prime
import EmbeddingAttack.Proofs.Embedding.KannanLattice

/-!
# The errors of generated instances

A generated instance holds the errors that it was drawn with: each entry of the vector is the
product of its row with the secret plus the error, modulo the least prime from `n ^ 2` on.  So the
errors, extended by a one, are a vector of the lattice of the embedding, whatever random numbers are
drawn.
-/

namespace EmbeddingAttack

variable {α ρ : Type}

/-- The uniform numbers lie in their range. -/
def Randomness.InRange (R : Randomness α ρ) : Prop :=
  ∀ q s, 0 < q → 0 ≤ (R.uniform q s).1 ∧ (R.uniform q s).1 < q

theorem LweInstance.le_samples_of_primalBasis [Scalar α] {I : LweInstance α} {m : Nat}
    {B : SomeLatticeBasis α} (h : I.primalBasis m = .ok B) : m ≤ I.samples := by
  unfold primalBasis at h
  exact Nat.le_of_not_lt (guard_eq_ok.mp h).1

namespace Synthetic

/-- The errors that are drawn for samples, each after the row of its sample. -/
def drawnErrors (R : Randomness α ρ) (q : Int) (sigma : α) (width : Nat) :
    (count : Nat) → ρ → List Int
  | 0, _ => []
  | count + 1, s =>
    let (_, s) := uniformVector R q width s
    let (error, s) := R.roundedNormal sigma s
    error :: drawnErrors R q sigma width count s

/-! ## Samples -/

variable {R : Randomness α ρ} {q : Int}

theorem length_drawnErrors (sigma : α) (width count : Nat) (s : ρ) :
    (drawnErrors R q sigma width count s).length = count := by
  induction count generalizing s with
  | zero => rfl
  | succ count ih => exact congrArg Nat.succ (ih _)

theorem length_uniformVector (length : Nat) (s : ρ) :
    (uniformVector R q length s).1.length = length := by
  induction length generalizing s with
  | zero => rfl
  | succ length ih => exact congrArg Nat.succ (ih _)

theorem range_uniformVector (hR : R.InRange) (hq : 0 < q) (length : Nat) (s : ρ) :
    ∀ x ∈ (uniformVector R q length s).1, 0 ≤ x ∧ x < q := by
  induction length generalizing s with
  | zero => exact fun x hx => nomatch hx
  | succ length ih => exact List.forall_mem_cons.mpr ⟨hR q s hq, ih _⟩

/-- The remainders on the way do not change the product modulo `q`. -/
theorem foldl_modEq (x y : List Int) (hlength : y.length = x.length) (sum : Int) :
    (x.zip y).foldl (fun sum (u, v) => (sum + u * v) % q) sum ≡
      sum + ∑ j : Fin x.length, x.getD j 0 * y.getD j 0 [ZMOD q] := by
  induction x generalizing y sum with
  | nil =>
      rw [Finset.univ_eq_empty (α := Fin 0), Finset.sum_empty, add_zero]
      rfl
  | cons u x ih =>
      obtain ⟨v, y, rfl⟩ := List.exists_cons_of_length_eq_add_one hlength
      rw [List.zip_cons_cons, List.foldl_cons]
      refine (ih y (Nat.succ.inj hlength) _).trans ?_
      simp only [List.length_cons, Fin.sum_univ_succ, Fin.val_zero, Fin.val_succ,
        List.getD_cons_zero, List.getD_cons_succ]
      rw [← add_assoc]
      exact (Int.mod_modEq _ q).add_right _

/-- A residue and a product of two add up to at most `q * (q - 1)`, so that the sums on the way are
words where that is one. -/
theorem foldl_keep (Z : Integers) (hq : 0 < q) (hsmall : q * (q - 1) < 2 ^ 63)
    (pairs : List (Int × Int)) (hpairs : ∀ p ∈ pairs, (0 ≤ p.1 ∧ p.1 < q) ∧ 0 ≤ p.2 ∧ p.2 < q)
    {sum : Int} (hsum : 0 ≤ sum ∧ sum < q) :
    pairs.foldl (fun sum (u, v) => (Z.keep (sum + u * v)).tmod q) sum =
        pairs.foldl (fun sum (u, v) => (sum + u * v) % q) sum ∧
      0 ≤ pairs.foldl (fun sum (u, v) => (sum + u * v) % q) sum ∧
      pairs.foldl (fun sum (u, v) => (sum + u * v) % q) sum < q := by
  induction pairs generalizing sum with
  | nil => exact ⟨rfl, hsum⟩
  | cons pair pairs ih =>
      obtain ⟨u, v⟩ := pair
      obtain ⟨⟨⟨hu, hu'⟩, hv, hv'⟩, hpairs⟩ := List.forall_mem_cons.mp hpairs
      dsimp only at hu hu' hv hv'
      have hproduct : u * v ≤ (q - 1) * (q - 1) :=
        mul_le_mul (Int.le_sub_one_of_lt hu') (Int.le_sub_one_of_lt hv') hv (by omega)
      have htotal : sum + u * v ≤ q * (q - 1) := by
        linarith [Int.le_sub_one_of_lt hsum.2]
      have hnonneg : 0 ≤ sum + u * v := add_nonneg hsum.1 (mul_nonneg hu hv)
      have hword : InInt64 (sum + u * v) := by
        unfold InInt64 maxInt64
        omega
      simp only [List.foldl_cons]
      rw [Z.keep_eq hword, Int.tmod_eq_emod_of_nonneg hnonneg]
      exact ih hpairs ⟨Int.emod_nonneg _ hq.ne', Int.emod_lt_of_pos _ hq⟩

/-- The product of two lists of residues, computed in words, is their product modulo `q`. -/
theorem dotMod_modEq (Z : Integers) (hq : 0 < q) (hsmall : q * (q - 1) < 2 ^ 63) {n : Nat}
    {x y : List Int} (hx : x.length = n) (hy : y.length = n) (hxq : ∀ u ∈ x, 0 ≤ u ∧ u < q)
    (hyq : ∀ v ∈ y, 0 ≤ v ∧ v < q) :
    (dotMod Z q x y ≡ ∑ j : Fin n, x.getD j 0 * y.getD j 0 [ZMOD q]) ∧
      0 ≤ dotMod Z q x y ∧ dotMod Z q x y < q := by
  subst hx
  have hpairs : ∀ p ∈ x.zip y, (0 ≤ p.1 ∧ p.1 < q) ∧ 0 ≤ p.2 ∧ p.2 < q := fun p hp =>
    ⟨hxq p.1 (List.of_mem_zip hp).1, hyq p.2 (List.of_mem_zip hp).2⟩
  obtain ⟨hkeep, hrange⟩ := foldl_keep Z hq hsmall (x.zip y) hpairs ⟨le_rfl, hq⟩
  have h := foldl_modEq (q := q) x y hy 0
  rw [zero_add] at h
  unfold dotMod
  rw [hkeep]
  exact ⟨h, hrange⟩

/-- Samples with rows of the given width, of which all entries are residues, hold the errors. -/
structure Holds (q : Int) (width : Nat) (secret : List Int) (a : List (List Int))
    (c errors : List Int) : Prop where
  length_rows : a.length = errors.length
  length_entries : c.length = errors.length
  length_row : ∀ row ∈ a, row.length = width
  range_rows : ∀ row ∈ a, ∀ x ∈ row, 0 ≤ x ∧ x < q
  range_entries : ∀ x ∈ c, 0 ≤ x ∧ x < q
  congruent : ∀ i < errors.length, c.getD i 0 ≡
    ∑ j : Fin width, (a.getD i []).getD j 0 * secret.getD j 0 + errors.getD i 0 [ZMOD q]

namespace Holds

variable {width : Nat} {secret row : List Int} {a : List (List Int)} {c errors : List Int}

theorem nil : Holds q width secret [] [] [] where
  length_rows := rfl
  length_entries := rfl
  length_row := by simp
  range_rows := by simp
  range_entries := by simp
  congruent := by simp

theorem cons (h : Holds q width secret a c errors) (hq : 0 < q) (hlength : row.length = width)
    (hrange : ∀ x ∈ row, 0 ≤ x ∧ x < q) {product error : Int}
    (hproduct : product ≡ ∑ j : Fin width, row.getD j 0 * secret.getD j 0 [ZMOD q]) :
    Holds q width secret (row :: a) ((product + error) % q :: c) (error :: errors) where
  length_rows := congrArg Nat.succ h.length_rows
  length_entries := congrArg Nat.succ h.length_entries
  length_row := List.forall_mem_cons.mpr ⟨hlength, h.length_row⟩
  range_rows := List.forall_mem_cons.mpr ⟨hrange, h.range_rows⟩
  range_entries := List.forall_mem_cons.mpr
    ⟨⟨Int.emod_nonneg _ hq.ne', Int.emod_lt_of_pos _ hq⟩, h.range_entries⟩
  congruent := by
    rintro (_ | i) hi
    · exact (Int.mod_modEq _ q).trans (hproduct.add_right error)
    · exact h.congruent i (Nat.lt_of_succ_lt_succ hi)

end Holds

/-- Errors that can be added to a residue within words. -/
def FitErrors (q : Int) (errors : List Int) : Prop :=
  ∀ e ∈ errors, -2 ^ 63 ≤ e ∧ e + q ≤ 2 ^ 63

theorem holds_samples [Scalar α] (hR : R.InRange) (hq : 0 < q) (hsmall : q * (q - 1) < 2 ^ 63)
    (sigma : α) {width : Nat} {secret : List Int} (hsecret : secret.length = width)
    (hresidues : ∀ x ∈ secret, 0 ≤ x ∧ x < q) (count : Nat) (s : ρ)
    (herrors : FitErrors q (drawnErrors R q sigma width count s)) :
    Holds q width secret (samples R q sigma secret count s).1 (samples R q sigma secret count s).2
      (drawnErrors R q sigma width count s) := by
  subst hsecret
  induction count generalizing s with
  | zero => exact .nil
  | succ count ih =>
      have hlength := length_uniformVector (R := R) (q := q) secret.length s
      have hrange := range_uniformVector hR hq secret.length s
      obtain ⟨⟨herror, herror'⟩, herrors⟩ := List.forall_mem_cons.mp herrors
      obtain ⟨hproduct, hproduct0, hproductq⟩ :=
        dotMod_modEq (Scalar.integers α) hq hsmall hlength rfl hrange hresidues
      unfold samples
      dsimp only
      rw [Integers.keep_eq]
      · exact (ih _ herrors).cons hq hlength hrange hproduct
      · unfold InInt64 maxInt64
        omega

/-! ## Whole instances -/

variable [Scalar α]

/-- The errors that an instance is generated with. -/
def plantedErrors (R : Randomness α ρ) (count : Option Nat) (n : Nat) (alpha : α) (s : ρ) :
    List Int :=
  let q := nextPrime (n * n)
  drawnErrors R q (alpha * (q : α)) n (count.getD (n * n)) (uniformVector R q n s).2

theorem plantedErrors_eq (count : Option Nat) {n : Nat} (alpha : α) {s s' : ρ} {secret : List Int}
    (hq : nextPrime (n * n) = q) (hsecret : uniformVector R q n s = (secret, s')) :
    plantedErrors R count n alpha s =
      drawnErrors R q (alpha * (q : α)) n (count.getD (n * n)) s' := by
  subst hq
  unfold plantedErrors
  dsimp only
  rw [hsecret]

theorem generate_eq_ok {count : Option Nat} {n : Nat} {alpha : α} {s s' : ρ} {secret c : List Int}
    {a : List (List Int)} (hn : 2 ≤ n) (halpha : 0 < alpha ∧ alpha < 1) (hq : nextPrime (n * n) = q)
    (hsecret : uniformVector R q n s = (secret, s'))
    (hsamples : samples R q (alpha * (q : α)) secret (count.getD (n * n)) s' = (a, c)) :
    generate R count n alpha s = .ok ⟨n, q, alpha, a, c, some secret⟩ := by
  subst hq
  unfold generate
  refine guard_eq_ok.mpr ⟨Nat.not_lt.mpr hn, ?_⟩
  refine guard_eq_ok.mpr ⟨not_not.mpr halpha, ?_⟩
  dsimp only
  rw [hsecret]
  dsimp only
  rw [hsamples]
  rfl

/-- Random numbers that only depend on how many have been drawn before. -/
def counting : Randomness Fraction Nat where
  uniform q drawn := ((drawn * drawn + 1) % q, drawn + 1)
  roundedNormal _ drawn := (1 - drawn / 3 % 3, drawn + 1)

/-- Random numbers that are the greatest there are. -/
def greatest : Randomness Fraction Unit where
  uniform q _ := (q - 1, ())
  roundedNormal _ _ := (maxInt64, ())

end Synthetic

end EmbeddingAttack
