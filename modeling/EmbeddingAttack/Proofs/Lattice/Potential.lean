import EmbeddingAttack.Proofs.Lattice.GramDeterminant
import EmbeddingAttack.Proofs.Lattice.Reducedness
import Mathlib.Order.Interval.Finset.Nat

/-!
# How long a reduction takes

The products of the first squared lengths are positive integers.  A size reduction leaves all of
them, and an exchange makes one of them smaller by the Lovász factor at least.  So in exact
arithmetic the product of those between the ends of the range bounds the number of exchanges, and
with it the number of steps: each exchange goes back by one row at most.
-/

namespace EmbeddingAttack

variable {n m : Nat}

open Finset

namespace LLL

open LatticeBasis

/-- The product of those length products that an exchange within a range of rows can change. -/
noncomputable def potential (start stop : Nat) (L : LatticeBasis ℝ n m) : ℝ :=
  ∏ i ∈ Ioo start stop, L.lengthProduct i

theorem one_le_potential {L : LatticeBasis ℝ n m} (h : L.IsCurrent) (start : Nat) {stop : Nat}
    (hstop : stop ≤ n) : 1 ≤ potential start stop L := by
  calc
    (1 : ℝ) = ∏ _i ∈ Ioo start stop, 1 := prod_const_one.symm
    _ ≤ potential start stop L := by
      apply prod_le_prod
      · intro i _
        exact zero_le_one
      · intro i hi
        rw [mem_Ioo] at hi
        exact h.one_le_lengthProduct (by omega)

theorem lengthProduct_sizeReduce (p : LLL ℝ) (k i : Nat) (L : LatticeBasis ℝ n m) :
    (sizeReduce p k L).lengthProduct i = L.lengthProduct i :=
  lengthProduct_congr fun j _ => length_sizeReduceBelow p k k j L

theorem potential_sizeReduce (p : LLL ℝ) (start stop k : Nat) (L : LatticeBasis ℝ n m) :
    potential start stop (sizeReduce p k L) = potential start stop L :=
  prod_congr rfl fun i _ => lengthProduct_sizeReduce p k i L

theorem delta_of_validate {p : LLL ℝ} (h : p.validate = .ok ()) : 0 < p.delta ∧ p.delta < 1 := by
  unfold validate at h
  obtain ⟨hdelta, -⟩ := guard_eq_ok.mp h
  rw [not_not] at hdelta
  have hquarter : (0 : ℝ) < 0.25 := by norm_num
  exact ⟨hquarter.trans hdelta.1, hdelta.2⟩

/-! ## Exchange -/

section Exchange

variable {p : LLL ℝ} {k : Nat} {L : LatticeBasis ℝ n m}

theorem lengthProduct_exchanged_of_lt (hk : k < n) {i : Nat} (hi : i < k) :
    (exchanged L k).lengthProduct i = L.lengthProduct i := by
  apply lengthProduct_congr
  intro j hj
  rw [length_exchanged (by omega), if_neg (by omega), if_neg (by omega)]

/-- An exchange keeps the product of the two lengths that it changes, and so every product that has
both. -/
theorem lengthProduct_exchanged_of_gt (hpos : 0 < k) (hk : k < n) (h : L.IsCurrent) {i : Nat}
    (hki : k < i) (hi : i ≤ n) : (exchanged L k).lengthProduct i = L.lengthProduct i := by
  obtain ⟨a, rfl⟩ : ∃ a, k = a + 1 := ⟨k - 1, by omega⟩
  have hsquare := exchangedSquare_pos hk h.gramSchmidt
  induction i, hki using Nat.le_induction with
  | base =>
      have hbefore : (exchanged L (a + 1)).lengthProduct a = L.lengthProduct a :=
        lengthProduct_exchanged_of_lt hk (Nat.lt_succ_self a)
      have hfirst : (exchanged L (a + 1)).length a = exchangedSquare L (a + 1) := by
        rw [length_exchanged (by omega), Nat.add_sub_cancel, if_pos rfl]
      have hsecond : (exchanged L (a + 1)).length (a + 1) =
          L.length a * L.length (a + 1) / exchangedSquare L (a + 1) := by
        rw [length_exchanged hk, Nat.add_sub_cancel, if_neg (by omega), if_pos rfl]
      rw [lengthProduct_succ, lengthProduct_succ, lengthProduct_succ, lengthProduct_succ, hbefore,
        hfirst, hsecond]
      field_simp
  | succ i hai ih =>
      have hsame : (exchanged L (a + 1)).length i = L.length i := by
        rw [length_exchanged (by omega), if_neg (by omega), if_neg (by omega)]
      rw [lengthProduct_succ, lengthProduct_succ, ih (by omega), hsame]

theorem exchangedSquare_lt (hlovasz : ¬ p.LovaszAt L k) :
    exchangedSquare L k < p.delta * L.length (k - 1) := by
  rw [LovaszAt, not_le, sub_mul, pow_two] at hlovasz
  unfold exchangedSquare
  linarith

theorem lengthProduct_exchanged_lt (hpos : 0 < k) (hk : k < n) (h : L.IsCurrent)
    (hlovasz : ¬ p.LovaszAt L k) :
    (exchanged L k).lengthProduct k < p.delta * L.lengthProduct k := by
  obtain ⟨a, rfl⟩ : ∃ a, k = a + 1 := ⟨k - 1, by omega⟩
  have hbefore : (exchanged L (a + 1)).lengthProduct a = L.lengthProduct a :=
    lengthProduct_exchanged_of_lt hk (Nat.lt_succ_self a)
  have hfirst : (exchanged L (a + 1)).length a = exchangedSquare L (a + 1) := by
    rw [length_exchanged (by omega), Nat.add_sub_cancel, if_pos rfl]
  have hpositive : 0 < L.lengthProduct a := h.gramSchmidt.lengthProduct_pos (by omega)
  have hlt : exchangedSquare L (a + 1) < p.delta * L.length a := exchangedSquare_lt hlovasz
  calc
    (exchanged L (a + 1)).lengthProduct (a + 1) =
        L.lengthProduct a * exchangedSquare L (a + 1) := by
      rw [lengthProduct_succ, hbefore, hfirst]
    _ < L.lengthProduct a * (p.delta * L.length a) := by gcongr
    _ = p.delta * L.lengthProduct (a + 1) := by
      rw [lengthProduct_succ]
      ring

theorem lengthProduct_exchanged_le (hdelta : p.delta < 1) (hpos : 0 < k) (hk : k < n)
    (h : L.IsCurrent) (hlovasz : ¬ p.LovaszAt L k) {i : Nat} (hi : i ≤ n) :
    (exchanged L k).lengthProduct i ≤ L.lengthProduct i := by
  rcases Nat.lt_trichotomy i k with hlt | rfl | hgt
  · exact (lengthProduct_exchanged_of_lt hk hlt).le
  · have hpositive := h.gramSchmidt.lengthProduct_pos hi
    have hfactor := lengthProduct_exchanged_lt hpos hk h hlovasz
    nlinarith
  · exact (lengthProduct_exchanged_of_gt hpos hk h hgt hi).le

theorem potential_exchanged_lt {start stop : Nat} (hstart : start < k) (hkstop : k < stop)
    (hstop : stop ≤ n) (h : L.IsCurrent) (hlovasz : ¬ p.LovaszAt L k) :
    potential start stop (exchanged L k) < p.delta * potential start stop L := by
  have hmem : k ∈ Ioo start stop := mem_Ioo.mpr ⟨hstart, hkstop⟩
  have hother : ∏ i ∈ (Ioo start stop).erase k, (exchanged L k).lengthProduct i =
      ∏ i ∈ (Ioo start stop).erase k, L.lengthProduct i := by
    apply prod_congr rfl
    intro i hi
    rw [mem_erase, mem_Ioo] at hi
    rcases Nat.lt_or_gt_of_ne hi.1 with hlt | hgt
    · exact lengthProduct_exchanged_of_lt (by omega) hlt
    · exact lengthProduct_exchanged_of_gt (by omega) (by omega) h hgt (by omega)
  have hpositive : 0 < ∏ i ∈ (Ioo start stop).erase k, L.lengthProduct i := by
    apply prod_pos
    intro i hi
    rw [mem_erase, mem_Ioo] at hi
    exact h.gramSchmidt.lengthProduct_pos (by omega)
  have hlt := lengthProduct_exchanged_lt (by omega) (by omega) h hlovasz
  unfold potential
  rw [← mul_prod_erase _ _ hmem, ← mul_prod_erase _ L.lengthProduct hmem, hother, ← mul_assoc]
  gcongr

end Exchange

/-! ## Steps -/

/-- What a step does to the products of squared lengths, which stay positive integers. -/
structure Turn.Lowers (p : LLL ℝ) (start stop : Nat) (turn : Turn ℝ n m) : Prop where
  integral : ∀ i ≤ n, ∃ d : ℕ, 0 < d ∧ turn.after.lengthProduct i = d
  products : ∀ i ≤ n, turn.after.lengthProduct i ≤ turn.before.lengthProduct i
  kept : turn.exchanges = false →
    potential start stop turn.after = potential start stop turn.before
  lowered : turn.exchanges = true →
    potential start stop turn.after < p.delta * potential start stop turn.before

section Steps

variable {p : LLL ℝ} {start stop k k' : Nat} {L L' M : LatticeBasis ℝ n m}
  {turns turns' : List (Turn ℝ n m)}

theorem lowers_advance (hk : k < n) (h : L.IsCurrent) :
    (⟨L, sizeReduce p k L, false⟩ : Turn ℝ n m).Lowers p start stop where
  integral _ hi := (isCurrent_sizeReduce p hk h).exists_lengthProduct_eq hi
  products i _ := (lengthProduct_sizeReduce p k i L).le
  kept _ := potential_sizeReduce p start stop k L
  lowered hexchanges := by cases hexchanges

theorem lowers_exchange (hdelta : p.delta < 1) (hstart : start < k) (hkstop : k < stop)
    (hstop : stop ≤ n) (h : L.IsCurrent) (hlovasz : p.lovasz (sizeReduce p k L) k = false)
    (hexchange : LLL.exchange k (sizeReduce p k L) = .ok () M) :
    (⟨L, M, true⟩ : Turn ℝ n m).Lowers p start stop ∧ M.IsCurrent := by
  have hkn : k < n := by omega
  have hcurrent : (sizeReduce p k L).IsCurrent := isCurrent_sizeReduce p hkn h
  have hnot : ¬ p.LovaszAt (sizeReduce p k L) k := by
    rw [← lovasz_iff, hlovasz]
    exact Bool.false_ne_true
  obtain ⟨-, rfl⟩ := exchange_eq_ok_iff.mp hexchange
  have hcurrent' := isCurrent_exchanged (by omega) hkn hcurrent
  refine ⟨?_, hcurrent'⟩
  exact {
    integral := fun i hi => hcurrent'.exists_lengthProduct_eq hi
    products := by
      intro i hi
      rw [← lengthProduct_sizeReduce p k i L]
      exact lengthProduct_exchanged_le hdelta (by omega) hkn hcurrent hnot hi
    kept := fun hexchanges => by cases hexchanges
    lowered := by
      intro _
      rw [← potential_sizeReduce p start stop k L]
      exact potential_exchanged_lt hstart hkstop hstop hcurrent hnot }

/-- Every step of a reduction lowers the products, and the data stay current. -/
theorem Steps.lowers (hsteps : p.Steps start stop k L turns k' L') (hdelta : p.delta < 1)
    (hstart : start < k) (hstop : stop ≤ n) (h : L.IsCurrent) :
    (∀ turn ∈ turns, turn.Lowers p start stop) ∧ L'.IsCurrent := by
  induction hsteps with
  | stay k L => exact ⟨by simp, h⟩
  | @advance k k' L L' turns hk hlovasz rest ih =>
      have hkn : k < n := by omega
      obtain ⟨hturns, hL'⟩ := ih (by omega) (isCurrent_sizeReduce p hkn h)
      exact ⟨List.forall_mem_cons.mpr ⟨lowers_advance hkn h, hturns⟩, hL'⟩
  | exchange hk hlovasz hexchange rest ih =>
      obtain ⟨hturn, hM⟩ := lowers_exchange hdelta hstart hk hstop h hlovasz hexchange
      obtain ⟨hturns, hL'⟩ := ih (by split <;> omega) hM
      exact ⟨List.forall_mem_cons.mpr ⟨hturn, hturns⟩, hL'⟩

theorem lengthProduct_of_sameData (h : L.SameData M) (i : Nat) :
    L.lengthProduct i = M.lengthProduct i :=
  lengthProduct_congr fun j _ => h.length j

theorem potential_of_sameData (h : L.SameData M) :
    potential start stop L = potential start stop M :=
  prod_congr rfl fun i _ => lengthProduct_of_sameData h i

theorem Turn.SameData.lowers {t u : Turn ℝ n m} (h : t.SameData u) (ht : t.Lowers p start stop) :
    u.Lowers p start stop where
  integral i hi := by
    rw [← lengthProduct_of_sameData h.after]
    exact ht.integral i hi
  products i hi := by
    rw [← lengthProduct_of_sameData h.after, ← lengthProduct_of_sameData h.before]
    exact ht.products i hi
  kept hexchanges := by
    rw [← potential_of_sameData h.after, ← potential_of_sameData h.before]
    exact ht.kept (h.exchanges.trans hexchanges)
  lowered hexchanges := by
    rw [← potential_of_sameData h.after, ← potential_of_sameData h.before]
    exact ht.lowered (h.exchanges.trans hexchanges)

theorem forall_lowers_of_sameData (h : List.Forall₂ Turn.SameData turns turns')
    (hturns : ∀ turn ∈ turns, turn.Lowers p start stop) :
    ∀ turn ∈ turns', turn.Lowers p start stop := by
  induction h with
  | nil => simp
  | cons hturn _ ih =>
      obtain ⟨hfirst, hrest⟩ := List.forall_mem_cons.mp hturns
      exact List.forall_mem_cons.mpr ⟨hturn.lowers hfirst, ih hrest⟩

/-- The exchanges of a reduction, each by the Lovász factor at least, have taken the potential to
what it is. -/
theorem Steps.potential_le {S : Scalar ℝ} (hsteps : @Steps ℝ n m S p start stop k L turns k' L')
    (hdelta : 0 ≤ p.delta) (hturns : ∀ turn ∈ turns, turn.Lowers p start stop) :
    potential start stop L' ≤
      p.delta ^ turns.countP (·.exchanges) * potential start stop L := by
  induction hsteps with
  | stay k L => simp
  | advance hk hlovasz rest ih =>
      obtain ⟨hturn, hrest⟩ := List.forall_mem_cons.mp hturns
      have hkept := hturn.kept rfl
      rw [List.countP_cons_of_neg (by simp), ← hkept]
      exact ih hrest
  | @exchange k k' L M L' turns hk hlovasz hexchange rest ih =>
      obtain ⟨hturn, hrest⟩ := List.forall_mem_cons.mp hturns
      have hlowered := hturn.lowered rfl
      rw [List.countP_cons_of_pos rfl]
      calc
        potential start stop L' ≤
            p.delta ^ turns.countP (·.exchanges) * potential start stop M := ih hrest
        _ ≤ p.delta ^ turns.countP (·.exchanges) * (p.delta * potential start stop L) := by
          gcongr
        _ = p.delta ^ (turns.countP (·.exchanges) + 1) * potential start stop L := by ring

end Steps

/-! ## The whole reduction -/

/-- From current data a reduction can go on until its last row or until its budget is spent. -/
theorem exists_steps (p : LLL ℝ) {start stop : Nat} (hstop : stop ≤ n) (budget : Nat) {k : Nat}
    (hk : start < k) {L : LatticeBasis ℝ n m} (h : L.IsCurrent) :
    ∃ turns k' L', p.Steps start stop k L turns k' L' ∧ turns.length ≤ budget ∧
      (stop ≤ k' ∨ k' < stop ∧ turns.length = budget) := by
  induction budget generalizing k L with
  | zero => exact ⟨[], k, L, .stay k L, le_rfl, (le_or_gt stop k).imp_right fun hlt => ⟨hlt, rfl⟩⟩
  | succ budget ih =>
      by_cases hkstop : k < stop
      · have hkn : k < n := by omega
        have hcurrent : (sizeReduce p k L).IsCurrent := isCurrent_sizeReduce p hkn h
        cases hlovasz : p.lovasz (sizeReduce p k L) k with
        | true =>
            obtain ⟨turns, k', L', hsteps, hlength, hend⟩ := ih (k := k + 1) (by omega) hcurrent
            refine ⟨_, k', L', .advance hkstop hlovasz hsteps, Nat.succ_le_succ hlength, ?_⟩
            exact hend.imp_right fun hstops => ⟨hstops.1, congrArg Nat.succ hstops.2⟩
        | false =>
            have hexchange := exchange_eq_ok_iff.mpr
              ⟨exchangedSquare_pos hkn hcurrent.gramSchmidt, rfl⟩
            obtain ⟨turns, k', L', hsteps, hlength, hend⟩ :=
              ih (k := if start + 1 < k then k - 1 else k) (by split <;> omega)
                (isCurrent_exchanged (by omega) hkn hcurrent)
            refine ⟨_, k', L', .exchange hkstop hlovasz hexchange hsteps,
              Nat.succ_le_succ hlength, ?_⟩
            exact hend.imp_right fun hstops => ⟨hstops.1, congrArg Nat.succ hstops.2⟩
      · exact ⟨[], k, L, .stay k L, Nat.zero_le _, .inl (by omega)⟩

/-- A reduction of independent rows takes the steps that it can, and its only failure is that they
are more than allowed. -/
theorem exists_steps_of_reduceRange {p : LLL ℝ} {start stop : Nat} {L L₀ : LatticeBasis ℝ n m}
    (hvalid : p.validate = .ok ()) (hstart : start < stop) (hstop : stop ≤ n)
    (hL₀ : orthogonalize L = .ok () L₀) (hcurrent : L₀.IsCurrent) :
    ∃ turns k L', p.Steps start stop (start + 1) (sizeReduce p start L₀) turns k L' ∧
      turns.length ≤ p.maxIterations ∧
      (stop ≤ k ∧ p.reduceRange start stop L =
          .ok ⟨turns.countP (·.exchanges), turns.length, 0⟩ L' ∨
        k < stop ∧ turns.length = p.maxIterations ∧
          p.reduceRange start stop L =
            .error (.numerical (.notConverged p.maxIterations)) L') := by
  have hfirst : (sizeReduce p start L₀).IsCurrent := isCurrent_sizeReduce p (by omega) hcurrent
  obtain ⟨turns, k, L', hsteps, hlength, hend⟩ :=
    exists_steps p hstop p.maxIterations (Nat.lt_succ_self start) hfirst
  obtain ⟨-, hL'⟩ := hsteps.lowers (delta_of_validate hvalid).2 (Nat.lt_succ_self start) hstop
    hfirst
  refine ⟨turns, k, L', hsteps, hlength, ?_⟩
  rw [reduceRange_eq_run hvalid hstart hstop hL₀]
  rcases hend with hk | ⟨hk, hstops⟩
  · rw [bind_of_ok (hsteps.run_ends hlength hk), bind_of_ok hL']
    exact .inl ⟨hk, rfl⟩
  · rw [← hstops]
    exact .inr ⟨hk, rfl, bind_of_error (hsteps.run_stops hk)⟩

/-- As long as its integers fit in words, it takes the same steps on words. -/
theorem exists_steps_onWords {p : LLL ℝ} {start stop : Nat} {L L₀ : LatticeBasis ℝ n m}
    (hvalid : p.validate = .ok ()) (hstart : start < stop) (hstop : stop ≤ n)
    (hL₀ : orthogonalize L = .ok () L₀) (hcurrent : L₀.IsCurrent)
    (hfits : FitsWords realWords fun S => @reduceRange ℝ S n m p start stop L) :
    ∃ turns turns' k L', p.Steps start stop (start + 1) (sizeReduce p start L₀) turns k L' ∧
      @Steps ℝ n m realWords p start stop (start + 1) (@sizeReduce ℝ realWords n m p start L₀)
        turns' k L' ∧
      List.Forall₂ Turn.SameData turns turns' ∧
      (stop ≤ k ∧ @reduceRange ℝ realWords n m p start stop L =
          .ok ⟨turns'.countP (·.exchanges), turns'.length, 0⟩ L' ∨
        k < stop ∧ turns'.length = p.maxIterations ∧
          @reduceRange ℝ realWords n m p start stop L =
            .error (.numerical (.notConverged p.maxIterations)) L') := by
  obtain ⟨turns, k, L', hsteps, hlength, hend⟩ :=
    exists_steps_of_reduceRange hvalid hstart hstop hL₀ hcurrent
  obtain ⟨turns', M', hsteps', hturns, hdata⟩ := hsteps.onWords (S := realWords)
    (sameData_sizeReduce realWords p ⟨rfl, rfl⟩ start)
  have hwords := @reduceRange_eq_run ℝ n m realWords p start stop L L₀ hvalid hstart hstop
    ((orthogonalize_words L).trans hL₀)
  have hsame : @reduceRange ℝ realWords n m p start stop L = p.reduceRange start stop L := hfits
  rw [hturns.length_eq] at hlength hend
  rcases hend with ⟨hk, hresult⟩ | ⟨hk, hstops, hresult⟩
  · -- The data of the last step are those of the result, and so are its rows.
    have hresult' := hsame.trans hresult
    rw [hwords, bind_of_ok (hsteps'.run_ends hlength hk)] at hresult'
    obtain ⟨u, K, horthogonalize, hK⟩ := exists_of_bind_ok hresult'
    obtain ⟨hstats, rfl⟩ := EStateM.Result.ok.inj hK
    have hbasis := @conserves_basis_orthogonalize ℝ n m realWords M'
    rw [horthogonalize] at hbasis
    obtain rfl := hdata.eq_of_basis hbasis
    refine ⟨turns, turns', k, K, hsteps, hsteps', hturns, .inl ⟨hk, ?_⟩⟩
    rw [hsame, hresult, ← hstats]
  · have hrun := hsteps'.run_stops hk
    rw [hstops] at hrun
    have hresult' := hsame.trans hresult
    rw [hwords, bind_of_error hrun] at hresult'
    obtain ⟨-, rfl⟩ := EStateM.Result.error.inj hresult'
    exact ⟨turns, turns', k, M', hsteps, hsteps', hturns,
      .inr ⟨hk, hstops, hsame.trans hresult⟩⟩

/-- There is a greatest number of factors below one that take a number down to one at most. -/
theorem exists_isGreatest_pow {x y : ℝ} (hx : 0 < x) (hx' : x < 1) (hy : 1 ≤ y) :
    ∃ most : ℕ, IsGreatest {s : ℕ | 1 ≤ x ^ s * y} most := by
  have hpos : 0 < y := zero_lt_one.trans_le hy
  obtain ⟨bound, hbound⟩ := exists_pow_lt_of_lt_one (inv_pos.mpr hpos) hx'
  have hbounded : BddAbove {s : ℕ | 1 ≤ x ^ s * y} := by
    refine ⟨bound, fun s hs => ?_⟩
    by_contra hlt
    have hpow : x ^ s ≤ x ^ bound := pow_le_pow_of_le_one hx.le hx'.le (by omega)
    have hprod : x ^ s * y < 1 := by
      calc
        x ^ s * y ≤ x ^ bound * y := by gcongr
        _ < y⁻¹ * y := by gcongr
        _ = 1 := inv_mul_cancel₀ hpos.ne'
    exact absurd hs (not_le.mpr hprod)
  have hzero : 0 ∈ {s : ℕ | 1 ≤ x ^ s * y} := by simpa using hy
  exact ⟨_, Nat.sSup_mem ⟨0, hzero⟩ hbounded, fun s hs => le_csSup hbounded hs⟩

/-- In exact arithmetic, and as long as the integers of the rows fit in words, the steps of a
reduction of independent rows never make a product of first squared lengths greater, all of which
are positive integers, and each exchange makes the potential smaller by more than the Lovász factor.
This bounds the exchanges, and the exchanges bound the steps from both sides, so that the reduction
ends within a number of steps known in advance. -/
theorem reduceRange_bounded_by_potential (p : LLL ℝ) (start stop : Nat) (L : LatticeBasis ℝ n m)
    (hrows : LinearIndependent ℤ L.basis.vector) (hvalid : @validate ℝ realWords p = .ok ())
    (hstart : start < stop) (hstop : stop ≤ n)
    (hfits : FitsWords realWords fun S => @reduceRange ℝ S n m p start stop L) :
    ∃ (L₀ L' : LatticeBasis ℝ n m) (turns : List (Turn ℝ n m)) (k : Nat),
      @orthogonalize ℝ realWords n m L = .ok () L₀ ∧
      finalState (@reduceRange ℝ realWords n m p start stop L) = L' ∧
      @Steps ℝ n m realWords p start stop (start + 1) (@sizeReduce ℝ realWords n m p start L₀)
        turns k L' ∧
      (∀ i ≤ n, (∃ d : ℕ, 0 < d ∧ L₀.lengthProduct i = d) ∧
        (@sizeReduce ℝ realWords n m p start L₀).lengthProduct i = L₀.lengthProduct i) ∧
      (∀ turn ∈ turns, ∀ i ≤ n, (∃ d : ℕ, 0 < d ∧ turn.after.lengthProduct i = d) ∧
        turn.after.lengthProduct i ≤ turn.before.lengthProduct i) ∧
      (∀ turn ∈ turns, turn.exchanges = true →
        potential start stop turn.after < p.delta * potential start stop turn.before) ∧
      (potential start stop L' ≤
          p.delta ^ turns.countP (·.exchanges) * potential start stop L₀ ∧
        1 ≤ potential start stop L') ∧
      (∀ stats L'', @reduceRange ℝ realWords n m p start stop L = .ok stats L'' →
        stats = ⟨turns.countP (·.exchanges), turns.length, 0⟩ ∧
        stats.changes + (stop - start - 1) ≤ stats.iterations ∧
        stats.iterations ≤ 2 * stats.changes + (stop - start - 1)) ∧
      ∃ most : ℕ, IsGreatest {s : ℕ | 1 ≤ p.delta ^ s * potential start stop L₀} most ∧
        (2 * most + (stop - start - 1) ≤ p.maxIterations →
          ∃ stats L'', @reduceRange ℝ realWords n m p start stop L = .ok stats L'') := by
  obtain ⟨hdelta, hdelta'⟩ := delta_of_validate hvalid
  obtain ⟨L₀, hL₀⟩ := exists_orthogonalize_of_independent hrows
  have hcurrent : L₀.IsCurrent := ensures_isCurrent_orthogonalize L () L₀ trivial hL₀
  have hfirst : (sizeReduce p start L₀).IsCurrent := isCurrent_sizeReduce p (by omega) hcurrent
  obtain ⟨exactTurns, turns, k, L', hexact, hsteps, hsame, hresult⟩ :=
    exists_steps_onWords hvalid hstart hstop hL₀ hcurrent hfits
  obtain ⟨hlowers, hL'⟩ := hexact.lowers hdelta' (Nat.lt_succ_self start) hstop hfirst
  have hturns := forall_lowers_of_sameData hsame hlowers
  have hreduced (i : Nat) :
      (@sizeReduce ℝ realWords n m p start L₀).lengthProduct i = L₀.lengthProduct i :=
    (lengthProduct_of_sameData (sameData_sizeReduce realWords p ⟨rfl, rfl⟩ start) i).symm.trans
      (lengthProduct_sizeReduce p start i L₀)
  have hpotential : potential start stop L' ≤
      p.delta ^ turns.countP (·.exchanges) * potential start stop L₀ :=
    (hsteps.potential_le hdelta.le hturns).trans_eq
      (congrArg _ (prod_congr rfl fun i _ => hreduced i))
  have hone : 1 ≤ potential start stop L' := one_le_potential hL' start hstop
  obtain ⟨hk, hupper, hlower⟩ := hsteps.count hstart
  obtain ⟨most, hmost⟩ :=
    exists_isGreatest_pow hdelta hdelta' (one_le_potential hcurrent start hstop)
  have hswaps : turns.countP (·.exchanges) ≤ most := hmost.2 (hone.trans hpotential)
  refine ⟨L₀, L', turns, k, (orthogonalize_words L).trans hL₀, ?_, hsteps, ?_, ?_,
    fun turn hturn => (hturns turn hturn).lowered, ⟨hpotential, hone⟩, ?_, most, hmost, ?_⟩
  · obtain ⟨-, hresult⟩ | ⟨-, -, hresult⟩ := hresult <;> rw [hresult] <;> rfl
  · intro i hi
    exact ⟨hcurrent.exists_lengthProduct_eq hi, hreduced i⟩
  · intro turn hturn i hi
    exact ⟨(hturns turn hturn).integral i hi, (hturns turn hturn).products i hi⟩
  · intro stats L'' hstats
    obtain ⟨hend, hresult⟩ | ⟨-, -, hresult⟩ := hresult
    · rw [hresult] at hstats
      cases hstats
      refine ⟨rfl, ?_, ?_⟩ <;> dsimp only <;> omega
    · rw [hresult] at hstats
      cases hstats
  · intro hbudget
    obtain ⟨-, hresult⟩ | ⟨hend, hlength, -⟩ := hresult
    · exact ⟨_, _, hresult⟩
    · -- A run that is cut short has made more steps than its exchanges allow.
      omega

/-! ## Two slanted rows -/

open Fraction

/-- A Lovász factor of one half, and five steps. -/
def halving {α : Type} [Scalar α] : LLL α :=
  ⟨0.5, 0.6, 5, 0⟩

theorem validate_halving : (halving : LLL ℝ).validate = .ok () := by
  have hfactor : (0.25 : ℝ) < 0.5 ∧ (0.5 : ℝ) < 1 := by norm_num
  have hbound : (0.5 : ℝ) ≤ 0.6 ∧ (0.6 : ℝ) < Real.sqrt 0.5 :=
    ⟨by norm_num, Real.lt_sqrt_of_sq_lt (by norm_num)⟩
  unfold validate
  apply guard_eq_ok.mpr
  refine ⟨not_not.mpr hfactor, ?_⟩
  exact guard_eq_ok.mpr ⟨not_not.mpr hbound, rfl⟩

theorem potential_two (L : LatticeBasis ℝ 2 m) : potential 0 2 L = L.length 0 := by
  have hrange : Ioo 0 2 = {1} := rfl
  rw [potential, hrange, prod_singleton, lengthProduct, prod_range_one]

theorem isGreatest_halvings : IsGreatest {s : ℕ | 1 ≤ (1 / 2 : ℝ) ^ s * 4} 2 := by
  constructor
  · norm_num
  · intro s hs
    by_contra hlt
    have hpow : (1 / 2 : ℝ) ^ s ≤ (1 / 2) ^ 3 :=
      pow_le_pow_of_le_one (by norm_num) (by norm_num) (by omega)
    have hone : 1 ≤ (1 / 2 : ℝ) ^ s * 4 := hs
    linarith

theorem fitsWords_halving_slanted : FitsWords realWords fun S =>
    @reduceRange ℝ S 2 2 (@halving _ realScalar) 0 2 (slantedBasis.map toReal) := by
  have hmap : (halving : LLL Fraction).map toReal = halving := by
    have hom := scalarHom_toReal .words
    simp only [LLL.map, halving, hom.image_ofScientific, hom.image_zero]
  have hrun : reduceRange (halving : LLL Fraction) 0 2 slantedBasis = .ok ⟨0, 1, 0⟩
      ⟨⟨#v[#v[2, 0], #v[-1, 1]]⟩, #v[#v[1, 0], #v[(-1 / 2 : ℚ), 1]], #v[(4 : ℚ), 1]⟩ := by
    decide +kernel
  exact fitsWords_reduceRange_toReal hmap validate_halving hrun (by decide +kernel)

/-- Four can be halved twice, so that two exchanges and five steps are enough. -/
theorem reduceRange_slanted_within_five_steps :
    let L : LatticeBasis ℝ 2 2 := slantedBasis.map toReal
    LinearIndependent ℤ L.basis.vector ∧ @validate ℝ realWords halving = .ok () ∧
      (FitsWords realWords fun S => @reduceRange ℝ S 2 2 (@halving _ realScalar) 0 2 L) ∧
      ∃ stats L', @reduceRange ℝ realWords 2 2 halving 0 2 L = .ok stats L' ∧
        stats.changes ≤ 2 ∧ stats.changes + 1 ≤ stats.iterations ∧
        stats.iterations ≤ 2 * stats.changes + 1 := by
  intro L
  have hrows : LinearIndependent ℤ L.basis.vector := Update.linearIndependent_slanted
  obtain ⟨L₀, L', turns, k, hL₀, -, -, -, -, -, ⟨hpotential, hone⟩, hstats, most, hmost, hends⟩ :=
    reduceRange_bounded_by_potential halving 0 2 L hrows validate_halving Nat.two_pos le_rfl
      fitsWords_halving_slanted
  rw [orthogonalize_slanted] at hL₀
  cases hL₀
  have hdelta : (halving : LLL ℝ).delta = 1 / 2 := by
    change (0.5 : ℝ) = 1 / 2
    norm_num
  have hfour : potential 0 2 L = 4 := (potential_two L).trans length_slanted_zero
  rw [hfour, hdelta] at hmost hpotential
  have htwo : most = 2 := hmost.unique isGreatest_halvings
  have hbudget : (halving : LLL ℝ).maxIterations = 5 := rfl
  obtain ⟨stats, L'', hresult⟩ := hends (by omega)
  obtain ⟨hcounted, hlower, hupper⟩ := hstats stats L'' hresult
  have hswaps : stats.changes ≤ 2 := by
    rw [hcounted]
    exact isGreatest_halvings.2 (hone.trans hpotential)
  exact ⟨hrows, validate_halving, fitsWords_halving_slanted, stats, L'', hresult, hswaps, hlower,
    hupper⟩

/-- Where the multiple to take off is no word, the first squared length grows from two to three. -/
theorem reduce_steep_raises_potential :
    let L : LatticeBasis ℝ 2 3 := steepBasis.map toReal
    LinearIndependent ℤ L.basis.vector ∧ @validate ℝ realWords standard = .ok () ∧
      @orthogonalize ℝ realWords 2 3 L = .ok () L ∧
      ∃ L', @reduceRange ℝ realWords 2 3 standard 0 2 L = .ok ⟨1, 2, 0⟩ L' ∧
        L.lengthProduct 1 < L'.lengthProduct 1 ∧ potential 0 2 L < potential 0 2 L' := by
  intro L
  have hlength : L.length 0 = 2 := length_steep_zero
  have hlength' : (tiltedBasis.map toReal).length 0 = 3 := length_tilted_zero
  refine ⟨Update.linearIndependent_steep, validate_standard_words, orthogonalize_steep, _,
    reduce_steep, ?_, ?_⟩
  · rw [lengthProduct, lengthProduct, prod_range_one, prod_range_one, hlength, hlength']
    norm_num
  · rw [potential_two, potential_two, hlength, hlength']
    norm_num

end LLL

end EmbeddingAttack
