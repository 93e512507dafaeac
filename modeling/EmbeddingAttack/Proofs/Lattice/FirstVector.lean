import EmbeddingAttack.Proofs.Lattice.CarriedSearches
import EmbeddingAttack.Proofs.Lattice.ExactInsertion
import EmbeddingAttack.Proofs.Lattice.LiftNorm
import EmbeddingAttack.Proofs.Lattice.Potential
import EmbeddingAttack.Proofs.Lattice.ShortestVector

/-!
# The first vector gets no longer

In exact arithmetic.  A reduction lowers the first product of squared lengths or leaves it, a block
is improved only by a vector below the length that its first row has, and a search inserts at the
front of the basis only what is shorter than the first row.  An insertion further back leaves the
first row.  So no search and no tour makes the first vector longer, and with the lattice the product
of all squared lengths stays as well.
-/

namespace EmbeddingAttack

variable {n m : Nat}

open Finset

namespace LatticeBasis

open IntMatrix

/-! ## Insertions -/

/-- An insertion at the front makes a first row that is no longer than the combination, and one
further back leaves the first row. -/
theorem length_zero_of_insert {L L' : LatticeBasis ℝ n m} {start : Nat} {c : List Int}
    (hn : 0 < n) (h : L.IsCurrent) (hrun : insertCombination start c L = .ok () L') :
    L'.IsCurrent ∧ (0 < start → L'.length 0 = L.length 0) ∧
      (start = 0 → L'.length 0 ≤ L.blockNorm 0 c) := by
  obtain ⟨-, hc⟩ := valid_of_insertCombination hrun
  have hinserts := inserts_of_insertCombination h hrun
  refine ⟨hinserts.current, fun hstart => hinserts.kept 0 hn (.inl hstart), fun hstart => ?_⟩
  subst hstart
  exact hinserts.length_le hc hn

/-- The cached data are current, and the squared length of the first row is at most `b`. -/
def FirstWithin (b : ℝ) (L : LatticeBasis ℝ n m) : Prop :=
  L.IsCurrent ∧ L.length 0 ≤ b

theorem firstWithin_of_insert {b : ℝ} {L L' : LatticeBasis ℝ n m} {start : Nat} {c : List Int}
    (hn : 0 < n) (h : L.FirstWithin b) (hc : start = 0 → L.blockNorm 0 c ≤ L.length 0)
    (hrun : insertCombination start c L = .ok () L') : L'.FirstWithin b := by
  obtain ⟨hcurrent, hback, hfront⟩ := length_zero_of_insert hn h.1 hrun
  refine ⟨hcurrent, ?_⟩
  rcases Nat.eq_zero_or_pos start with hstart | hstart
  · exact (hfront hstart).trans ((hc hstart).trans h.2)
  · exact (hback hstart).trans_le h.2

end LatticeBasis

/-! ## Reductions -/

namespace LLL

open LatticeBasis

theorem Steps.lengthProduct_le {p : LLL ℝ} {start stop k k' : Nat} {L L' : LatticeBasis ℝ n m}
    {turns : List (Turn ℝ n m)} (hsteps : p.Steps start stop k L turns k' L')
    (hturns : ∀ turn ∈ turns, turn.Lowers p start stop) {i : Nat} (hi : i ≤ n) :
    L'.lengthProduct i ≤ L.lengthProduct i := by
  induction hsteps with
  | stay k L => exact le_rfl
  | advance hk hlovasz rest ih =>
      obtain ⟨hturn, hrest⟩ := List.forall_mem_cons.mp hturns
      exact (ih hrest).trans (hturn.products i hi)
  | exchange hk hlovasz hexchange rest ih =>
      obtain ⟨hturn, hrest⟩ := List.forall_mem_cons.mp hturns
      exact (ih hrest).trans (hturn.products i hi)

theorem valid_of_reduceRange {p : LLL ℝ} {start stop : Nat} {L L' : LatticeBasis ℝ n m}
    {stats : Statistics} (h : p.reduceRange start stop L = .ok stats L') :
    p.validate = .ok () ∧ start < stop ∧ stop ≤ n := by
  have hvalid : Ensures (fun _ : LatticeBasis ℝ n m => True) (p.reduceRange start stop)
      fun _ _ => p.validate = .ok () ∧ start < stop ∧ stop ≤ n := by
    unfold reduceRange
    refine Ensures.bind (Q := fun _ _ => p.validate = .ok ())
      (Ensures.ofExcept fun _ _ hok _ => hok) fun _ => ?_
    refine Ensures.guard fun hrange => ?_
    intro s a s' hok _
    exact ⟨hok, by omega⟩
  exact hvalid L stats L' trivial h

theorem firstWithin_reduceRange (p : LLL ℝ) (start stop : Nat) (b : ℝ) (hn : 0 < n) :
    Ensures (FirstWithin b : LatticeBasis ℝ n m → Prop) (p.reduceRange start stop)
      fun _ => FirstWithin b := by
  rintro L stats L' ⟨hcurrent, hle⟩ hrun
  obtain ⟨hvalid, hstart, hstop⟩ := valid_of_reduceRange hrun
  obtain ⟨turns, k, M, hsteps, -, hresult⟩ :=
    exists_steps_of_reduceRange hvalid hstart hstop hcurrent hcurrent
  have hM : M = L' := by
    rcases hresult with ⟨-, hok⟩ | ⟨-, -, herror⟩
    · rw [hrun] at hok
      cases hok
      rfl
    · rw [hrun] at herror
      cases herror
  subst hM
  obtain ⟨hturns, hM⟩ := hsteps.lowers (delta_of_validate hvalid).2 (Nat.lt_succ_self start) hstop
    (isCurrent_sizeReduce p (by omega) hcurrent)
  have hproduct := hsteps.lengthProduct_le hturns hn
  rw [lengthProduct_sizeReduce] at hproduct
  have hone (K : LatticeBasis ℝ n m) : K.lengthProduct 1 = K.length 0 := by
    simp [lengthProduct]
  rw [hone, hone] at hproduct
  exact ⟨hM, hproduct.trans hle⟩

end LLL

/-! ## Searches -/

namespace LatticeBasis

theorem radiusFactor_of_validate {p : SearchLimits ℝ} (h : p.validate = .ok ()) :
    p.radiusFactor ≤ 1 := by
  unfold SearchLimits.validate at h
  obtain ⟨-, h⟩ := guard_eq_ok.mp h
  obtain ⟨-, h⟩ := guard_eq_ok.mp h
  obtain ⟨hfactor, -⟩ := guard_eq_ok.mp h
  exact (not_not.mp hfactor).2

/-- What an enumeration of a current basis reports: vectors of the block inside the radius, none of
which is zero, with their squared lengths. -/
theorem found_of_enumerate {L : LatticeBasis ℝ n m} {p : SearchLimits ℝ} {start stop : Nat}
    {radius : ℝ} {f : Findings ℝ} (h : L.IsCurrent) (hf : L.enumerate p start stop radius = .ok f) :
    p.validate = .ok () ∧ start < stop ∧ stop ≤ n ∧ ∀ c ∈ f.candidates,
      c.coefficients.length = stop - start ∧ (∃ x ∈ c.coefficients, x ≠ 0) ∧
        c.normSquared = L.blockNorm start c.coefficients ∧ c.normSquared < radius := by
  obtain ⟨hvalid, hstart, hstop⟩ := block_of_enumerate hf
  obtain ⟨s, henumerate, hsound, -⟩ := L.exists_enumerate radius hvalid hstart hstop
    fun j _ hj => h.gramSchmidt.positive j (by omega)
  rw [hf] at henumerate
  cases henumerate
  refine ⟨hvalid, hstart, hstop, fun c hc => ?_⟩
  obtain ⟨hlength, hnonzero, hnorm, -, hlt⟩ := hsound.found c (List.mem_reverse.mp hc)
  exact ⟨hlength, hnonzero, hnorm, hlt⟩

section Searches

variable {b : ℝ} (hn : 0 < n)

include hn

theorem firstWithin_improveBlock (p : SearchLimits ℝ) (start stop : Nat) :
    Ensures (FirstWithin b : LatticeBasis ℝ n m → Prop) (improveBlock p start stop)
      fun _ => FirstWithin b := by
  unfold improveBlock
  refine Ensures.get.bind fun L => ?_
  split
  case h_2 => exact Ensures.throw _
  rename_i length hlength
  refine Ensures.bind (Q := fun f s => s = L ∧ L.FirstWithin b ∧
    L.enumerate p start stop (p.radiusFactor * length) = .ok f) (Ensures.ofExcept ?_) fun f => ?_
  · rintro f s hf ⟨rfl, hs⟩
    exact ⟨rfl, hs, hf⟩
  refine Ensures.assume fun ⟨hL, hf⟩ => ?_
  split
  · exact Ensures.pure fun s hs => hs ▸ hL
  rename_i best hbest
  refine Ensures.bind (Q := fun _ => FirstWithin b) ?_ fun _ => Ensures.pure fun _ hs => hs
  intro s u L' hs hrun
  rw [hs] at hrun
  obtain ⟨hvalid, hstart, hstop, hfound⟩ := found_of_enumerate hL.1 hf
  obtain ⟨-, -, hnorm, hlt⟩ := hfound best (List.mem_of_getLast? hbest)
  refine firstWithin_of_insert hn hL (fun hzero => ?_) hrun
  subst hzero
  have hfirst : L.length 0 = length := by
    rw [length?, Vector.getElem?_eq_getElem hn, Option.some_inj] at hlength
    rw [length_of_lt L hn, hlength]
  have hpos := hL.1.gramSchmidt.positive 0 hn
  calc
    L.blockNorm 0 best.coefficients ≤ p.radiusFactor * length := by
      rw [← hnorm]
      exact hlt.le
    _ ≤ 1 * L.length 0 := by
      rw [← hfirst]
      exact mul_le_mul_of_nonneg_right (radiusFactor_of_validate hvalid) hpos.le
    _ = L.length 0 := one_mul _

theorem blockNorm_le_of_shorter {L : LatticeBasis ℝ n m} (hL : L.IsCurrent) {c : List Int}
    (h : L.blockNorm 0 c < L.length 0 * (1 - 1e-9)) : L.blockNorm 0 c ≤ L.length 0 := by
  have hpos := hL.gramSchmidt.positive 0 hn
  have hfactor : (1 : ℝ) - 1e-9 ≤ 1 := by norm_num
  calc
    L.blockNorm 0 c ≤ L.length 0 * (1 - 1e-9) := h.le
    _ ≤ L.length 0 * 1 := mul_le_mul_of_nonneg_left hfactor hpos.le
    _ = L.length 0 := mul_one _

theorem firstWithin_searchWindow (p : SearchLimits ℝ) (first window free liftTo : Nat) (goal : ℝ) :
    Ensures (FirstWithin b : LatticeBasis ℝ n m → Prop)
      (searchWindow p first window free liftTo goal) fun _ => FirstWithin b := by
  have hpure {τ : Type} (a : τ) : Ensures (FirstWithin b) (pure a : Reduction ℝ n m τ)
      fun _ => FirstWithin b := Ensures.pure fun _ hs => hs
  unfold searchWindow
  refine Ensures.guard fun _ => Ensures.get.bind fun L => ?_
  refine Ensures.bind (Q := fun f s => s = L ∧ L.FirstWithin b ∧
    L.enumerate p (first + free) (first + window)
      (L.length (first + free) * (1 + 1e-9)) = .ok f) (Ensures.ofExcept ?_) fun f => ?_
  · rintro f s hf ⟨rfl, hs⟩
    exact ⟨rfl, hs, hf⟩
  refine Ensures.assume fun ⟨hL, hf⟩ => ?_
  extract_lets lifts rest
  have hlifts : ∀ lift ∈ lifts, lift.norms.getD 0 0 = L.blockNorm 0 lift.coefficients := by
    intro lift hlift
    obtain ⟨c, hc, rfl⟩ := List.mem_map.mp hlift
    rw [((found_of_enumerate hL.1 hf).2.2.2 c hc).2.2.1]
    exact L.norm_nearestPlaneLift _ (Nat.zero_le _)
  -- A lift is inserted at its index only where nothing has been inserted at the front.
  have hrest (insertedFirst : Bool) :
      Ensures (fun s => s.FirstWithin b ∧ (insertedFirst = false → s = L)) (rest insertedFirst)
        fun _ => FirstWithin b := by
    have hdone {τ : Type} (a : τ) :
        Ensures (fun s => s.FirstWithin b ∧ (insertedFirst = false → s = L))
          (pure a : Reduction ℝ n m τ) fun _ => FirstWithin b := Ensures.pure fun _ hs => hs.1
    dsimp only [rest]
    split
    · exact hdone _
    · rename_i lift norm hshortest
      obtain ⟨hmem, hnorm⟩ := mem_of_shortestAt hshortest
      split
      · exact hdone _
      · rename_i hfirst
        split
        · rename_i hshorter
          refine Ensures.bind (Q := fun _ => FirstWithin b) ?_ fun _ => hpure _
          rintro s u L' ⟨hs, hsame⟩ hinsert
          rw [hsame (by simpa using hfirst)] at hs hinsert
          refine firstWithin_of_insert hn hs (fun hzero => ?_) hinsert
          rw [hzero] at hnorm hshorter
          rw [hnorm, hlifts lift hmem] at hshorter
          rw [hzero, List.drop_zero]
          exact blockNorm_le_of_shorter hn hs.1 hshorter
        · exact hdone _
  have hskip : Ensures (· = L) (pure false : Reduction ℝ n m Bool)
      fun insertedFirst s => s.FirstWithin b ∧ (insertedFirst = false → s = L) :=
    Ensures.pure fun s hs => ⟨hs ▸ hL, fun _ => hs⟩
  split
  · rename_i lift norm hshortest
    obtain ⟨hmem, hnorm⟩ := mem_of_shortestAt hshortest
    split
    · rename_i hshorter
      refine Ensures.bind (Q := fun _ => FirstWithin b) ?_ fun _ => ?_
      · intro s u L' hs hinsert
        rw [hs] at hinsert
        refine firstWithin_of_insert hn hL (fun _ => ?_) hinsert
        have hlt := hshorter.2.1
        rw [hnorm, hlifts lift hmem] at hlt
        exact blockNorm_le_of_shorter hn hL.1 hlt
      · have htrue : Ensures (FirstWithin b) (pure true : Reduction ℝ n m Bool)
            fun insertedFirst s => s.FirstWithin b ∧ (insertedFirst = false → s = L) :=
          Ensures.pure fun s hs => ⟨hs, nofun⟩
        exact htrue.bind hrest
    · exact hskip.bind hrest
  · exact hskip.bind hrest

theorem keptBySearch_firstWithin : KeptBySearch (FirstWithin b : LatticeBasis ℝ n m → Prop) where
  reduceRange p start stop := p.firstWithin_reduceRange start stop b hn
  improveBlock := firstWithin_improveBlock hn
  searchWindow := firstWithin_searchWindow hn

end Searches

end LatticeBasis

/-! ## The goal of a jumping tour -/

namespace BlockReduction

open LatticeBasis

theorem ensures_goal_searchWindows (p : BlockReduction ℝ) (goal : ℝ) (windows : List Window)
    (stats : Statistics) :
    Ensures (fun _ : LatticeBasis ℝ n m => True) (p.searchWindows goal windows stats)
      fun result L => result.iterations < stats.iterations + windows.length → L.length 0 ≤ goal := by
  induction windows generalizing stats with
  | nil => exact Ensures.pure fun _ _ hlt => absurd hlt (Nat.lt_irrefl _)
  | cons w rest ih =>
      unfold searchWindows
      refine Ensures.bind (Ensures.trivial _) fun findings => ?_
      extract_lets inserted total onward
      have htotal : total.iterations = stats.iterations + 1 := rfl
      have honward (u : PUnit) : Ensures (fun _ : LatticeBasis ℝ n m => True) (onward u)
          fun result L => result.iterations < stats.iterations + (w :: rest).length →
            L.length 0 ≤ goal := by
        refine Ensures.get.bind fun L => ?_
        split
        · rename_i hreached
          exact Ensures.pure fun s hs _ => hs.1 ▸ hreached
        · refine (ih total).mono (fun _ _ => trivial) fun result s hgoal hlt => hgoal ?_
          rw [List.length_cons] at hlt
          omega
      split
      · exact Ensures.bind (Ensures.trivial _) honward
      · exact honward ⟨⟩

/-- A jumping tour that ends before its last window has met its goal, and the reduction that follows
does not undo it. -/
theorem ensures_goal_jumpingTour (p : BlockReduction ℝ) (tour : JumpingTour ℝ) (hn : 0 < n) :
    Ensures (IsCurrent : LatticeBasis ℝ n m → Prop) (p.jumpingTour tour)
      fun stats L => stats.iterations < (tour.windows n).length → L.length 0 ≤ tour.goal := by
  intro L stats L' hcurrent
  have hkept : KeptBySearch (FirstWithin (L.length 0) : LatticeBasis ℝ n m → Prop) :=
    keptBySearch_firstWithin hn
  have htour : Ensures (FirstWithin (L.length 0) : LatticeBasis ℝ n m → Prop) (p.jumpingTour tour)
      fun stats L => stats.iterations < (tour.windows n).length → L.length 0 ≤ tour.goal := by
    unfold jumpingTour
    refine Ensures.bind (Ensures.ofExcept fun _ _ _ hs => hs) fun _ => ?_
    refine (hkept.reduce _).discard.bind fun _ => ?_
    refine Ensures.bind (((hkept.searchWindows p _ _ _).and
      (p.ensures_goal_searchWindows _ _ _)).mono (fun _ hs => ⟨hs, trivial⟩) fun _ _ h => h)
      fun stats => ?_
    intro M result M' hM hrun
    obtain ⟨⟨hM, -⟩, hgoal⟩ := hM
    obtain ⟨u, N, hreduce, hresult⟩ := exists_of_bind_ok hrun
    cases hresult
    intro hlt
    have hreached : M.FirstWithin tour.goal := ⟨hM, hgoal (by simpa using hlt)⟩
    exact ((p.lll.firstWithin_reduceRange 0 n tour.goal hn).discard M u _ hreached hreduce).2
  exact htour L stats L' ⟨hcurrent, le_rfl⟩

end BlockReduction

/-! ## Sequences of operations -/

namespace BasisOperation

open LatticeBasis

theorem conserves_performAll (operations : List (BasisOperation ℝ)) :
    Conserves (fun s => s.2.lattice) (performAll operations) := by
  induction operations with
  | nil => exact Conserves.pure _
  | cons operation rest ih => exact (conserves_perform operation).bind fun _ => ih

theorem lattice_of_performAll {operations : List (BasisOperation ℝ)} {totals totals' : Statistics}
    {L L' : LatticeBasis ℝ n m}
    (h : performAll operations (totals, ⟨L⟩) = .ok () (totals', ⟨L'⟩)) : L'.lattice = L.lattice := by
  have hlattice := conserves_performAll operations (totals, ⟨L⟩)
  rw [h] at hlattice
  change (SomeLatticeBasis.mk L').lattice = (SomeLatticeBasis.mk L).lattice at hlattice
  simpa [SomeLatticeBasis.lattice] using hlattice

theorem firstWithin_performAll (b : ℝ) (hn : 0 < n) {operations : List (BasisOperation ℝ)}
    (hreductions : ∀ operation ∈ operations, operation.IsReduction) :
    Ensures (fun s => ∃ L : LatticeBasis ℝ n m, s.2 = ⟨L⟩ ∧ L.FirstWithin b) (performAll operations)
      fun _ s => ∃ L : LatticeBasis ℝ n m, s.2 = ⟨L⟩ ∧ L.FirstWithin b := by
  have horthogonalize : Ensures (FirstWithin b : LatticeBasis ℝ n m → Prop)
      LatticeBasis.orthogonalize fun _ => FirstWithin b := by
    intro L u L' hL hrun
    rw [hL.1] at hrun
    cases hrun
    exact hL
  induction operations with
  | nil => exact Ensures.pure fun _ hs => hs
  | cons operation rest ih =>
      obtain ⟨hfirst, hrest⟩ := List.forall_mem_cons.mp hreductions
      exact (ensures_perform (keptBySearch_firstWithin hn) horthogonalize hfirst).bind
        fun _ => ih hrest

/-- In exact arithmetic, on a basis of independent rows that has gone through any operations:
reductions, searches, tours and cleanups that succeed, in any order and with any parameters, leave
the first vector no longer than it was and keep the product of all squared lengths, as long as their
integers fit in words.  A jumping tour that visits fewer windows than it has meets its goal. -/
theorem performAll_never_lengthens_first (M : IntMatrix n m) (hn : 0 < n)
    (hrows : LinearIndependent ℤ M.vector) :
    ∃ L : LatticeBasis ℝ n m, @ofMatrix ℝ realWords n m M = .ok L ∧
      ∀ (earlier : List (BasisOperation ℝ)) (totals totals₁ : Statistics) (B : SomeLatticeBasis ℝ),
        (FitsWords realWords fun S => @performAll ℝ S earlier (totals, ⟨L⟩)) →
        @performAll ℝ realWords earlier (totals, ⟨L⟩) = .ok () (totals₁, B) →
        ∃ L₁ : LatticeBasis ℝ n m, B = ⟨L₁⟩ ∧ L₁.lengthProduct n = L.lengthProduct n ∧
          (∀ (operations : List (BasisOperation ℝ)) (totals₂ : Statistics) (B' : SomeLatticeBasis ℝ),
            (∀ operation ∈ operations, operation.IsReduction) →
            (FitsWords realWords fun S => @performAll ℝ S operations (totals₁, ⟨L₁⟩)) →
            @performAll ℝ realWords operations (totals₁, ⟨L₁⟩) = .ok () (totals₂, B') →
            ∃ L₂ : LatticeBasis ℝ n m, B' = ⟨L₂⟩ ∧ L₂.length 0 ≤ L₁.length 0 ∧
              L₂.lengthProduct n = L₁.lengthProduct n) ∧
          ∀ (p : BlockReduction ℝ) (tour : JumpingTour ℝ) (stats : Statistics)
            (L₂ : LatticeBasis ℝ n m),
            (FitsWords realWords fun S => @BlockReduction.jumpingTour ℝ S n m p tour L₁) →
            @BlockReduction.jumpingTour ℝ realWords n m p tour L₁ = .ok stats L₂ →
            stats.iterations < (tour.windows n).length → L₂.length 0 ≤ tour.goal := by
  obtain ⟨L, hL⟩ := exists_ofMatrix_of_independent hn hrows
  have hcurrent : L.IsCurrent := (ofMatrix_eq_ok_iff.mp hL).2.2.2
  refine ⟨L, (ofMatrix_words M).trans hL, ?_⟩
  intro earlier totals totals₁ B hfits hwords
  have hearlier : performAll earlier (totals, ⟨L⟩) = .ok () (totals₁, B) := hfits.symm.trans hwords
  obtain ⟨L₁, rfl, hfresh⟩ := ensures_fresh_performAll n m earlier (totals, ⟨L⟩) () (totals₁, B)
    ⟨L, rfl, isFresh_of_ofMatrix hL⟩ hearlier
  have hcurrent₁ : L₁.IsCurrent := (ofMatrix_eq_ok_iff.mp hfresh).2.2.2
  have hproduct₁ := hcurrent₁.lengthProduct_eq hcurrent (lattice_of_performAll hearlier)
  refine ⟨L₁, rfl, hproduct₁, ?_, ?_⟩
  · intro operations totals₂ B' hreductions hfits₁ hwords₁
    have hrun : performAll operations (totals₁, ⟨L₁⟩) = .ok () (totals₂, B') :=
      hfits₁.symm.trans hwords₁
    obtain ⟨L₂, rfl, hcurrent₂, hle⟩ := firstWithin_performAll (L₁.length 0) hn hreductions
      (totals₁, ⟨L₁⟩) () (totals₂, B') ⟨L₁, rfl, hcurrent₁, le_rfl⟩ hrun
    exact ⟨L₂, rfl, hle, hcurrent₂.lengthProduct_eq hcurrent₁ (lattice_of_performAll hrun)⟩
  · intro p tour stats L₂ hfits₁ hwords₁
    exact p.ensures_goal_jumpingTour tour hn L₁ stats L₂ hcurrent₁ (hfits₁.symm.trans hwords₁)

open Fraction

theorem performAll_improve_reduce {S : Scalar ℝ} {p : SearchLimits ℝ} {q : LLL ℝ}
    {start stop first last : Nat} {report : Bool × Nat} {stats totals : Statistics}
    {L L₁ L₂ : LatticeBasis ℝ n m}
    (himprove : @LatticeBasis.improveBlock ℝ S n m p start stop L = .ok report L₁)
    (hreduce : @LLL.reduceRange ℝ S n m q first last L₁ = .ok stats L₂) :
    @performAll ℝ S [.improveBlock p start stop, .reduceRange q first last] (totals, ⟨L⟩) =
      .ok () (totals, ⟨L₂⟩) := by
  have hfirst : @perform ℝ S (.improveBlock p start stop) (totals, ⟨L⟩) = .ok () (totals, ⟨L₁⟩) :=
    bind_of_ok (ReferenceEngine.onBasis_of_ok himprove)
  have hsecond : @perform ℝ S (.reduceRange q first last) (totals, ⟨L₁⟩) =
      .ok () (totals, ⟨L₂⟩) := bind_of_ok (ReferenceEngine.onBasis_of_ok hreduce)
  exact (bind_of_ok hfirst).trans (bind_of_ok hsecond)

/-- The slanted basis has the squared lengths four and one.  A vector of squared length two is
inserted into it, and the rows are reduced. -/
theorem performAll_never_lengthens_slanted :
    let L : LatticeBasis ℝ 2 2 := slantedBasis.map toReal
    let operations : List (BasisOperation ℝ) :=
      [.improveBlock (@SearchLimits.standard _ realScalar) 0 2,
        .reduceRange (@LLL.standard _ realScalar) 0 2]
    0 < 2 ∧ LinearIndependent ℤ slantedBasis.basis.vector ∧
      @ofMatrix ℝ realWords 2 2 slantedBasis.basis = .ok L ∧
      (FitsWords realWords fun S => @performAll ℝ S operations ({}, ⟨L⟩)) ∧
      ∃ L' : LatticeBasis ℝ 2 2,
        @performAll ℝ realWords operations ({}, ⟨L⟩) = .ok () ({}, ⟨L'⟩) ∧
          L'.length 0 ≤ 4 ∧ L'.lengthProduct 2 = 4 := by
  intro L operations
  have himprove : LatticeBasis.improveBlock .standard 0 2 slantedBasis =
      .ok (true, 4) shortenedBasis := by decide +kernel
  have hreduce : LLL.standard.reduceRange 0 2 shortenedBasis = .ok ⟨0, 1, 0⟩ squareBasis := by
    decide +kernel
  have hfirst := improveBlock_toReal map_standardLimits himprove
  have hsecond := reduceRange_toReal map_standard LLL.validate_standard hreduce
  have hrun : @performAll ℝ realWords operations ({}, ⟨L⟩) =
      .ok () ({}, ⟨squareBasis.map toReal⟩) := performAll_improve_reduce hfirst hsecond
  have hfits : FitsWords realWords fun S => @performAll ℝ S operations ({}, ⟨L⟩) := by
    have hfirst' := fitsWords_improveBlock_toReal map_standardLimits himprove (by decide +kernel)
    have hsecond' := fitsWords_reduceRange_toReal map_standard LLL.validate_standard hreduce
      (by decide +kernel)
    exact hrun.trans (performAll_improve_reduce (hfirst'.symm.trans hfirst)
      (hsecond'.symm.trans hsecond)).symm
  have hlength0 : L.length 0 = 4 := length_slanted_zero
  have hlength1 : L.length 1 = 1 := length_slanted_one
  obtain ⟨K, hK, hall⟩ :=
    performAll_never_lengthens_first slantedBasis.basis Nat.two_pos
      LLL.Update.linearIndependent_slanted
  obtain rfl : L = K := Except.ok.inj (ofMatrix_slantedBasis.symm.trans hK)
  obtain ⟨L₁, hL₁, -, hkept, -⟩ := hall [] {} {} _ rfl rfl
  cases hL₁
  obtain ⟨L', hL', hle, hproduct⟩ :=
    hkept operations {} _ (by simp [operations, IsReduction]) hfits hrun
  cases hL'
  rw [hlength0] at hle
  rw [lengthProduct_succ L, lengthProduct_succ L, hlength0, hlength1] at hproduct
  norm_num [lengthProduct] at hle hproduct
  exact ⟨Nat.two_pos, LLL.Update.linearIndependent_slanted, hK, hfits, _, hrun, hle, hproduct⟩

/-- The multiple of the first row that has to be taken off the second of the two steep rows is no
word, and the row that becomes the first has it once too often. -/
theorem performAll_lengthens_steep :
    let L : LatticeBasis ℝ 2 3 := steepBasis.map toReal
    let L' : LatticeBasis ℝ 2 3 := tiltedBasis.map toReal
    let operations : List (BasisOperation ℝ) := [.reduce (@LLL.standard _ realScalar)]
    LinearIndependent ℤ steepBasis.basis.vector ∧
      @ofMatrix ℝ realWords 2 3 steepBasis.basis = .ok L ∧
      (∀ operation ∈ operations, operation.IsReduction) ∧
      @performAll ℝ realWords operations ({}, ⟨L⟩) = .ok () ({}, ⟨L'⟩) ∧
      ¬ L'.length 0 ≤ L.length 0 := by
  intro L L' operations
  refine ⟨LLL.Update.linearIndependent_steep, ofMatrix_steepBasis,
    by simp [operations, IsReduction],
    bind_of_ok (bind_of_ok (ReferenceEngine.onBasis_of_ok reduce_steep)), ?_⟩
  rw [length_steep_zero, length_tilted_zero]
  norm_num

end BasisOperation

end EmbeddingAttack
