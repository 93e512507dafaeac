import EmbeddingAttack.Proofs.Lattice.CarriedSearches
import EmbeddingAttack.Proofs.Lattice.ExactInsertion
import EmbeddingAttack.Proofs.Lattice.ExactUpdates
import EmbeddingAttack.Proofs.Lattice.ShortestVector

/-!
# The improvement of a block

In exact arithmetic.  A block is improved by the last vector that an enumeration below its first
length finds.  Unless the node limit is reached, that vector is a shortest one of the projected
block.  Its coefficients may have a common divisor, by which the insertion divides; but the vector
divided is one of the same lattice, so that the new length is that of a shortest vector either way.
-/

namespace EmbeddingAttack

variable {n m : Nat}

open Enumeration IntMatrix

namespace LatticeBasis

/-- What the findings of an enumeration of the block of `k` rows from `start` on tell of its
shortest vectors. -/
structure Reports (L : LatticeBasis ℝ n m) (p : SearchLimits ℝ) (start k : Nat) (radius : ℝ)
    (f : Findings ℝ) : Prop where
  truncated : f.truncated = decide (p.maxNodes ≤ f.nodes)
  found : ∀ best, f.best? = some best → best.coefficients.length = k ∧
    (∃ x ∈ best.coefficients, x ≠ 0) ∧ L.blockNorm start best.coefficients < radius
  least : f.nodes < p.maxNodes → ∀ best, f.best? = some best →
    ∀ q ∈ L.basis.projectedSquares start k, L.blockNorm start best.coefficients ≤ q
  absent : f.nodes < p.maxNodes → f.best? = none →
    ∀ q ∈ L.basis.projectedSquares start k, radius ≤ q

theorem exists_enumerate_reports {L : LatticeBasis ℝ n m} (h : L.IsCurrent) {p : SearchLimits ℝ}
    {start stop : Nat} (radius : ℝ) (hp : p.validate = .ok ()) (hstart : start < stop)
    (hstop : stop ≤ n) :
    ∃ f, L.enumerate p start stop radius = .ok f ∧ L.Reports p start (stop - start) radius f := by
  obtain ⟨s, henumerate, hsound, hcovers⟩ := L.exists_enumerate radius hp hstart hstop
    fun j _ hj => h.gramSchmidt.positive j (by omega)
  let f : Findings ℝ := ⟨s.found.reverse, s.nodes, decide (p.maxNodes ≤ s.nodes)⟩
  have hbest : f.best? = s.found.head? := List.getLast?_reverse
  have hradius (hnodes : f.nodes < p.maxNodes) :
      ∀ q ∈ L.basis.projectedSquares start (stop - start), s.radius ≤ q := by
    intro q hq
    obtain ⟨c, hlength, hc, rfl⟩ := (h.mem_projectedSquares_iff (by omega)).mp hq
    exact hcovers hnodes c hlength hc
  have hhead := hsound.radius
  refine ⟨f, henumerate, ?_⟩
  exact {
    truncated := rfl
    found := by
      intro best hsome
      rw [hbest] at hsome
      obtain ⟨hlength, hc, hnorm, -, hlt⟩ := hsound.found best (List.mem_of_head? hsome)
      exact ⟨hlength, hc, hnorm ▸ hlt⟩
    least := by
      intro hnodes best hsome q hq
      rw [hbest] at hsome
      rw [hsome] at hhead
      have hnorm := (hsound.found best (List.mem_of_head? hsome)).2.2.1
      calc
        L.blockNorm start best.coefficients = s.radius := hnorm.symm.trans hhead.symm
        _ ≤ q := hradius hnodes q hq
    absent := by
      intro hnodes hnone q hq
      rw [hbest] at hnone
      rw [hnone] at hhead
      exact (le_of_eq hhead.symm).trans (hradius hnodes q hq) }

/-- What an improvement of the block from `start` to `stop` leaves, with its own report. -/
structure Improvement (p : SearchLimits ℝ) (start stop : Nat) (L : LatticeBasis ℝ n m)
    (report : Bool × Nat) (L' : LatticeBasis ℝ n m) : Prop where
  shorter : report.1 = true → L'.length start < p.radiusFactor * L.length start
  kept : report.1 = true → ∀ j < n, j < start ∨ stop ≤ j → L'.length j = L.length j
  unchanged : report.1 = false → L' = L
  absent : report.2 < p.maxNodes → report.1 = false →
    ∀ q ∈ L.basis.projectedSquares start (stop - start), p.radiusFactor * L.length start ≤ q
  least : report.2 < p.maxNodes → report.1 = true →
    IsLeast (L.basis.projectedSquares start (stop - start)) (L'.length start)

theorem improvement_of_insert {p : SearchLimits ℝ} {start stop : Nat} {L L' : LatticeBasis ℝ n m}
    {f : Findings ℝ} {best : Candidate ℝ} (hL : L.IsCurrent) (hstart : start < stop)
    (hstop : stop ≤ n)
    (hreports : L.Reports p start (stop - start) (p.radiusFactor * L.length start) f)
    (hbest : f.best? = some best)
    (hinsert : insertCombination start best.coefficients L = .ok () L') :
    L.Improvement p start stop (true, f.nodes) L' := by
  obtain ⟨hlength, hc, hlt⟩ := hreports.found best hbest
  have hend : start + best.coefficients.length = stop := by omega
  have hinserts := inserts_of_insertCombination hL hinsert
  have hle := hinserts.length_le hc (show start < n by omega)
  -- The new direction lies in the projected block, which is that of the old rows.
  have hmem : L'.length start ∈ L.basis.projectedSquares start (stop - start) := by
    have hnew := hinserts.current.length_mem_projectedSquares (show start < n by omega)
      (show 0 < stop - start by omega)
    have hblock := hinserts.transforms.projectedBlock_eq (hend.trans_le hstop)
    rw [hlength] at hblock
    unfold projectedSquares at hnew ⊢
    rwa [hblock] at hnew
  exact {
    shorter := fun _ => hle.trans_lt hlt
    kept := fun _ => hend ▸ hinserts.kept
    unchanged := nofun
    absent := nofun
    least := fun hnodes _ => ⟨hmem, fun q hq => hle.trans (hreports.least hnodes best hbest q hq)⟩ }

theorem delivers_improveBlock {L : LatticeBasis ℝ n m} (hL : L.IsCurrent) {p : SearchLimits ℝ}
    {start stop : Nat} (hp : p.validate = .ok ()) (hstart : start < stop) (hstop : stop ≤ n) :
    Delivers (· = L) (improveBlock p start stop) (L.Improvement p start stop) := by
  have hlength : L.length? start = some (L.length start) := by
    rw [length?, Vector.getElem?_eq_getElem (by omega), length_of_lt L (by omega)]
  obtain ⟨f, hf, hreports⟩ :=
    exists_enumerate_reports hL (p.radiusFactor * L.length start) hp hstart hstop
  unfold improveBlock
  refine Delivers.get_bind ?_
  rintro _ rfl
  rw [hlength]
  refine Delivers.ofExcept_bind hf ?_
  cases hbest : f.best? with
  | none =>
      refine Delivers.pure ?_
      rintro _ rfl
      exact {
        shorter := fun h => absurd h Bool.false_ne_true
        kept := fun h => absurd h Bool.false_ne_true
        unchanged := fun _ => rfl
        absent := fun hnodes _ => hreports.absent hnodes hbest
        least := fun _ h => absurd h Bool.false_ne_true }
  | some best =>
      obtain ⟨hcount, hc, -⟩ := hreports.found best hbest
      obtain ⟨L', hinsert⟩ := exists_insertCombination hL
        (show start + best.coefficients.length ≤ n by omega) hc
      rintro _ rfl
      exact ⟨_, L', bind_of_ok hinsert,
        improvement_of_insert hL hstart hstop hreports hbest hinsert⟩

/-- In exact arithmetic, and as long as the integers fit in words, an improvement of a block of
independent rows never fails.  Where it reports success, the first length of the block is below the
given part of what it was, and the lengths before and after the block stay; else nothing changes.
Unless the node limit is reached, success means that the new length is that of a shortest vector of
the projected block, other than zero, and no success that no such vector lies below the radius. -/
theorem improveBlock_finds_shortest (p : SearchLimits ℝ) (start stop : Nat)
    (L : LatticeBasis ℝ n m) (hrows : LinearIndependent ℤ L.basis.vector)
    (hdata : finalState (@orthogonalize ℝ realWords n m L) = L) (hp : p.validate = .ok ())
    (hstart : start < stop) (hstop : stop ≤ n)
    (hfits : FitsWords realWords fun S => @improveBlock ℝ S n m p start stop L) :
    ∃ (improved : Bool) (nodes : Nat) (L' : LatticeBasis ℝ n m),
      @improveBlock ℝ realWords n m p start stop L = .ok (improved, nodes) L' ∧
      (improved = true → L'.length start < p.radiusFactor * L.length start ∧
        ∀ j < n, j < start ∨ stop ≤ j → L'.length j = L.length j) ∧
      (improved = false → L' = L) ∧
      (nodes < p.maxNodes →
        (improved = false → ∀ q ∈ L.basis.projectedSquares start (stop - start),
          p.radiusFactor * L.length start ≤ q) ∧
        (improved = true →
          IsLeast (L.basis.projectedSquares start (stop - start)) (L'.length start))) := by
  rw [orthogonalize_words] at hdata
  obtain ⟨⟨improved, nodes⟩, L', hrun, h⟩ :=
    delivers_improveBlock (isCurrent_of_independent hrows hdata) hp hstart hstop L rfl
  exact ⟨improved, nodes, L', hfits.trans hrun,
    fun himproved => ⟨h.shorter himproved, h.kept himproved⟩,
    h.unchanged, fun hnodes => ⟨h.absent hnodes, h.least hnodes⟩⟩

open Fraction LLL.Update

theorem improveBlock_finds_shortest_slanted :
    let L : LatticeBasis ℝ 2 2 := slantedBasis.map toReal
    LinearIndependent ℤ L.basis.vector ∧ finalState (@orthogonalize ℝ realWords 2 2 L) = L ∧
      (SearchLimits.standard : SearchLimits ℝ).validate = .ok () ∧
      (FitsWords realWords fun S =>
        @improveBlock ℝ S 2 2 (@SearchLimits.standard _ realScalar) 0 2 L) ∧
      ∃ (improved : Bool) (nodes : Nat) (L' : LatticeBasis ℝ 2 2),
        @improveBlock ℝ realWords 2 2 .standard 0 2 L = .ok (improved, nodes) L' ∧
        (improved = true → L'.length 0 < (SearchLimits.standard : SearchLimits ℝ).radiusFactor *
          L.length 0) ∧
        (nodes < (SearchLimits.standard : SearchLimits ℝ).maxNodes →
          improved = true → IsLeast (L.basis.projectedSquares 0 2) (L'.length 0)) := by
  intro L
  have hdata : finalState (@orthogonalize ℝ realWords 2 2 L) = L :=
    congrArg finalState orthogonalize_slanted
  have hrun : improveBlock .standard 0 2 slantedBasis = .ok (true, 4) shortenedBasis := by
    decide +kernel
  have hfits := fitsWords_improveBlock_toReal map_standardLimits hrun (by decide +kernel)
  obtain ⟨improved, nodes, L', hL', hshorter, -, hcomplete⟩ :=
    improveBlock_finds_shortest .standard 0 2 L linearIndependent_slanted hdata
      SearchLimits.validate_standard two_pos le_rfl hfits
  exact ⟨linearIndependent_slanted, hdata, SearchLimits.validate_standard, hfits, improved, nodes,
    L', hL', fun himproved => (hshorter himproved).1, fun hnodes => (hcomplete hnodes).2⟩

/-- The coefficient of the first row that would be best beside one of the second is no word.  The
vector inserted has the one below: the improvement that is reported makes the first length grow. -/
theorem improveBlock_leaning_lengthens :
    let L : LatticeBasis ℝ 2 3 := leaningBasis.map toReal
    let L' : LatticeBasis ℝ 2 3 := tiltedBasis.map toReal
    @ofMatrix ℝ realWords 2 3 leaningBasis.basis = .ok L ∧
      LinearIndependent ℤ L.basis.vector ∧ finalState (@orthogonalize ℝ realWords 2 3 L) = L ∧
      (SearchLimits.standard : SearchLimits ℝ).validate = .ok () ∧
      @improveBlock ℝ realWords 2 3 .standard 0 2 L = .ok (true, 4) L' ∧
      ¬ L'.length 0 < (SearchLimits.standard : SearchLimits ℝ).radiusFactor * L.length 0 := by
  intro L L'
  have hrun : improveBlock .standard 0 2 leaningBasis = .ok (true, 4) tiltedBasis := by
    decide +kernel
  have hfactor : (SearchLimits.standard : SearchLimits ℝ).radiusFactor = 0.99 := rfl
  refine ⟨ofMatrix_leaningBasis, linearIndependent_leaning,
    congrArg finalState orthogonalize_leaning, SearchLimits.validate_standard,
    improveBlock_toReal map_standardLimits hrun, ?_⟩
  rw [length_leaning_zero, length_tilted_zero, hfactor]
  norm_num

end LatticeBasis

end EmbeddingAttack
