import EmbeddingAttack.Engine.Reference
import EmbeddingAttack.Proofs.Attack.SearchCoverage
import EmbeddingAttack.Proofs.Lattice.TourWindows

/-!
# The window of a search

The loop chooses a window that ends with the basis, the engine cuts it to the basis and to at least
two enumerated rows, and the search checks that it lies within the basis.  The three agree: the
engine keeps the length that the loop chose, the search accepts the window, and as many of the last
rows are enumerated as the loop granted, but no fewer than two and no more than the window has.
-/

namespace EmbeddingAttack

variable {α : Type} [Scalar α]

namespace Window

/-- All the starts that the window passes over on its way to the front leave it with an expected
vector shorter than the projection of the target. -/
theorem short_of_extend_lt (p : Profile α) (target : α) {start j : Nat}
    (hpassed : extend p target start < j) (hj : j ≤ start) :
    p.suffixGaussianHeuristic j < target * ((p.dimension - j : Nat) : α) / (p.dimension : α) := by
  induction start with
  | zero => omega
  | succ start ih =>
      by_cases h : p.suffixGaussianHeuristic (start + 1) <
          target * ((p.dimension - (start + 1) : Nat) : α) / (p.dimension : α)
      · rcases Nat.lt_or_eq_of_le hj with hlt | rfl
        · exact ih (extend_of_short h ▸ hpassed) (by omega)
        · exact h
      · rw [extend_of_long h] at hpassed
        omega

/-- A window grows to the front as far as to the first row where the lattice that it spans is not
expected to have a vector shorter than the projection of the target, or to the front. -/
theorem isGreatest_extend (p : Profile α) (target : α) (start : Nat) :
    IsGreatest {j | j ≤ start ∧ (j = 0 ∨ ¬ p.suffixGaussianHeuristic j <
      target * ((p.dimension - j : Nat) : α) / (p.dimension : α))} (extend p target start) := by
  constructor
  · refine ⟨extend_le p target start, ?_⟩
    rcases Nat.eq_zero_or_pos (extend p target start) with hfront | hstop
    · exact .inl hfront
    · exact .inr (extend_stops p target start hstop)
  · rintro j ⟨hj, hstop⟩
    by_contra hpassed
    rcases hstop with rfl | hlong
    · exact hpassed (Nat.zero_le _)
    · exact hlong (short_of_extend_lt p target (not_le.mp hpassed) hj)

end Window

namespace LatticeBasis

variable {n m : Nat}

/-- A search reports the nodes of its enumeration and the least length among the lifts. -/
theorem reports_searchWindow {p : SearchLimits α} {first window free liftTo : Nat} {goal : α}
    {L : LatticeBasis α n m} {f : Findings α}
    (hf : L.enumerate p (first + free) (first + window)
      (L.length (first + free) * (1 + 1e-9)) = .ok f) :
    Ensures (· = L) (searchWindow p first window free liftTo goal) fun r _ =>
      r.nodes = f.nodes ∧ r.bestProjected = (shortestAt liftTo (f.candidates.map fun c =>
        L.nearestPlaneLift (first + free) c.coefficients c.normSquared)).map Prod.snd := by
  unfold searchWindow
  refine Ensures.guard fun _ => Ensures.get_bind ?_
  rintro L rfl
  rw [hf, ofExcept_ok_bind]
  extract_lets lifts rest
  have hrest (inserted : Bool) : Ensures (fun _ => True) (rest inserted) fun r _ =>
      r.nodes = f.nodes ∧ r.bestProjected = (shortestAt liftTo lifts).map Prod.snd := by
    dsimp only [rest]
    split
    · rename_i hnone
      exact Ensures.pure fun _ _ => ⟨rfl, by rw [hnone]; rfl⟩
    · rename_i lift norm hbelow
      have hreport (place : Option Nat) : (⟨some norm, place, decide (norm ≤ goal), f.nodes⟩ :
          WindowFindings α).bestProjected = (shortestAt liftTo lifts).map Prod.snd := by
        rw [hbelow]
        rfl
      split
      · exact Ensures.pure fun _ _ => ⟨rfl, hreport _⟩
      · split
        · exact (Ensures.trivial _).bind fun _ => Ensures.pure fun _ _ => ⟨rfl, hreport _⟩
        · exact Ensures.pure fun _ _ => ⟨rfl, hreport _⟩
  split
  · split
    · exact (Ensures.trivial _).bind fun _ => (Ensures.trivial _).bind hrest
    · exact (Ensures.trivial _).bind hrest
  · exact (Ensures.trivial _).bind hrest

end LatticeBasis

namespace ReferenceEngine

open LatticeBasis (orthogonalRows)

variable {n m : Nat}

/-- A search charges its work to the counters where it succeeds, and leaves them as they are where
it fails. -/
theorem search_eq (q : BlockReduction α) (w : Window) (goal : α) (totals : Statistics)
    (L : LatticeBasis α n m) : (engine q).search w goal (totals, ⟨L⟩) =
      match runSearch q w goal L with
      | .ok r L' => .ok ⟨r.bestProjected, r.insertedAt.isSome, r.reachedGoal⟩
          (totals.add ⟨if r.insertedAt.isSome then 1 else 0, 1, r.nodes⟩, ⟨L'⟩)
      | .error e L' => .error e (totals, ⟨L'⟩) := by
  cases hrun : runSearch q w goal L with
  | ok r L' =>
      have hwork : onBasis (runSearch q w goal) (totals, ⟨L⟩) = .ok r (totals, ⟨L'⟩) := by
        unfold onBasis
        dsimp only
        rw [hrun]
      exact bind_of_ok hwork
  | error e L' =>
      have hwork : onBasis (runSearch q w goal) (totals, ⟨L⟩) = .error e (totals, ⟨L'⟩) := by
        unfold onBasis
        dsimp only
        rw [hrun]
      exact bind_of_error hwork

/-! ## What is enumerated -/

section Outcome

variable {q : BlockReduction α} {w : Window} {free : Nat} {goal : α} {totals : Statistics}
  {L : LatticeBasis α n m}
  (hsearch : runSearch q w goal L =
    LatticeBasis.searchWindow q.limits w.start w.length free w.start goal L)

include hsearch

/-- The counters are charged for the enumeration, and what is reported is the best of its lifts. -/
theorem charged_search {f : Findings α}
    (hf : L.enumerate q.limits (w.start + free) (w.start + w.length)
      (L.length (w.start + free) * (1 + 1e-9)) = .ok f)
    {outcome : SearchOutcome α} {s : Statistics × SomeLatticeBasis α}
    (hrun : (engine q).search w goal (totals, ⟨L⟩) = .ok outcome s) :
    s.1 = totals.add ⟨if outcome.inserted then 1 else 0, 1, f.nodes⟩ ∧
      outcome.projectedNorm = (LatticeBasis.shortestAt w.start (f.candidates.map fun c =>
        L.nearestPlaneLift (w.start + free) c.coefficients c.normSquared)).map Prod.snd := by
  rw [search_eq, hsearch] at hrun
  split at hrun
  · rename_i r L' hfound
    obtain ⟨hnodes, hbest⟩ := LatticeBasis.reports_searchWindow hf L r L' rfl hfound
    cases hrun
    exact ⟨by rw [hnodes], hbest⟩
  · cases hrun

/-- A search that fails has not failed for its place, and is not charged. -/
theorem placed_search (hend : w.start + w.length ≤ n) (hfree : free + 2 ≤ w.length) {e : Failure α}
    {s : Statistics × SomeLatticeBasis α}
    (hrun : (engine q).search w goal (totals, ⟨L⟩) = .error e s) :
    s.1 = totals ∧ ¬ e.IsMisplaced := by
  rw [search_eq, hsearch] at hrun
  split at hrun
  · cases hrun
  · rename_i e' L' hfailed
    have hplaced := LatticeBasis.not_isMisplaced_searchWindow q.limits goal hend le_rfl hfree L e' L'
      trivial hfailed
    cases hrun
    exact ⟨rfl, hplaced⟩

end Outcome

/-- The engine cuts the window of the loop to what the loop has granted, but keeps two rows. -/
theorem runSearch_forSearch (p : Profile α) (q : BlockReduction α) (blocksize : Nat)
    (target : α) (dimension : Nat) (goal : α) :
    let w := Window.forSearch p blocksize target dimension
    (runSearch q w goal : Reduction α p.dimension m (WindowFindings α)) =
      LatticeBasis.searchWindow q.limits w.start w.length
        (w.length - min w.length (max dimension 2)) w.start goal := by
  intro w
  have hstart : w.start ≤ p.dimension - blocksize := Window.extend_le p target _
  have hlength : w.length = p.dimension - w.start := rfl
  have hfree : w.free = w.length - dimension := rfl
  have hcut : min w.length (p.dimension - min w.start p.dimension) = w.length := by omega
  have hfreeCut : min w.free (w.length - 2) = w.length - min w.length (max dimension 2) := by omega
  unfold runSearch
  dsimp only
  rw [hcut, hfreeCut]

/-- The window of a search ends with the basis, starts as far to the front as the target is short
from there on, and has as many free dimensions as it is longer than the dimension granted.  The
engine searches it on every basis of that rank: no index is out of range, no failure is about its
place, and what is enumerated are its last rows, as many as granted but no fewer than two. -/
theorem search_enumerates_last_rows (p : Profile α) (q : BlockReduction α)
    (blocksize dimension : Nat) (target goal : α) (totals : Statistics)
    (L : LatticeBasis α p.dimension m) (hdimension : 2 ≤ p.dimension) (hblocksize : 2 ≤ blocksize)
    (hlimits : q.limits.validate = .ok ()) :
    let d := p.dimension
    let w := Window.forSearch p blocksize target dimension
    let k := min w.length (max dimension 2)
    let result := (engine q).search w goal (totals, ⟨L⟩)
    (w.start + w.length = d ∧ w.free = w.length - dimension ∧
      IsGreatest {j | j ≤ d - blocksize ∧ (j = 0 ∨ ¬ p.suffixGaussianHeuristic j <
        target * ((d - j : Nat) : α) / (d : α))} w.start) ∧
    runSearch q w goal L =
      LatticeBasis.trySearchWindow q.limits w.start w.length (w.length - k) w.start goal L ∧
    ∃ f, L.enumerate q.limits (d - k) d (L.length (d - k) * (1 + 1e-9)) = .ok f ∧
      (∀ c ∈ f.candidates, c.coefficients.length = k) ∧
      (∀ outcome s, result = .ok outcome s →
        s.1 = totals.add ⟨if outcome.inserted then 1 else 0, 1, f.nodes⟩ ∧
        outcome.projectedNorm = (LatticeBasis.shortestAt w.start (f.candidates.map fun c =>
          L.nearestPlaneLift (d - k) c.coefficients c.normSquared)).map Prod.snd) ∧
      ∀ e s, result = .error e s → s.1 = totals ∧ ¬ e.IsMisplaced := by
  intro d w k result
  have hstart : w.start ≤ d - blocksize := Window.extend_le p target _
  have hlength : w.length = d - w.start := rfl
  have hend : w.start + w.length = d := by omega
  have hk : w.length - k + 2 ≤ w.length := by omega
  have hrows : w.start + (w.length - k) = d - k := by omega
  have hsearch : runSearch q w goal L =
      LatticeBasis.searchWindow q.limits w.start w.length (w.length - k) w.start goal L :=
    congrFun (runSearch_forSearch p q blocksize target dimension goal) L
  obtain ⟨f, hf, hcandidates⟩ := L.exists_enumerate_block (L.length (d - k) * (1 + 1e-9)) hlimits
    (by omega : d - k < d) le_rfl
  refine ⟨⟨hend, rfl, Window.isGreatest_extend p target _⟩, ?_, f, hf, ?_, ?_, ?_⟩
  · rw [hsearch, LatticeBasis.trySearchWindow_eq]
  · intro c hc
    rw [hcandidates c hc]
    omega
  · intro outcome s hrun
    have hcharged := charged_search (f := f) hsearch (by rw [hend, hrows]; exact hf) hrun
    rwa [hrows] at hcharged
  · exact fun e s hrun => placed_search hsearch hend.le hk hrun

/-- The squared lengths of the three orthogonal rows. -/
def orthogonalProfile : Profile Fraction where
  lengths := orthogonalRows.r.toList
  nonempty := List.cons_ne_nil _ _
  proper := by decide

/-- Of the three rows that the window has, two are granted and enumerated. -/
theorem search_enumerates_two_of_three_rows :
    let q : BlockReduction Fraction := ⟨.standard, ⟨100, 4, 1⟩⟩
    let w := Window.forSearch orthogonalProfile 2 100 2
    w = ⟨0, 3, 1⟩ ∧ ∃ f, orthogonalRows.enumerate q.limits 1 3
        (orthogonalRows.length 1 * (1 + 1e-9)) = .ok f ∧
      ∃ outcome s, (engine q).search w 1 ({}, ⟨orthogonalRows⟩) = .ok outcome s ∧
        outcome.inserted = true ∧ s.1 = ⟨1, 1, f.nodes⟩ := by
  intro q w
  have hw : w = ⟨0, 3, 1⟩ := by decide +kernel
  have hinserted : (value? ((engine q).search w 1 ({}, ⟨orthogonalRows⟩))).map (·.inserted) =
      some true := by decide +kernel
  obtain ⟨-, -, f, hf, -, hcharged, -⟩ := search_enumerates_last_rows orthogonalProfile q 2 2 100 1 {}
    orthogonalRows (by decide) le_rfl rfl
  obtain ⟨outcome, hvalue, hinserted⟩ := Option.map_eq_some_iff.mp hinserted
  obtain ⟨s, hrun⟩ := exists_of_value? hvalue
  obtain ⟨htotals, -⟩ := hcharged outcome s hrun
  have hstart : orthogonalProfile.dimension - min w.length (max 2 2) = 1 := by
    rw [hw]
    rfl
  rw [hstart] at hf
  refine ⟨hw, f, hf, outcome, s, hrun, hinserted, ?_⟩
  rw [htotals, hinserted]
  simp [Statistics.add]

end ReferenceEngine

end EmbeddingAttack
