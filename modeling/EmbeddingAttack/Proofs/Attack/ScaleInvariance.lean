import EmbeddingAttack.Attack.Loop
import EmbeddingAttack.Engine.Reference
import EmbeddingAttack.Proofs.Attack.LookaheadTimes
import EmbeddingAttack.Proofs.Computation
import EmbeddingAttack.Proofs.Profile.Scaling

/-!
# Decisions at different scales

Lengths enter the decisions of a run only in comparison with each other.  If the profile of a basis
and the target are multiplied by the same positive number, forecasts, search windows and
look-aheads answer the same.  Only the failure of a forecast tells the scale, as it names the
target.
-/

namespace EmbeddingAttack

/-- The same failure at another scale. -/
noncomputable def Failure.scaleTarget (L : ℝ) : Failure ℝ → Failure ℝ
  | .degenerateProfile dimension targetNorm => .degenerateProfile dimension (L * targetNorm)
  | e => e

/-- The only failure of a simulation does not tell the scale. -/
theorem Profile.simulate_scale_mapError {L : ℝ} (h : 0 < L) (p : Profile ℝ)
    (blocksize tours : Nat) : (p.scale L h).simulate blocksize tours =
      ((p.simulate blocksize tours).map (scale L h)).mapError (Failure.scaleTarget L) := by
  rw [simulate_scale]
  by_cases hsmall : blocksize < 2
  · unfold simulate
    rw [if_pos hsmall]
    rfl
  · obtain ⟨p', hsimulate, -⟩ := p.simulate_eq (Nat.le_of_not_lt hsmall) tours
    rw [hsimulate]
    rfl

namespace Forecaster

/-- The same forecaster at another scale. -/
noncomputable def scale (L : ℝ) (f : Forecaster ℝ) : Forecaster ℝ :=
  { f with targetNorm := L * f.targetNorm }

variable {L : ℝ} (h : 0 < L) (f : Forecaster ℝ) (p : Profile ℝ)

theorem isSuccess_scale (k : Nat) : (f.scale L).isSuccess (p.scale L h) k = f.isSuccess p k := by
  have hprojected : L * f.targetNorm / f.goalMargin * (k : ℝ) / (p.dimension : ℝ) =
      L * (f.targetNorm / f.goalMargin * k / p.dimension) := by
    ring
  unfold isSuccess
  dsimp only
  rw [Profile.dimension_scale]
  apply decide_eq_decide.mpr
  change L * f.targetNorm / f.goalMargin * (k : ℝ) / (p.dimension : ℝ) <
    4.0 / 3.0 * (p.scale L h).suffixGaussianHeuristic (p.dimension - k) ↔
      f.targetNorm / f.goalMargin * (k : ℝ) / (p.dimension : ℝ) <
        4.0 / 3.0 * p.suffixGaussianHeuristic (p.dimension - k)
  rw [hprojected, Profile.suffixGaussianHeuristic_scale, mul_left_comm, mul_lt_mul_iff_right₀ h]

theorem successDimension_scale : (f.scale L).successDimension (p.scale L h) =
    (f.successDimension p).mapError (Failure.scaleTarget L) := by
  have hsuccess : (f.scale L).isSuccess (p.scale L h) = f.isSuccess p :=
    funext (isSuccess_scale h f p)
  unfold successDimension
  rw [hsuccess, Profile.dimension_scale]
  cases (List.range' 2 (p.dimension - 2)).find? (f.isSuccess p) with
  | none => rfl
  | some k => rfl

end Forecaster

namespace Window

variable {L : ℝ} (h : 0 < L) (p : Profile ℝ) (target : ℝ)

theorem extend_scale (start : Nat) :
    extend (p.scale L h) (L * target) start = extend p target start := by
  induction start with
  | zero => rfl
  | succ start ih =>
      have hshorter : (p.scale L h).suffixGaussianHeuristic (start + 1) <
          L * target * ((p.dimension - (start + 1) : Nat) : ℝ) / (p.dimension : ℝ) ↔
            p.suffixGaussianHeuristic (start + 1) <
              target * ((p.dimension - (start + 1) : Nat) : ℝ) / (p.dimension : ℝ) := by
        rw [Profile.suffixGaussianHeuristic_scale, mul_assoc, mul_div_assoc,
          mul_lt_mul_iff_right₀ h]
      unfold extend
      dsimp only
      rw [Profile.dimension_scale, ih]
      exact if_congr hshorter rfl rfl

theorem forSearch_scale (blocksize dimension : Nat) :
    forSearch (p.scale L h) blocksize (L * target) dimension =
      forSearch p blocksize target dimension := by
  unfold forSearch
  rw [Profile.dimension_scale, extend_scale]

end Window

namespace Lookahead

/-- The same look-ahead at another scale. -/
noncomputable def scale (L : ℝ) (ahead : Lookahead ℝ) : Lookahead ℝ :=
  { ahead with forecaster := ahead.forecaster.scale L }

variable {σ τ ρ : Type} {L : ℝ} (h : 0 < L)

theorem simulate_scale (params : BlockReduction ℝ) (ahead : Lookahead ℝ) (upcoming : List Nat)
    (timings : TimingTable ℝ) (previous : Nat) (p : Profile ℝ) (extraTime : ℝ) :
    simulate (ReferenceEngine.engine params) (ahead.scale L) upcoming timings previous
        (p.scale L h) extraTime =
      (simulate (ReferenceEngine.engine params) ahead upcoming timings previous p
        extraTime).adaptExcept (Failure.scaleTarget L) := by
  induction upcoming generalizing timings previous p extraTime with
  | nil => rfl
  | cons b rest ih =>
      unfold simulate
      apply ofExcept_bind_adaptExcept (p.simulate_scale_mapError h b ahead.tours)
      intro next
      cases timings.get? previous with
      | none => rfl
      | some time =>
          apply ofExcept_bind_adaptExcept (k := id)
          · rw [Except.map_id]
            exact Forecaster.successDimension_scale h ahead.forecaster next
          · intro k
            dsimp only
            rw [adaptExcept_bind, ← ih]
            rfl

end Lookahead

/-- Scheduling does not depend on the scale of the lattice.  With the profile and the target
multiplied by the same positive number, the simulated profile is multiplied by it too, the forecast
and the search window are the same, and a look-ahead with the simulator lists the same steps, from
which it takes the same decision.  Where a forecast or a look-ahead fails, it fails in the same way,
the target in its failure being multiplied as well. -/
theorem decisions_ignore_scale (L : ℝ) (h : 0 < L) (p : Profile ℝ) (f : Forecaster ℝ) :
    (∀ blocksize tours : Nat, (p.scale L h).simulate blocksize tours =
      (p.simulate blocksize tours).map (Profile.scale L h)) ∧
    (f.scale L).successDimension (p.scale L h) =
      (f.successDimension p).mapError (Failure.scaleTarget L) ∧
    (∀ (blocksize : Nat) (target : ℝ) (dimension : Nat),
      Window.forSearch (p.scale L h) blocksize (L * target) dimension =
        Window.forSearch p blocksize target dimension) ∧
    ∀ (params : BlockReduction ℝ) (currentDimension tours : Nat) (timings : TimingTable ℝ)
      (blocksize : Nat) (upcoming : List Nat),
      Lookahead.run (ReferenceEngine.engine params) ⟨f.scale L, currentDimension, tours⟩ timings
          blocksize (p.scale L h) upcoming =
        (Lookahead.run (ReferenceEngine.engine params) ⟨f, currentDimension, tours⟩ timings
          blocksize p upcoming).adaptExcept (Failure.scaleTarget L) := by
  refine ⟨?_, ?_, ?_, ?_⟩
  · exact p.simulate_scale h
  · exact f.successDimension_scale h p
  · intro blocksize target dimension
    exact Window.forSearch_scale h p target blocksize dimension
  · intro params currentDimension tours timings blocksize upcoming
    exact Lookahead.simulate_scale h params ⟨f, currentDimension, tours⟩ upcoming timings blocksize
      p 0

/-- A forecaster whose target is the Gaussian heuristic of two rows of length one. -/
noncomputable def heuristicForecaster : Forecaster ℝ :=
  ⟨⟨1, 0, 1⟩, gaussianHeuristic [1, 1], 1⟩

theorem successDimension_heuristicForecaster :
    heuristicForecaster.successDimension Lookahead.cubicProfile = .ok 2 := by
  apply Lookahead.successDimension_cubicProfile
  have hpositive : 0 < gaussianHeuristic ([1, 1] : List ℝ) := Real.exp_pos _
  change gaussianHeuristic [1, 1] / 1 * 2 / 3 < 4 / 3 * gaussianHeuristic ([1, 1] : List ℝ)
  linarith

/-- At twice the scale the integer lattice of rank three has the same forecast, and two further
blocksizes are looked at with the same answer. -/
theorem decisions_ignore_scale_cubic :
    let p : Profile ℝ := Lookahead.cubicProfile
    let f : Forecaster ℝ := heuristicForecaster
    let timings : TimingTable ℝ := ⟨[(2, 1)]⟩
    (0 : ℝ) < 2 ∧
      (p.scale 2 two_pos).simulate 2 3 = (p.simulate 2 3).map (Profile.scale 2 two_pos) ∧
      f.successDimension p = .ok 2 ∧ (f.scale 2).successDimension (p.scale 2 two_pos) = .ok 2 ∧
      Window.forSearch (p.scale 2 two_pos) 2 (2 * 3) 2 = Window.forSearch p 2 3 2 ∧
      Lookahead.run (ReferenceEngine.engine .standard) ⟨f.scale 2, 3, 1⟩ timings 2
          (p.scale 2 two_pos) [2, 3] =
        (Lookahead.run (ReferenceEngine.engine .standard) ⟨f, 3, 1⟩ timings 2 p
          [2, 3]).adaptExcept (Failure.scaleTarget 2) := by
  intro p f timings
  obtain ⟨hsimulate, hforecast, hwindow, hahead⟩ := decisions_ignore_scale 2 two_pos p f
  have hsuccess : f.successDimension p = .ok 2 := successDimension_heuristicForecaster
  rw [hsuccess] at hforecast
  exact ⟨two_pos, hsimulate 2 3, hsuccess, hforecast, hwindow 2 3 2,
    hahead .standard 3 1 timings 2 [2, 3]⟩

/-- The profile of the integer lattice of rank two, in which no forecast succeeds. -/
def squareProfile : Profile ℝ :=
  .positive [1, 1] (by simp) (by simp)

noncomputable def unitForecaster : Forecaster ℝ :=
  ⟨⟨1, 0, 1⟩, 1, 1⟩

/-- The failure names the target. -/
theorem failed_forecast_tells_scale :
    (unitForecaster.scale 2).successDimension (squareProfile.scale 2 two_pos) ≠
      unitForecaster.successDimension squareProfile := by
  have hscaled : (unitForecaster.scale 2).successDimension (squareProfile.scale 2 two_pos) =
      .error (.degenerateProfile 2 (2 * 1)) := rfl
  have hunit : unitForecaster.successDimension squareProfile =
      .error (.degenerateProfile 2 1) := rfl
  rw [hscaled, hunit]
  intro h
  obtain ⟨-, htarget⟩ := Failure.degenerateProfile.inj (Except.error.inj h)
  norm_num at htarget

end EmbeddingAttack
