import EmbeddingAttack.Engine.Scripted
import EmbeddingAttack.Proofs.Attack.SearchTime
import EmbeddingAttack.Proofs.Attack.SuccessDimension
import EmbeddingAttack.Proofs.Computation

/-!
# Total times of a look-ahead

A look-ahead takes each tour time from that of the tour before it, through a table that it writes as
it goes.  The ratios of times multiply, so that every time is the one of the current blocksize times
a power of two, and the rest of the table plays no part.  What a step decides is then a comparison
of two total times: that of searching now, and that of reducing up to the step and searching there.
-/

namespace EmbeddingAttack

namespace Table

variable {κ ν : Type} [LT κ] [DecidableLT κ] [DecidableEq κ]

theorem lookup_updateEntries (key : κ) (f : Option ν → ν) (entries : List (κ × ν)) :
    ∃ old, (updateEntries key f entries).lookup key = some (f old) := by
  induction entries with
  | nil => exact ⟨none, List.lookup_cons_self⟩
  | cons entry rest ih =>
      obtain ⟨k, v⟩ := entry
      unfold updateEntries
      split
      · exact ⟨none, List.lookup_cons_self⟩
      split
      · exact ⟨some v, List.lookup_cons_self⟩
      · have hne : (key == k) = false := by simpa
        rw [List.lookup_cons, hne]
        exact ih

theorem get?_insert_self (t : Table κ ν) (key : κ) (value : ν) :
    (t.insert key value).get? key = some value := by
  obtain ⟨old, h⟩ := lookup_updateEntries key (fun _ => value) t.entries
  exact h

end Table

namespace Lookahead

variable {σ β : Type}

section Chain

variable {α : Type} [Scalar α]

/-- The profiles expected after each of the blocksizes in turn, with the worlds before and after
their simulation. -/
inductive Simulated (engine : Engine α σ β) (tours : Nat) :
    List Nat → Profile α → σ → List (Profile α) → σ → Prop
  | nil (profile : Profile α) (world : σ) : Simulated engine tours [] profile world [] world
  | cons {b : Nat} {rest : List Nat} {profile next : Profile α} {profiles : List (Profile α)}
      {world world' world'' : σ} (head : engine.simulate profile b tours world = .ok next world')
      (tail : Simulated engine tours rest next world' profiles world'') :
      Simulated engine tours (b :: rest) profile world (next :: profiles) world''

end Chain

variable (engine : Engine ℝ σ β) (ahead : Lookahead ℝ)

/-- The look-ahead without a table: each tour time comes at once from the time at a blocksize. -/
noncomputable def extrapolate (blocksize : Nat) (time : ℝ) :
    List Nat → (profile : Profile ℝ) → (extraTime : ℝ) →
      EStateM (Failure ℝ) σ (List (LookaheadStep ℝ))
  | [], _, _ => return []
  | b :: rest, profile, extraTime => do
    let profile ← engine.simulate profile b ahead.tours
    let tourTime := time * ahead.forecaster.cost.ratio b blocksize
    let extraTime := extraTime + tourTime
    let dimension ← ofExcept (ahead.forecaster.successDimension profile)
    let step : LookaheadStep ℝ :=
      ⟨b, tourTime, extraTime, dimension,
        ahead.forecaster.cost.paysOff ahead.currentDimension dimension extraTime⟩
    return step :: (← extrapolate blocksize time rest profile extraTime)

variable {timings : TimingTable ℝ} {blocksize previous : Nat} {time : ℝ}

/-- Whatever was written before, the entry read is that of the tour simulated last. -/
theorem simulate_eq_extrapolate (upcoming : List Nat) (profile : Profile ℝ) (extraTime : ℝ)
    (hentry : timings.get? previous =
      some (time * ahead.forecaster.cost.ratio previous blocksize)) :
    simulate engine ahead upcoming timings previous profile extraTime =
      extrapolate engine ahead blocksize time upcoming profile extraTime := by
  induction upcoming generalizing timings previous profile extraTime with
  | nil => rfl
  | cons b rest ih =>
      have htime : time * ahead.forecaster.cost.ratio previous blocksize *
          ahead.forecaster.cost.ratio b previous =
            time * ahead.forecaster.cost.ratio b blocksize := by
        rw [mul_assoc, CostModel.ratio_mul_ratio]
      have hrest : simulate engine ahead rest
          (timings.insert b (time * ahead.forecaster.cost.ratio b blocksize)) b =
            extrapolate engine ahead blocksize time rest := by
        funext next extraTime
        apply ih
        exact Table.get?_insert_self _ _ _
      unfold simulate extrapolate
      rw [hentry]
      dsimp only
      rw [htime, hrest]

/-- What the steps listed from some extra time on say about the blocksizes simulated and the search
dimensions expected after them. -/
structure Lists (blocksize : Nat) (time extraTime : ℝ) (upcoming dimensions : List Nat)
    (steps : List (LookaheadStep ℝ)) : Prop where
  blocksizes : steps.map (·.blocksize) = upcoming
  dimensions : steps.map (·.successDimension) = dimensions
  tourTime : ∀ step ∈ steps,
    step.tourTime = time * ahead.forecaster.cost.ratio step.blocksize blocksize
  extraTime : ∀ i (h : i < steps.length),
    steps[i].extraTime = extraTime + ((steps.take (i + 1)).map (·.tourTime)).sum
  paysOff : ∀ step ∈ steps, step.moreReduction =
    ahead.forecaster.cost.paysOff ahead.currentDimension step.successDimension step.extraTime

namespace Lists

variable {ahead} {extraTime : ℝ} {upcoming dimensions : List Nat} {steps : List (LookaheadStep ℝ)}

theorem nil : ahead.Lists blocksize time extraTime [] [] [] where
  blocksizes := rfl
  dimensions := rfl
  tourTime := by simp
  extraTime := by simp
  paysOff := by simp

theorem cons {b k : Nat} {tourTime : ℝ}
    (htime : tourTime = time * ahead.forecaster.cost.ratio b blocksize)
    (h : ahead.Lists blocksize time (extraTime + tourTime) upcoming dimensions steps) :
    ahead.Lists blocksize time extraTime (b :: upcoming) (k :: dimensions)
      (⟨b, tourTime, extraTime + tourTime, k,
        ahead.forecaster.cost.paysOff ahead.currentDimension k (extraTime + tourTime)⟩ ::
          steps) where
  blocksizes := by rw [List.map_cons, h.blocksizes]
  dimensions := by rw [List.map_cons, h.dimensions]
  tourTime := List.forall_mem_cons.mpr ⟨htime, h.tourTime⟩
  extraTime i hi := by
    cases i with
    | zero => simp
    | succ i =>
        have hlater := h.extraTime i (Nat.lt_of_succ_lt_succ hi)
        rw [List.take_succ_cons, List.map_cons, List.sum_cons, ← add_assoc]
        exact hlater
  paysOff := List.forall_mem_cons.mpr ⟨rfl, h.paysOff⟩

theorem extraTime_nonneg (h : ahead.Lists blocksize time 0 upcoming dimensions steps)
    (htime : 0 ≤ time) : ∀ step ∈ steps, 0 ≤ step.extraTime := by
  intro step hstep
  obtain ⟨i, hi, rfl⟩ := List.mem_iff_getElem.mp hstep
  rw [h.extraTime i hi, zero_add]
  apply List.sum_nonneg
  intro tourTime htour
  obtain ⟨earlier, hearlier, rfl⟩ := List.mem_map.mp htour
  rw [h.tourTime earlier (List.mem_of_mem_take hearlier)]
  have hratio := ahead.forecaster.cost.ratio_pos earlier.blocksize blocksize
  positivity

theorem moreReduction_iff (h : ahead.Lists blocksize time 0 upcoming dimensions steps)
    (hexponent : 0 < ahead.forecaster.cost.exponent) (htime : 0 ≤ time) :
    moreReduction steps = true ↔ ∃ step ∈ steps,
      step.extraTime + ahead.forecaster.cost.searchTime step.successDimension <
        ahead.forecaster.cost.searchTime ahead.currentDimension := by
  have hstep (step : LookaheadStep ℝ) (hmem : step ∈ steps) : step.moreReduction = true ↔
      step.extraTime + ahead.forecaster.cost.searchTime step.successDimension <
        ahead.forecaster.cost.searchTime ahead.currentDimension := by
    rw [h.paysOff step hmem]
    exact CostModel.paysOff_iff hexponent _ _ (h.extraTime_nonneg htime step hmem)
  unfold moreReduction
  rw [List.any_eq_true]
  constructor
  · intro ⟨step, hmem, hmore⟩
    exact ⟨step, hmem, (hstep step hmem).mp hmore⟩
  · intro ⟨step, hmem, hlt⟩
    exact ⟨step, hmem, (hstep step hmem).mpr hlt⟩

end Lists

variable {engine ahead}

theorem exists_lists_of_simulated {upcoming dimensions : List Nat} {profile : Profile ℝ}
    {profiles : List (Profile ℝ)} {world world' : σ} (extraTime : ℝ)
    (h : Simulated engine ahead.tours upcoming profile world profiles world')
    (hforecasts : List.Forall₂ (fun p k => ahead.forecaster.successDimension p = .ok k) profiles
      dimensions) :
    ∃ steps, extrapolate engine ahead blocksize time upcoming profile extraTime world =
        .ok steps world' ∧
      ahead.Lists blocksize time extraTime upcoming dimensions steps := by
  induction h generalizing dimensions extraTime with
  | nil profile world =>
      cases hforecasts
      exact ⟨[], rfl, .nil⟩
  | @cons b rest profile next profiles world world' world'' head tail ih =>
      cases hforecasts with
      | @cons _ k _ dimensions hk hrest =>
          obtain ⟨steps, hsteps, hlists⟩ :=
            ih (extraTime + time * ahead.forecaster.cost.ratio b blocksize) hrest
          refine ⟨_, ?_, hlists.cons (k := k) rfl⟩
          unfold extrapolate
          apply (bind_of_ok head).trans
          rw [hk]
          exact bind_of_ok hsteps

theorem exists_of_extrapolate_error {upcoming : List Nat} {profile : Profile ℝ} {extraTime : ℝ}
    {world world' : σ} {e : Failure ℝ}
    (h : extrapolate engine ahead blocksize time upcoming profile extraTime world =
      .error e world') :
    ∃ b ∈ upcoming, ∃ earlier before,
      engine.simulate earlier b ahead.tours before = .error e world' ∨
        ∃ next, engine.simulate earlier b ahead.tours before = .ok next world' ∧
          ahead.forecaster.successDimension next = .error e ∧
          e = .degenerateProfile next.dimension ahead.forecaster.targetNorm := by
  induction upcoming generalizing profile extraTime world with
  | nil => cases h
  | cons b rest ih =>
      unfold extrapolate at h
      cases hsimulate : engine.simulate profile b ahead.tours world with
      | error e' t =>
          have herror := (bind_of_error hsimulate).symm.trans h
          cases herror
          exact ⟨b, List.mem_cons_self, profile, world, .inl hsimulate⟩
      | ok next t =>
          have hnext := (bind_of_ok hsimulate).symm.trans h
          cases hforecast : ahead.forecaster.successDimension next with
          | error e' =>
              rw [hforecast] at hnext
              cases hnext
              exact ⟨b, List.mem_cons_self, profile, world,
                .inr ⟨next, hsimulate, hforecast, Forecaster.eq_of_successDimension hforecast⟩⟩
          | ok k =>
              rw [hforecast] at hnext
              cases hrest : extrapolate engine ahead blocksize time rest next
                  (extraTime + time * ahead.forecaster.cost.ratio b blocksize) t with
              | error e' u =>
                  have herror := (bind_of_error hrest).symm.trans hnext
                  cases herror
                  obtain ⟨b', hmem, hfailure⟩ := ih hrest
                  exact ⟨b', List.mem_cons_of_mem b hmem, hfailure⟩
              | ok steps u =>
                  have hok := (bind_of_ok hrest).symm.trans hnext
                  cases hok

/-- A look-ahead compares total times, for every engine, forecaster, profile and list of
blocksizes.  Where the simulations and the forecasts succeed it lists one step for each blocksize,
and it asks for more reduction exactly when the extra time of some step and the search expected
after it take less than the search now.  Of the table it reads the entry of the current blocksize
only, and with that entry nothing fails but a simulation or a forecast. -/
theorem run_compares_total_times (engine : Engine ℝ σ β) (ahead : Lookahead ℝ)
    (hexponent : 0 < ahead.forecaster.cost.exponent) (timings : TimingTable ℝ) (blocksize : Nat)
    (time : ℝ) (htime : 0 ≤ time) (hentry : timings.get? blocksize = some time)
    (profile : Profile ℝ) (upcoming : List Nat) :
    (∀ (profiles : List (Profile ℝ)) (dimensions : List Nat) (world world' : σ),
      Simulated engine ahead.tours upcoming profile world profiles world' →
      List.Forall₂ (fun p k => ahead.forecaster.successDimension p = .ok k) profiles dimensions →
      ∃ steps, ahead.run engine timings blocksize profile upcoming world = .ok steps world' ∧
        steps.length = upcoming.length ∧
        steps.map (·.blocksize) = upcoming ∧
        steps.map (·.successDimension) = dimensions ∧
        (∀ step ∈ steps, step.tourTime =
          time * 2 ^ (ahead.forecaster.cost.exponent * ((step.blocksize : ℝ) - blocksize))) ∧
        (∀ i (h : i < steps.length),
          steps[i].extraTime = ((steps.take (i + 1)).map (·.tourTime)).sum) ∧
        (moreReduction steps = true ↔ ∃ step ∈ steps,
          step.extraTime + ahead.forecaster.cost.searchTime step.successDimension <
            ahead.forecaster.cost.searchTime ahead.currentDimension)) ∧
    (∀ timings' : TimingTable ℝ, timings'.get? blocksize = some time →
      ahead.run engine timings' blocksize profile upcoming =
        ahead.run engine timings blocksize profile upcoming) ∧
    ∀ (e : Failure ℝ) (world world' : σ),
      ahead.run engine timings blocksize profile upcoming world = .error e world' →
      ∃ b ∈ upcoming, ∃ earlier before,
        engine.simulate earlier b ahead.tours before = .error e world' ∨
          ∃ next, engine.simulate earlier b ahead.tours before = .ok next world' ∧
            ahead.forecaster.successDimension next = .error e ∧
            e = .degenerateProfile next.dimension ahead.forecaster.targetNorm := by
  have hrun (timings' : TimingTable ℝ) (hentry' : timings'.get? blocksize = some time) :
      ahead.run engine timings' blocksize profile upcoming =
        extrapolate engine ahead blocksize time upcoming profile 0 := by
    apply simulate_eq_extrapolate
    rw [hentry', CostModel.ratio_self, mul_one]
  refine ⟨?_, ?_, ?_⟩
  · intro profiles dimensions world world' hsimulated hforecasts
    obtain ⟨steps, hsteps, hlists⟩ := exists_lists_of_simulated 0 hsimulated hforecasts
    refine ⟨steps, ?_, ?_, hlists.blocksizes, hlists.dimensions, hlists.tourTime, ?_,
      hlists.moreReduction_iff hexponent htime⟩
    · rw [hrun timings hentry, hsteps]
    · rw [← hlists.blocksizes, List.length_map]
    · intro i hi
      rw [hlists.extraTime i hi, zero_add]
  · intro timings' hentry'
    rw [hrun timings hentry, hrun timings' hentry']
  · intro e world world' herror
    rw [hrun timings hentry] at herror
    exact exists_of_extrapolate_error herror

/-! ## Three tours that pay for themselves -/

/-- A search in dimension 70 takes 64 seconds, and any vector is short enough. -/
noncomputable def cheapTours : Lookahead ℝ :=
  ⟨⟨⟨1, 64, 1⟩, 0, 1⟩, 70, 1⟩

/-- The profile of the integer lattice of rank three. -/
def cubicProfile : Profile ℝ where
  lengths := [1, 1, 1]
  nonempty := by simp
  proper := by
    intro x hx
    have hone : x = 1 := by simpa using hx
    rw [hone]
    exact ⟨rfl, not_le.mpr one_pos⟩

/-- In dimension three there is only one dimension to try. -/
theorem successDimension_cubicProfile {f : Forecaster ℝ}
    (h : f.targetNorm / f.goalMargin * 2 / 3 < 4 / 3 * gaussianHeuristic [1, 1]) :
    f.successDimension cubicProfile = .ok 2 := by
  have hsuccess : f.isSuccess cubicProfile 2 = true := Forecaster.isSuccess_iff.mpr h
  exact Forecaster.successDimension_eq_ok_iff.mpr
    ⟨⟨le_rfl, Nat.lt_succ_self 2, hsuccess⟩, fun _ hj => hj.1⟩

theorem successDimension_cheapTours :
    cheapTours.forecaster.successDimension cubicProfile = .ok 2 := by
  apply successDimension_cubicProfile
  have hpositive : 0 < gaussianHeuristic ([1, 1] : List ℝ) := Real.exp_pos _
  change (0 : ℝ) / 1 * 2 / 3 < 4 / 3 * gaussianHeuristic [1, 1]
  linarith

theorem cheapTours_go_on :
    0 < cheapTours.forecaster.cost.exponent ∧
      (⟨[(60, 1), (62, 90)]⟩ : TimingTable ℝ).get? 60 = some 1 ∧
      ∃ steps, cheapTours.run SimulationScript.identity.engine ⟨[(60, 1), (62, 90)]⟩ 60
          cubicProfile [62, 64, 62] () = .ok steps () ∧
        steps.map (·.successDimension) = [2, 2, 2] ∧ moreReduction steps = true := by
  have hexponent : 0 < cheapTours.forecaster.cost.exponent := one_pos
  have hentry : (⟨[(60, 1), (62, 90)]⟩ : TimingTable ℝ).get? 60 = some 1 := rfl
  have hcompared := run_compares_total_times (SimulationScript.identity.engine) cheapTours
    hexponent ⟨[(60, 1), (62, 90)]⟩ 60 1 zero_le_one hentry cubicProfile [62, 64, 62]
  obtain ⟨steps, hrun, -, hblocksizes, hdimensions, htour, hextra, hmore⟩ :=
    hcompared.1 [cubicProfile, cubicProfile, cubicProfile] [2, 2, 2] () ()
      (.cons rfl (.cons rfl (.cons rfl (.nil _ _))))
      (.cons successDimension_cheapTours (.cons successDimension_cheapTours
        (.cons successDimension_cheapTours .nil)))
  refine ⟨hexponent, hentry, steps, hrun, hdimensions, hmore.mpr ?_⟩
  -- The first tour takes four seconds.
  cases steps with
  | nil => cases hblocksizes
  | cons first rest =>
      have hblocksize : first.blocksize = 62 := by
        simpa using congrArg List.head? hblocksizes
      have hdimension : first.successDimension = 2 := by
        simpa using congrArg List.head? hdimensions
      have htime : first.tourTime = 4 := by
        rw [htour first List.mem_cons_self, hblocksize]
        change (1 : ℝ) * 2 ^ (1 * (((62 : ℕ) : ℝ) - ((60 : ℕ) : ℝ))) = 4
        norm_num
      have hfirst : first.extraTime = 4 := by
        have h := hextra 0 (by simp)
        simpa [htime] using h
      refine ⟨first, List.mem_cons_self, ?_⟩
      rw [hfirst, hdimension, CostModel.searchTime_eq, CostModel.searchTime_eq]
      change (4 : ℝ) + 2 ^ ((1 : ℝ) * (((2 : ℕ) : ℝ) - 64)) / ((1 : ℕ) : ℝ) <
        2 ^ ((1 : ℝ) * (((70 : ℕ) : ℝ) - 64)) / ((1 : ℕ) : ℝ)
      have hlate : (2 : ℝ) ^ ((1 : ℝ) * (((70 : ℕ) : ℝ) - 64)) = 64 := by
        norm_num
      have hearly : (2 : ℝ) ^ ((1 : ℝ) * (((2 : ℕ) : ℝ) - 64)) ≤ 1 := by
        apply Real.rpow_le_one_of_one_le_of_nonpos one_le_two
        norm_num
      rw [hlate, Nat.cast_one, div_one, div_one]
      linarith

end Lookahead

end EmbeddingAttack
