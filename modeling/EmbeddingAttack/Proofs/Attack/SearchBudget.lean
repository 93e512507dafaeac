import EmbeddingAttack.Proofs.Attack.LookaheadTimes
import EmbeddingAttack.Proofs.Attack.SearchDecision
import EmbeddingAttack.Proofs.Attack.SearchTime
import EmbeddingAttack.Proofs.Attack.WholeRun

/-!
# The time that a search may take

A search is expected to take no longer than the reduction before it has paid for, up to the
dimensions that it gets beyond those that it can afford.  The time spent in searches is not paid
from: after each of them the time of reduction starts again.
-/

namespace EmbeddingAttack

variable {σ β : Type}

theorem AttackParameters.costExponent_pos {α : Type} [Scalar α] {p : AttackParameters α}
    (h : p.validate = .ok ()) : 0 < p.costExponent := by
  unfold validate at h
  obtain ⟨-, h⟩ := guard_eq_ok.mp h
  obtain ⟨-, h⟩ := guard_eq_ok.mp h
  obtain ⟨-, h⟩ := guard_eq_ok.mp h
  obtain ⟨-, h⟩ := guard_eq_ok.mp h
  obtain ⟨-, h⟩ := guard_eq_ok.mp h
  obtain ⟨-, h⟩ := guard_eq_ok.mp h
  obtain ⟨hexponent, -⟩ := guard_eq_ok.mp h
  by_contra hnot
  exact hexponent (.inl hnot)

/-- A window enumerates as many dimensions as were asked for, if it is long enough. -/
theorem Window.enumerated_eq {α : Type} [Scalar α] (p : Profile α) (blocksize : Nat) (target : α)
    (dimension : Nat) :
    (forSearch p blocksize target dimension).length -
      (forSearch p blocksize target dimension).free =
        min (forSearch p blocksize target dimension).length dimension := by
  unfold forSearch
  dsimp only
  omega

namespace AttackLoop

variable {loop : AttackLoop ℝ σ β}

theorem searchTime_le_of_affordable (hexponent : 0 < loop.parameters.costExponent) {time : ℝ}
    {k dimension : Nat}
    (hk : k < loop.forecaster.attainable time loop.parameters.searchTimeFactor)
    (hdimension : dimension ≤ loop.forecaster.attainable time loop.parameters.searchTimeFactor +
      loop.parameters.searchDimensionMargin) :
    loop.parameters.costModel.searchTime dimension ≤
      2 ^ (loop.parameters.costExponent * loop.parameters.searchDimensionMargin) *
        loop.parameters.searchTimeFactor * time := by
  have hthreads : 0 < loop.parameters.costModel.threads := lt_max_of_lt_right Nat.one_pos
  have hattainable : loop.parameters.costModel.searchTime
      (loop.forecaster.attainable time loop.parameters.searchTimeFactor : ℕ) ≤
        loop.parameters.searchTimeFactor * time :=
    (CostModel.le_attainable_iff hexponent hthreads (Nat.zero_lt_of_lt hk)
      (CostModel.attainable_lt _)).mp le_rfl
  have hcast : (dimension : ℝ) ≤
      (loop.forecaster.attainable time loop.parameters.searchTimeFactor : ℕ) +
        (loop.parameters.searchDimensionMargin : ℝ) := by
    exact_mod_cast hdimension
  calc loop.parameters.costModel.searchTime dimension
      ≤ loop.parameters.costModel.searchTime
          ((loop.forecaster.attainable time loop.parameters.searchTimeFactor : ℕ) +
            (loop.parameters.searchDimensionMargin : ℝ)) :=
        CostModel.searchTime_mono hexponent hcast
    _ = 2 ^ (loop.parameters.costExponent * loop.parameters.searchDimensionMargin) *
          loop.parameters.costModel.searchTime
            (loop.forecaster.attainable time loop.parameters.searchTimeFactor : ℕ) :=
        CostModel.searchTime_add _ _ _
    _ ≤ 2 ^ (loop.parameters.costExponent * loop.parameters.searchDimensionMargin) *
          (loop.parameters.searchTimeFactor * time) := by
        gcongr
    _ = 2 ^ (loop.parameters.costExponent * loop.parameters.searchDimensionMargin) *
          loop.parameters.searchTimeFactor * time := by
        rw [mul_assoc]

theorem opening_reductionStart {α : Type} [Scalar α] {loop : AttackLoop α σ β}
    {s s' : RunState α σ β} (h : loop.opening s = .ok () s') :
    ∃ world, (s'.context.reductionStart, s'.world) = loop.clock world := by
  obtain ⟨⟨⟩, s₁, -, hrest⟩ := exists_of_bind_ok h
  obtain ⟨profile, s₂, -, hrest⟩ := exists_of_bind_ok hrest
  obtain ⟨⟨⟩, s₃, -, hrest⟩ := exists_of_bind_ok hrest
  obtain ⟨now, s₄, hnow, hstart⟩ := exists_of_bind_ok hrest
  cases hnow
  cases hstart
  exact ⟨s₃.world, rfl⟩

/-- A search stays within the budget that justified it, for every engine, clock and schedule, and
whether the run succeeds or fails.  Its expected time is bounded by the time of reduction: from the
reading after the cleanup of the last search, or from the start of the clocks, to the reading right
after the last tour.  With a zero share of time for searches there is none. -/
theorem drive_searches_within_budget (loop : AttackLoop ℝ σ β)
    (hvalid : loop.parameters.validate = .ok ()) (s : RunState ℝ σ β) :
    mapState RunState.unwatched (loop.watched.drive s.watched) = loop.drive s ∧
    (∀ before window goal basis after,
      (finalState (loop.watched.drive s.watched)).seen =
        before ++ .search window goal basis :: after →
      ∃ earlier order stop since origin,
        before = earlier ++ .tour order :: .reading stop :: since ∧
        (∀ e ∈ since, e.isTour = false ∧ e.isSearch = false) ∧
        ReductionStart s.context.reductionStart earlier origin ∧
        loop.parameters.costModel.searchTime ((window.length - window.free : ℕ) : ℝ) ≤
          2 ^ (loop.parameters.costExponent * loop.parameters.searchDimensionMargin) *
            loop.parameters.searchTimeFactor * (stop - origin)) ∧
    (loop.parameters.searchTimeFactor = 0 →
      ∀ e ∈ (finalState (loop.watched.drive s.watched)).seen, e.isSearch = false) ∧
    ∀ s₀, loop.opening s₀ = .ok () s →
      ∃ world, (s.context.reductionStart, s.world) = loop.clock world := by
  obtain ⟨hsame, hjustified⟩ := loop.drive_justified s
  refine ⟨hsame, ?_, ?_, fun _ => opening_reductionStart⟩
  · intro before window goal basis after hseen
    obtain ⟨blocksize, time, profile, needed, hdecision⟩ :=
      hjustified before window goal basis after hseen
    obtain ⟨earlier, order, stop, since, origin, hbefore, hsince, -, horigin, rfl⟩ :=
      hdecision.toured
    refine ⟨earlier, order, stop, since, origin, hbefore, hsince, horigin, ?_⟩
    apply searchTime_le_of_affordable (AttackParameters.costExponent_pos hvalid)
      hdecision.affordable
    rw [hdecision.window_eq, Window.enumerated_eq]
    exact (min_le_right _ _).trans (Nat.mod_le _ _)
  · intro hzero e he
    cases e with
    | search window goal basis =>
        obtain ⟨before, after, hseen⟩ := List.append_of_mem he
        obtain ⟨blocksize, time, profile, needed, hdecision⟩ :=
          hjustified before window goal basis after hseen
        have haffordable := hdecision.affordable
        have hnone : loop.forecaster.attainable time loop.parameters.searchTimeFactor = 0 := by
          apply CostModel.attainable_of_nonpos
          rw [hzero, zero_mul]
        omega
    | _ => rfl

/-! ## A run that searches -/

/-- An engine that leaves the lattice of integer vectors of length three as it is. -/
noncomputable def idleEngine : Engine ℝ ℕ Unit where
  load _ := pure ()
  tour _ := pure ()
  search _ _ := return ⟨none, false, false⟩
  simulate profile _ _ := pure profile
  clean := pure ()
  profile _ := .ok Lookahead.cubicProfile
  firstLength _ := .ok (gaussianHeuristic [1, 1] + 1)
  firstRow _ := []

/-- A search in dimension four takes one second, and each reading of the clock takes another. -/
noncomputable def idleLoop (margin : ℕ) : AttackLoop ℝ ℕ Unit where
  engine := idleEngine
  clock readings := (readings, readings + 1)
  parameters :=
    { AttackParameters.standard with
      verbose := false, lookaheadSteps := 0, costExponent := 1, costOffset := 4.0,
      searchDimensionMargin := margin }
  schedule := ⟨[2]⟩
  targetNorm := gaussianHeuristic [1, 1]

theorem gaussianHeuristic_pos : 0 < gaussianHeuristic ([1, 1] : List ℝ) :=
  Real.exp_pos _

/-- The window of the search. -/
def idleWindow (margin : ℕ) : Window :=
  ⟨1, 2, 2 - wrapSize (4 + margin)⟩

variable (margin : ℕ)

theorem validate_idleLoop : (idleLoop margin).parameters.validate = .ok () := by
  have halpha : (0 : ℝ) < 0.005 ∧ (0.005 : ℝ) < 1 := by norm_num
  have hmargin : (0 : ℝ) < 1.5 := by norm_num
  unfold AttackParameters.validate
  apply guard_eq_ok.mpr
  refine ⟨not_not.mpr halpha, guard_eq_ok.mpr ⟨?_, guard_eq_ok.mpr ⟨?_, ?_⟩⟩⟩
  · rintro (hnot | hinfinite)
    · exact hnot hmargin
    · cases hinfinite
  · rintro (hnot | hinfinite)
    · exact hnot zero_le_one
    · cases hinfinite
  refine guard_eq_ok.mpr ⟨Nat.one_ne_zero, guard_eq_ok.mpr ⟨Nat.one_ne_zero, ?_⟩⟩
  refine guard_eq_ok.mpr ⟨Nat.one_ne_zero, guard_eq_ok.mpr ⟨?_, rfl⟩⟩
  rintro (hnot | hinfinite)
  · exact hnot one_pos
  · cases hinfinite

theorem successDimension_idleLoop :
    (idleLoop margin).forecaster.successDimension Lookahead.cubicProfile = .ok 2 := by
  apply Lookahead.successDimension_cubicProfile
  have h := gaussianHeuristic_pos
  have hmargin : (1.5 : ℝ) = 3 / 2 := by norm_num
  change gaussianHeuristic [1, 1] / 1.5 * 2 / 3 < 4 / 3 * gaussianHeuristic ([1, 1] : List ℝ)
  rw [hmargin]
  linarith

theorem attainable_idleLoop : (idleLoop margin).forecaster.attainable ((1 : ℕ) - 0) 1 = 4 := by
  have hattainable (k : ℕ) (hk : 0 < k) (hsize : k < 2 ^ 64) :
      k ≤ (idleLoop margin).parameters.costModel.attainable (1 * ((1 : ℕ) - 0)) ↔
        (2 : ℝ) ^ ((1 : ℝ) * (k - 4.0)) / (1 : ℕ) ≤ 1 * ((1 : ℕ) - 0) :=
    CostModel.le_attainable_iff one_pos Nat.one_pos hk hsize
  change (idleLoop margin).parameters.costModel.attainable (1 * ((1 : ℕ) - 0)) = 4
  apply le_antisymm
  · by_contra hlarge
    have h := (hattainable 5 (by norm_num) (by norm_num)).mp (by omega)
    norm_num at h
  · apply (hattainable 4 (by norm_num) (by norm_num)).mpr
    norm_num

theorem goalReached_idleLoop (t : RunState ℝ (Watched ℝ ℕ Unit) Unit) :
    (idleLoop margin).watched.goalReached t = .ok false t := by
  have hlong : ¬ gaussianHeuristic [1, 1] + 1 ≤ gaussianHeuristic ([1, 1] : List ℝ) := by
    linarith
  exact congrArg (fun reached => EStateM.Result.ok reached t) (decide_eq_false hlong)

theorem forSearch_idleLoop :
    Window.forSearch Lookahead.cubicProfile 2 (idleLoop margin).targetNorm
      (wrapSize (4 + margin)) = idleWindow margin := by
  have hlong : ¬ gaussianHeuristic ([1, 1] : List ℝ) <
      gaussianHeuristic [1, 1] * (2 : ℕ) / (3 : ℕ) := by
    have h := gaussianHeuristic_pos
    push_cast
    linarith
  have hstart : Window.extend Lookahead.cubicProfile (idleLoop margin).targetNorm
      (Lookahead.cubicProfile.dimension - 2) = 1 := if_neg hlong
  unfold Window.forSearch
  dsimp only
  rw [hstart]
  rfl

/-- What is seen up to the evaluation. -/
def idleTour : List (RunEvent ℝ Unit) :=
  [.reading (0 : ℕ), .tour (.enumeration 2), .reading (1 : ℕ), .reading (2 : ℕ), .clean]

/-- What is seen from the evaluation on. -/
noncomputable def idleSearch : List (RunEvent ℝ Unit) :=
  [.search (idleWindow margin) ((idleLoop margin).targetNorm * (2 : ℕ) / (3 : ℕ)) (), .clean,
    .reading (3 : ℕ)]

def idleTimings : TimingTable ℝ := ⟨[(2, (2 : ℕ) - (0 : ℕ))]⟩

theorem evaluate_idleLoop (t : RunState ℝ (Watched ℝ ℕ Unit) Unit) :
    (idleLoop margin).watched.evaluate 2 ((1 : ℕ) - 0) t =
      .ok (some (idleWindow margin, (idleLoop margin).targetNorm * (2 : ℕ) / (3 : ℕ))) t := by
  have hprofile : (idleLoop margin).watched.profile t = .ok Lookahead.cubicProfile t := rfl
  have hneeded : (ofExcept ((idleLoop margin).watched.forecaster.successDimension
      Lookahead.cubicProfile) : Run ℝ (Watched ℝ ℕ Unit) Unit Nat) t = .ok 2 t :=
    congrArg (fun x => (ofExcept x : Run ℝ (Watched ℝ ℕ Unit) Unit Nat) t)
      (successDimension_idleLoop margin)
  have hattainable : (idleLoop margin).watched.forecaster.attainable ((1 : ℕ) - 0)
      (idleLoop margin).watched.parameters.searchTimeFactor = 4 := attainable_idleLoop margin
  have hwindow : Window.forSearch Lookahead.cubicProfile 2 (idleLoop margin).watched.targetNorm
      (wrapSize (4 + (idleLoop margin).watched.parameters.searchDimensionMargin)) =
        idleWindow margin := forSearch_idleLoop margin
  unfold evaluate
  apply (bind_of_ok hprofile).trans
  apply (bind_of_ok hneeded).trans
  rw [hattainable, if_neg (by decide)]
  apply (bind_of_ok rfl).trans
  apply (bind_of_ok rfl).trans
  apply (bind_of_ok rfl).trans
  rw [hwindow]
  rfl

theorem seen_idleLoop :
    (finalState ((idleLoop margin).watched.drive
      (RunState.watched ⟨0, (), .start .dummy 0⟩))).seen = idleTour ++ idleSearch margin := by
  have hreduce : (idleLoop margin).watched.reduce 2 (RunState.watched ⟨0, (), .start .dummy 0⟩) =
      .ok ((1 : ℕ) - 0) ⟨(3, idleTour), (), ⟨.dummy, idleTimings, 0, 0⟩⟩ := rfl
  have hsearch : (idleLoop margin).watched.search (idleWindow margin)
      ((idleLoop margin).targetNorm * (2 : ℕ) / (3 : ℕ))
      ⟨(3, idleTour), (), ⟨.dummy, idleTimings, 0, 0⟩⟩ =
      .ok () ⟨(4, idleTour ++ idleSearch margin), (), ⟨.dummy, idleTimings, 0, (3 : ℕ)⟩⟩ := rfl
  have hround : (idleLoop margin).watched.round 2 { lastBlocksize := 2 }
      (RunState.watched ⟨0, (), .start .dummy 0⟩) =
        .ok ⟨.search, 2, 1, 1⟩
          ⟨(4, idleTour ++ idleSearch margin), (), ⟨.dummy, idleTimings, 0, (3 : ℕ)⟩⟩ := by
    unfold round
    apply (bind_of_ok rfl).trans
    apply (bind_of_ok hreduce).trans
    apply (bind_of_ok (goalReached_idleLoop margin _)).trans
    apply (bind_of_ok rfl).trans
    apply (bind_of_ok (evaluate_idleLoop margin _)).trans
    apply (bind_of_ok rfl).trans
    apply (bind_of_ok hsearch).trans
    exact bind_of_ok (goalReached_idleLoop margin _)
  have hdrive : (idleLoop margin).watched.drive (RunState.watched ⟨0, (), .start .dummy 0⟩) =
      .ok ⟨.exhausted, 2, 1, 1⟩
        ⟨(4, idleTour ++ idleSearch margin), (), ⟨.dummy, idleTimings, 0, (3 : ℕ)⟩⟩ := by
    have hrounds : (idleLoop margin).watched.rounds 2 1 { lastBlocksize := 2 }
        (RunState.watched ⟨0, (), .start .dummy 0⟩) =
          .ok ⟨.search, 2, 1, 1⟩
            ⟨(4, idleTour ++ idleSearch margin), (), ⟨.dummy, idleTimings, 0, (3 : ℕ)⟩⟩ :=
      bind_of_ok hround
    have hwalk : (idleLoop margin).watched.walk [2] {} (RunState.watched ⟨0, (), .start .dummy 0⟩) =
          .ok ⟨.search, 2, 1, 1⟩
            ⟨(4, idleTour ++ idleSearch margin), (), ⟨.dummy, idleTimings, 0, (3 : ℕ)⟩⟩ :=
      bind_of_ok hrounds
    exact bind_of_ok hwalk
  rw [hdrive]
  rfl

theorem idleLoop_searches_within_budget :
    (idleLoop 1).parameters.validate = .ok () ∧
      (finalState ((idleLoop 1).watched.drive (RunState.watched ⟨0, (), .start .dummy 0⟩))).seen =
        idleTour ++ idleSearch 1 ∧
      ∃ earlier order stop since origin,
        idleTour = earlier ++ .tour order :: .reading stop :: since ∧
        (∀ e ∈ since, e.isTour = false ∧ e.isSearch = false) ∧
        ReductionStart (0 : ℝ) earlier origin ∧
        (idleLoop 1).parameters.costModel.searchTime (2 : ℕ) ≤
          2 ^ ((idleLoop 1).parameters.costExponent * (idleLoop 1).parameters.searchDimensionMargin) *
            (idleLoop 1).parameters.searchTimeFactor * (stop - origin) := by
  have hbudget := drive_searches_within_budget (idleLoop 1) (validate_idleLoop 1)
    ⟨0, (), .start .dummy 0⟩
  exact ⟨validate_idleLoop 1, seen_idleLoop 1,
    hbudget.2.1 idleTour (idleWindow 1) _ () _ (seen_idleLoop 1)⟩

end AttackLoop

end EmbeddingAttack
