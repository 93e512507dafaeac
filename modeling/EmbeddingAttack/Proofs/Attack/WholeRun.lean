import EmbeddingAttack.Engine.Scripted
import EmbeddingAttack.Proofs.Attack.Soundness
import EmbeddingAttack.Proofs.Engine.Recording

/-!
# The law of a whole run

A run of the loop is a list of rounds: a tour, a cleanup, and at times a search and another cleanup.
The tours follow the schedule from its start, the goal is looked for after each cleanup, and the run
ends at the first cleanup that meets it or with the schedule.
-/

namespace EmbeddingAttack

variable {α σ β : Type}

/-- A tour and the search after it, if there is one, with the bases that the cleanups left. -/
structure AttackRound (α β : Type) where
  order : TourOrder α
  reduced : β
  search : Option (Window × α × β)

namespace AttackRound

def blocksize (r : AttackRound α β) : Nat :=
  r.order.blocksize

/-- The work of the engine in a round. -/
def events (r : AttackRound α β) : List (EngineEvent α β) :=
  [.tour r.order, .clean r.reduced] ++
    match r.search with
    | none => []
    | some (window, goal, searched) => [.search window goal, .clean searched]

/-- The bases whose first row a round compares with the target. -/
def checked (r : AttackRound α β) : List β :=
  r.reduced :: (r.search.map fun s => s.2.2).toList

end AttackRound

namespace AttackLoop

variable [Scalar α] (loop : AttackLoop α σ β)

/-- The loop with an engine that lists its work. -/
def recorded : AttackLoop α (Logged α σ β) β :=
  ⟨loop.engine.recorded, Run.loggedClock loop.clock, loop.parameters, loop.schedule,
    loop.targetNorm⟩

/-- The rounds take the loop from one progress to another along a plan of blocksizes: they are
counted, and the goal was found reached in the last check or in none. -/
structure Follows (plan : List Nat) (before after : Progress) (rounds : List (AttackRound α β)) :
    Prop where
  onPlan : rounds.map AttackRound.blocksize <+: plan
  complete : after.phase ≠ .done → rounds.length = plan.length
  tours : after.tours = before.tours + rounds.length
  searches : after.searches = before.searches + rounds.countP fun r => r.search.isSome
  last : after.lastBlocksize =
    (rounds.map AttackRound.blocksize).getLast?.getD before.lastBlocksize
  unreached : after.phase ≠ .done → ∀ basis ∈ rounds.flatMap AttackRound.checked,
    ¬ loop.Reached basis
  reached : after.phase = .done → ∃ earlier basis,
    rounds.flatMap AttackRound.checked = earlier ++ [basis] ∧
      (∀ basis ∈ earlier, ¬ loop.Reached basis) ∧ loop.Reached basis

variable {loop} {plan rest : List Nat} {p q r : Progress} {rounds more : List (AttackRound α β)}

namespace Follows

theorem nil (h : p.phase ≠ .done) : loop.Follows [] p p [] where
  onPlan := List.prefix_rfl
  complete _ := rfl
  tours := rfl
  searches := rfl
  last := rfl
  unreached _ := by simp
  reached hdone := absurd hdone h

theorem single {b : Nat} (round : AttackRound α β) (earlier : List β) (basis : β)
    (hblocksize : round.blocksize = b) (hlast : q.lastBlocksize = b)
    (htours : q.tours = p.tours + 1)
    (hsearches : q.searches = p.searches + if round.search.isSome then 1 else 0)
    (hchecked : round.checked = earlier ++ [basis])
    (hearlier : ∀ basis ∈ earlier, ¬ loop.Reached basis)
    (hphase : q.phase = .done ↔ loop.Reached basis) : loop.Follows [b] p q [round] where
  onPlan := by rw [List.map_singleton, hblocksize]
  complete _ := rfl
  tours := htours
  searches := by rw [hsearches, List.countP_singleton]
  last := by rw [List.map_singleton, hblocksize, hlast]; rfl
  unreached hq := by
    rw [List.flatMap_singleton, hchecked]
    intro other hother
    rw [List.mem_append, List.mem_singleton] at hother
    obtain hother | rfl := hother
    · exact hearlier other hother
    · exact fun hreached => hq (hphase.mpr hreached)
  reached hq := by
    refine ⟨earlier, basis, ?_, hearlier, hphase.mp hq⟩
    rw [List.flatMap_singleton, hchecked]

theorem ne_nil (h : loop.Follows plan p q rounds) (hdone : q.phase = .done) : rounds ≠ [] := by
  rintro rfl
  obtain ⟨earlier, basis, hchecked, -⟩ := h.reached hdone
  simp at hchecked

/-- A run along a plan with something in it has a round. -/
theorem ne_nil_of_plan (h : loop.Follows plan p q rounds) (hplan : plan ≠ []) : rounds ≠ [] := by
  by_cases hdone : q.phase = .done
  · exact h.ne_nil hdone
  · apply List.ne_nil_of_length_pos
    rw [h.complete hdone]
    exact List.length_pos_of_ne_nil hplan

theorem append (h : loop.Follows plan p q rounds) (hq : q.phase ≠ .done)
    (h' : loop.Follows rest q r more) : loop.Follows (plan ++ rest) p r (rounds ++ more) where
  onPlan := by
    have hlength : (rounds.map AttackRound.blocksize).length = plan.length := by
      rw [List.length_map]
      exact h.complete hq
    rw [List.map_append, h.onPlan.eq_of_length hlength, List.prefix_append_right_inj]
    exact h'.onPlan
  complete hr := by rw [List.length_append, List.length_append, h.complete hq, h'.complete hr]
  tours := by rw [h'.tours, h.tours, List.length_append, Nat.add_assoc]
  searches := by rw [h'.searches, h.searches, List.countP_append, Nat.add_assoc]
  last := by rw [List.map_append, List.getLast?_append, Option.getD_or, ← h.last, ← h'.last]
  unreached hr basis hbasis := by
    rw [List.flatMap_append, List.mem_append] at hbasis
    exact hbasis.elim (h.unreached hq basis) (h'.unreached hr basis)
  reached hr := by
    obtain ⟨earlier, last, hchecked, hearlier, hlast⟩ := h'.reached hr
    refine ⟨rounds.flatMap AttackRound.checked ++ earlier, last, ?_, ?_, hlast⟩
    · rw [List.flatMap_append, hchecked, List.append_assoc]
    · intro basis hbasis
      rw [List.mem_append] at hbasis
      exact hbasis.elim (h.unreached hq basis) (hearlier basis)

/-- What is left of a plan once the goal is reached does not matter. -/
theorem stop (h : loop.Follows plan p q rounds) (hdone : q.phase = .done) (rest : List Nat) :
    loop.Follows (plan ++ rest) p q rounds :=
  { h with
    onPlan := h.onPlan.trans (List.prefix_append plan rest)
    complete := fun hq => absurd hdone hq }

/-- The blocksize that was set last does not matter once there is a round. -/
theorem start {b : Nat} (h : loop.Follows plan { p with lastBlocksize := b } q rounds)
    (hrounds : rounds ≠ []) : loop.Follows plan p q rounds :=
  { h with
    last := by
      have hne : rounds.map AttackRound.blocksize ≠ [] := by simpa using hrounds
      rw [h.last, List.getLast?_eq_some_getLast hne]
      rfl }

theorem exhaust (h : loop.Follows plan p q rounds) (hq : q.phase ≠ .done) :
    loop.Follows plan p { q with phase := .exhausted } rounds :=
  { h with
    complete := fun _ => h.complete hq
    unreached := fun _ => h.unreached hq
    reached := fun hdone => by cases hdone }

end Follows

/-! ## The parts of a round -/

theorem lifts_enter (progress : Progress) (phase : Phase) :
    Lifts RunState.withLog (enter progress phase : Run α σ β Progress)
      (enter progress phase) := by
  unfold enter
  apply Lifts.ite
  · exact Lifts.pure _
  · exact (Run.lifts_modifyContext _).bind fun _ => Lifts.pure _

theorem ensures_enter_eq (P : β → Prop) (progress : Progress) (phase : Phase) :
    Ensures (fun s => P s.basis) (enter progress phase : Run α σ β Progress)
      fun q s => P s.basis ∧ q = { progress with phase } := by
  unfold enter
  split
  · rename_i hphase
    apply Ensures.pure
    intro s hs
    exact ⟨hs, by rw [← hphase]⟩
  · refine Ensures.bind (Run.ensures_modifyContext P _) fun _ => ?_
    exact Ensures.pure fun s hs => ⟨hs, rfl⟩

variable (loop)

theorem lifts_profile : Lifts RunState.withLog loop.profile loop.recorded.profile := by
  apply Lifts.get_bind
  intro s log
  exact Lifts.ofExcept (loop.engine.profile s.basis)

theorem lifts_goalReached :
    Lifts RunState.withLog loop.goalReached loop.recorded.goalReached := by
  apply Lifts.get_bind
  intro s log
  apply Lifts.bind (Lifts.ofExcept (loop.engine.firstLength s.basis))
  intro length
  exact Lifts.pure _

theorem ensures_goalReached_iff (P : β → Prop) :
    Ensures (fun s => P s.basis) loop.goalReached
      fun reached s => P s.basis ∧ (reached = true ↔ loop.Reached s.basis) := by
  unfold goalReached
  refine Ensures.get.bind fun t => ?_
  refine Ensures.bind (Q := fun length s =>
    P s.basis ∧ loop.engine.firstLength s.basis = .ok length) ?_ fun length => ?_
  · apply Ensures.ofExcept
    rintro length s hlength ⟨rfl, hs⟩
    exact ⟨hs, hlength⟩
  · apply Ensures.pure
    rintro s ⟨hs, hlength⟩
    refine ⟨hs, ?_⟩
    rw [decide_eq_true_iff]
    constructor
    · intro hle
      exact ⟨length, hlength, hle⟩
    · rintro ⟨length', hlength', hle⟩
      rw [hlength] at hlength'
      cases hlength'
      exact hle

theorem lifts_evaluate (blocksize : Nat) (reductionTime : α) :
    Lifts RunState.withLog (loop.evaluate blocksize reductionTime)
      (loop.recorded.evaluate blocksize reductionTime) := by
  unfold evaluate
  dsimp only
  apply Lifts.bind loop.lifts_profile
  intro profile
  apply Lifts.bind (Lifts.ofExcept _)
  intro needed
  apply Lifts.ite
  · exact Lifts.pure none
  apply Lifts.bind (Lifts.ofExcept _)
  intro upcoming
  apply Lifts.get_bind
  intro s log
  apply Lifts.bind
  · exact Run.lifts_inWorld (Lookahead.lifts_simulate loop.engine _ _ _ _ _ _)
  intro steps
  apply Lifts.ite
  · exact Lifts.pure none
  · exact Lifts.pure _

variable {P : RunState α σ β → Prop}

/-- The cleanup, and what only readies the result after it. -/
theorem records_clean {τ : Type} {f : Unit → Run α σ β τ} {g : Unit → Run α (Logged α σ β) β τ}
    (hlift : ∀ u, Lifts RunState.withLog (f u) (g u))
    (hf : ∀ u basis, Ensures (fun s => s.basis = basis) (f u) fun _ s => s.basis = basis) :
    Run.Records P (Run.work loop.engine.clean >>= f)
      (Run.work loop.recorded.engine.clean >>= g) fun _ s events => events = [.clean s.basis] := by
  refine Run.Records.bind (Run.Records.work .clean) fun _ before => ?_
  refine Run.Records.fix fun t ht => ?_
  refine Run.Records.lift (hlift _) ?_
  refine (hf _ t.basis).mono (fun s hs => by rw [hs]) fun _ s hs => ?_
  rw [List.append_nil, ht, hs]

theorem records_reduce (blocksize : Nat) :
    Run.Records P (loop.reduce blocksize) (loop.recorded.reduce blocksize)
      fun _ s events => ∃ order : TourOrder α, order.blocksize = blocksize ∧
        events = [.tour order, .clean s.basis] := by
  unfold reduce
  dsimp only
  refine Run.Records.lift_bind (Run.lifts_now _) (Ensures.trivial _) fun start => ?_
  refine Run.Records.bind (Run.Records.traced _ _) fun _ before => ?_
  refine Run.Records.fix fun t ht => ?_
  subst ht
  refine Run.Records.lift_bind (Run.lifts_now _) (Ensures.trivial _) fun reductionStop => ?_
  refine Run.Records.get_bind fun t log => ?_
  refine Run.Records.lift_bind (Run.lifts_now _) (Ensures.trivial _) fun tourStop => ?_
  refine Run.Records.lift_bind (Run.lifts_modifyContext _) (Ensures.trivial _) fun _ => ?_
  have hclean (time : α) := loop.records_clean (P := fun _ => True) (fun _ => Lifts.pure time)
    fun _ _ => Ensures.pure fun _ hs => hs
  refine Run.Records.mono (Q := fun _ s events => events = [.clean s.basis]) ?_ (fun _ hs => hs) ?_
  · refine Run.Records.ite (fun _ => ?_) fun _ => hclean _
    refine Run.Records.lift_bind loop.lifts_profile (Ensures.trivial _) fun profile => ?_
    refine Run.Records.lift_bind (Run.lifts_modifyContext _) (Ensures.trivial _) fun _ => ?_
    exact hclean _
  · rintro _ s _ rfl
    exact ⟨_, blocksize_tourOrder loop.parameters loop.targetNorm blocksize, rfl⟩

theorem records_search (window : Window) (goal : α) :
    Run.Records P (loop.search window goal) (loop.recorded.search window goal)
      fun _ s events => events = [.search window goal, .clean s.basis] := by
  unfold search
  dsimp only
  refine Run.Records.bind (Run.Records.discard (Run.Records.traced _ _)) fun _ before => ?_
  refine Run.Records.fix fun t ht => ?_
  subst ht
  have hclean := loop.records_clean (P := fun _ => True)
    (fun _ => (Run.lifts_now loop.clock).bind fun now =>
      Run.lifts_modifyContext (·.resetReduction now))
    fun _ basis => Ensures.bind (Run.ensures_now (· = basis) _) fun now =>
      Run.ensures_modifyContext (· = basis) _
  refine Run.Records.mono (Q := fun _ s events => events = [.clean s.basis]) ?_
    (fun _ _ => trivial) ?_
  · refine Run.Records.ite (fun _ => ?_) fun _ => hclean
    refine Run.Records.lift_bind (Lifts.discard loop.lifts_profile) (Ensures.trivial _) fun _ => ?_
    exact hclean
  · rintro _ s _ rfl
    rfl

/-! ## Rounds -/

section Steps

variable {τ ρ : Type} {Q : τ → RunState α σ β → List (EngineEvent α β) → Prop}

theorem records_enter {f : Progress → Run α σ β τ} {g : Progress → Run α (Logged α σ β) β τ}
    {phase : Phase}
    (h : Run.Records (fun _ => True) (f { p with phase }) (g { p with phase }) Q) :
    Run.Records P (enter p phase >>= f) (enter p phase >>= g) Q := by
  refine Run.Records.lift_bind (lifts_enter p phase)
    ((ensures_enter_eq (fun _ => True) p phase).mono (fun _ _ => trivial) fun _ _ hq => hq)
    fun q => ?_
  refine Run.Records.fix fun t ht => ?_
  obtain ⟨-, rfl⟩ := ht
  exact h.mono (fun _ _ => trivial) fun _ _ _ hb => hb

theorem records_check {f : Bool → Run α σ β τ} {g : Bool → Run α (Logged α σ β) β τ}
    (t : RunState α σ β) (h : ∀ reached : Bool, (reached = true ↔ loop.Reached t.basis) →
      Run.Records (fun _ => True) (f reached) (g reached) Q) :
    Run.Records (fun s => s = t) (loop.goalReached >>= f) (loop.recorded.goalReached >>= g) Q := by
  refine Run.Records.lift_bind loop.lifts_goalReached
    ((loop.ensures_goalReached_iff (· = t.basis)).mono (fun _ hs => by rw [hs]) fun _ _ hq => hq)
    fun reached => ?_
  refine Run.Records.fix fun u hu => ?_
  obtain ⟨hbasis, hreached⟩ := hu
  rw [hbasis] at hreached
  exact (h reached hreached).mono (fun _ _ => trivial) fun _ _ _ hb => hb

end Steps

theorem records_last {phase : Phase} {Q : Progress → List (EngineEvent α β) → Prop}
    (h : Q { p with phase } []) :
    Run.Records P (enter p phase : Run α σ β Progress) (enter p phase) fun q _ => Q q := by
  refine Run.Records.lift (lifts_enter p phase) ?_
  refine (ensures_enter_eq (fun _ => True) p phase).mono (fun _ _ => trivial) ?_
  rintro q s ⟨-, rfl⟩
  exact h

omit [Scalar α] in
theorem records_return {Q : Progress → List (EngineEvent α β) → Prop} (h : Q p []) :
    Run.Records P (pure p : Run α σ β Progress) (pure p) fun q _ => Q q :=
  Run.Records.lift (Lifts.pure p) (Ensures.pure fun _ _ => h)

theorem records_round (p : Progress) :
    Run.Records P (loop.round p.lastBlocksize p) (loop.recorded.round p.lastBlocksize p)
      fun q _ events => ∃ round : AttackRound α β,
        events = round.events ∧ q.lastBlocksize = p.lastBlocksize ∧
          loop.Follows [p.lastBlocksize] p q [round] := by
  unfold round
  dsimp only
  apply records_enter
  refine Run.Records.bind (loop.records_reduce _) fun time before => ?_
  -- The cleanup has left the basis of `t`, which is the one that the next check looks at.
  refine Run.Records.fix fun t ht => ?_
  obtain ⟨order, horder, rfl⟩ := ht
  apply records_check
  intro reached hreached
  have halone (q : Progress) (hlast : q.lastBlocksize = p.lastBlocksize)
      (htours : q.tours = p.tours + 1) (hsearches : q.searches = p.searches)
      (hphase : q.phase = .done ↔ loop.Reached t.basis) :
      loop.Follows [p.lastBlocksize] p q [⟨order, t.basis, none⟩] :=
    Follows.single _ [] t.basis horder hlast htours hsearches rfl (by simp) hphase
  refine Run.Records.ite (fun h => ?_) fun h => ?_
  · refine records_last ⟨_, rfl, rfl, halone _ rfl rfl rfl ?_⟩
    simpa using hreached.mp h
  have hopen : ¬ loop.Reached t.basis := fun ht => h (hreached.mpr ht)
  apply records_enter
  refine Run.Records.lift_bind (loop.lifts_evaluate _ _) (Ensures.trivial _) fun found => ?_
  cases found with
  | none =>
      refine records_return ⟨_, rfl, rfl, halone _ rfl rfl rfl ?_⟩
      simpa using hopen
  | some found =>
      obtain ⟨window, goal⟩ := found
      dsimp only
      apply records_enter
      refine Run.Records.bind (loop.records_search window goal) fun _ before => ?_
      refine Run.Records.fix fun u hu => ?_
      subst hu
      apply records_check
      intro reached hreached
      have hsearched (q : Progress) (hlast : q.lastBlocksize = p.lastBlocksize)
          (htours : q.tours = p.tours + 1) (hsearches : q.searches = p.searches + 1)
          (hphase : q.phase = .done ↔ loop.Reached u.basis) :
          loop.Follows [p.lastBlocksize] p q
            [⟨order, t.basis, some (window, goal, u.basis)⟩] :=
        Follows.single _ [t.basis] u.basis horder hlast htours hsearches rfl (by simpa using hopen)
          hphase
      refine Run.Records.ite (fun h => ?_) fun h => ?_
      · refine records_last ⟨_, rfl, rfl, hsearched _ rfl rfl rfl ?_⟩
        simpa using hreached.mp h
      · refine records_return ⟨_, rfl, rfl, hsearched _ rfl rfl rfl ?_⟩
        simpa using fun hu => h (hreached.mpr hu)

theorem records_rounds (tours : Nat) (p : Progress) (hopen : p.phase ≠ .done) :
    Run.Records P (loop.rounds p.lastBlocksize tours p)
        (loop.recorded.rounds p.lastBlocksize tours p)
      fun q _ events => ∃ rounds : List (AttackRound α β),
        events = rounds.flatMap AttackRound.events ∧
          loop.Follows (List.replicate tours p.lastBlocksize) p q rounds := by
  induction tours generalizing P p with
  | zero => exact records_return ⟨[], rfl, .nil hopen⟩
  | succ tours ih =>
      unfold rounds
      refine Run.Records.bind (loop.records_round p) fun q before => ?_
      refine Run.Records.fix fun t ht => ?_
      obtain ⟨round, rfl, hlast, hround⟩ := ht
      rw [List.replicate_succ, ← List.singleton_append]
      refine Run.Records.ite (fun h => ?_) fun h => ?_
      · refine records_return ⟨[round], ?_, hround.stop h _⟩
        rw [List.append_nil, List.flatMap_singleton]
      · -- The remaining tours read the blocksize off the progress, where it has not changed.
        rw [← hlast]
        refine (ih q h).mono (fun _ hs => hs) ?_
        rintro r s _ ⟨more, rfl, hmore⟩
        rw [hlast] at hmore ⊢
        exact ⟨[round] ++ more, by simp, hround.append h hmore⟩

theorem records_walk (htours : 0 < loop.parameters.tours) (blocksizes : List Nat) (p : Progress)
    (hopen : p.phase ≠ .done) :
    Run.Records P (loop.walk blocksizes p) (loop.recorded.walk blocksizes p)
      fun q _ events => ∃ rounds : List (AttackRound α β),
        events = rounds.flatMap AttackRound.events ∧
          loop.Follows (blocksizes.flatMap (List.replicate loop.parameters.tours)) p q rounds := by
  induction blocksizes generalizing P p with
  | nil => exact records_return ⟨[], rfl, .nil hopen⟩
  | cons b rest ih =>
      unfold walk
      refine Run.Records.bind (loop.records_rounds _ { p with lastBlocksize := b } hopen)
        fun q before => ?_
      refine Run.Records.fix fun t ht => ?_
      obtain ⟨rounds, rfl, hfrom⟩ := ht
      -- A blocksize takes at least one tour, so that it is the one of the last round.
      have hrounds := hfrom.start <| hfrom.ne_nil_of_plan <| by
        simpa using htours.ne'
      rw [List.flatMap_cons]
      refine Run.Records.ite (fun h => ?_) fun h => ?_
      · refine records_return ⟨rounds, ?_, hrounds.stop h _⟩
        rw [List.append_nil]
      · refine (ih q h).mono (fun _ hs => hs) ?_
        rintro r s _ ⟨more, rfl, hmore⟩
        exact ⟨rounds ++ more, List.flatMap_append.symm, hrounds.append h hmore⟩

theorem records_drive (htours : 0 < loop.parameters.tours) :
    Run.Records P loop.drive loop.recorded.drive
      fun q _ events => ∃ rounds : List (AttackRound α β),
        events = rounds.flatMap AttackRound.events ∧ (q.phase ≠ .done → q.phase = .exhausted) ∧
          loop.Follows (loop.schedule.blocksizes.flatMap (List.replicate loop.parameters.tours))
            {} q rounds := by
  unfold drive
  refine Run.Records.bind (loop.records_walk htours _ {} (by decide)) fun q before => ?_
  refine Run.Records.fix fun t ht => ?_
  obtain ⟨rounds, rfl, hrounds⟩ := ht
  refine Run.Records.ite (fun h => ?_) fun h => ?_
  · refine records_return ⟨rounds, ?_, fun hq => absurd h hq, hrounds⟩
    rw [List.append_nil]
  · refine records_last ⟨rounds, ?_, fun _ => rfl, hrounds.exhaust h⟩
    rw [List.append_nil]

/-- What a run does with a loaded basis before the loop. -/
def opening : Run α σ β Unit := do
  Run.work loop.engine.clean
  let slope := (← loop.profile).slope
  Run.modifyContext (·.trace (Tracer.note "lwe" "initial_slope" slope))
  let now ← Run.now loop.clock
  Run.modifyContext (·.startClocks now)

end AttackLoop

/-! ## Whole runs -/

namespace Attack

variable [Scalar α]

def loop (A : Attack α) (engine : Engine α σ β) (clock : Clock α σ) (setup : Preparation α) :
    AttackLoop α σ β :=
  ⟨engine, clock, A.parameters, setup.schedule, setup.targetNorm⟩

variable {A : Attack α} {engine : Engine α σ β} {clock : Clock α σ} {setup : Preparation α}
  {context : RunContext α} {world₀ world₁ : σ} {basis : β} {s s' : RunState α σ β}
  {progress : Progress}

theorem exists_pursue_of_exhausted (hload : engine.load setup.basis world₀ = .ok basis world₁)
    (hopening : (A.loop engine clock setup).opening ⟨world₁, basis, context⟩ = .ok () s)
    (hdrive : (A.loop engine clock setup).drive s = .ok progress s')
    (hphase : progress.phase = .exhausted) :
    ∃ finish, A.pursue engine clock setup context world₀ = .ok finish s'.world ∧
      finish.progress = progress := by
  have hopen : progress.phase ≠ .done := by
    rw [hphase]
    decide
  -- The steps of the opening are the first ones of the run, one for one.
  obtain ⟨⟨⟩, s₁, hclean, hrest⟩ := exists_of_bind_ok hopening
  obtain ⟨profile, s₂, hprofile, hrest⟩ := exists_of_bind_ok hrest
  obtain ⟨⟨⟩, s₃, hnote, hrest⟩ := exists_of_bind_ok hrest
  obtain ⟨now, s₄, hnow, hstart⟩ := exists_of_bind_ok hrest
  refine ⟨⟨progress, 0, engine.firstRow s'.basis, s'.context.tracer.report?⟩, ?_, rfl⟩
  unfold pursue
  extract_lets walk
  refine (bind_of_ok hload).trans ?_
  have hwalk : walk ⟨world₁, basis, context⟩ =
      .ok ⟨progress, 0, engine.firstRow s'.basis, s'.context.tracer.report?⟩ s' := by
    refine (bind_of_ok hclean).trans ?_
    refine (bind_of_ok hprofile).trans ?_
    refine (bind_of_ok hnote).trans ?_
    refine (bind_of_ok hnow).trans ?_
    refine (bind_of_ok hstart).trans ?_
    refine (bind_of_ok hdrive).trans ?_
    dsimp only
    rw [if_neg hopen]
    rfl
  rw [hwalk]

theorem runWith_of_exhausted {n seed : Nat} (files : FileTree)
    (hprepare : A.prepare n seed = .ok setup)
    (hload : engine.load setup.basis world₀ = .ok basis world₁)
    (hopening : (A.loop engine clock setup).opening ⟨world₁, basis, context⟩ = .ok () s)
    (hdrive : (A.loop engine clock setup).drive s = .ok progress s')
    (hphase : progress.phase = .exhausted) :
    A.runWith engine clock n seed context (world₀, files) =
      .error (.scheduleExhausted setup.parameters.n setup.parameters.alpha progress.lastBlocksize
        progress.tours) (s'.world, files) := by
  obtain ⟨finish, hpursue, rfl⟩ := exists_pursue_of_exhausted hload hopening hdrive hphase
  have hpursued : (Session.inWorld (A.pursue engine clock setup context) : Session α σ _)
      (world₀, files) = .ok finish (s'.world, files) := by
    unfold Session.inWorld
    dsimp only
    rw [hpursue]
  have hopen : finish.progress.phase ≠ .done := by
    rw [hphase]
    decide
  have hsetup : (ofExcept (.ok setup) : Session α σ _) (world₀, files) =
      .ok setup (world₀, files) := rfl
  unfold runWith
  rw [hprepare]
  refine (bind_of_ok hsetup).trans ?_
  refine (bind_of_ok hpursued).trans ?_
  dsimp only
  rw [if_pos hopen]
  rfl

end Attack

namespace AttackLoop

variable [Scalar α]

/-- The law of a whole run, for every engine, clock and schedule.  The work of the engine is a list
of rounds that follows the schedule.  The first row meets the target at the last check if the run
has reached its goal, and at no other check.  Otherwise every tour of the schedule was run, and the
attack fails with the last blocksize and the number of tours, and leaves the files as they are. -/
theorem drive_follows_schedule (loop : AttackLoop α σ β) (htours : 0 < loop.parameters.tours)
    (hschedule : loop.schedule.blocksizes ≠ []) (s s' : RunState α σ β) (progress : Progress)
    (hdrive : loop.drive s = .ok progress s') :
    (∃ rounds : List (AttackRound α β),
      loop.recorded.drive (s.withLog []) =
        .ok progress (s'.withLog (rounds.flatMap AttackRound.events)) ∧
      rounds.map AttackRound.blocksize <+:
        loop.schedule.blocksizes.flatMap (List.replicate loop.parameters.tours) ∧
      progress.tours = rounds.length ∧
      progress.searches = rounds.countP (fun r => r.search.isSome) ∧
      (rounds.map AttackRound.blocksize).getLast? = some progress.lastBlocksize ∧
      (∃ earlier last, rounds.flatMap AttackRound.checked = earlier ++ [last] ∧
        (∀ basis ∈ earlier, ¬ loop.Reached basis) ∧
        (progress.phase = .done ↔ loop.Reached last)) ∧
      (progress.phase ≠ .done → progress.phase = .exhausted ∧
        rounds.length = loop.schedule.blocksizes.length * loop.parameters.tours)) ∧
    ∀ (A : Attack α) (n seed : Nat) (setup : Preparation α) (context : RunContext α)
      (world₀ world₁ : σ) (files : FileTree) (basis : β),
      A.prepare n seed = .ok setup → loop = A.loop loop.engine loop.clock setup →
      loop.engine.load setup.basis world₀ = .ok basis world₁ →
      loop.opening ⟨world₁, basis, context⟩ = .ok () s → progress.phase = .exhausted →
      A.runWith loop.engine loop.clock n seed context (world₀, files) =
        .error (.scheduleExhausted setup.parameters.n setup.parameters.alpha
          progress.lastBlocksize progress.tours) (s'.world, files) := by
  constructor
  · obtain ⟨_, hrecorded, rounds, rfl, hphase, hrounds⟩ :=
      loop.records_drive htours (P := fun _ => True) s progress s' [] trivial hdrive
    rw [List.nil_append] at hrecorded
    have hlength (h : progress.phase ≠ .done) :
        rounds.length = loop.schedule.blocksizes.length * loop.parameters.tours := by
      rw [hrounds.complete h, List.length_flatMap]
      simp
    -- There is a last blocksize and a last check, because there is a round.
    have hne : rounds ≠ [] := by
      by_cases h : progress.phase = .done
      · exact hrounds.ne_nil h
      · apply List.ne_nil_of_length_pos
        rw [hlength h]
        exact Nat.mul_pos (List.length_pos_of_ne_nil hschedule) htours
    refine ⟨rounds, hrecorded, hrounds.onPlan, ?_, ?_, ?_, ?_, fun h => ⟨hphase h, hlength h⟩⟩
    · have h := hrounds.tours
      rwa [Nat.zero_add] at h
    · have h := hrounds.searches
      rwa [Nat.zero_add] at h
    · have hmap : rounds.map AttackRound.blocksize ≠ [] := by simpa using hne
      have h := hrounds.last
      rw [List.getLast?_eq_some_getLast hmap] at h ⊢
      rw [h]
      rfl
    · by_cases h : progress.phase = .done
      · obtain ⟨earlier, last, hchecked, hearlier, hlast⟩ := hrounds.reached h
        exact ⟨earlier, last, hchecked, hearlier, iff_of_true h hlast⟩
      · have hchecked : rounds.flatMap AttackRound.checked ≠ [] := by
          obtain ⟨round, more, rfl⟩ := List.exists_cons_of_ne_nil hne
          rw [List.flatMap_cons]
          simp [AttackRound.checked]
        refine ⟨_, _, (List.dropLast_append_getLast hchecked).symm, ?_, iff_of_false h ?_⟩
        · intro basis hbasis
          exact hrounds.unreached h basis (List.mem_of_mem_dropLast hbasis)
        · exact hrounds.unreached h _ (List.getLast_mem hchecked)
  · intro A n seed setup context world₀ world₁ files basis hprepare hloop hload hopening hphase
    rw [hloop] at hopening hdrive
    exact Attack.runWith_of_exhausted files hprepare hload hopening hdrive hphase

/-! ## A rehearsal that spends its schedule -/

/-- No tour and no search shortens the first row, and each tour takes four seconds. -/
def rehearsal : Script Fraction where
  lengths := [30, 20, 20, 20, 20, 20]
  pace := ⟨[4], [1]⟩
  failingTour := none
  tourTilt := none
  solvingBlocksize := none
  solvingSearch := none
  solvedNorm := 1
  simulation := .identity

/-- The number of blocksizes, and where the loop stands at the end. -/
def rehearse : Option (Nat × Progress) :=
  match Attack.smallAttack.prepare 1 0 with
  | .error _ => none
  | .ok setup =>
    let loop := Attack.smallAttack.loop rehearsal.engine Journal.clock setup
    let journal : Journal Fraction := Journal.empty.write (.load setup.basis.rank)
    match (loop.opening >>= fun _ => loop.drive) ⟨journal, rehearsal.basis, .start .dummy 0⟩ with
    | .ok progress _ => some (setup.schedule.blocksizes.length, progress)
    | .error _ _ => none

theorem rehearsal_follows_schedule :
    ∃ (setup : Preparation Fraction) (s s' : RunState Fraction (Journal Fraction) _)
      (progress : Progress) (rounds : List (AttackRound Fraction (ScriptedBasis Fraction))),
      let loop := Attack.smallAttack.loop rehearsal.engine Journal.clock setup
      Attack.smallAttack.prepare 1 0 = .ok setup ∧ 0 < loop.parameters.tours ∧
      loop.schedule.blocksizes ≠ [] ∧ loop.drive s = .ok progress s' ∧
      loop.recorded.drive (s.withLog []) =
        .ok progress (s'.withLog (rounds.flatMap AttackRound.events)) ∧
      rounds.map AttackRound.blocksize <+:
        loop.schedule.blocksizes.flatMap (List.replicate loop.parameters.tours) ∧
      rounds.length = 40 ∧ (rounds.countP fun r => r.search.isSome) = 40 ∧
      Attack.smallAttack.runWith rehearsal.engine Journal.clock 1 0 (.start .dummy 0)
          (Journal.empty, .empty ["home"]) =
        .error (.scheduleExhausted setup.parameters.n setup.parameters.alpha 49 40)
          (s'.world, .empty ["home"]) := by
  have h : rehearse = some (40, ⟨.exhausted, 49, 40, 40⟩) := by decide +kernel
  unfold rehearse at h
  split at h
  · cases h
  rename_i setup hprepare
  dsimp only at h
  split at h
  · rename_i progress s' hrun
    obtain ⟨⟨⟩, s, hopening, hdrive⟩ := exists_of_bind_ok hrun
    rw [Option.some.injEq, Prod.mk.injEq] at h
    obtain ⟨hlength, rfl⟩ := h
    have htours : 0 < (Attack.smallAttack.loop rehearsal.engine Journal.clock
        setup).parameters.tours := Nat.one_pos
    have hschedule : setup.schedule.blocksizes ≠ [] := by
      apply List.ne_nil_of_length_pos
      omega
    obtain ⟨⟨rounds, hrecorded, honPlan, htoured, hsearched, -⟩, hrunWith⟩ :=
      drive_follows_schedule _ htours hschedule s s' _ hdrive
    refine ⟨setup, s, s', _, rounds, hprepare, htours, hschedule, hdrive, hrecorded, honPlan,
      htoured.symm, hsearched.symm, ?_⟩
    exact hrunWith Attack.smallAttack 1 0 setup (.start .dummy 0) Journal.empty _
      (.empty ["home"]) rehearsal.basis hprepare rfl rfl hopening rfl
  · cases h

end AttackLoop

end EmbeddingAttack
