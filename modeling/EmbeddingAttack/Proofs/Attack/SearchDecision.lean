import EmbeddingAttack.Proofs.Engine.Watching

/-!
# Why a run searches

Whatever the engine and the clock do, and also where the run fails later, what was seen before a
search justifies it: the tour before it, the time of reduction up to the end of that tour, and the
profile of the basis at hand.
-/

namespace EmbeddingAttack

variable {α σ β τ : Type}

namespace RunEvent

@[simp] def isTour : RunEvent α β → Bool
  | .tour _ => true
  | _ => false

@[simp] def isSearch : RunEvent α β → Bool
  | .search .. => true
  | _ => false

end RunEvent

/-- When the current reduction has started: at the reading after the cleanup of the last search, or
before anything was seen. -/
inductive ReductionStart (opening : α) : List (RunEvent α β) → α → Prop
  | opening {seen : List (RunEvent α β)} (h : ∀ e ∈ seen, e.isSearch = false) :
      ReductionStart opening seen opening
  | search (earlier : List (RunEvent α β)) (window : Window) (goal : α) (basis : β) (time : α)
      {later : List (RunEvent α β)} (h : ∀ e ∈ later, e.isSearch = false) :
      ReductionStart opening
        (earlier ++ .search window goal basis :: .clean :: .reading time :: later) time

namespace ReductionStart

variable {opening origin : α} {seen : List (RunEvent α β)}

theorem append (h : ReductionStart opening seen origin) {more : List (RunEvent α β)}
    (hmore : ∀ e ∈ more, e.isSearch = false) :
    ReductionStart opening (seen ++ more) origin := by
  cases h with
  | opening h =>
      apply ReductionStart.opening
      intro e he
      exact (List.mem_append.mp he).elim (h e) (hmore e)
  | @search earlier window goal basis _ later h =>
      rw [List.append_assoc]
      apply ReductionStart.search
      intro e he
      exact (List.mem_append.mp he).elim (h e) (hmore e)

theorem after_search (opening : α) (seen : List (RunEvent α β)) (window : Window) (goal : α)
    (basis : β) (time : α) :
    ReductionStart opening (seen ++ [.search window goal basis] ++ [.clean] ++ [.reading time])
      time := by
  rw [List.append_assoc, List.append_assoc]
  exact .search seen window goal basis time (by simp)

end ReductionStart

/-- The last tour was one at a blocksize, and with it the current reduction has taken some time. -/
def Toured [Scalar α] (opening : α) (seen : List (RunEvent α β)) (blocksize : Nat) (time : α) :
    Prop :=
  ∃ earlier order stop since origin,
    seen = earlier ++ .tour order :: .reading stop :: since ∧
      (∀ e ∈ since, e.isTour = false ∧ e.isSearch = false) ∧
      order.blocksize = blocksize ∧ ReductionStart opening earlier origin ∧ time = stop - origin

theorem Toured.append [Scalar α] {opening : α} {seen more : List (RunEvent α β)} {blocksize : Nat}
    {time : α} (h : Toured opening seen blocksize time)
    (hmore : ∀ e ∈ more, e.isTour = false ∧ e.isSearch = false) :
    Toured opening (seen ++ more) blocksize time := by
  obtain ⟨earlier, order, stop, since, origin, rfl, hsince, hrest⟩ := h
  refine ⟨earlier, order, stop, since ++ more, origin, ?_, ?_, hrest⟩
  · simp
  · intro e he
    exact (List.mem_append.mp he).elim (hsince e) (hmore e)

namespace AttackLoop

variable [Scalar α] (loop : AttackLoop α σ β)

/-- The loop with a watched engine and a watched clock. -/
def watched : AttackLoop α (Watched α σ β) β :=
  ⟨loop.engine.watched, Run.watchedClock loop.clock, loop.parameters, loop.schedule,
    loop.targetNorm⟩

/-- Why the loop orders a search: the last tour, the time of reduction, the profile of the basis and
the dimension that a search needs there. -/
structure Decision (opening : α) (before : List (RunEvent α β)) (window : Window) (goal : α)
    (basis : β) (blocksize : Nat) (time : α) (profile : Profile α) (needed : Nat) : Prop where
  scheduled : blocksize ∈ loop.schedule.blocksizes
  toured : Toured opening before blocksize time
  profiled : loop.engine.profile basis = .ok profile
  forecast : loop.forecaster.successDimension profile = .ok needed
  affordable :
    needed + 1 < loop.forecaster.attainable time loop.parameters.searchTimeFactor
  window_eq : window = Window.forSearch profile blocksize loop.targetNorm
    (wrapSize (loop.forecaster.attainable time loop.parameters.searchTimeFactor +
      loop.parameters.searchDimensionMargin))
  goal_eq : goal = loop.targetNorm * (window.length : α) / (profile.dimension : α)

/-- Every search was ordered for a reason. -/
def Justified (opening : α) (seen : List (RunEvent α β)) : Prop :=
  ∀ before window goal basis after, seen = before ++ .search window goal basis :: after →
    ∃ blocksize time profile needed,
      loop.Decision opening before window goal basis blocksize time profile needed

variable {loop} {opening : α} {seen : List (RunEvent α β)}

namespace Justified

theorem nil : loop.Justified opening [] := by
  intro before window goal basis after h
  simp at h

theorem append_event (h : loop.Justified opening seen) (event : RunEvent α β)
    (hevent : ∀ window goal basis, event = .search window goal basis →
      ∃ blocksize time profile needed,
        loop.Decision opening seen window goal basis blocksize time profile needed) :
    loop.Justified opening (seen ++ [event]) := by
  intro before window goal basis after heq
  obtain rfl | ⟨after, last, rfl⟩ := List.eq_nil_or_concat after
  · obtain ⟨rfl, hlast⟩ := List.append_inj' heq rfl
    apply hevent
    simpa using hlast
  · rw [List.concat_eq_append, ← List.cons_append, ← List.append_assoc] at heq
    obtain ⟨hbefore, -⟩ := List.append_inj' heq rfl
    exact h before window goal basis after hbefore

theorem append_reading (h : loop.Justified opening seen) (time : α) :
    loop.Justified opening (seen ++ [.reading time]) :=
  h.append_event _ fun _ _ _ heq => nomatch heq

theorem append_tour (h : loop.Justified opening seen) (order : TourOrder α) :
    loop.Justified opening (seen ++ [.tour order]) :=
  h.append_event _ fun _ _ _ heq => nomatch heq

theorem append_clean (h : loop.Justified opening seen) :
    loop.Justified opening (seen ++ [.clean]) :=
  h.append_event _ fun _ _ _ heq => nomatch heq

theorem append_search (h : loop.Justified opening seen) {window : Window} {goal : α} {basis : β}
    (hdecision : ∃ blocksize time profile needed,
      loop.Decision opening seen window goal basis blocksize time profile needed) :
    loop.Justified opening (seen ++ [.search window goal basis]) := by
  apply h.append_event
  intro window' goal' basis' heq
  cases heq
  exact hdecision

end Justified

/-! ## The parts of a round -/

section Parts

variable {J : List (RunEvent α β) → Prop} {P : List (RunEvent α β) → β → α → Prop}

theorem watches_enter {progress : Progress} {phase : Phase} :
    Run.Watches J P (enter progress phase : Run α σ β Progress) (enter progress phase)
      fun _ => P := by
  unfold enter
  apply Run.Watches.ite
  · intro _
    exact Run.Watches.keep
  · intro _
    apply Run.Watches.bind (Run.Watches.trace _)
    intro _
    exact Run.Watches.keep

theorem watches_profile : Run.Watches J P loop.profile loop.watched.profile
    fun profile seen b start => P seen b start ∧ loop.engine.profile b = .ok profile := by
  apply Run.Watches.get_bind
  intro t
  apply Run.Watches.ofExcept.mono fun _ _ _ hs => hs
  intro profile seen b start hs
  obtain ⟨⟨hseen, rfl, -⟩, hprofile⟩ := hs
  exact ⟨hseen, hprofile⟩

theorem watches_goalReached : Run.Watches J P loop.goalReached loop.watched.goalReached
    fun _ => P := by
  apply Run.Watches.get_bind
  intro t
  apply Run.Watches.bind Run.Watches.ofExcept
  intro length
  exact Run.Watches.pure fun _ _ _ hs => hs.1.1

end Parts

/-- Nothing but the start of the current reduction is known. -/
def Resting (opening : α) (seen : List (RunEvent α β)) (_ : β) (start : α) : Prop :=
  ReductionStart opening seen start

/-- A tour at a blocksize has been ordered, and its end read where there is a reading. -/
def Touring (opening : α) (blocksize : Nat) (stop : Option α) (seen : List (RunEvent α β)) (_ : β)
    (start : α) : Prop :=
  ∃ earlier order, seen = earlier ++ .tour order :: (stop.map .reading).toList ∧
    order.blocksize = blocksize ∧ ReductionStart opening earlier start

/-- A tour has ended, and the time of reduction is known. -/
def Evaluating (opening : α) (blocksize : Nat) (time : α) (seen : List (RunEvent α β)) (_ : β)
    (start : α) : Prop :=
  ReductionStart opening seen start ∧ Toured opening seen blocksize time

variable {blocksize : Nat} {time : α} {b b' : β} {start : α} {event : RunEvent α β}

omit [Scalar α] in
theorem Resting.append (h : Resting opening seen b start) (hsearch : event.isSearch = false) :
    Resting opening (seen ++ [event]) b' start :=
  ReductionStart.append h (by simpa)

theorem Evaluating.append (h : Evaluating opening blocksize time seen b start)
    (htour : event.isTour = false) (hsearch : event.isSearch = false) :
    Evaluating opening blocksize time (seen ++ [event]) b' start :=
  ⟨h.1.append (by simpa), h.2.append (by simpa using ⟨htour, hsearch⟩)⟩

theorem Touring.evaluating {stop : α} (h : Touring opening blocksize (some stop) seen b start)
    (later : α) :
    Evaluating opening blocksize (stop - start) (seen ++ [.reading later]) b start := by
  obtain ⟨earlier, order, rfl, horder, horigin⟩ := h
  constructor
  · rw [List.append_assoc]
    exact horigin.append (by simp)
  · exact ⟨earlier, order, stop, [.reading later], start, by simp, by simp, horder, horigin, rfl⟩

variable (loop)

theorem watches_tidy (opening : α) (blocksize : Nat) (time : α) :
    Run.Watches (loop.Justified opening) (Evaluating opening blocksize time)
      (Run.work loop.engine.clean >>= fun _ => pure time)
      (Run.work loop.watched.engine.clean >>= fun _ => pure time)
      (Evaluating opening blocksize) := by
  apply Run.Watches.bind (Q := fun _ => Evaluating opening blocksize time)
  · apply Run.Watches.work fun _ => .clean
    · intro seen b start hseen _
      exact hseen.append_clean
    · intro seen b b' start hs
      exact hs.append rfl rfl
  intro _
  exact Run.Watches.pure fun _ _ _ hs => hs

theorem watches_reduce (opening : α) (blocksize : Nat) :
    Run.Watches (loop.Justified opening) (Resting opening) (loop.reduce blocksize)
      (loop.watched.reduce blocksize) (Evaluating opening blocksize) := by
  have hreading (seen : List (RunEvent α β)) (time : α) (h : loop.Justified opening seen) :=
    h.append_reading time
  unfold reduce
  dsimp only
  apply Run.Watches.bind (Q := fun _ => Resting opening)
  · apply Run.Watches.now loop.clock hreading
    intro seen b start time hs
    exact hs.append rfl
  intro tourStart
  apply Run.Watches.bind (Q := fun _ => Touring opening blocksize none)
  · apply Run.Watches.traced _ fun _ => .tour _
    · intro seen b start hseen _
      exact hseen.append_tour _
    · intro seen b b' start hs
      exact ⟨seen, _, rfl, blocksize_tourOrder loop.parameters loop.targetNorm blocksize, hs⟩
  intro _
  apply Run.Watches.bind (Q := fun stop => Touring opening blocksize (some stop))
  · apply Run.Watches.now loop.clock hreading
    intro seen b start stop hs
    obtain ⟨earlier, order, rfl, hrest⟩ := hs
    exact ⟨earlier, order, by simp, hrest⟩
  intro stop
  apply Run.Watches.get_bind
  intro t
  apply Run.Watches.bind
    (Q := fun _ => Evaluating opening blocksize (stop - t.context.reductionStart))
  · apply Run.Watches.now loop.clock hreading
    intro seen b start tourStop hs
    obtain ⟨htouring, -, rfl⟩ := hs
    exact htouring.evaluating tourStop
  intro tourStop
  apply Run.Watches.bind
    (Q := fun _ => Evaluating opening blocksize (stop - t.context.reductionStart))
  · exact Run.Watches.modifyContext fun _ _ _ hs => hs
  intro _
  apply Run.Watches.ite
  · intro _
    apply Run.Watches.bind loop.watches_profile
    intro profile
    apply Run.Watches.bind (Run.Watches.trace _)
    intro _
    exact (loop.watches_tidy opening blocksize _).mono (fun _ _ _ hs => hs.1) fun _ _ _ _ hs => hs
  · intro _
    exact loop.watches_tidy opening blocksize _

/-- A search that may be ordered now. -/
def Deciding (opening : α) (window : Window) (goal : α) (seen : List (RunEvent α β)) (b : β)
    (start : α) : Prop :=
  ReductionStart opening seen start ∧ ∃ blocksize time profile needed,
    loop.Decision opening seen window goal b blocksize time profile needed

theorem watches_evaluate (opening : α) {blocksize : Nat}
    (hscheduled : blocksize ∈ loop.schedule.blocksizes) (time : α) :
    Run.Watches (loop.Justified opening) (Evaluating opening blocksize time)
      (loop.evaluate blocksize time) (loop.watched.evaluate blocksize time)
      fun found seen b start => ReductionStart opening seen start ∧
        ∀ window goal, found = some (window, goal) →
          loop.Deciding opening window goal seen b start := by
  have hnone {P : List (RunEvent α β) → β → α → Prop}
      (hP : ∀ seen b start, P seen b start → ReductionStart opening seen start) :
      Run.Watches (loop.Justified opening) P (pure none : Run α σ β (Option (Window × α)))
        (pure none) fun found seen b start => ReductionStart opening seen start ∧
          ∀ window goal, found = some (window, goal) →
            loop.Deciding opening window goal seen b start := by
    apply Run.Watches.pure
    intro seen b start hs
    exact ⟨hP seen b start hs, by simp⟩
  unfold evaluate
  dsimp only
  apply Run.Watches.bind loop.watches_profile
  intro profile
  apply Run.Watches.bind Run.Watches.ofExcept
  intro needed
  apply Run.Watches.ite
  · intro _
    exact hnone fun _ _ _ hs => hs.1.1.1
  intro haffordable
  apply Run.Watches.bind Run.Watches.ofExcept
  intro upcoming
  apply Run.Watches.get_bind
  intro t
  apply Run.Watches.bind (Run.Watches.inWorld fun seen =>
    Lookahead.mirrors_simulate loop.engine _ _ _ _ _ _ seen)
  intro steps
  apply Run.Watches.ite
  · intro _
    exact hnone fun _ _ _ hs => hs.1.1.1.1.1
  intro _
  apply Run.Watches.pure
  intro seen b start hs
  obtain ⟨⟨⟨⟨⟨horigin, htoured⟩, hprofile⟩, hneeded⟩, -⟩, -⟩ := hs
  refine ⟨horigin, ?_⟩
  intro window goal heq
  cases heq
  exact ⟨horigin, blocksize, time, profile, needed, hscheduled, htoured, hprofile, hneeded,
    not_le.mp haffordable, rfl, rfl⟩

/-- A search was the last to be ordered. -/
def Searching (window : Window) (goal : α) (seen : List (RunEvent α β)) (_ : β) (_ : α) : Prop :=
  ∃ earlier basis, seen = earlier ++ [.search window goal basis]

/-- The cleanup and the reading after it directly follow the search. -/
theorem watches_restart (opening : α) (window : Window) (goal : α) :
    Run.Watches (loop.Justified opening) (Searching window goal)
      (Run.work loop.engine.clean >>= fun _ => Run.now loop.clock >>= fun now =>
        Run.modifyContext (·.resetReduction now))
      (Run.work loop.watched.engine.clean >>= fun _ => Run.now loop.watched.clock >>= fun now =>
        Run.modifyContext (·.resetReduction now)) fun _ => Resting opening := by
  apply Run.Watches.bind (Q := fun _ seen _ _ =>
    ∃ earlier basis, seen = earlier ++ [.search window goal basis] ++ [.clean])
  · apply Run.Watches.work fun _ => .clean
    · intro seen b start hseen _
      exact hseen.append_clean
    · intro seen b b' start hs
      obtain ⟨earlier, basis, rfl⟩ := hs
      exact ⟨earlier, basis, rfl⟩
  intro _
  apply Run.Watches.bind (Q := fun now seen _ _ => ReductionStart opening seen now)
  · apply Run.Watches.now loop.clock
    · intro seen time hseen
      exact hseen.append_reading time
    · intro seen b start now hs
      obtain ⟨earlier, basis, rfl⟩ := hs
      exact .after_search opening earlier window goal basis now
  intro now
  exact Run.Watches.modifyContext fun _ _ _ hs => hs

theorem watches_search (opening : α) (window : Window) (goal : α) :
    Run.Watches (loop.Justified opening) (loop.Deciding opening window goal)
      (loop.search window goal) (loop.watched.search window goal) fun _ => Resting opening := by
  unfold search
  dsimp only
  apply Run.Watches.bind (Q := fun _ => Searching window goal)
  · apply Run.Watches.discard
    apply Run.Watches.traced _ (.search window goal)
    · intro seen b start hseen hs
      exact hseen.append_search hs.2
    · intro seen b b' start _
      exact ⟨seen, b, rfl⟩
  intro _
  apply Run.Watches.ite
  · intro _
    apply Run.Watches.bind (Q := fun _ => Searching window goal)
    · apply Run.Watches.discard
      exact loop.watches_profile.mono (fun _ _ _ hs => hs) fun _ _ _ _ hs => hs.1
    intro _
    exact loop.watches_restart opening window goal
  · intro _
    exact loop.watches_restart opening window goal

/-! ## Whole runs of the loop -/

theorem watches_round (opening : α) {blocksize : Nat}
    (hscheduled : blocksize ∈ loop.schedule.blocksizes) (progress : Progress) :
    Run.Watches (loop.Justified opening) (Resting opening) (loop.round blocksize progress)
      (loop.watched.round blocksize progress) fun _ => Resting opening := by
  unfold round
  dsimp only
  apply Run.Watches.bind watches_enter
  intro progress
  apply Run.Watches.bind (loop.watches_reduce opening blocksize)
  intro time
  apply Run.Watches.bind loop.watches_goalReached
  intro reached
  apply Run.Watches.ite
  · intro _
    exact watches_enter.mono (fun _ _ _ hs => hs.1) fun _ _ _ _ hs => hs
  intro _
  apply Run.Watches.bind watches_enter
  intro progress
  apply Run.Watches.bind (loop.watches_evaluate opening hscheduled time)
  intro found
  cases found with
  | none => exact Run.Watches.pure fun _ _ _ hs => hs.1
  | some found =>
      obtain ⟨window, goal⟩ := found
      dsimp only
      apply Run.Watches.bind (Q := fun _ => loop.Deciding opening window goal)
      · exact watches_enter.mono (fun _ _ _ hs => hs.2 window goal rfl) fun _ _ _ _ hs => hs
      intro progress
      apply Run.Watches.bind (loop.watches_search opening window goal)
      intro _
      apply Run.Watches.bind loop.watches_goalReached
      intro reached
      apply Run.Watches.ite
      · intro _
        exact watches_enter
      · intro _
        exact Run.Watches.keep

theorem watches_rounds (opening : α) {blocksize : Nat}
    (hscheduled : blocksize ∈ loop.schedule.blocksizes) (tours : Nat) (progress : Progress) :
    Run.Watches (loop.Justified opening) (Resting opening) (loop.rounds blocksize tours progress)
      (loop.watched.rounds blocksize tours progress) fun _ => Resting opening := by
  induction tours generalizing progress with
  | zero => exact Run.Watches.keep
  | succ tours ih =>
      unfold rounds
      apply Run.Watches.bind (loop.watches_round opening hscheduled progress)
      intro progress
      apply Run.Watches.ite
      · intro _
        exact Run.Watches.keep
      · intro _
        exact ih progress

theorem watches_walk (opening : α) (blocksizes : List Nat)
    (hscheduled : ∀ b ∈ blocksizes, b ∈ loop.schedule.blocksizes) (progress : Progress) :
    Run.Watches (loop.Justified opening) (Resting opening) (loop.walk blocksizes progress)
      (loop.watched.walk blocksizes progress) fun _ => Resting opening := by
  induction blocksizes generalizing progress with
  | nil => exact Run.Watches.keep
  | cons b rest ih =>
      rw [List.forall_mem_cons] at hscheduled
      unfold walk
      apply Run.Watches.bind (loop.watches_rounds opening hscheduled.1 _ _)
      intro progress
      apply Run.Watches.ite
      · intro _
        exact Run.Watches.keep
      · intro _
        exact ih hscheduled.2 progress

theorem watches_drive (opening : α) :
    Run.Watches (loop.Justified opening) (Resting opening) loop.drive loop.watched.drive
      fun _ => Resting opening := by
  unfold drive
  apply Run.Watches.bind (loop.watches_walk opening _ (fun _ hb => hb) {})
  intro progress
  apply Run.Watches.ite
  · intro _
    exact Run.Watches.keep
  · intro _
    exact watches_enter

/-- A watched run is the run itself, and whether it succeeds or fails, every search that it has
started was decided on by what was seen before. -/
theorem drive_justified (s : RunState α σ β) :
    mapState RunState.unwatched (loop.watched.drive s.watched) = loop.drive s ∧
      loop.Justified s.context.reductionStart
        (finalState (loop.watched.drive s.watched)).seen := by
  have hstart : Run.Sees (loop.Justified s.context.reductionStart)
      (Resting s.context.reductionStart) s.watched := by
    refine ⟨Justified.nil, .opening ?_⟩
    intro e he
    cases he
  obtain ⟨hsame, hmeets⟩ := loop.watches_drive s.context.reductionStart s.watched hstart
  refine ⟨hsame, ?_⟩
  cases hdrive : loop.watched.drive s.watched with
  | ok progress t =>
      rw [hdrive] at hmeets
      exact hmeets.1
  | error e t =>
      rw [hdrive] at hmeets
      exact hmeets

end AttackLoop

end EmbeddingAttack
