import EmbeddingAttack.Proofs.Attack.TraceTrail

/-!
# The statistics of a run

What the rounds record adds up, so that the statistics of a run say how many tours and searches
there were, at which blocksizes, how often the loop entered each of its phases, and how the run
ended.
-/

namespace EmbeddingAttack

variable {α σ β : Type}

@[simp] def EngineEvent.isTourAt (blocksize : Nat) : EngineEvent α β → Bool
  | .tour order => order.blocksize = blocksize
  | _ => false

/-- Whether the last work was a tour and its cleanup. -/
def endsWithTour (events : List (EngineEvent α β)) : Bool :=
  match events.reverse with
  | .clean _ :: .tour _ :: _ => true
  | _ => false

namespace AttackLoop

open RunState

variable {p q : Progress} {trail more : List TraceLabel} {events work : List (EngineEvent α β)}

/-- What a round adds to the counts. -/
structure Adds (p q : Progress) (more : List TraceLabel) (work : List (EngineEvent α β)) :
    Prop where
  reduce : more.count (.state .reduce) = if p.phase = .reduce then 0 else 1
  evaluate : more.count (.state .evaluate) +
    (if q.phase = .done ∧ endsWithTour work then 1 else 0) = 1
  search : p.searches + more.count (.state .search) = q.searches
  done : more.count (.state .done) = if q.phase = .done then 1 else 0
  exhausted : more.count (.state .exhausted) = 0
  tours : more.countP TraceLabel.isTour = 1
  toursAt : ∀ b, more.count (.tour false b) + more.count (.tour true b) =
    work.countP (EngineEvent.isTourAt b)
  searches : p.searches + more.countP TraceLabel.isSearch = q.searches
  ends : ∀ events, endsWithTour (events ++ work) = endsWithTour work
  toured : q.tours = p.tours + 1
  phase : q.phase ≠ .reduce ∧ q.phase ≠ .exhausted

theorem count_entering_reduce (p : Progress) (label : TraceLabel) :
    (entering p .reduce).count label =
      if p.phase ≠ .reduce ∧ label = .state .reduce then 1 else 0 := by
  unfold entering
  split
  · simp [*]
  · rename_i hphase
    by_cases hlabel : label = .state .reduce
    · simp [hphase, hlabel]
    · simp [hlabel, Ne.symm hlabel]

theorem countP_isTour_entering (p : Progress) (phase : Phase) :
    (entering p phase).countP TraceLabel.isTour = 0 := by
  unfold entering
  split <;> rfl

theorem countP_isSearch_entering (p : Progress) (phase : Phase) :
    (entering p phase).countP TraceLabel.isSearch = 0 := by
  unfold entering
  split <;> rfl

theorem RoundTold.adds {blocksize : Nat} (h : RoundTold blocksize p q more work) :
    Adds p q more work := by
  have hreduce := count_entering_reduce p
  have htour := countP_isTour_entering p .reduce
  have hsearch := countP_isSearch_entering p .reduce
  cases h with
  | solvedByTour jumping order basis horder =>
      cases jumping <;> constructor <;>
        simp [hreduce, htour, hsearch, horder, List.count_cons, List.countP_cons,
          endsWithTour]
  | unsearched jumping order basis horder =>
      cases jumping <;> constructor <;>
        simp [hreduce, htour, hsearch, horder, List.count_cons, List.countP_cons,
          endsWithTour]
  | solvedBySearch jumping order basis window goal searched horder =>
      cases jumping <;> constructor <;>
        simp [hreduce, htour, hsearch, horder, List.count_cons, List.countP_cons,
          endsWithTour]
  | searched jumping order basis window goal searched horder =>
      cases jumping <;> constructor <;>
        simp [hreduce, htour, hsearch, horder, List.count_cons, List.countP_cons,
          endsWithTour]

/-- What is recorded agrees with where the loop stands and with the work listed.  The first phase is
not entered, so that one change to reduction less than tours is recorded. -/
structure Balanced (p : Progress) (trail : List TraceLabel) (events : List (EngineEvent α β)) :
    Prop where
  reduce : trail.count (.state .reduce) = p.tours - 1
  evaluate : trail.count (.state .evaluate) +
    (if p.phase = .done ∧ endsWithTour events then 1 else 0) = p.tours
  search : trail.count (.state .search) = p.searches
  done : trail.count (.state .done) = if p.phase = .done then 1 else 0
  exhausted : trail.count (.state .exhausted) = if p.phase = .exhausted then 1 else 0
  tours : trail.countP TraceLabel.isTour = p.tours
  toursAt : ∀ b, trail.count (.tour false b) + trail.count (.tour true b) =
    events.countP (EngineEvent.isTourAt b)
  searches : trail.countP TraceLabel.isSearch = p.searches

namespace Balanced

theorem start : Balanced {} [] ([] : List (EngineEvent α β)) where
  reduce := rfl
  evaluate := rfl
  search := rfl
  done := rfl
  exhausted := rfl
  tours := rfl
  toursAt _ := rfl
  searches := rfl

/-- Only before its first tour is the loop in its first phase. -/
theorem round (h : Balanced p trail events) (huntoured : p.phase = .reduce ↔ p.tours = 0)
    (hdone : p.phase ≠ .done) (hexhausted : p.phase ≠ .exhausted) (hadds : Adds p q more work) :
    Balanced q (trail ++ more) (events ++ work) where
  reduce := by
    rw [List.count_append, h.reduce, hadds.reduce, hadds.toured]
    split
    · rename_i hphase
      have htours := huntoured.mp hphase
      omega
    · rename_i hphase
      have htours := mt huntoured.mpr hphase
      omega
  evaluate := by
    have hevaluate := h.evaluate
    rw [if_neg (fun hand => hdone hand.1), Nat.add_zero] at hevaluate
    rw [List.count_append, hevaluate, hadds.ends, Nat.add_assoc, hadds.evaluate, hadds.toured]
  search := by rw [List.count_append, h.search, hadds.search]
  done := by rw [List.count_append, h.done, if_neg hdone, Nat.zero_add, hadds.done]
  exhausted := by
    rw [List.count_append, h.exhausted, hadds.exhausted, if_neg hexhausted, if_neg hadds.phase.2]
  tours := by rw [List.countP_append, h.tours, hadds.tours, hadds.toured]
  toursAt b := by
    have hbefore := h.toursAt b
    have hround := hadds.toursAt b
    rw [List.count_append, List.count_append, List.countP_append]
    omega
  searches := by rw [List.countP_append, h.searches, hadds.searches]

theorem next (h : Balanced p trail events) (blocksize : Nat) :
    Balanced { p with lastBlocksize := blocksize } trail events :=
  { h with }

theorem exhaust (h : Balanced p trail events) (hdone : p.phase ≠ .done)
    (hexhausted : p.phase ≠ .exhausted) :
    Balanced { p with phase := .exhausted } (trail ++ [.state .exhausted]) events := by
  obtain ⟨hreduce, hevaluate, hsearch, hnotDone, hnotExhausted, htours, htoursAt, hsearches⟩ := h
  rw [if_neg (fun hand => hdone hand.1)] at hevaluate
  rw [if_neg hdone] at hnotDone
  rw [if_neg hexhausted] at hnotExhausted
  constructor
  all_goals simp [*]

end Balanced

/-- Where the loop stands while it walks its schedule agrees with what is recorded so far. -/
def Accounts (p : Progress) (s : RunState α (Logged α σ β) β) : Prop :=
  (∃ trail events, Tells trail events s ∧ Balanced p trail events) ∧
    (p.phase = .reduce ↔ p.tours = 0) ∧ p.phase ≠ .exhausted

variable [Scalar α] (loop : AttackLoop α σ β)

theorem accounts_round (blocksize : Nat) (p : Progress) (hdone : p.phase ≠ .done) :
    Ensures (Accounts p) (loop.recorded.round blocksize p) Accounts := by
  rintro s q s' ⟨⟨trail, events, hs, hbalanced⟩, huntoured, hexhausted⟩ hround
  obtain ⟨more, work, htold, hs'⟩ := loop.tells_round blocksize p s q s' hs hround
  have hadds := htold.adds
  have htoured := hadds.toured
  refine ⟨⟨_, _, hs', hbalanced.round huntoured hdone hexhausted hadds⟩, ?_, hadds.phase.2⟩
  exact iff_of_false hadds.phase.1 (by omega)

theorem accounts_rounds (blocksize tours : Nat) (p : Progress) (hdone : p.phase ≠ .done) :
    Ensures (Accounts p) (loop.recorded.rounds blocksize tours p) Accounts := by
  induction tours generalizing p with
  | zero => exact Ensures.pure fun _ hs => hs
  | succ tours ih =>
      unfold rounds
      refine Ensures.bind (loop.accounts_round blocksize p hdone) fun q => ?_
      split
      · exact Ensures.pure fun _ hs => hs
      · exact ih q ‹_›

theorem accounts_walk (blocksizes : List Nat) (p : Progress) (hdone : p.phase ≠ .done) :
    Ensures (Accounts p) (loop.recorded.walk blocksizes p) Accounts := by
  induction blocksizes generalizing p with
  | nil => exact Ensures.pure fun _ hs => hs
  | cons blocksize rest ih =>
      unfold walk
      have hstart : Ensures (Accounts p)
          (loop.recorded.rounds blocksize loop.recorded.parameters.tours
            { p with lastBlocksize := blocksize }) Accounts := by
        refine (loop.accounts_rounds blocksize _ _ ?_).mono ?_ fun _ _ hs => hs
        · exact hdone
        · rintro s ⟨⟨trail, events, hs, hbalanced⟩, hphase⟩
          exact ⟨⟨trail, events, hs, hbalanced.next blocksize⟩, hphase⟩
      refine Ensures.bind hstart fun q => ?_
      split
      · exact Ensures.pure fun _ hs => hs
      · exact ih q ‹_›

theorem balanced_drive :
    Ensures (Tells [] []) loop.recorded.drive fun q s =>
      ∃ trail events, Tells trail events s ∧ Balanced q trail events := by
  unfold drive
  have hstart : Ensures (Tells [] []) (loop.recorded.walk loop.recorded.schedule.blocksizes {})
      Accounts :=
    (loop.accounts_walk _ {} (by decide)).mono
      (fun _ hs => ⟨⟨[], [], hs, .start⟩, by decide, by decide⟩) fun _ _ hs => hs
  refine Ensures.bind hstart fun q => ?_
  split
  · exact Ensures.pure fun _ hs => hs.1
  · rename_i hdone
    rintro s r s' ⟨⟨trail, events, hs, hbalanced⟩, -, hexhausted⟩ hr
    obtain ⟨hs', rfl⟩ := tells_enter q .exhausted s r s' hs hr
    rw [entering, if_neg hexhausted] at hs'
    exact ⟨_, _, hs', hbalanced.exhaust hdone hexhausted⟩

end AttackLoop

/-- Parameters that make sense ask for a tour at least. -/
theorem AttackParameters.tours_pos_of_validate [Scalar α] {p : AttackParameters α}
    (h : p.validate = .ok ()) : 0 < p.tours := by
  unfold validate at h
  obtain ⟨-, h⟩ := guard_eq_ok.mp h
  obtain ⟨-, h⟩ := guard_eq_ok.mp h
  obtain ⟨-, h⟩ := guard_eq_ok.mp h
  obtain ⟨htours, -⟩ := guard_eq_ok.mp h
  exact Nat.pos_of_ne_zero htours

namespace AttackLoop

/-- The statistics of a run account for it, whatever the engine and the clock do.  Each phase is
counted as often as it was entered: after its first tour, the loop goes back to reduction for each
further one, and it evaluates each tour but one that ends the run by itself.  The run is counted as
done or as exhausted, whichever it is.  The tours are as many as their labels were recorded, at each
blocksize and altogether, and so are the searches. -/
theorem drive_accounts_in_trace [Scalar α] (loop : AttackLoop α σ β)
    (hvalid : loop.parameters.validate = .ok ()) (hschedule : loop.schedule.blocksizes ≠ [])
    (root : String) (s s' : RunState α σ β) (progress : Progress)
    (hfresh : s.context.tracer = .start false root) (hdrive : loop.drive s = .ok progress s') :
    ∃ report events, s'.context.tracer.report? = some report ∧
      loop.recorded.drive (s.withLog []) = .ok progress (s'.withLog events) ∧
      report.callsOf "state-reduce" + 1 = progress.tours ∧
      report.callsOf "state-search" = progress.searches ∧
      report.callsOf "state-evaluate" +
        (if progress.phase = .done ∧ endsWithTour events then 1 else 0) = progress.tours ∧
      (progress.phase = .done ∧ report.callsOf "state-done" = 1 ∧
          report.callsOf "state-exhausted" = 0 ∨
        progress.phase = .exhausted ∧ report.callsOf "state-done" = 0 ∧
          report.callsOf "state-exhausted" = 1) ∧
      report.callsWhere isTourLabel = progress.tours ∧
      (∀ b, report.callsOf s!"bkz-{b}" + report.callsOf s!"jump-bkz-{b}" =
        events.countP (EngineEvent.isTourAt b)) ∧
      report.callsWhere isSearchLabel = progress.searches := by
  have htours := AttackParameters.tours_pos_of_validate hvalid
  obtain ⟨events, hrecorded, rounds, -, hphase, hrounds⟩ :=
    loop.records_drive htours (P := fun _ => True) s progress s' [] trivial hdrive
  rw [List.nil_append] at hrecorded
  have hpositive : 0 < progress.tours := by
    have hplan : loop.schedule.blocksizes.flatMap (List.replicate loop.parameters.tours) ≠ [] := by
      obtain ⟨b, rest, hcons⟩ := List.exists_cons_of_ne_nil hschedule
      rw [hcons, List.flatMap_cons]
      simp [htours.ne']
    have hlength := List.length_pos_of_ne_nil (hrounds.ne_nil_of_plan hplan)
    rw [hrounds.tours]
    omega
  have hstart : RunState.Tells [] [] (s.withLog []) := by
    refine ⟨?_, rfl⟩
    change s.context.tracer.Counts _
    rw [hfresh]
    exact Tracer.counts_start root
  obtain ⟨trail, _, ⟨hcounts, rfl⟩, hbalanced⟩ :=
    loop.balanced_drive _ _ _ hstart hrecorded
  obtain ⟨report, hreport, hcalls, hkinds⟩ := hcounts.exists_report
  have hcount (label : TraceLabel) : report.callsOf label.text = trail.count label := by
    rw [hcalls, List.count_map_of_injective _ _ TraceLabel.text_injective]
  have hkind {kind : String → Bool} {isKind : TraceLabel → Bool}
      (h : ∀ label : TraceLabel, kind label.text = isKind label) :
      report.callsWhere kind = trail.countP isKind := by
    rw [hkinds, List.countP_map]
    exact List.countP_congr fun label _ => by rw [Function.comp_apply, h]
  refine ⟨report, events, hreport, hrecorded, ?_, ?_, ?_, ?_, ?_, ?_, ?_⟩
  · rw [show report.callsOf "state-reduce" = _ from hcount (.state .reduce), hbalanced.reduce]
    omega
  · exact (hcount (.state .search)).trans hbalanced.search
  · rw [show report.callsOf "state-evaluate" = _ from hcount (.state .evaluate)]
    exact hbalanced.evaluate
  · have hdone : report.callsOf "state-done" = _ :=
      (hcount (.state .done)).trans hbalanced.done
    have hexhausted : report.callsOf "state-exhausted" = _ :=
      (hcount (.state .exhausted)).trans hbalanced.exhausted
    by_cases h : progress.phase = .done
    · exact .inl ⟨h, by rw [hdone, if_pos h], by rw [hexhausted, h]; rfl⟩
    · exact .inr ⟨hphase h, by rw [hdone, if_neg h], by rw [hexhausted, if_pos (hphase h)]⟩
  · exact (hkind TraceLabel.isTourLabel_text).trans hbalanced.tours
  · intro b
    have henumeration : report.callsOf s!"bkz-{b}" = _ := hcount (.tour false b)
    have hjumping : report.callsOf s!"jump-bkz-{b}" = _ := hcount (.tour true b)
    rw [henumeration, hjumping]
    exact hbalanced.toursAt b
  · exact (hkind TraceLabel.isSearchLabel_text).trans hbalanced.searches

/-- Three tours, the last of them a jumping one, each with a search after it that finds nothing. -/
def shortLoop : AttackLoop Fraction (Journal Fraction) (ScriptedBasis Fraction) :=
  ⟨rehearsal.engine, Journal.clock, { AttackParameters.standard with verbose := false },
    ⟨[49, 50, 51]⟩, 1⟩

theorem shortLoop_accounts_in_trace :
    ∃ (s s' : RunState Fraction (Journal Fraction) (ScriptedBasis Fraction)) (progress : Progress)
      (report : TraceReport Fraction),
      shortLoop.parameters.validate = .ok () ∧ shortLoop.schedule.blocksizes ≠ [] ∧
      s.context.tracer = .start false "lwe" ∧ shortLoop.drive s = .ok progress s' ∧
      s'.context.tracer.report? = some report ∧
      report.callsOf "state-reduce" = 2 ∧ report.callsOf "state-search" = 3 ∧
      report.callsOf "state-evaluate" = 3 ∧ report.callsOf "state-done" = 0 ∧
      report.callsOf "state-exhausted" = 1 ∧ report.callsWhere isTourLabel = 3 ∧
      report.callsWhere isSearchLabel = 3 := by
  let s : RunState Fraction (Journal Fraction) (ScriptedBasis Fraction) :=
    ⟨.empty, rehearsal.basis, .start (.start false "lwe") 0⟩
  have hisOk : shortLoop.parameters.validate.isOk = true := by decide +kernel
  obtain ⟨⟨⟩, hvalid⟩ := exists_eq_ok hisOk
  have hschedule : shortLoop.schedule.blocksizes ≠ [] := by decide
  have hprogress : value? (shortLoop.drive s) = some ⟨.exhausted, 51, 3, 3⟩ := by decide +kernel
  obtain ⟨s', hdrive⟩ := exists_of_value? hprogress
  obtain ⟨report, events, hreport, -, hreduce, hsearch, hevaluate, hend, htours, -, hsearches⟩ :=
    shortLoop.drive_accounts_in_trace hvalid hschedule "lwe" s s' _ rfl hdrive
  obtain ⟨hphase, -⟩ | ⟨-, hdone, hexhausted⟩ := hend
  · cases hphase
  · exact ⟨s, s', _, report, hvalid, hschedule, rfl, hdrive, hreport, Nat.succ.inj hreduce, hsearch,
      by simpa using hevaluate, hdone, hexhausted, htours, hsearches⟩

end AttackLoop

end EmbeddingAttack
