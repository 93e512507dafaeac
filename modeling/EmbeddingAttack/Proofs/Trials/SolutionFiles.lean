import EmbeddingAttack.CommandLine.Program
import EmbeddingAttack.Proofs.Attack.Soundness
import EmbeddingAttack.Proofs.Files.FileName
import EmbeddingAttack.Proofs.Trials.ReportOrder

/-!
# The files that trials leave

A trial that succeeds writes its solution to a file named after the dimension and the noise rate of
its instance, and changes no other file.  So in whatever order trials end, a file holds the solution
of the last of those that share it.  Trials of one dimension share it whatever their seeds.
-/

namespace EmbeddingAttack

variable {α σ β : Type}

/-! ## Writing a solution -/

namespace Solution

variable [Scalar α] {directory written text : String} {n k : Nat} {alpha gamma : α} {solution : List Int}
  {t t' : FileTree}

theorem write_eq_ok (h : write directory n alpha solution t = .ok written t') :
    written = path directory n alpha ∧ ∃ place, t'.place? written = some place ∧
      t'.node? place = some (.file (format solution)) ∧ FileTree.Keeps {place} t t' := by
  obtain ⟨_, t₁, hcreate, hrest⟩ := exists_of_bind_ok h
  obtain ⟨_, t₂, hwrite, hdone⟩ := exists_of_bind_ok hrest
  cases hdone
  obtain ⟨place, hplace, hnode, hkeeps⟩ := FileTree.write_eq_ok hwrite
  have hcreated := FileTree.keeps_createDirectories (α := α) directory t
  rw [hcreate] at hcreated
  exact ⟨rfl, place, hplace, hnode, (hcreated.mono (Set.empty_subset _)).trans hkeeps⟩

theorem keeps_of_write_error {e : Failure α}
    (h : write directory n alpha solution t = .error e t') : FileTree.Keeps ∅ t t' := by
  have hcreated := FileTree.keeps_createDirectories (α := α) directory t
  rcases exists_of_bind_error h with hcreate | ⟨_, t₁, hcreate, hrest⟩
  · rw [hcreate] at hcreated
    exact hcreated
  · rw [hcreate] at hcreated
    rcases exists_of_bind_error hrest with hwrite | ⟨_, t₂, -, hdone⟩
    · rw [FileTree.write_of_error hwrite]
      exact hcreated
    · cases hdone

theorem read_written (h : write directory n alpha solution t = .ok written t') :
    t'.read (α := α) written = .ok (format solution) := by
  obtain ⟨-, place, hplace, hnode, -⟩ := write_eq_ok h
  exact FileTree.read_eq_ok.mpr ⟨place, hplace, hnode⟩

/-- Solutions in other files stay as they are. -/
theorem read_of_write (h : write directory n alpha solution t = .ok written t')
    (hother : path directory k gamma ≠ written)
    (hread : t.read (α := α) (path directory k gamma) = .ok text) :
    t'.read (α := α) (path directory k gamma) = .ok text := by
  obtain ⟨rfl, place, hplace, -, hkeeps⟩ := write_eq_ok h
  apply hkeeps.read hread
  intro place' hplace' hsame
  obtain rfl : place' = place := hsame
  apply hother
  rw [path, FileTree.name_eq_of_place?_eq (isFileName k gamma) (isFileName n alpha)
    (hkeeps.place? hplace') hplace]
  rfl

end Solution

/-! ## One trial -/

namespace Session

variable {τ : Type} {world world' : σ} {files files' : FileTree} {x : τ} {e : Failure α}

theorem inWorld_of_ok {w : EStateM (Failure α) σ τ} (h : w world = .ok x world') :
    inWorld w (world, files) = .ok x (world', files) := by
  simp only [inWorld, h]

theorem inWorld_of_error {w : EStateM (Failure α) σ τ} (h : w world = .error e world') :
    inWorld w (world, files) = .error e (world', files) := by
  simp only [inWorld, h]

theorem onFiles_of_ok {w : FileTree.Change α τ} (h : w files = .ok x files') :
    onFiles w (world, files) = .ok x (world, files') := by
  simp only [onFiles, h]

theorem onFiles_of_error {w : FileTree.Change α τ} (h : w files = .error e files') :
    onFiles w (world, files) = .error e (world, files') := by
  simp only [onFiles, h]

end Session

namespace Attack

variable [Scalar α]

/-- Only the solution of a run that succeeds is written. -/
theorem runWith_files (A : Attack α) (engine : Engine α σ β) (clock : Clock α σ) (n seed : Nat)
    (context : RunContext α) (world : σ) (files : FileTree) :
    match A.runWith engine clock n seed context (world, files) with
    | .ok outcome (_, files') =>
      Solution.write A.parameters.solutionDirectory outcome.parameters.n outcome.parameters.alpha
        outcome.solution files = .ok outcome.artifact files'
    | .error _ (_, files') => FileTree.Keeps ∅ files files' := by
  unfold runWith
  cases A.prepare n seed with
  | error e => exact .refl files
  | ok setup =>
      have hsetup : (ofExcept (.ok setup) : Session α σ (Preparation α)) (world, files) =
          .ok setup (world, files) := rfl
      rw [bind_of_ok hsetup]
      cases hpursue : A.pursue engine clock setup context world with
      | error e world' =>
          rw [bind_of_error (Session.inWorld_of_error hpursue)]
          exact .refl files
      | ok finish world' =>
          rw [bind_of_ok (Session.inWorld_of_ok hpursue)]
          dsimp only
          by_cases hdone : finish.progress.phase = .done
          · rw [if_neg (not_not.mpr hdone)]
            cases hwrite : Solution.write A.parameters.solutionDirectory setup.parameters.n
                setup.parameters.alpha finish.firstRow files with
            | error e files' =>
                rw [bind_of_error (Session.onFiles_of_error hwrite)]
                exact Solution.keeps_of_write_error hwrite
            | ok artifact files' =>
                rw [bind_of_ok (Session.onFiles_of_ok hwrite)]
                exact hwrite
          · rw [if_pos hdone]
            exact .refl files

theorem run_files (A : Attack α) (engine : Engine α σ β) (clock : Clock α σ) (n seed : Nat)
    (world : σ) (files : FileTree) :
    match A.run engine clock n seed (world, files) with
    | .ok outcome (_, files') =>
      Solution.write A.parameters.solutionDirectory outcome.parameters.n outcome.parameters.alpha
        outcome.solution files = .ok outcome.artifact files'
    | .error _ (_, files') => FileTree.Keeps ∅ files files' :=
  A.runWith_files engine clock n seed _ (clock world).2 files

/-- The trials of an attack, which may depend on the files that a trial finds.  Each trial has an
engine of its own, which starts in its own world. -/
def kernel (attack : FileTree → Attack α) (engine : Engine α σ β) (clock : Clock α σ)
    (world : Job → σ) : Trials.Kernel α FileTree := fun job files =>
  match (attack files).run engine clock job.n job.seed (world job, files) with
  | .ok outcome (_, files) => (.ok outcome, files)
  | .error e (_, files) => (.error e, files)

end Attack

/-- The trials of the program are those of its attack. -/
theorem CommandLine.kernel_eq (S : Settings) (p : AttackParameters Float) :
    kernel S p = Attack.kernel
      (fun files => ⟨p, if S.synthetic then Synthetic.source none
        else ChallengeDirectory.source files S.challengeDirectory,
        Estimate.cheapest p.costExponent 3⟩)
      (ReferenceEngine.engine (BlockReduction.standard : BlockReduction Float)) workClock
      fun _ => {} := by
  funext job files
  unfold kernel Attack.kernel
  dsimp only
  split <;> rename_i hrun <;> rw [hrun]

/-! ## All trials -/

namespace Trials

variable {directory : String} {kernel : Kernel α FileTree} {files files' : FileTree}
  {reports : List (TrialReport α)} {report : TrialReport α} {outcome : Outcome α}

/-- With one trial for each dimension no two trials have the same. -/
theorem nodup_dimensions {plan : TrialPlan} {jobs : List Job} (htrials : plan.trials ≤ 1)
    (hjobs : (plan.jobs : Except (Failure α) _) = .ok jobs) : (jobs.map Job.n).Nodup := by
  unfold TrialPlan.jobs at hjobs
  split at hjobs
  · cases hjobs
  · rename_i hstep
    cases hjobs
    have hdimensions : ((stepsBelow (plan.upperBound.getD (wrapSize (plan.lowerBound + 1)) -
        plan.lowerBound) plan.stepSize).map (plan.lowerBound + ·)).Nodup :=
      (pairwise_stepsBelow (Nat.pos_of_ne_zero hstep)).nodup.map fun _ _ => Nat.add_left_cancel
    have hseeds : plan.trials = 0 ∨ plan.trials = 1 := by omega
    rcases hseeds with hseeds | hseeds
    · rw [List.flatMap_eq_nil_iff.mpr (by simp [hseeds])]
      exact List.nodup_nil
    · simpa [hseeds, List.map_flatMap, List.flatMap_singleton'] using hdimensions

section Order

variable [ScalarText α]

theorem report_eq_ok {job : Job} {result : Except (Failure α) (Outcome α)} :
    (Trials.report job result).result = .ok outcome ↔ result = .ok outcome := by
  cases result <;> simp [Trials.report, Except.mapError]

theorem jobs_runInOrder (jobs : List Job) :
    (runInOrder kernel jobs files).1.map TrialReport.job = jobs := by
  induction jobs generalizing files with
  | nil => rfl
  | cons job jobs ih =>
      rw [runInOrder_cons, List.map_cons, ih]
      rfl

theorem nodup_reports {plan : TrialPlan} {jobs ended : List Job} (htrials : plan.trials ≤ 1)
    (hjobs : (plan.jobs : Except (Failure α) _) = .ok jobs) (hended : ended.Perm jobs) :
    ((runInOrder kernel ended files).1.map fun report => report.job.n).Nodup := by
  have hnodup : (ended.map Job.n).Nodup :=
    (hended.map Job.n).nodup_iff.mpr (nodup_dimensions htrials hjobs)
  have hreported : (runInOrder kernel ended files).1.map TrialReport.job = ended :=
    jobs_runInOrder ended
  rwa [← hreported, List.map_map] at hnodup

/-- Every report is that of a run on some files. -/
theorem exists_run_of_mem {jobs : List Job} (hreport : report ∈ (runInOrder kernel jobs files).1)
    (hok : report.result = .ok outcome) : ∃ found, (kernel report.job found).1 = .ok outcome := by
  induction jobs generalizing files with
  | nil => cases hreport
  | cons job jobs ih =>
      rw [runInOrder_cons, List.mem_cons] at hreport
      rcases hreport with rfl | hreport
      · exact ⟨files, report_eq_ok.mp hok⟩
      · exact ih hreport

end Order

variable [Scalar α]

/-- A trial writes nothing but its solution, and that only where it succeeds. -/
structure WritesSolutions (directory : String) (kernel : Kernel α FileTree) : Prop where
  success : ∀ job files outcome, (kernel job files).1 = .ok outcome →
    Solution.write directory outcome.parameters.n outcome.parameters.alpha outcome.solution files =
      .ok outcome.artifact (kernel job files).2
  failure : ∀ job files e, (kernel job files).1 = .error e →
    FileTree.Keeps ∅ files (kernel job files).2

theorem writesSolutions_kernel {attack : FileTree → Attack α} {engine : Engine α σ β}
    {clock : Clock α σ} {world : Job → σ}
    (hdirectory : ∀ files, (attack files).parameters.solutionDirectory = directory) :
    WritesSolutions directory (Attack.kernel attack engine clock world) where
  success job files outcome h := by
    have hrun := (attack files).run_files engine clock job.n job.seed (world job) files
    unfold Attack.kernel at h ⊢
    split at hrun
    · rename_i houtcome
      simp only [houtcome] at h ⊢
      cases h
      rwa [hdirectory] at hrun
    · rename_i herror
      simp only [herror] at h
      cases h
  failure job files e h := by
    have hrun := (attack files).run_files engine clock job.n job.seed (world job) files
    unfold Attack.kernel at h ⊢
    split at hrun
    · rename_i houtcome
      simp only [houtcome] at h
      cases h
    · exact hrun

namespace WritesSolutions

variable (h : WritesSolutions directory kernel) {n : Nat} {alpha : α} {text : String}

include h

theorem artifact_eq {job : Job} (houtcome : (kernel job files).1 = .ok outcome) :
    outcome.artifact =
      Solution.path directory outcome.parameters.n outcome.parameters.alpha :=
  (Solution.write_eq_ok (h.success job files outcome houtcome)).1

/-- A trial keeps the solutions that are not in its own file. -/
theorem read_kernel {job : Job}
    (hother : ∀ outcome, (kernel job files).1 = .ok outcome →
      outcome.artifact ≠ Solution.path directory n alpha)
    (hread : files.read (α := α) (Solution.path directory n alpha) = .ok text) :
    (kernel job files).2.read (α := α) (Solution.path directory n alpha) = .ok text := by
  cases hresult : (kernel job files).1 with
  | ok outcome =>
      exact Solution.read_of_write (h.success job files outcome hresult)
        (hother outcome hresult).symm hread
  | error e => exact (h.failure job files e hresult).read hread fun _ _ => Set.notMem_empty _

variable [ScalarText α]

/-- So do trials one after the other. -/
theorem read_runInOrder (jobs : List Job)
    (hother : ∀ report ∈ (runInOrder kernel jobs files).1, ∀ outcome,
      report.result = .ok outcome → outcome.artifact ≠ Solution.path directory n alpha)
    (hread : files.read (α := α) (Solution.path directory n alpha) = .ok text) :
    (runInOrder kernel jobs files).2.read (α := α) (Solution.path directory n alpha) =
      .ok text := by
  induction jobs generalizing files with
  | nil => exact hread
  | cons job jobs ih =>
      rw [runInOrder_cons] at hother ⊢
      obtain ⟨hfirst, hrest⟩ := List.forall_mem_cons.mp hother
      apply ih hrest
      exact h.read_kernel (fun outcome houtcome => hfirst outcome (report_eq_ok.mpr houtcome)) hread

theorem artifact_eq_of_mem {jobs : List Job}
    (hreport : report ∈ (runInOrder kernel jobs files).1) (hok : report.result = .ok outcome) :
    outcome.artifact =
      Solution.path directory outcome.parameters.n outcome.parameters.alpha := by
  obtain ⟨found, hfound⟩ := exists_run_of_mem hreport hok
  exact h.artifact_eq hfound

/-- After trials one after the other a solution file holds what the last trial with this file has
found. -/
theorem exists_last (jobs : List Job) (hreport : report ∈ (runInOrder kernel jobs files).1)
    (hok : report.result = .ok outcome) :
    ∃ earlier last later final, (runInOrder kernel jobs files).1 = earlier ++ last :: later ∧
      last.result = .ok final ∧ final.artifact = outcome.artifact ∧
      (∀ other ∈ later, ∀ found, other.result = .ok found →
        found.artifact ≠ outcome.artifact) ∧
      (runInOrder kernel jobs files).2.read (α := α) outcome.artifact =
        .ok (Solution.format final.solution) := by
  have hartifact := h.artifact_eq_of_mem hreport hok
  induction jobs generalizing files report outcome with
  | nil => cases hreport
  | cons job jobs ih =>
      rw [runInOrder_cons] at hreport ⊢
      by_cases hlater : ∃ other ∈ (runInOrder kernel jobs (kernel job files).2).1, ∃ found,
          other.result = .ok found ∧ found.artifact = outcome.artifact
      · obtain ⟨other, hother, found, hfound, hsame⟩ := hlater
        have hfoundPath := h.artifact_eq_of_mem hother hfound
        obtain ⟨earlier, last, later, final, hreports, hlast, hfinal, hlater, hread⟩ :=
          ih hother hfound hfoundPath
        rw [hsame] at hfinal hlater hread
        refine ⟨Trials.report job (kernel job files).1 :: earlier, last, later, final, ?_, hlast,
          hfinal, hlater, hread⟩
        rw [hreports]
        rfl
      · have hnone : ∀ other ∈ (runInOrder kernel jobs (kernel job files).2).1, ∀ found,
            other.result = .ok found → found.artifact ≠ outcome.artifact :=
          fun other hother found hfound hsame => hlater ⟨other, hother, found, hfound, hsame⟩
        obtain rfl : report = Trials.report job (kernel job files).1 := by
          rcases List.mem_cons.mp hreport with rfl | hreport
          · rfl
          · exact absurd rfl (hnone report hreport outcome hok)
        refine ⟨[], _, _, outcome, rfl, hok, rfl, hnone, ?_⟩
        have hwritten :=
          Solution.read_written (h.success job files outcome (report_eq_ok.mp hok))
        rw [hartifact] at hwritten hnone ⊢
        exact h.read_runInOrder jobs hnone hwritten

end WritesSolutions

/-! ## All trials of a plan -/

variable [ScalarText α] {plan : TrialPlan} {order : List Job → List Job}

/-- The solution file of a trial that succeeds holds a solution that some trial has found for an
instance of the same dimension. -/
theorem runAll_leaves_solution (h : WritesSolutions directory kernel)
    (hrun : runAll plan order kernel files = .ok (reports, files')) (hreport : report ∈ reports)
    (hok : report.result = .ok outcome) :
    ∃ last ∈ reports, ∃ final, last.result = .ok final ∧ final.artifact = outcome.artifact ∧
      final.parameters.n = outcome.parameters.n ∧
      files'.read (α := α) outcome.artifact = .ok (Solution.format final.solution) := by
  obtain ⟨jobs, -, rfl, rfl⟩ := runAll_eq_ok.mp hrun
  rw [List.mem_mergeSort] at hreport
  obtain ⟨earlier, last, later, final, hreports, hlast, hfinal, -, hread⟩ :=
    h.exists_last (order jobs) hreport hok
  have hmem : last ∈ (runInOrder kernel (order jobs) files).1 := by
    rw [hreports]
    exact List.mem_append_right _ List.mem_cons_self
  refine ⟨last, List.mem_mergeSort.mpr hmem, final, hlast, hfinal, ?_, hread⟩
  have hpath := h.artifact_eq_of_mem hreport hok
  rw [← hfinal, h.artifact_eq_of_mem hmem hlast] at hpath
  exact Solution.dimension_eq_of_path_eq hpath

end Trials

namespace TrialReport

/-- If the report is that of a success, its solution file holds its solution. -/
def IsKept (files : FileTree) (report : TrialReport α) : Prop :=
  ∀ outcome, report.result = .ok outcome →
    files.read (α := α) outcome.artifact = .ok (Solution.format outcome.solution)

instance (files : FileTree) (report : TrialReport α) : Decidable (report.IsKept files) :=
  match hresult : report.result with
  | .error _ => .isTrue fun outcome h => nomatch hresult.symm.trans h
  | .ok outcome =>
    match hread : files.read (α := α) outcome.artifact with
    | .ok text =>
      decidable_of_iff (text = Solution.format outcome.solution) (by
        unfold IsKept
        constructor
        · rintro rfl found hfound
          cases hresult.symm.trans hfound
          exact hread
        · intro h
          have hkept := h outcome hresult
          rw [hread] at hkept
          cases hkept
          rfl)
    | .error _ => .isFalse fun h => nomatch hread.symm.trans (h outcome hresult)

end TrialReport

namespace Attack

variable [Scalar α]

theorem dimension_of_kernel {attack : FileTree → Attack α} {engine : Engine α σ β}
    {clock : Clock α σ} {world : Job → σ} {files : FileTree} {job : Job} {outcome : Outcome α}
    (hsource : ∀ n alpha seed I, (attack files).source n alpha seed = .ok I → I.n = n)
    (h : (kernel attack engine clock world job files).1 = .ok outcome) :
    outcome.parameters.n = job.n := by
  unfold kernel at h
  split at h
  · rename_i houtcome
    cases h
    obtain ⟨setup, -, -, -, hsetup, -, -, hparameters, -⟩ :=
      (attack files).ensures_runWith engine clock job.n job.seed _ _ _ _ trivial houtcome
    obtain ⟨I, m, hI, hpublic, -⟩ := exists_instance_of_prepare hsetup
    rw [hparameters, hpublic]
    exact hsource _ _ _ _ hI
  · cases h

/-- Where a plan has one trial for each dimension, and each trial an instance of its dimension,
every success is found in its solution file, in whatever order the trials end. -/
theorem runAll_keeps_solutions [ScalarText α] {plan : TrialPlan} {order : List Job → List Job}
    {attack : FileTree → Attack α} {engine : Engine α σ β} {clock : Clock α σ} {world : Job → σ}
    {directory : String} {files files' : FileTree} {reports : List (TrialReport α)}
    (hdirectory : ∀ files, (attack files).parameters.solutionDirectory = directory)
    (hsource : ∀ files n alpha seed I, (attack files).source n alpha seed = .ok I → I.n = n)
    (htrials : plan.trials ≤ 1) (horder : ∀ jobs, (order jobs).Perm jobs)
    (hrun : Trials.runAll plan order (kernel attack engine clock world) files =
      .ok (reports, files')) :
    ∀ report ∈ reports, report.IsKept files' := by
  intro report hreport outcome hok
  have hwrites : Trials.WritesSolutions directory (kernel attack engine clock world) :=
    Trials.writesSolutions_kernel hdirectory
  obtain ⟨last, hmem, final, hlast, -, hn, hread⟩ :=
    Trials.runAll_leaves_solution hwrites hrun hreport hok
  obtain ⟨jobs, hjobs, rfl, rfl⟩ := Trials.runAll_eq_ok.mp hrun
  have hdimension (r : TrialReport α) (o : Outcome α)
      (hr : r ∈ (Trials.runInOrder (kernel attack engine clock world) (order jobs) files).1)
      (ho : r.result = .ok o) : o.parameters.n = r.job.n := by
    obtain ⟨found, hfound⟩ := Trials.exists_run_of_mem hr ho
    exact dimension_of_kernel (hsource found) hfound
  rw [List.mem_mergeSort] at hreport hmem
  have hsame : last = report := by
    apply List.inj_on_of_nodup_map (Trials.nodup_reports htrials hjobs (horder jobs)) hmem hreport
    show last.job.n = report.job.n
    rw [← hdimension last final hmem hlast, hn, hdimension report outcome hreport hok]
  subst hsame
  cases hlast.symm.trans hok
  exact hread

/-- Two samples with the secret `2`, whose errors are `1` and `-1` for an even seed and both `1` for
an odd one. -/
def seededInstance (seed : Nat) : LweInstance Fraction where
  n := 1
  q := 11
  alpha := 0.1
  a := [[1], [3]]
  c := [3, if seed % 2 = 0 then 5 else 7]
  secret := none

/-- An attack that has instances of dimension one. -/
def seededAttack : Attack Fraction where
  parameters := { AttackParameters.standard with
    verbose := false, samples := some 2, solutionDirectory := "out" }
  source n alpha seed :=
    if n = 1 then .ok (seededInstance seed) else .error (.instanceNotFound n alpha (.other "no instance"))
  estimator _ _ _ _ _ := .ok ⟨2, 2, 2⟩

instance : ScalarText Fraction where
  plain x := s!"{Rat.num x}/{Rat.den x}"
  fixed _ x := s!"{Rat.num x}/{Rat.den x}"

/-- The trials of the attack, with a clock that stands still. -/
def seededKernel : Trials.Kernel Fraction FileTree :=
  kernel (fun _ => seededAttack) (ReferenceEngine.engine .standard) (fun world => (0, world))
    fun _ => {}

/-- Trials of the dimensions one and two, of which the second ends first and fails. -/
theorem seededTrials_keep_solution :
    (∀ n alpha seed I, seededAttack.source n alpha seed = .ok I → I.n = n) ∧
      ∃ reports files', Trials.runAll ⟨1, some 3, 1, 1, 0⟩ List.reverse seededKernel
          (.empty ["home"]) = .ok (reports, files') ∧
        (∃ report ∈ reports, report.isSuccess = true) ∧
        ∀ report ∈ reports, report.IsKept files' := by
  have hsource : ∀ n alpha seed I, seededAttack.source n alpha seed = .ok I → I.n = n := by
    intro n alpha seed I hI
    simp only [seededAttack] at hI
    split at hI
    · rename_i hn
      cases hI
      exact hn.symm
    · cases hI
  have hrun : Trials.runAll ⟨1, some 3, 1, 1, 0⟩ List.reverse seededKernel (.empty ["home"]) =
      .ok (_, _) := Trials.runAll_eq_ok.mpr ⟨[⟨1, 0⟩, ⟨2, 0⟩], rfl, rfl, rfl⟩
  refine ⟨hsource, _, _, hrun, ?_, ?_⟩
  · simp only [List.mem_mergeSort]
    decide +kernel
  · exact runAll_keeps_solutions (fun _ => rfl) (fun _ => hsource) le_rfl List.reverse_perm hrun

/-- Of two trials with the same dimension the one that ends last leaves its solution. -/
theorem seededTrials_overwrite_solution :
    ∃ reports files', Trials.runAll ⟨1, none, 1, 2, 0⟩ id seededKernel (.empty ["home"]) =
        .ok (reports, files') ∧
      (∀ report ∈ reports, report.isSuccess = true) ∧
        ¬ ∀ report ∈ reports, report.IsKept files' := by
  refine ⟨_, _, Trials.runAll_eq_ok.mpr ⟨[⟨1, 0⟩, ⟨1, 1⟩], rfl, rfl, rfl⟩, ?_, ?_⟩
  · simp only [List.mem_mergeSort]
    decide +kernel
  · simp only [List.mem_mergeSort]
    decide +kernel

end Attack

end EmbeddingAttack
