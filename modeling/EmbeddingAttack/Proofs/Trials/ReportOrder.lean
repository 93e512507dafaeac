import EmbeddingAttack.Proofs.Computation
import EmbeddingAttack.Trials
import Mathlib.Data.List.Nodup

/-!
# The order of reports

The jobs of a plan come in strictly increasing order of dimension and seed, so that no two have the
same.  Reports that are sorted by their jobs therefore come in one order only, whatever the order in
which the jobs end, and each of them depends on nothing but its own job.
-/

namespace EmbeddingAttack

/-- Whether a trial comes before another one: by dimension, and by seed within a dimension. -/
def Job.Before (x y : Job) : Prop :=
  x.n < y.n ∨ x.n = y.n ∧ x.seed < y.seed

instance : Std.Irrefl Job.Before where
  irrefl x h := by
    unfold Job.Before at h
    omega

namespace TrialPlan

variable {α : Type} {plan : TrialPlan}

/-- The jobs of a plan are its dimensions with its seeds, each once and in order. -/
theorem jobs_eq_ok (hstep : 1 ≤ plan.stepSize) :
    ∃ jobs, (plan.jobs : Except (Failure α) (List Job)) = .ok jobs ∧ jobs.Pairwise Job.Before ∧
      ∀ n seed, ⟨n, seed⟩ ∈ jobs ↔ ∃ i t, n = plan.lowerBound + i * plan.stepSize ∧
        n < plan.upperBound.getD (wrapSize (plan.lowerBound + 1)) ∧ seed = plan.seed + t ∧
          t < plan.trials := by
  unfold jobs
  rw [if_neg (by omega)]
  refine ⟨_, rfl, ?_, ?_⟩
  · rw [List.pairwise_flatMap]
    constructor
    · intro n _
      rw [List.pairwise_map]
      exact List.pairwise_lt_range.imp fun ht => .inr ⟨rfl, Nat.add_lt_add_left ht _⟩
    · rw [List.pairwise_map]
      refine (pairwise_stepsBelow hstep).imp fun {i j} hij x hx y hy => .inl ?_
      obtain ⟨_, _, rfl⟩ := List.mem_map.mp hx
      obtain ⟨_, _, rfl⟩ := List.mem_map.mp hy
      exact Nat.add_lt_add_left hij _
  · intro n seed
    simp only [List.mem_flatMap, List.mem_map, List.mem_range, mem_stepsBelow hstep]
    constructor
    · rintro ⟨_, ⟨_, ⟨i, rfl, hi⟩, rfl⟩, t, ht, hjob⟩
      cases hjob
      exact ⟨i, t, rfl, by omega, rfl, ht⟩
    · rintro ⟨i, t, rfl, hi, rfl, ht⟩
      exact ⟨_, ⟨_, ⟨i, rfl, by omega⟩, rfl⟩, t, ht, rfl⟩

end TrialPlan

namespace Trials

variable {α σ : Type}

/-- The kernel gives each trial a result of its own, whatever state the trial finds. -/
def Kernel.Gives (kernel : Kernel α σ) (result : Job → Except (Failure α) (Outcome α)) : Prop :=
  ∀ job s, (kernel job s).1 = result job

/-! ## Sorting reports -/

section Sorting

variable {x y z : TrialReport α} {reports sorted : List (TrialReport α)}

theorem precedes_iff : precedes x y = true ↔ x.job.Before y.job ∨ x.job = y.job := by
  obtain ⟨⟨n, seed⟩, _⟩ := x
  obtain ⟨⟨k, other⟩, _⟩ := y
  simp only [precedes, Job.Before, Job.mk.injEq, Bool.or_eq_true, Bool.and_eq_true,
    decide_eq_true_eq, beq_iff_eq]
  omega

theorem precedes_trans (hxy : precedes x y = true) (hyz : precedes y z = true) :
    precedes x z = true := by
  simp only [precedes, Bool.or_eq_true, Bool.and_eq_true, decide_eq_true_eq, beq_iff_eq] at *
  omega

theorem precedes_total (x y : TrialReport α) : (precedes x y || precedes y x) = true := by
  simp only [precedes, Bool.or_eq_true, Bool.and_eq_true, decide_eq_true_eq, beq_iff_eq]
  omega

theorem job_eq_of_precedes (hxy : precedes x y = true) (hyx : precedes y x = true) :
    x.job = y.job := by
  rcases precedes_iff.mp hxy with hlt | heq
  · rcases precedes_iff.mp hyx with hgt | heq
    · unfold Job.Before at hlt hgt
      omega
    · exact heq.symm
  · exact heq

/-- Sorting brings reports of different jobs back into the order of their jobs. -/
theorem mergeSort_eq_of_perm (hperm : reports.Perm sorted)
    (hsorted : (sorted.map TrialReport.job).Pairwise Job.Before) :
    reports.mergeSort precedes = sorted := by
  have hmerge : (reports.mergeSort precedes).Perm sorted :=
    (List.mergeSort_perm reports precedes).trans hperm
  have hmerged : (reports.mergeSort precedes).Pairwise fun x y => precedes x y = true := by
    apply List.pairwise_mergeSort
    · intro x y z hxy hyz
      exact precedes_trans hxy hyz
    · exact precedes_total
  refine hmerge.eq_of_pairwise ?_ hmerged ?_
  · intro x y hx hy hxy hyx
    exact List.inj_on_of_nodup_map hsorted.nodup (hmerge.subset hx) hy (job_eq_of_precedes hxy hyx)
  · exact (List.pairwise_map.mp hsorted).imp fun hbefore => precedes_iff.mpr (.inl hbefore)

end Sorting

/-! ## All trials of a plan -/

variable [ScalarText α] {kernel : Kernel α σ} {result : Job → Except (Failure α) (Outcome α)}

theorem runInOrder_cons (job : Job) (jobs : List Job) (s : σ) :
    runInOrder kernel (job :: jobs) s =
      (report job (kernel job s).1 :: (runInOrder kernel jobs (kernel job s).2).1,
        (runInOrder kernel jobs (kernel job s).2).2) :=
  rfl

theorem runAll_eq_ok {plan : TrialPlan} {order : List Job → List Job} {s s' : σ}
    {reports : List (TrialReport α)} :
    runAll plan order kernel s = .ok (reports, s') ↔
      ∃ jobs, (plan.jobs : Except (Failure α) _) = .ok jobs ∧
        reports = (runInOrder kernel (order jobs) s).1.mergeSort precedes ∧
        s' = (runInOrder kernel (order jobs) s).2 := by
  unfold runAll
  rw [bind_eq_ok]
  constructor
  · rintro ⟨jobs, hjobs, hreports⟩
    cases hreports
    exact ⟨jobs, hjobs, rfl, rfl⟩
  · rintro ⟨jobs, hjobs, rfl, rfl⟩
    exact ⟨jobs, hjobs, rfl⟩

theorem runInOrder_of_gives (hkernel : kernel.Gives result) (jobs : List Job) (s : σ) :
    (runInOrder kernel jobs s).1 = jobs.map fun job => report job (result job) := by
  induction jobs generalizing s with
  | nil => rfl
  | cons job jobs ih =>
      rw [runInOrder_cons, ih, hkernel, List.map_cons]

theorem map_job_report (result : Job → Except (Failure α) (Outcome α)) (jobs : List Job) :
    (jobs.map fun job => report job (result job)).map TrialReport.job = jobs := by
  rw [List.map_map]
  exact List.map_id jobs

theorem runAll_of_gives {plan : TrialPlan} {jobs : List Job} {order : List Job → List Job}
    (hjobs : (plan.jobs : Except (Failure α) (List Job)) = .ok jobs)
    (hsorted : jobs.Pairwise Job.Before) (horder : (order jobs).Perm jobs)
    (hkernel : kernel.Gives result) (s : σ) :
    ∃ s', runAll plan order kernel s =
      .ok (jobs.map fun job => report job (result job), s') := by
  have hperm : (runInOrder kernel (order jobs) s).1.Perm
      (jobs.map fun job => report job (result job)) := by
    rw [runInOrder_of_gives hkernel]
    exact horder.map _
  refine ⟨_, runAll_eq_ok.mpr ⟨jobs, hjobs, ?_, rfl⟩⟩
  rw [mergeSort_eq_of_perm hperm (by rwa [map_job_report result])]

/-- The jobs of a plan are the dimensions `lowerBound + i * stepSize` below the upper bound with the
seeds `seed + t`, each once and in strictly increasing order.  There is one report for each, in that
order, with what the kernel gives the job or with the class and the message of its failure, whatever
the number of workers and the order in which the jobs end.  What another job gives, such as a
failure, changes no report. -/
theorem runAll_reports_every_job (plan : TrialPlan) (hstep : 1 ≤ plan.stepSize) :
    ∃ jobs, (plan.jobs : Except (Failure α) (List Job)) = .ok jobs ∧
      (∀ n seed, ⟨n, seed⟩ ∈ jobs ↔ ∃ i t, n = plan.lowerBound + i * plan.stepSize ∧
        n < plan.upperBound.getD (wrapSize (plan.lowerBound + 1)) ∧ seed = plan.seed + t ∧
          t < plan.trials) ∧
      jobs.Nodup ∧ jobs.Pairwise Job.Before ∧
      ∀ (kernel : Kernel α σ) (result : Job → Except (Failure α) (Outcome α)),
        kernel.Gives result →
      ∃ reports : List (TrialReport α),
        reports.map TrialReport.job = jobs ∧
        (∀ report ∈ reports, report.result =
          match result report.job with
          | .ok outcome => .ok outcome
          | .error e => .error ⟨e.kind, e.message⟩) ∧
        ∀ order : (workers : Nat) → List Job → List Job,
          (∀ workers jobs, (order workers jobs).Perm jobs) →
        ∀ (workers : Nat) (s : σ),
          (∃ s', runAll plan (order workers) kernel s = .ok (reports, s')) ∧
          ∀ (failing : Job) (kernel' : Kernel α σ)
            (result' : Job → Except (Failure α) (Outcome α)), kernel'.Gives result' →
            (∀ job, job ≠ failing → result' job = result job) →
            ∃ reports' s', runAll plan (order workers) kernel' s = .ok (reports', s') ∧
              reports'.filter (·.job ≠ failing) = reports.filter (·.job ≠ failing) := by
  obtain ⟨jobs, hjobs, hsorted, hmem⟩ := plan.jobs_eq_ok (α := α) hstep
  refine ⟨jobs, hjobs, hmem, hsorted.nodup, hsorted, fun kernel result hkernel => ?_⟩
  refine ⟨_, map_job_report result jobs, ?_, fun order horder workers s => ⟨?_, ?_⟩⟩
  · intro reported hreported
    obtain ⟨job, -, rfl⟩ := List.mem_map.mp hreported
    dsimp only [report]
    cases result job <;> rfl
  · exact runAll_of_gives hjobs hsorted (horder workers jobs) hkernel s
  · intro failing kernel' result' hkernel' hsame
    obtain ⟨s', hrun⟩ := runAll_of_gives hjobs hsorted (horder workers jobs) hkernel' s
    refine ⟨_, s', hrun, ?_⟩
    rw [List.filter_map, List.filter_map]
    refine List.map_congr_left fun job hjob => ?_
    have hother : job ≠ failing := by simpa [report] using List.of_mem_filter hjob
    rw [hsame job hother]

/-- Two seeds for each of three dimensions. -/
def threeDimensions : TrialPlan :=
  ⟨1, some 6, 2, 2, 7⟩

/-- One trial fails and the others succeed. -/
def oneFailure (job : Job) : Except (Failure Float) (Outcome Float) :=
  if job = ⟨3, 7⟩ then .error (.infeasible 3 0.005 11)
  else .ok {
    parameters := ⟨job.n, 0.005, 11, 2⟩
    prediction := ⟨2, 2, 2⟩
    finalBlocksize := 10
    tours := 1
    searches := 0
    wallSeconds := 0
    solution := [1]
    artifact := "solution"
    trace := none }

/-- Trials that end in the opposite order are reported in the order of their jobs all the same, and
the one that fails is among the reports. -/
theorem threeDimensions_report_every_job :
    1 ≤ threeDimensions.stepSize ∧ (∀ jobs : List Job, jobs.reverse.Perm jobs) ∧
      Kernel.Gives (fun job (ended : Nat) => (oneFailure job, ended + 1)) oneFailure ∧
      ∃ reports ended, runAll threeDimensions List.reverse
          (fun job (ended : Nat) => (oneFailure job, ended + 1)) 0 = .ok (reports, ended) ∧
        reports.map TrialReport.job = [⟨1, 7⟩, ⟨1, 8⟩, ⟨3, 7⟩, ⟨3, 8⟩, ⟨5, 7⟩, ⟨5, 8⟩] ∧
        ∀ report ∈ reports, report.isSuccess = decide (report.job ≠ ⟨3, 7⟩) := by
  have hstep : 1 ≤ threeDimensions.stepSize := by decide
  have hreverse (jobs : List Job) : jobs.reverse.Perm jobs := jobs.reverse_perm
  have hgives : Kernel.Gives (fun job (ended : Nat) => (oneFailure job, ended + 1)) oneFailure :=
    fun _ _ => rfl
  refine ⟨hstep, hreverse, hgives, ?_⟩
  obtain ⟨jobs, hjobs, -, -, -, hreports⟩ :=
    runAll_reports_every_job (α := Float) (σ := Nat) threeDimensions hstep
  obtain ⟨reports, hmap, hresult, hrun⟩ := hreports _ _ hgives
  obtain ⟨⟨ended, hended⟩, -⟩ := hrun (fun _ => List.reverse) (fun _ => hreverse) 4 0
  cases hjobs
  refine ⟨reports, ended, hended, hmap, fun report hreport => ?_⟩
  have hfound := hresult report hreport
  unfold TrialReport.isSuccess
  by_cases hjob : report.job = ⟨3, 7⟩
  · rw [oneFailure, if_pos hjob] at hfound
    rw [hfound, hjob]
    rfl
  · rw [oneFailure, if_neg hjob] at hfound
    rw [hfound, decide_eq_true hjob]

end Trials

end EmbeddingAttack
