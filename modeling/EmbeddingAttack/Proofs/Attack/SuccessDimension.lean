import EmbeddingAttack.Attack.Forecast
import EmbeddingAttack.Proofs.Profile.Simulation

/-!
# Success dimensions

The forecast is the least dimension with which a search is expected to succeed, and fails where there
is none.  Whether a dimension succeeds depends on the volume of the last rows: the Gaussian heuristic
grows with it.  So a basis with more volume in its last rows, or a shorter target, makes every
dimension succeed that succeeded before, and the least of them can only get smaller.
-/

namespace EmbeddingAttack

/-! ## Volume and heuristic -/

theorem gaussianHeuristic_eq {lengths : List ℝ} (hne : lengths ≠ []) (hpos : ∀ r ∈ lengths, 0 < r) :
    gaussianHeuristic lengths =
      Real.exp ((Real.log lengths.prod - 2 * ballLogVolume lengths.length) / lengths.length) := by
  have hlog : Scalar.sum (lengths.map Real.log) = Real.log lengths.prod := by
    rw [sum_eq, Real.log_list_prod fun r hr => (hpos r hr).ne']
  unfold gaussianHeuristic
  rw [if_neg (by simpa using hne), ← hlog, ← two_eq]
  rfl

theorem gaussianHeuristic_mono {lengths lengths' : List ℝ} (hpos : ∀ r ∈ lengths, 0 < r)
    (hpos' : ∀ r ∈ lengths', 0 < r) (hlength : lengths'.length = lengths.length)
    (hvolume : lengths'.prod ≤ lengths.prod) :
    gaussianHeuristic lengths' ≤ gaussianHeuristic lengths := by
  by_cases hempty : lengths = []
  · rw [hempty, List.length_nil] at hlength
    rw [hempty, List.eq_nil_of_length_eq_zero hlength]
  · have hempty' : lengths' ≠ [] := by
      rwa [← List.length_pos_iff, hlength, List.length_pos_iff]
    have hprod' : 0 < lengths'.prod := List.prod_pos hpos'
    rw [gaussianHeuristic_eq hempty hpos, gaussianHeuristic_eq hempty' hpos', hlength]
    gcongr

namespace Profile

variable (p : Profile ℝ)

theorem pos_of_mem_tail {k : ℕ} {r : ℝ} (h : r ∈ p.tail k) : 0 < r :=
  p.pos_of_mem (List.mem_of_mem_drop h)

theorem length_tail {k : ℕ} (h : k ≤ p.dimension) : (p.tail k).length = k := by
  unfold tail
  rw [List.length_drop]
  exact Nat.sub_sub_self h

end Profile

namespace Forecaster

/-! ## The least success -/

section Scan

variable {α : Type} [Scalar α] {f : Forecaster α} {p : Profile α}

/-- The dimensions with which a search is expected to succeed. -/
def successes (f : Forecaster α) (p : Profile α) : Set ℕ :=
  {k | 2 ≤ k ∧ k < p.dimension ∧ f.isSuccess p k = true}

theorem successDimension_eq_ok_iff {k : ℕ} :
    f.successDimension p = .ok k ↔ IsLeast (f.successes p) k := by
  have hfind : f.successDimension p = .ok k ↔
      (List.range' 2 (p.dimension - 2)).find? (f.isSuccess p) = some k := by
    unfold successDimension
    split
    · rename_i hsome
      rw [hsome]
      constructor
      · intro h
        cases h
        rfl
      · intro h
        cases h
        rfl
    · rename_i hnone
      rw [hnone]
      constructor
      · intro h
        cases h
      · intro h
        cases h
  rw [hfind, List.find?_range'_eq_some, List.mem_range'_1]
  constructor
  · rintro ⟨hsuccess, hrange, hbefore⟩
    refine ⟨⟨hrange.1, by omega, hsuccess⟩, ?_⟩
    rintro j ⟨hj, -, hj'⟩
    by_contra hbelow
    simpa [hj'] using hbefore j hj (not_le.mp hbelow)
  · rintro ⟨⟨hlow, hhigh, hsuccess⟩, hleast⟩
    refine ⟨hsuccess, ⟨hlow, by omega⟩, ?_⟩
    intro j hj hjk
    by_contra hsome
    exact not_le.mpr hjk (hleast ⟨hj, hjk.trans hhigh, by simpa using hsome⟩)

theorem eq_of_successDimension {e : Failure α} (h : f.successDimension p = .error e) :
    e = .degenerateProfile p.dimension f.targetNorm := by
  unfold successDimension at h
  split at h
  · cases h
  · cases h
    rfl

theorem successDimension_eq_error_iff {e : Failure α} : f.successDimension p = .error e ↔
    e = .degenerateProfile p.dimension f.targetNorm ∧ f.successes p = ∅ := by
  constructor
  · intro herror
    refine ⟨eq_of_successDimension herror, ?_⟩
    by_contra hsome
    have hnonempty := Set.nonempty_iff_ne_empty.mpr hsome
    have hleast : IsLeast (f.successes p) (sInf (f.successes p)) :=
      ⟨Nat.sInf_mem hnonempty, fun k hk => Nat.sInf_le hk⟩
    rw [successDimension_eq_ok_iff.mpr hleast] at herror
    cases herror
  · rintro ⟨rfl, hempty⟩
    cases hresult : f.successDimension p with
    | ok k =>
        have hk := (successDimension_eq_ok_iff.mp hresult).1
        rw [hempty] at hk
        exact absurd hk (Set.notMem_empty k)
    | error e => rw [eq_of_successDimension hresult]

end Scan

/-! ## Comparison -/

variable {f f' : Forecaster ℝ} {p p' : Profile ℝ}

theorem isSuccess_iff {k : ℕ} : f.isSuccess p k = true ↔
    f.targetNorm / f.goalMargin * k / p.dimension < 4 / 3 * gaussianHeuristic (p.tail k) := by
  have hfactor : (4.0 / 3.0 : ℝ) = 4 / 3 := by norm_num
  unfold isSuccess
  rw [hfactor, decide_eq_true_iff]
  rfl

/-- More volume in the last rows and a shorter target leave every success a success. -/
theorem successes_mono (hmargin : 0 < f.goalMargin) (hsame : f'.goalMargin = f.goalMargin)
    (htarget : f.targetNorm ≤ f'.targetNorm) (hdimension : p'.dimension = p.dimension)
    (hvolume : ∀ k, 2 ≤ k → k < p.dimension → (p'.tail k).prod ≤ (p.tail k).prod) :
    f'.successes p' ⊆ f.successes p := by
  rintro k ⟨hlow, hhigh, hsuccess⟩
  rw [isSuccess_iff, hdimension] at hsuccess
  rw [hdimension] at hhigh
  refine ⟨hlow, hhigh, isSuccess_iff.mpr ?_⟩
  have hlength : (p'.tail k).length = (p.tail k).length := by
    rw [p.length_tail hhigh.le, p'.length_tail (hdimension ▸ hhigh.le)]
  have hheuristic : gaussianHeuristic (p'.tail k) ≤ gaussianHeuristic (p.tail k) :=
    gaussianHeuristic_mono (fun _ => p.pos_of_mem_tail) (fun _ => p'.pos_of_mem_tail) hlength
      (hvolume k hlow hhigh)
  calc f.targetNorm / f.goalMargin * k / p.dimension
      ≤ f'.targetNorm / f'.goalMargin * k / p.dimension := by
        rw [hsame]
        gcongr
    _ < 4 / 3 * gaussianHeuristic (p'.tail k) := hsuccess
    _ ≤ 4 / 3 * gaussianHeuristic (p.tail k) := by gcongr

/-- The success dimension is the least dimension, from two to below that of the basis, in which the
heuristic is above the projected target, and the forecast fails where there is none.  It is monotone
in the target and antitone in the volumes of the last rows, a failure counting as the greatest value
of all. -/
theorem successDimension_mono (f f' : Forecaster ℝ) (p p' : Profile ℝ)
    (hmargin : 0 < f.goalMargin) (hsame : f'.goalMargin = f.goalMargin)
    (htarget : f.targetNorm ≤ f'.targetNorm) (hdimension : p'.dimension = p.dimension)
    (hvolume : ∀ k, 2 ≤ k → k < p.dimension → (p'.tail k).prod ≤ (p.tail k).prod) :
    (∀ k', f'.successDimension p' = .ok k' →
      ∃ k, f.successDimension p = .ok k ∧ 2 ≤ k ∧ k ≤ k' ∧ k' < p.dimension) ∧
    (f.successDimension p = .error (.degenerateProfile p.dimension f.targetNorm) →
      f'.successDimension p' = .error (.degenerateProfile p'.dimension f'.targetNorm)) ∧
    (∀ k, f.successDimension p = .ok k ↔ IsLeast {k : ℕ | 2 ≤ k ∧ k < p.dimension ∧
      f.targetNorm / f.goalMargin * k / p.dimension < 4 / 3 * gaussianHeuristic (p.tail k)} k) ∧
    ∀ e, f.successDimension p = .error e ↔
      e = .degenerateProfile p.dimension f.targetNorm ∧ ∀ k : ℕ, 2 ≤ k → k < p.dimension →
        ¬ f.targetNorm / f.goalMargin * k / p.dimension < 4 / 3 * gaussianHeuristic (p.tail k) := by
  have hsubset := successes_mono hmargin hsame htarget hdimension hvolume
  refine ⟨?_, ?_, ?_, ?_⟩
  · intro k' hk'
    obtain ⟨hmem', -⟩ := successDimension_eq_ok_iff.mp hk'
    cases hresult : f.successDimension p with
    | ok k =>
        obtain ⟨hmem, hleast⟩ := successDimension_eq_ok_iff.mp hresult
        exact ⟨k, rfl, hmem.1, hleast (hsubset hmem'), hdimension ▸ hmem'.2.1⟩
    | error e =>
        obtain ⟨-, hempty⟩ := successDimension_eq_error_iff.mp hresult
        exact absurd (hempty ▸ hsubset hmem') (Set.notMem_empty k')
  · intro herror
    obtain ⟨-, hempty⟩ := successDimension_eq_error_iff.mp herror
    exact successDimension_eq_error_iff.mpr ⟨rfl, Set.subset_eq_empty hsubset hempty⟩
  · intro k
    rw [successDimension_eq_ok_iff]
    simp only [successes, isSuccess_iff]
  · intro e
    rw [successDimension_eq_error_iff, Set.eq_empty_iff_forall_notMem]
    apply and_congr_right
    intro _
    constructor
    · intro hnone k hlow hhigh hsuccess
      exact hnone k ⟨hlow, hhigh, isSuccess_iff.mpr hsuccess⟩
    · rintro hnone k ⟨hlow, hhigh, hsuccess⟩
      exact hnone k hlow hhigh (isSuccess_iff.mp hsuccess)

/-- Half the target, in a basis whose last two rows have twice the volume. -/
theorem successDimension_mono_triple :
    let f : Forecaster ℝ := ⟨⟨1, 64, 1⟩, gaussianHeuristic [1, 1] / 2, 3 / 2⟩
    let f' : Forecaster ℝ := ⟨⟨1, 64, 1⟩, gaussianHeuristic [1, 1], 3 / 2⟩
    let p : Profile ℝ := .positive [1 / 8, 1 / 2, 4] (by simp) (by simp)
    let p' : Profile ℝ := .positive [1, 1, 1] (by simp) (by simp)
    0 < f.goalMargin ∧ f'.goalMargin = f.goalMargin ∧ f.targetNorm ≤ f'.targetNorm ∧
      p'.dimension = p.dimension ∧
      (∀ k, 2 ≤ k → k < p.dimension → (p'.tail k).prod ≤ (p.tail k).prod) ∧
      f'.successDimension p' = .ok 2 ∧ f.successDimension p = .ok 2 := by
  intro f f' p p'
  have hheuristic : 0 < gaussianHeuristic ([1, 1] : List ℝ) := Real.exp_pos _
  have hmargin : (0 : ℝ) < 3 / 2 := by norm_num
  have htarget : f.targetNorm ≤ f'.targetNorm := half_le_self hheuristic.le
  have hvolume : ∀ k, 2 ≤ k → k < p.dimension → (p'.tail k).prod ≤ (p.tail k).prod := by
    intro k hlow hhigh
    obtain rfl : k = 2 := le_antisymm (Nat.lt_succ_iff.mp hhigh) hlow
    change ([1, 1] : List ℝ).prod ≤ [1 / 2, 4].prod
    norm_num
  have hsuccess : f'.isSuccess p' 2 = true := by
    rw [isSuccess_iff]
    change gaussianHeuristic [1, 1] / (3 / 2) * (2 : ℕ) / (3 : ℕ) <
      4 / 3 * gaussianHeuristic ([1, 1] : List ℝ)
    push_cast
    linarith
  have hunit : f'.successDimension p' = .ok 2 :=
    successDimension_eq_ok_iff.mpr ⟨⟨le_rfl, Nat.lt_succ_self 2, hsuccess⟩, fun _ hj => hj.1⟩
  obtain ⟨hmono, -⟩ := successDimension_mono f f' p p' hmargin rfl htarget rfl hvolume
  obtain ⟨k, hk, hlow, hhigh, -⟩ := hmono 2 hunit
  obtain rfl : k = 2 := le_antisymm hhigh hlow
  exact ⟨hmargin, rfl, htarget, rfl, hvolume, hunit, hk⟩

end Forecaster

end EmbeddingAttack
