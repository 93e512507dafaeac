import EmbeddingAttack.Proofs.Attack.SearchBudget

/-!
# The dimensions that a search covers

The forecast tries dimensions from two upwards until the target is short for one of them, and the
window of a search grows from the end of the basis until the lattice in it has no vector shorter
than the target.  With a margin above three quarters the window never ends before the dimension that
the forecast asks for.
-/

namespace EmbeddingAttack

variable {σ β : Type}

section Scans

variable {α : Type} [Scalar α]

namespace Window

theorem extend_of_short {p : Profile α} {target : α} {start : Nat}
    (h : p.suffixGaussianHeuristic (start + 1) <
      target * ((p.dimension - (start + 1) : Nat) : α) / (p.dimension : α)) :
    extend p target (start + 1) = extend p target start :=
  if_pos h

theorem extend_of_long {p : Profile α} {target : α} {start : Nat}
    (h : ¬ p.suffixGaussianHeuristic (start + 1) <
      target * ((p.dimension - (start + 1) : Nat) : α) / (p.dimension : α)) :
    extend p target (start + 1) = start + 1 :=
  if_neg h

theorem extend_le (p : Profile α) (target : α) (start : Nat) : extend p target start ≤ start := by
  induction start with
  | zero => exact le_rfl
  | succ start ih =>
      by_cases h : p.suffixGaussianHeuristic (start + 1) <
          target * ((p.dimension - (start + 1) : Nat) : α) / (p.dimension : α)
      · rw [extend_of_short h]
        omega
      · rw [extend_of_long h]

/-- The window ends before the front only where the target is no longer short. -/
theorem extend_stops (p : Profile α) (target : α) (start : Nat) (hstop : 0 < extend p target start) :
    ¬ p.suffixGaussianHeuristic (extend p target start) <
      target * ((p.dimension - extend p target start : Nat) : α) / (p.dimension : α) := by
  induction start with
  | zero => exact absurd hstop (lt_irrefl 0)
  | succ start ih =>
      by_cases h : p.suffixGaussianHeuristic (start + 1) <
          target * ((p.dimension - (start + 1) : Nat) : α) / (p.dimension : α)
      · rw [extend_of_short h] at hstop ⊢
        exact ih hstop
      · rw [extend_of_long h]
        exact h

end Window

end Scans

/-- The window reaches the dimension needed: if it stopped before, the heuristic there would be at
least the target's share, and the forecast would have accepted that dimension. -/
theorem Window.needed_le_length {f : Forecaster ℝ} {p : Profile ℝ} {blocksize needed : Nat}
    (hmargin : 3 / 4 < f.goalMargin) (htarget : 0 < f.targetNorm) (hblocksize : 2 ≤ blocksize)
    (hneeded : f.successDimension p = .ok needed) (dimension : Nat) :
    needed ≤ (forSearch p blocksize f.targetNorm dimension).length := by
  obtain ⟨⟨-, hbelow, -⟩, hleast⟩ := Forecaster.successDimension_eq_ok_iff.mp hneeded
  have hle := extend_le p f.targetNorm (p.dimension - blocksize)
  have hstops := extend_stops p f.targetNorm (p.dimension - blocksize)
  unfold forSearch
  dsimp only
  generalize extend p f.targetNorm (p.dimension - blocksize) = start at hle hstops ⊢
  by_contra hshort
  have hsuffix : p.dimension - (p.dimension - start) = start := by omega
  have hlong : f.targetNorm * ((p.dimension - start : Nat) : ℝ) / (p.dimension : ℝ) ≤
      gaussianHeuristic (p.lengths.drop start) := not_lt.mp (hstops (by omega))
  -- The forecast has tried the length of the window and found it too small.
  have hfails : ¬ f.isSuccess p (p.dimension - start) = true := fun hsuccess =>
    hshort (hleast ⟨by omega, by omega, hsuccess⟩)
  rw [Forecaster.isSuccess_iff, not_lt] at hfails
  unfold Profile.tail at hfails
  rw [hsuffix] at hfails
  have hshare : 0 < f.targetNorm * ((p.dimension - start : Nat) : ℝ) / (p.dimension : ℝ) := by
    have hlength : (0 : ℝ) < ((p.dimension - start : Nat) : ℝ) := Nat.cast_pos.mpr (by omega)
    have hdimension : (0 : ℝ) < (p.dimension : ℝ) := Nat.cast_pos.mpr (by omega)
    positivity
  have hless := calc
    4 / 3 * (f.targetNorm * ((p.dimension - start : Nat) : ℝ) / (p.dimension : ℝ))
      ≤ 4 / 3 * gaussianHeuristic (p.lengths.drop start) := by gcongr
    _ ≤ f.targetNorm / f.goalMargin * ((p.dimension - start : Nat) : ℝ) / (p.dimension : ℝ) :=
        hfails
    _ = f.targetNorm * ((p.dimension - start : Nat) : ℝ) / (p.dimension : ℝ) / f.goalMargin := by
        ring
    _ < f.targetNorm * ((p.dimension - start : Nat) : ℝ) / (p.dimension : ℝ) / (3 / 4) :=
        div_lt_div_of_pos_left hshare (by norm_num) hmargin
  linarith

namespace AttackLoop

end AttackLoop

end EmbeddingAttack
