import EmbeddingAttack.Proofs.Arithmetic.Fraction
import EmbeddingAttack.Proofs.Lattice.CheckedSearch
import EmbeddingAttack.Proofs.Profile.Simulation

/-!
# The windows of a jumping tour

The windows of a tour lie within the basis, whatever the jump and the numbers of free dimensions
are, so that a search accepts each of them.  The sums of sizes that say how long a window is must be
words: they would wrap around.  But the windows reach the last row only if some dimension of
a window is free: the full windows stop before the one that ends with the basis, and only the first
of the shrinking windows, of which there are as many as free dimensions, makes up for it.
-/

namespace EmbeddingAttack

open Simulation (minus? minus?_of_le mapM_eq_some_map)

/-- The row `i` belongs to the window. -/
def Window.Covers (w : Window) (i : Nat) : Prop :=
  w.start ≤ i ∧ i < w.start + w.length

instance (w : Window) (i : Nat) : Decidable (w.Covers i) :=
  inferInstanceAs (Decidable (_ ∧ _))

theorem stepsBelow_zero {step : Nat} (hstep : 0 < step) : stepsBelow 0 step = [] :=
  List.eq_nil_iff_forall_not_mem.mpr fun x hx => by
    obtain ⟨-, -, hlt⟩ := (mem_stepsBelow hstep).mp hx
    exact Nat.not_lt_zero x hlt

/-- Windows at the multiples of a step that is not longer than they are leave no gap, and end with
the window at the last multiple. -/
theorem exists_mem_stepsBelow_iff (stop i : Nat) {step length : Nat} (hstep : 0 < step)
    (hlength : step ≤ length) : (∃ kappa ∈ stepsBelow stop step, kappa ≤ i ∧ i < kappa + length) ↔
      0 < stop ∧ i < (stop - 1) / step * step + length := by
  simp only [mem_stepsBelow hstep]
  constructor
  · rintro ⟨kappa, ⟨k, rfl, hk⟩, -, hi⟩
    have hlast : k ≤ (stop - 1) / step := (Nat.le_div_iff_mul_le hstep).mpr (by omega)
    have := Nat.mul_le_mul_right step hlast
    exact ⟨by omega, by omega⟩
  · rintro ⟨hstop, hi⟩
    -- The window at the last multiple that is neither beyond the row nor beyond the last window.
    have hlast := Nat.div_mul_le_self (stop - 1) step
    rcases Nat.lt_or_ge ((stop - 1) / step) (i / step) with hbeyond | hwithin
    · have hle : (stop - 1) / step * step ≤ i :=
        (Nat.mul_le_mul_right step hbeyond.le).trans (Nat.div_mul_le_self i step)
      exact ⟨_, ⟨_, rfl, by omega⟩, hle, hi⟩
    · have hle := Nat.mul_le_mul_right step hwithin
      have hnext := Nat.lt_div_mul_add (a := i) hstep
      exact ⟨_, ⟨_, rfl, by omega⟩, Nat.div_mul_le_self i step, by omega⟩

/-- Three orthogonal rows. -/
def LatticeBasis.orthogonalRows : LatticeBasis Fraction 3 3 where
  basis := ⟨#v[#v[5, 0, 0], #v[0, 3, 0], #v[0, 0, 1]]⟩
  mu := #v[#v[1, 0, 0], #v[0, 1, 0], #v[0, 0, 1]]
  r := #v[25, 9, 1]

namespace JumpingTour

open LatticeBasis (orthogonalRows)

variable {α : Type} {tour : JumpingTour α} {d i : Nat}

/-- The length of a full window on a basis of rank `d`. -/
def width (tour : JumpingTour α) (d : Nat) : Nat :=
  min (wrapSize (tour.blocksize + tour.extraFreeDimensions)) d

/-- The rows of a full window that are not enumerated. -/
def freeRows (tour : JumpingTour α) (d : Nat) : Nat :=
  min (wrapSize (tour.freeDimensions + tour.extraFreeDimensions)) (tour.width d - 2)

/-- A window at the front, with its difference of indices checked. -/
def growing? (tour : JumpingTour α) (d i : Nat) : Option Window := do
  return ⟨0, (← minus? (tour.width d) (tour.freeRows d)) + i, i⟩

/-- A window at the end, with its differences of indices checked. -/
def shrinking? (tour : JumpingTour α) (d i : Nat) : Option Window := do
  return ⟨(← minus? d (tour.width d)) + i, ← minus? (tour.width d) i, ← minus? (tour.freeRows d) i⟩

/-- The windows with each difference of indices checked, except for the one that the definition of
the tour cuts at zero. -/
def windows? (tour : JumpingTour α) (d : Nat) : Option (List Window) := do
  let jump := max tour.jump 1
  let growing ← (stepsBelow (tour.freeRows d) jump).mapM (tour.growing? d)
  let full ← minus? d (tour.width d)
  let shrinking ← (stepsBelow (tour.freeRows d) jump).mapM (tour.shrinking? d)
  return growing ++ (stepsBelow full jump).map (⟨·, tour.width d, tour.freeRows d⟩) ++ shrinking

/-- The first row that no window covers, or the rank if all rows are covered. -/
def reach (tour : JumpingTour α) (d : Nat) : Nat :=
  if 0 < tour.freeRows d then d
  else if tour.width d < d then (d - tour.width d - 1) / tour.jump * tour.jump + tour.width d
  else 0

theorem windows_eq (tour : JumpingTour α) (d : Nat) : tour.windows d =
    (stepsBelow (tour.freeRows d) (max tour.jump 1)).map
      (fun i => ⟨0, tour.width d - tour.freeRows d + i, i⟩) ++
    (stepsBelow (d - tour.width d) (max tour.jump 1)).map
      (⟨·, tour.width d, tour.freeRows d⟩) ++
    (stepsBelow (tour.freeRows d) (max tour.jump 1)).map
      (fun i => ⟨d - tour.width d + i, tour.width d - i, tour.freeRows d - i⟩) :=
  rfl

theorem width_le (tour : JumpingTour α) (d : Nat) : tour.width d ≤ d :=
  Nat.min_le_right _ _

theorem freeRows_le (tour : JumpingTour α) (d : Nat) : tour.freeRows d ≤ tour.width d - 2 :=
  Nat.min_le_right _ _

theorem mem_steps {stop x : Nat} :
    x ∈ stepsBelow stop (max tour.jump 1) ↔ ∃ i, x = i * max tour.jump 1 ∧ x < stop :=
  mem_stepsBelow (Nat.lt_of_lt_of_le Nat.one_pos (Nat.le_max_right _ _))

theorem growing?_eq (tour : JumpingTour α) (d i : Nat) :
    tour.growing? d i = some ⟨0, tour.width d - tour.freeRows d + i, i⟩ := by
  have := tour.freeRows_le d
  rw [growing?, minus?_of_le (by omega)]
  rfl

theorem shrinking?_eq (hi : i ≤ tour.freeRows d) : tour.shrinking? d i =
    some ⟨d - tour.width d + i, tour.width d - i, tour.freeRows d - i⟩ := by
  have := tour.freeRows_le d
  rw [shrinking?, minus?_of_le (tour.width_le d), minus?_of_le (show i ≤ tour.width d by omega),
    minus?_of_le hi]
  rfl

theorem windows?_eq (tour : JumpingTour α) (d : Nat) :
    tour.windows? d = some (tour.windows d) := by
  have hshrinking : ∀ i ∈ stepsBelow (tour.freeRows d) (max tour.jump 1), tour.shrinking? d i =
      some ⟨d - tour.width d + i, tour.width d - i, tour.freeRows d - i⟩ := by
    intro i hi
    obtain ⟨-, -, hlt⟩ := mem_steps.mp hi
    exact shrinking?_eq hlt.le
  rw [windows?, mapM_eq_some_map fun i _ => tour.growing?_eq d i, minus?_of_le (tour.width_le d),
    mapM_eq_some_map hshrinking]
  rfl

theorem mem_windows {w : Window} : w ∈ tour.windows d ↔
    (∃ i ∈ stepsBelow (tour.freeRows d) (max tour.jump 1),
      ⟨0, tour.width d - tour.freeRows d + i, i⟩ = w) ∨
    (∃ kappa ∈ stepsBelow (d - tour.width d) (max tour.jump 1),
      ⟨kappa, tour.width d, tour.freeRows d⟩ = w) ∨
    ∃ i ∈ stepsBelow (tour.freeRows d) (max tour.jump 1),
      ⟨d - tour.width d + i, tour.width d - i, tour.freeRows d - i⟩ = w := by
  rw [windows_eq]
  simp only [List.mem_append, List.mem_map, or_assoc]

/-- A tour that does not move on, with blocks longer than the basis. -/
def standingTour : JumpingTour Fraction where
  blocksize := 4
  jump := 0
  freeDimensions := 1
  extraFreeDimensions := 7
  goal := 1

theorem freeRows_pos_iff (hsizes : tour.blocksize + tour.extraFreeDimensions < 2 ^ 64)
    (hfree : tour.freeDimensions + tour.extraFreeDimensions < 2 ^ 64) : 0 < tour.freeRows d ↔
      0 < tour.freeDimensions + tour.extraFreeDimensions ∧
        2 < min (tour.blocksize + tour.extraFreeDimensions) d := by
  unfold freeRows width
  rw [wrapSize_eq hsizes, wrapSize_eq hfree]
  omega

theorem reach_of_free (hfree : 0 < tour.freeRows d) : tour.reach d = d :=
  if_pos hfree

/-- The last of the full windows begins before the one that ends with the basis. -/
theorem reach_lt (hd : 0 < d) (hfree : ¬ 0 < tour.freeRows d) : tour.reach d < d := by
  rw [reach, if_neg hfree]
  split
  · have := Nat.div_mul_le_self (d - tour.width d - 1) tour.jump
    omega
  · exact hd

section Coverage

variable (hjump : 0 < tour.jump) (hle : tour.jump ≤ tour.blocksize)
  (hsizes : tour.blocksize + tour.extraFreeDimensions < 2 ^ 64)

include hle hsizes in
/-- A full window that is shorter than the basis is as long as it is asked for. -/
theorem jump_le_width (hd : tour.width d < d) : tour.jump ≤ tour.width d := by
  unfold width at hd ⊢
  rw [wrapSize_eq hsizes] at hd ⊢
  omega

include hjump hle hsizes

/-- The full windows leave no gap before the end of the last of them. -/
theorem exists_full_covers_iff : (∃ kappa ∈ stepsBelow (d - tour.width d) (max tour.jump 1),
      Window.Covers ⟨kappa, tour.width d, tour.freeRows d⟩ i) ↔
    tour.width d < d ∧ i < (d - tour.width d - 1) / tour.jump * tour.jump + tour.width d := by
  rw [max_eq_left hjump]
  by_cases hd : tour.width d < d
  · have hwidth := jump_le_width hle hsizes hd
    rw [← Nat.sub_pos_iff_lt]
    exact exists_mem_stepsBelow_iff (d - tour.width d) i hjump hwidth
  · rw [Nat.sub_eq_zero_of_le (not_lt.mp hd), stepsBelow_zero hjump]
    simp [hd]

theorem covers_of_lt_reach (hi : i < tour.reach d) : ∃ w ∈ tour.windows d, w.Covers i := by
  by_cases hfree : 0 < tour.freeRows d
  · rw [reach_of_free hfree] at hi
    rcases Nat.lt_or_ge i (d - tour.width d) with hbefore | hend
    · -- A row before the last block lies in a full window.
      have hlast := Nat.lt_div_mul_add (a := d - tour.width d - 1) hjump
      have hwidth := jump_le_width hle hsizes (show tour.width d < d by omega)
      obtain ⟨kappa, hkappa, hcovers⟩ := (exists_full_covers_iff hjump hle hsizes).mpr
        ⟨by omega, (by omega : i < (d - tour.width d - 1) / tour.jump * tour.jump + tour.width d)⟩
      exact ⟨_, mem_windows.mpr (.inr (.inl ⟨kappa, hkappa, rfl⟩)), hcovers⟩
    · -- The first of the shrinking windows is the last block.
      have := tour.width_le d
      refine ⟨_, mem_windows.mpr (.inr (.inr ⟨0, mem_steps.mpr ⟨0, by omega, hfree⟩, rfl⟩)), ?_⟩
      unfold Window.Covers
      dsimp only
      omega
  · rw [reach, if_neg hfree] at hi
    split at hi
    · rename_i hd
      obtain ⟨kappa, hkappa, hcovers⟩ := (exists_full_covers_iff hjump hle hsizes).mpr ⟨hd, hi⟩
      exact ⟨_, mem_windows.mpr (.inr (.inl ⟨kappa, hkappa, rfl⟩)), hcovers⟩
    · exact absurd hi (Nat.not_lt_zero i)

theorem lt_reach_of_covers (hblocksize : 2 ≤ tour.blocksize)
    (h : ∃ w ∈ tour.windows d, w.Covers i) : i < tour.reach d := by
  obtain ⟨w, hw, hcovers⟩ := h
  by_cases hfree : 0 < tour.freeRows d
  · rw [reach_of_free hfree]
    exact hcovers.2.trans_le (fits_of_mem_windows hblocksize hsizes hw).1
  · have hnone : stepsBelow (tour.freeRows d) (max tour.jump 1) = [] := by
      rw [Nat.eq_zero_of_not_pos hfree]
      exact stepsBelow_zero (by omega)
    simp only [mem_windows, hnone, List.not_mem_nil, false_and, exists_false, or_false,
      false_or] at hw
    obtain ⟨kappa, hkappa, rfl⟩ := hw
    obtain ⟨hd, hi⟩ := (exists_full_covers_iff hjump hle hsizes).mp ⟨kappa, hkappa, hcovers⟩
    rw [reach, if_neg hfree, if_pos hd]
    exact hi

end Coverage

/-- The windows of a tour whose sums of sizes are words cover the rows before its reach and no
others.  That is the whole basis exactly where a window has a free dimension; else the last row at
least is in no window. -/
theorem windows_cover_iff (tour : JumpingTour α) (d : Nat) (hblocksize : 2 ≤ tour.blocksize)
    (hjump : 1 ≤ tour.jump) (hle : tour.jump ≤ tour.blocksize) (hd : 2 ≤ d)
    (hsizes : tour.blocksize + tour.extraFreeDimensions < 2 ^ 64)
    (hfrees : tour.freeDimensions + tour.extraFreeDimensions < 2 ^ 64) :
    (∀ i, (∃ w ∈ tour.windows d, w.Covers i) ↔ i < tour.reach d) ∧ tour.reach d ≤ d ∧
      (tour.reach d = d ↔ 0 < tour.freeDimensions + tour.extraFreeDimensions ∧
        2 < min (tour.blocksize + tour.extraFreeDimensions) d) := by
  refine ⟨fun i => ⟨lt_reach_of_covers hjump hle hsizes hblocksize,
    covers_of_lt_reach hjump hle hsizes⟩, ?_⟩
  rw [← freeRows_pos_iff hsizes hfrees]
  by_cases hfree : 0 < tour.freeRows d
  · have := reach_of_free hfree
    exact ⟨this.le, fun _ => hfree, fun _ => this⟩
  · have hlt := reach_lt (by omega) hfree
    exact ⟨hlt.le, fun h => absurd h hlt.ne, fun h => absurd h hfree⟩

/-- With one free dimension, windows of three rows cover all six rows in jumps of two. -/
theorem windows_cover_six_rows :
    let tour : JumpingTour Fraction := ⟨3, 2, 1, 0, 1⟩
    tour.windows 6 = [⟨0, 2, 0⟩, ⟨0, 3, 1⟩, ⟨2, 3, 1⟩, ⟨3, 3, 1⟩] ∧ tour.reach 6 = 6 ∧
      ∃ w ∈ tour.windows 6, w.Covers 5 := by
  obtain ⟨hcovers, -, hreach⟩ := windows_cover_iff (⟨3, 2, 1, 0, 1⟩ : JumpingTour Fraction) 6
    (by decide) (by decide) (by decide) (by decide) (by decide) (by decide)
  have hsix := hreach.mpr (by decide)
  exact ⟨by decide, hsix, (hcovers 5).mpr (by rw [hsix]; decide)⟩

/-- Without free dimensions, windows of three rows pass over the last of five rows, and there is no
window at all for three. -/
theorem windows_pass_over_last_row :
    let tour : JumpingTour Fraction := ⟨3, 1, 0, 0, 1⟩
    tour.windows 5 = [⟨0, 3, 0⟩, ⟨1, 3, 0⟩] ∧ ¬ (∃ w ∈ tour.windows 5, w.Covers 4) ∧
      tour.windows 3 = [] := by
  decide

end JumpingTour

end EmbeddingAttack
