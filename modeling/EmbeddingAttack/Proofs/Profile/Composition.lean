import EmbeddingAttack.Proofs.Profile.Recurrence

/-!
# Simulations in a row

A simulation takes logarithms before its first tour and goes back after its last.  Since it does
nothing else than to repeat the same tour, one that goes on from where another has ended gives what
a single one of all the tours gives.

The first row never gets longer: it keeps its length or takes a smaller one, and the tail, whose
lengths are rewritten in every tour that changes something, then lies behind it.
-/

namespace EmbeddingAttack

namespace Simulation.Recurrence

theorem entry_zero_le (blocksize : ℕ) (old : List ℝ) :
    entry blocksize old (rows blocksize old 0) 0 ≤ old.getD 0 0 := by
  unfold entry
  split
  · rename_i hsome
    obtain ⟨i, hi, himproves⟩ := hsome
    obtain rfl := Nat.le_zero.mp hi
    exact himproves.le
  · exact le_rfl

theorem getD_zero_tour_le (blocksize : ℕ) (old : List ℝ) :
    (tour blocksize old).getD 0 0 ≤ old.getD 0 0 := by
  unfold tour
  dsimp only
  split
  · rename_i hsome
    -- A row that improves lies before the tail, and so does the first row.
    obtain ⟨k, hk, -⟩ := hsome
    have hfirst := Nat.zero_lt_of_lt hk
    rw [List.getD_eq_getElem?_getD, List.getElem?_append_left (by rwa [length_rows]),
      getElem?_rows hfirst, Option.getD_some]
    exact entry_zero_le blocksize old
  · exact le_rfl

theorem getD_zero_iterate_tour_le (blocksize n : ℕ) (logs : List ℝ) :
    ((tour blocksize)^[n] logs).getD 0 0 ≤ logs.getD 0 0 := by
  induction n with
  | zero => exact le_rfl
  | succ n ih =>
      rw [Function.iterate_succ_apply']
      exact (getD_zero_tour_le blocksize _).trans ih

end Simulation.Recurrence

namespace Profile

open Simulation

theorem get?_zero (p : Profile ℝ) : p.get? 0 = some (Real.exp (2.0 * p.logs.getD 0 0)) := by
  unfold get?
  rw [lengths_eq_map_logs, List.getElem?_map]
  cases hlogs : p.logs with
  | nil => exact absurd (List.map_eq_nil_iff.mp hlogs) p.nonempty
  | cons l logs => rfl

/-- A simulation can be interrupted after any number of tours and taken up from the profile that it
has reached, and the more tours there are, the shorter is the first row, if it changes at all. -/
theorem simulate_add (p : Profile ℝ) (blocksize s t : ℕ) (hblocksize : 2 ≤ blocksize)
    (hs : 1 ≤ s) (ht : 1 ≤ t) :
    ∃ q q', p.simulate blocksize s = .ok q ∧ q.simulate blocksize t = .ok q' ∧
      p.simulate blocksize (s + t) = .ok q' ∧
      ∃ x y z, p.get? 0 = some x ∧ q.get? 0 = some y ∧ q'.get? 0 = some z ∧ z ≤ y ∧ y ≤ x := by
  have hpositive : 0 < blocksize := by omega
  obtain ⟨q, hq, hlogs⟩ := p.simulate_logs hblocksize s
  obtain ⟨q', hq', hlogs'⟩ := q.simulate_logs hblocksize t
  obtain ⟨whole, hwhole, hlogsWhole⟩ := p.simulate_logs hblocksize (s + t)
  rw [simulatedLogs_eq_iterate _ hpositive] at hlogs hlogs' hlogsWhole
  have hsame : whole = q' := by
    have htours : max (s + t) 1 = max t 1 + max s 1 := by omega
    apply eq_of_logs
    rw [hlogsWhole, hlogs', hlogs, ← Function.iterate_add_apply, htours]
  have hshorter {r r' : Profile ℝ} {n : ℕ} (h : r'.logs = (Recurrence.tour blocksize)^[n] r.logs) :
      Real.exp (2.0 * r'.logs.getD 0 0) ≤ Real.exp (2.0 * r.logs.getD 0 0) := by
    have hfirst := Recurrence.getD_zero_iterate_tour_le blocksize n r.logs
    rw [← h] at hfirst
    gcongr
  exact ⟨q, q', hq, hq', hsame ▸ hwhole, _, _, _, p.get?_zero, q.get?_zero, q'.get?_zero,
    hshorter hlogs', hshorter hlogs⟩

theorem simulate_add_triple :
    2 ≤ 2 ∧ 1 ≤ 1 ∧ 1 ≤ 2 ∧
      ∃ q q', (positive [16, 4, 1] (by simp) (by simp)).simulate 2 1 = .ok q ∧
        q.simulate 2 2 = .ok q' ∧
        (positive [16, 4, 1] (by simp) (by simp)).simulate 2 3 = .ok q' ∧
        ∃ y z, q.get? 0 = some y ∧ q'.get? 0 = some z ∧ z ≤ y ∧ y ≤ 16 := by
  obtain ⟨q, q', hq, hq', hwhole, x, y, z, hx, hy, hz, hzy, hyx⟩ :=
    simulate_add (positive [16, 4, 1] (by simp) (by simp)) 2 1 2 le_rfl le_rfl one_le_two
  obtain rfl : 16 = x := Option.some.inj hx
  exact ⟨le_rfl, le_rfl, one_le_two, q, q', hq, hq', hwhole, y, z, hy, hz, hzy, hyx⟩

end Profile

end EmbeddingAttack
