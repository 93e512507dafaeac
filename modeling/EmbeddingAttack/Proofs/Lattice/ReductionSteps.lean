import EmbeddingAttack.Lattice.LLL
import EmbeddingAttack.Proofs.Arithmetic.Words
import EmbeddingAttack.Proofs.Computation

/-!
# The steps of a reduction

A reduction takes one step after another: each makes a row small, and goes on to the next row or
exchanges the row with its predecessor and goes back.  The cached data alone decide which, and no
integer is computed for them.  So a reduction on words takes the steps of the one on integers of any
size, and where integers do not fit only the rows differ.
-/

namespace EmbeddingAttack

variable {α : Type} {n m : Nat}

namespace LatticeBasis

/-- Two bases with the same cached data. -/
structure SameData (L M : LatticeBasis α n m) : Prop where
  mu : L.mu = M.mu
  r : L.r = M.r

namespace SameData

variable {L M : LatticeBasis α n m}

theorem eq_of_basis (h : SameData L M) (hbasis : L.basis = M.basis) : L = M :=
  LatticeBasis.ext hbasis h.mu h.r

theorem length [Scalar α] (h : SameData L M) (i : Nat) : L.length i = M.length i := by
  rw [LatticeBasis.length, LatticeBasis.length, h.r]

theorem ite {c c' : Prop} [Decidable c] [Decidable c'] {L' M' : LatticeBasis α n m} (hc : c ↔ c')
    (h : SameData L M) (h' : SameData L' M') :
    SameData (if c then L else L') (if c' then M else M') := by
  by_cases hcase : c
  · rwa [if_pos hcase, if_pos (hc.mp hcase)]
  · rwa [if_neg hcase, if_neg (mt hc.mpr hcase)]

end SameData

end LatticeBasis

namespace LLL

open LatticeBasis

/-! ## Exchange -/

section Exchange

variable [Scalar α]

/-- The squared length of the direction that row `k` has in the place of its predecessor. -/
def exchangedSquare (L : LatticeBasis α n m) (k : Nat) : α :=
  L.length k + L.coefficient k (k - 1) * L.coefficient k (k - 1) * L.length (k - 1)

/-- The basis after the exchange of row `k` with its predecessor. -/
def exchanged (L : LatticeBasis α n m) (k : Nat) : LatticeBasis α n m :=
  exchangeData k (exchangedSquare L k) (L.setBasis (·.swapRows (k - 1) k))

theorem exchange_eq_ok_iff {k : Nat} {L M : LatticeBasis α n m} :
    exchange k L = .ok () M ↔ 0 < exchangedSquare L k ∧ exchanged L k = M := by
  unfold exchange
  change (if ¬ 0 < exchangedSquare L k then _ else _ : Reduction α n m Unit) (L.setBasis _) = _ ↔ _
  split
  · rename_i hsquare
    exact ⟨nofun, fun h => absurd h.1 hsquare⟩
  · rename_i hsquare
    constructor
    · intro h
      cases h
      exact ⟨not_not.mp hsquare, rfl⟩
    · rintro ⟨-, rfl⟩
      rfl

end Exchange

/-! ## Data and integers -/

section Data

variable (S : Scalar α) (p : LLL α) {L M : LatticeBasis α n m}

theorem sameData_reduceAlong (h : SameData L M) (k j : Nat) :
    SameData (@reduceAlong α S.unbounded n m p k j L) (@reduceAlong α S n m p k j M) := by
  obtain ⟨A, mu, r⟩ := L
  obtain ⟨B, mu', r'⟩ := M
  obtain ⟨rfl, rfl⟩ := h
  exact SameData.ite Iff.rfl ⟨rfl, rfl⟩ ⟨rfl, rfl⟩

theorem sameData_sizeReduce (h : SameData L M) (k : Nat) :
    SameData (@sizeReduce α S.unbounded n m p k L) (@sizeReduce α S n m p k M) := by
  have hbelow (j : Nat) {L M : LatticeBasis α n m} (h : SameData L M) :
      SameData (@sizeReduceBelow α S.unbounded n m p k j L)
        (@sizeReduceBelow α S n m p k j M) := by
    induction j generalizing L M with
    | zero => exact h
    | succ j ih => exact ih (sameData_reduceAlong S p h k j)
  exact hbelow k h

theorem lovasz_of_sameData (h : SameData L M) (k : Nat) :
    @lovasz α S n m p M k = @lovasz α S.unbounded n m p L k := by
  obtain ⟨A, mu, r⟩ := L
  obtain ⟨B, mu', r'⟩ := M
  obtain ⟨rfl, rfl⟩ := h
  rfl

theorem exchange_of_sameData (h : SameData L M) {k : Nat} {L' : LatticeBasis α n m}
    (hL : @exchange α S.unbounded n m k L = .ok () L') :
    ∃ M', @exchange α S n m k M = .ok () M' ∧ SameData L' M' := by
  obtain ⟨hsquare, rfl⟩ := (@exchange_eq_ok_iff α n m S.unbounded k L L').mp hL
  obtain ⟨A, mu, r⟩ := L
  obtain ⟨B, mu', r'⟩ := M
  obtain ⟨rfl, rfl⟩ := h
  exact ⟨_, exchange_eq_ok_iff.mpr ⟨hsquare, rfl⟩, rfl, rfl⟩

end Data

/-! ## Steps -/

/-- A step of a reduction: the basis before and after it, and whether it exchanged two rows. -/
structure Turn (α : Type) (n m : Nat) where
  before : LatticeBasis α n m
  after : LatticeBasis α n m
  exchanges : Bool

/-- The steps of a reduction of the rows between `start` and `stop` that lead from one row and basis
to another. -/
inductive Steps [Scalar α] (p : LLL α) (start stop : Nat) :
    Nat → LatticeBasis α n m → List (Turn α n m) → Nat → LatticeBasis α n m → Prop
  | stay (k : Nat) (L : LatticeBasis α n m) : Steps p start stop k L [] k L
  | advance {k k' : Nat} {L L' : LatticeBasis α n m} {turns : List (Turn α n m)} (hk : k < stop)
      (hlovasz : p.lovasz (sizeReduce p k L) k = true)
      (rest : Steps p start stop (k + 1) (sizeReduce p k L) turns k' L') :
      Steps p start stop k L (⟨L, sizeReduce p k L, false⟩ :: turns) k' L'
  | exchange {k k' : Nat} {L M L' : LatticeBasis α n m} {turns : List (Turn α n m)} (hk : k < stop)
      (hlovasz : p.lovasz (sizeReduce p k L) k = false)
      (hexchange : LLL.exchange k (sizeReduce p k L) = .ok () M)
      (rest : Steps p start stop (if start + 1 < k then k - 1 else k) M turns k' L') :
      Steps p start stop k L (⟨L, M, true⟩ :: turns) k' L'

/-- Two steps that do the same to the cached data. -/
structure Turn.SameData (t u : Turn α n m) : Prop where
  before : t.before.SameData u.before
  after : t.after.SameData u.after
  exchanges : t.exchanges = u.exchanges

/-- A reduction on words takes the steps of the one on integers of any size. -/
theorem Steps.onWords {S : Scalar α} {p : LLL α} {start stop k k' : Nat}
    {L L' M : LatticeBasis α n m} {turns : List (Turn α n m)}
    (hsteps : @Steps α n m S.unbounded p start stop k L turns k' L') (h : L.SameData M) :
    ∃ turns' M', @Steps α n m S p start stop k M turns' k' M' ∧
      List.Forall₂ Turn.SameData turns turns' ∧ L'.SameData M' := by
  induction hsteps generalizing M with
  | stay k L => exact ⟨[], M, .stay k M, .nil, h⟩
  | @advance k k' L L' turns hk hlovasz rest ih =>
      have hreduced := sameData_sizeReduce S p h k
      obtain ⟨turns', M', hsteps, hturns, hM'⟩ := ih hreduced
      have hlovasz' := (lovasz_of_sameData S p hreduced k).trans hlovasz
      exact ⟨_, M', .advance hk hlovasz' hsteps, .cons ⟨h, hreduced, rfl⟩ hturns, hM'⟩
  | @exchange k k' L K L' turns hk hlovasz hexchange rest ih =>
      have hreduced := sameData_sizeReduce S p h k
      obtain ⟨K', hexchange', hK⟩ := exchange_of_sameData S hreduced hexchange
      obtain ⟨turns', M', hsteps, hturns, hM'⟩ := ih hK
      have hlovasz' := (lovasz_of_sameData S p hreduced k).trans hlovasz
      exact ⟨_, M', .exchange hk hlovasz' hexchange' hsteps, .cons ⟨h, hK, rfl⟩ hturns, hM'⟩

/-! ## Runs -/

section Runs

variable {S : Scalar α} {p : LLL α} {start stop k k' : Nat} {L L' M : LatticeBasis α n m}
  {turns : List (Turn α n m)}

theorem run_of_lovasz (budget : Nat) (hk : k < stop)
    (hlovasz : p.lovasz (sizeReduce p k L) k = true) (stats : Statistics) :
    run p start stop (budget + 1) k stats L =
      run p start stop budget (k + 1) { stats with iterations := stats.iterations + 1 }
        (sizeReduce p k L) := by
  have hmodify : (modify (sizeReduce p k) : Reduction α n m Unit) L =
      .ok () (sizeReduce p k L) := rfl
  rw [run, if_pos hk]
  refine (bind_of_ok hmodify).trans ?_
  change (if p.lovasz (sizeReduce p k L) k = true then _ else _ : Reduction α n m Statistics) _ = _
  rw [if_pos hlovasz]

theorem run_of_exchange (budget : Nat) (hk : k < stop)
    (hlovasz : p.lovasz (sizeReduce p k L) k = false)
    (hexchange : exchange k (sizeReduce p k L) = .ok () M) (stats : Statistics) :
    run p start stop (budget + 1) k stats L =
      run p start stop budget (if start + 1 < k then k - 1 else k)
        ⟨stats.changes + 1, stats.iterations + 1, stats.nodes⟩ M := by
  have hmodify : (modify (sizeReduce p k) : Reduction α n m Unit) L =
      .ok () (sizeReduce p k L) := rfl
  rw [run, if_pos hk]
  refine (bind_of_ok hmodify).trans ?_
  change (if p.lovasz (sizeReduce p k L) k = true then _ else _ : Reduction α n m Statistics) _ = _
  rw [if_neg (by simp [hlovasz])]
  exact bind_of_ok hexchange

theorem run_of_le (budget : Nat) (hk : stop ≤ k) (stats : Statistics) :
    run p start stop budget k stats L = .ok stats L := by
  cases budget <;> rw [run, if_neg (by omega)] <;> rfl

/-- A run does its steps before it goes on. -/
theorem Steps.run_eq (hsteps : Steps p start stop k L turns k' L') (budget : Nat)
    (stats : Statistics) :
    run p start stop (turns.length + budget) k stats L =
      run p start stop budget k' ⟨stats.changes + turns.countP (·.exchanges),
        stats.iterations + turns.length, stats.nodes⟩ L' := by
  induction hsteps generalizing stats with
  | stay k L => rw [List.length_nil, Nat.zero_add]; rfl
  | advance hk hlovasz rest ih =>
      rw [List.length_cons, Nat.add_right_comm, run_of_lovasz _ hk hlovasz, ih,
        List.countP_cons_of_neg (by simp)]
      simp only [Nat.add_assoc, Nat.add_comm 1]
  | exchange hk hlovasz hexchange rest ih =>
      rw [List.length_cons, Nat.add_right_comm, run_of_exchange _ hk hlovasz hexchange, ih,
        List.countP_cons_of_pos rfl]
      simp only [Nat.add_assoc, Nat.add_comm 1]

/-- A run whose steps end behind the last row. -/
theorem Steps.run_ends (hsteps : Steps p start stop k L turns k' L') {budget : Nat}
    (hbudget : turns.length ≤ budget) (hk' : stop ≤ k') :
    run p start stop budget k {} L = .ok ⟨turns.countP (·.exchanges), turns.length, 0⟩ L' := by
  obtain ⟨spare, rfl⟩ := Nat.exists_eq_add_of_le hbudget
  rw [hsteps.run_eq, run_of_le _ hk']
  simp only [Nat.zero_add]

/-- A run whose budget is spent before the last row. -/
theorem Steps.run_stops (hsteps : Steps p start stop k L turns k' L') (hk' : k' < stop) :
    run p start stop turns.length k {} L =
      .error (.numerical (.notConverged turns.length)) L' := by
  have hrun := hsteps.run_eq 0 {}
  rw [Nat.add_zero] at hrun
  rw [hrun, run, if_pos hk']
  simp only [Nat.zero_add]
  rfl

/-- A step that does not exchange rows goes on by a row, and one that does goes back by one at
most. -/
theorem Steps.count (hsteps : Steps p start stop k L turns k' L') (hk : k ≤ stop) :
    k' ≤ stop ∧ k + turns.length ≤ k' + 2 * turns.countP (·.exchanges) ∧
      k' + turns.countP (·.exchanges) ≤ k + turns.length := by
  induction hsteps with
  | stay k L => simp [hk]
  | advance hk hlovasz rest ih =>
      rw [List.countP_cons_of_neg (by simp), List.length_cons]
      have hrest := ih (by omega)
      omega
  | exchange hk hlovasz hexchange rest ih =>
      rw [List.countP_cons_of_pos rfl, List.length_cons]
      have hrest := ih (by split <;> omega)
      split at hrest <;> omega

/-- A reduction makes its first row small, runs and recomputes the data. -/
theorem reduceRange_eq_run {L₀ : LatticeBasis α n m} (hvalid : p.validate = .ok ())
    (hstart : start < stop) (hstop : stop ≤ n) (hL₀ : orthogonalize L = .ok () L₀) :
    p.reduceRange start stop L =
      (run p start stop p.maxIterations (start + 1) {} >>= fun stats => do
        orthogonalize
        return stats : Reduction α n m Statistics) (sizeReduce p start L₀) := by
  have hparameters : (ofExcept p.validate : Reduction α n m Unit) L = .ok () L := by
    rw [hvalid]
    rfl
  unfold reduceRange
  apply (bind_of_ok hparameters).trans
  rw [if_neg (by omega)]
  apply (bind_of_ok hL₀).trans
  by_cases hpos : 0 < start
  · rw [if_pos hpos]
    rfl
  · rw [if_neg hpos]
    obtain rfl : start = 0 := by omega
    rfl

end Runs

end LLL

end EmbeddingAttack
