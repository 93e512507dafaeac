import EmbeddingAttack.Proofs.Arithmetic.RealScalar
import EmbeddingAttack.Proofs.Lattice.EnumerationWalk
import Mathlib.Tactic.Linarith

/-!
# Walks from a centre outwards

One level of the enumeration, for any way to visit an integer.  A walk that is not cut short by the
node limit covers every integer: those that it tries inside the radius are visited, and once a whole
shell lies outside, so do all integers beyond it.
-/

namespace EmbeddingAttack

namespace Enumeration

/-- The partial squared length with the coefficient `x` at a level. -/
def Level.partialNorm (level : Level ℝ) (x : ℝ) : ℝ :=
  level.above + (x - level.center) * (x - level.center) * level.length

/-- What a visit may change: the state stays valid, the radius shrinks and nodes are added. -/
structure Advances (Valid : State ℝ → Prop) (s s' : State ℝ) : Prop where
  valid : Valid s'
  radius_le : s'.radius ≤ s.radius
  nodes_le : s.nodes ≤ s'.nodes

/-- What a level asks of a visit to an integer `x`: it advances, and unless the node limit ends it,
the radius falls to the targets of `x`, none of which is below the partial length of `x`. -/
structure Visits (p : SearchLimits ℝ) (level : Level ℝ) (Valid : State ℝ → Prop)
    (targets : ℤ → Set ℝ) (visit : ℝ → ℝ → State ℝ → State ℝ) : Prop where
  count : ∀ s nodes, Valid s → Valid { s with nodes }
  bound : ∀ x : ℤ, ∀ v ∈ targets x, level.partialNorm x ≤ v
  advances : ∀ (x : ℤ) s, Valid s → level.partialNorm x < s.radius →
    Advances Valid s (visit x (level.partialNorm x) s)
  covers : ∀ (x : ℤ) s, Valid s → level.partialNorm x < s.radius →
    (visit x (level.partialNorm x) s).nodes < p.maxNodes →
      ∀ v ∈ targets x, (visit x (level.partialNorm x) s).radius ≤ v

theorem Advances.refl {Valid : State ℝ → Prop} {s : State ℝ} (h : Valid s) : Advances Valid s s :=
  ⟨h, le_rfl, le_rfl⟩

theorem Advances.trans {Valid : State ℝ → Prop} {s t u : State ℝ} (h : Advances Valid s t)
    (h' : Advances Valid t u) : Advances Valid s u :=
  ⟨h'.valid, h'.radius_le.trans h.radius_le, h.nodes_le.trans h'.nodes_le⟩

variable {p : SearchLimits ℝ} {level : Level ℝ} {Valid : State ℝ → Prop}
  {targets : ℤ → Set ℝ} {visit : ℝ → ℝ → State ℝ → State ℝ}

/-! ## One shell -/

theorem visitShell_cons (x : ℝ) (xs : List ℝ) (inside : Bool) (s : State ℝ) :
    visitShell p level visit (x :: xs) inside s =
      if s.radius ≤ level.partialNorm x then visitShell p level visit xs inside s
      else if p.maxNodes ≤ (visit x (level.partialNorm x) { s with nodes := s.nodes + 1 }).nodes then
        (false, visit x (level.partialNorm x) { s with nodes := s.nodes + 1 })
      else visitShell p level visit xs true
        (visit x (level.partialNorm x) { s with nodes := s.nodes + 1 }) := rfl

/-- A visit to an integer inside the radius, the node counted. -/
theorem Visits.advances_count (h : Visits p level Valid targets visit) {x : ℤ} {s : State ℝ}
    (hs : Valid s) (hx : ¬ s.radius ≤ level.partialNorm x) :
    Advances Valid { s with nodes := s.nodes + 1 }
      (visit x (level.partialNorm x) { s with nodes := s.nodes + 1 }) :=
  h.advances x _ (h.count s _ hs) (not_le.mp hx)

theorem visitShell_advances (h : Visits p level Valid targets visit) (xs : List ℤ) (inside : Bool)
    (s : State ℝ) (hs : Valid s) :
    Advances Valid s (visitShell p level visit (xs.map (↑)) inside s).2 := by
  induction xs generalizing inside s with
  | nil => exact Advances.refl hs
  | cons x xs ih =>
      rw [List.map_cons, visitShell_cons]
      split
      · exact ih inside s hs
      · rename_i hx
        have hcount : Advances Valid s { s with nodes := s.nodes + 1 } :=
          ⟨h.count s _ hs, le_rfl, Nat.le_succ _⟩
        have hvisit := hcount.trans (h.advances_count hs hx)
        split
        · exact hvisit
        · exact hvisit.trans (ih true _ hvisit.valid)

/-- Where the node limit is not reached, every integer of the shell is covered. -/
theorem visitShell_covers (h : Visits p level Valid targets visit) (xs : List ℤ) (inside : Bool)
    (s : State ℝ) (hs : Valid s)
    (hnodes : (visitShell p level visit (xs.map (↑)) inside s).2.nodes < p.maxNodes) :
    ∀ x ∈ xs, ∀ v ∈ targets x, (visitShell p level visit (xs.map (↑)) inside s).2.radius ≤ v := by
  induction xs generalizing inside s with
  | nil => simp
  | cons x xs ih =>
      rw [List.map_cons, visitShell_cons] at hnodes ⊢
      intro y hy v hv
      split at hnodes
      · rename_i hx
        rw [if_pos hx]
        rcases List.mem_cons.mp hy with rfl | hy
        · exact ((visitShell_advances h xs inside s hs).radius_le.trans hx).trans (h.bound y v hv)
        · exact ih inside s hs hnodes y hy v hv
      · rename_i hx
        have hvisit := h.advances_count hs hx
        rw [if_neg hx]
        split at hnodes
        · rename_i hlimit
          exact absurd hnodes (not_lt.mpr hlimit)
        · rename_i hlimit
          rw [if_neg hlimit]
          rcases List.mem_cons.mp hy with rfl | hy
          · refine (visitShell_advances h xs true _ hvisit.valid).radius_le.trans ?_
            exact h.covers y { s with nodes := s.nodes + 1 } (h.count s _ hs) (not_le.mp hx)
              (not_le.mp hlimit) v hv
          · exact ih true _ hvisit.valid hnodes y hy v hv

/-- A shell that reports an integer inside has visited a node, and one that reports none, without
reaching the node limit, lies outside. -/
theorem visitShell_reports (h : Visits p level Valid targets visit) (xs : List ℤ) (inside : Bool)
    (s : State ℝ) (hs : Valid s)
    (hnodes : (visitShell p level visit (xs.map (↑)) inside s).2.nodes < p.maxNodes) :
    if (visitShell p level visit (xs.map (↑)) inside s).1 then
      inside = true ∨ s.nodes < (visitShell p level visit (xs.map (↑)) inside s).2.nodes
    else inside = false ∧ (visitShell p level visit (xs.map (↑)) inside s).2 = s ∧
      ∀ x ∈ xs, s.radius ≤ level.partialNorm x := by
  induction xs generalizing inside s with
  | nil => cases inside <;> simp [visitShell]
  | cons x xs ih =>
      rw [List.map_cons, visitShell_cons] at hnodes ⊢
      split at hnodes
      · rename_i hx
        rw [if_pos hx]
        have hrest := ih inside s hs hnodes
        split at hrest
        · rename_i hinside
          rwa [if_pos hinside]
        · rename_i houtside
          rw [if_neg houtside]
          exact ⟨hrest.1, hrest.2.1, List.forall_mem_cons.mpr ⟨hx, hrest.2.2⟩⟩
      · rename_i hx
        have hvisit := h.advances_count hs hx
        rw [if_neg hx]
        split at hnodes
        · rename_i hlimit
          exact absurd hnodes (not_lt.mpr hlimit)
        · rename_i hlimit
          rw [if_neg hlimit]
          have hrest := ih true _ hvisit.valid hnodes
          have hmore := (visitShell_advances h xs true _ hvisit.valid).nodes_le
          split at hrest
          · rename_i hinside
            rw [if_pos hinside]
            exact Or.inr (lt_of_lt_of_le (Nat.lt_succ_self _) (hvisit.nodes_le.trans hmore))
          · exact absurd hrest.1 (by decide)

/-! ## All shells -/

/-- The integers of a shell around the integer `x`. -/
def integerShell (x direction : ℤ) (signFree : Bool) (t : Nat) : List ℤ :=
  if t = 0 then [x]
  else if signFree then [x + t]
  else [x + direction * t, x - direction * t]

theorem shell_intCast (x direction : ℤ) (signFree : Bool) (t : Nat) :
    shell (x : ℝ) (direction : ℝ) signFree t =
      (integerShell x direction signFree t).map (↑) := by
  unfold shell integerShell
  split
  · rfl
  · split <;> simp

theorem visitShells_advances (h : Visits p level Valid targets visit) (x direction : ℤ)
    (budget t : Nat) (s : State ℝ) (hs : Valid s) :
    Advances Valid s (visitShells p level visit x direction budget t s) := by
  induction budget generalizing t s with
  | zero => exact Advances.refl hs
  | succ budget ih =>
      have hshell := visitShell_advances h (integerShell x direction level.signFree t) false s hs
      rw [visitShells, shell_intCast]
      generalize visitShell p level visit _ false s = result at hshell ⊢
      obtain ⟨inside, s'⟩ := result
      cases inside with
      | true => exact hshell.trans (ih (t + 1) s' hshell.valid)
      | false => exact hshell

/-- Each integer of a later shell has one in every shell before that is no farther from the
centre. -/
def Nested (level : Level ℝ) (x direction : ℤ) : Prop :=
  ∀ t u, t ≤ u → ∀ y ∈ integerShell x direction level.signFree u,
    ∃ z ∈ integerShell x direction level.signFree t, level.partialNorm z ≤ level.partialNorm y

/-- Each shell but the last visits a node, so that the budget lasts unless the node limit is
reached. -/
theorem visitShells_covers (h : Visits p level Valid targets visit) {x direction : ℤ}
    (hnested : Nested level x direction) (budget t : Nat) (s : State ℝ) (hs : Valid s)
    (hbudget : p.maxNodes ≤ s.nodes + budget)
    (hnodes : (visitShells p level visit x direction budget t s).nodes < p.maxNodes) :
    ∀ u, t ≤ u → ∀ y ∈ integerShell x direction level.signFree u, ∀ v ∈ targets y,
      (visitShells p level visit x direction budget t s).radius ≤ v := by
  induction budget generalizing t s with
  | zero => exact absurd hnodes (not_lt.mpr hbudget)
  | succ budget ih =>
      have hadvances := visitShell_advances h (integerShell x direction level.signFree t) false s hs
      have hcovers := visitShell_covers h (integerShell x direction level.signFree t) false s hs
      have hreports := visitShell_reports h (integerShell x direction level.signFree t) false s hs
      rw [visitShells, shell_intCast] at hnodes ⊢
      generalize visitShell p level visit _ false s = result
        at hadvances hcovers hreports hnodes ⊢
      obtain ⟨inside, s'⟩ := result
      cases inside with
      | true =>
          have hrest := visitShells_advances h x direction budget (t + 1) s' hadvances.valid
          have hs' : s'.nodes < p.maxNodes := lt_of_le_of_lt hrest.nodes_le hnodes
          have hmore : s.nodes < s'.nodes := by simpa using hreports hs'
          intro u hu y hy v hv
          rcases Nat.eq_or_lt_of_le hu with rfl | hlt
          · exact hrest.radius_le.trans (hcovers hs' y hy v hv)
          · exact ih (t + 1) s' hadvances.valid (by omega) hnodes u hlt y hy v hv
      | false =>
          have houtside : s' = s ∧ ∀ z ∈ integerShell x direction level.signFree t,
              s.radius ≤ level.partialNorm z := by simpa using hreports hnodes
          obtain ⟨rfl, houtside⟩ := houtside
          intro u hu y hy v hv
          obtain ⟨z, hz, hle⟩ := hnested t u hu y hy
          exact ((houtside z hz).trans hle).trans (h.bound y v hv)

/-! ## Distances from the centre -/

theorem clampInt64_eq_zero {k : ℤ} (h : clampInt64 k = 0) : k = 0 := by
  unfold clampInt64 maxInt64 at h
  omega

/-- The numbers of a shell around a rounded centre are integers, and a cut to words takes no other
integer to zero. -/
instance : @TellsZero ℝ realWords := by
  refine @TellsZero.mk ℝ realWords fun c signFree t x hx hzero => ?_
  have hshell : x ∈ shell (roundHalfAway c : ℝ)
      (((if (roundHalfAway c : ℝ) ≤ c then 1 else -1 : ℤ)) : ℝ) signFree t := by
    rw [apply_ite (Int.cast : ℤ → ℝ), Int.cast_one, Int.cast_neg, Int.cast_one]
    exact hx
  rw [shell_intCast] at hshell
  obtain ⟨k, -, rfl⟩ := List.mem_map.mp hshell
  have hk : k = 0 :=
    clampInt64_eq_zero ((congrArg clampInt64 (truncate_intCast k)).symm.trans hzero)
  exact equal_iff.mpr (by rw [hk, Int.cast_zero])

/-- The sides of the centre on which a walk tries integers. -/
def Side (direction : ℤ) (signFree : Bool) (e : ℤ) : Prop :=
  if signFree then e = 1 else e = direction ∨ e = -direction

theorem mem_integerShell {x direction : ℤ} {signFree : Bool} {t : Nat} {y : ℤ} :
    y ∈ integerShell x direction signFree t ↔ ∃ e, Side direction signFree e ∧ y = x + e * t := by
  unfold integerShell Side
  cases signFree with
  | true =>
      by_cases ht : t = 0
      · simp [ht]
      · simp [ht]
  | false =>
      by_cases ht : t = 0
      · simp only [ht, if_true, List.mem_singleton, Nat.cast_zero, mul_zero, add_zero]
        exact ⟨fun h => ⟨direction, Or.inl rfl, h⟩, fun ⟨_, _, h⟩ => h⟩
      · simp [ht, sub_eq_add_neg]

theorem Side.eq_one_or {direction : ℤ} (hdirection : direction = 1 ∨ direction = -1)
    {signFree : Bool} {e : ℤ} (h : Side direction signFree e) : e = 1 ∨ e = -1 := by
  unfold Side at h
  split at h
  · exact Or.inl h
  · omega

/-- The shells hold every integer, or every one from the centre upwards where only that side is
tried. -/
theorem exists_mem_integerShell {x direction : ℤ} (hdirection : direction = 1 ∨ direction = -1)
    {signFree : Bool} {y : ℤ} (h : signFree = true → x ≤ y) :
    ∃ t, y ∈ integerShell x direction signFree t := by
  refine ⟨(y - x).natAbs, mem_integerShell.mpr ?_⟩
  unfold Side
  by_cases hxy : x ≤ y
  · have hcast : ((y - x).natAbs : ℤ) = y - x := Int.natAbs_of_nonneg (by omega)
    refine ⟨1, ?_, by omega⟩
    split <;> omega
  · have hcast : ((y - x).natAbs : ℤ) = -(y - x) := Int.ofNat_natAbs_of_nonpos (by omega)
    refine ⟨-1, ?_, by omega⟩
    split
    · rename_i hfree
      exact absurd (h hfree) hxy
    · omega

/-- Beyond the rounded centre, distances grow with the shells. -/
theorem nested_of_abs_le {x direction : ℤ} (hdirection : direction = 1 ∨ direction = -1)
    (hcenter : |x - level.center| ≤ 1 / 2) (hlength : 0 ≤ level.length) :
    Nested level x direction := by
  intro t u htu y hy
  obtain ⟨e, he, rfl⟩ := mem_integerShell.mp hy
  refine ⟨x + e * t, mem_integerShell.mpr ⟨e, he, rfl⟩, ?_⟩
  have hunit : (e : ℝ) = 1 ∨ (e : ℝ) = -1 := by
    rcases he.eq_one_or hdirection with rfl | rfl
    · exact Or.inl Int.cast_one
    · exact Or.inr (by norm_num)
  obtain ⟨hlower, hupper⟩ := abs_le.mp hcenter
  have hsquare : (x + e * t - level.center) * (x + e * t - level.center) ≤
      (x + e * u - level.center) * (x + e * u - level.center) := by
    rcases Nat.eq_or_lt_of_le htu with rfl | hlt
    · exact le_rfl
    · have hreal : (t : ℝ) + 1 ≤ u := by exact_mod_cast hlt
      have ht : (0 : ℝ) ≤ t := Nat.cast_nonneg t
      rcases hunit with he | he
      · rw [he]
        nlinarith
      · rw [he]
        nlinarith
  unfold Level.partialNorm
  push_cast
  have := mul_le_mul_of_nonneg_right hsquare hlength
  linarith

/-- A walk that starts at the rounded centre, with shells for as many nodes as are left, covers every
integer on the sides that it tries. -/
theorem visitShells_round (h : Visits p level Valid targets visit)
    (hfree : level.signFree = true → level.center = 0) (hlength : 0 ≤ level.length) (s : State ℝ)
    (hs : Valid s) :
    let x : ℝ := Scalar.round level.center
    let s' := visitShells p level visit x (if x ≤ level.center then 1 else -1)
      (p.maxNodes - s.nodes) 0 s
    Advances Valid s s' ∧ (s'.nodes < p.maxNodes →
      ∀ y : ℤ, (level.signFree = true → 0 ≤ y) → ∀ v ∈ targets y, s'.radius ≤ v) := by
  intro x
  obtain ⟨direction, hdirection, hcast⟩ : ∃ direction : ℤ, (direction = 1 ∨ direction = -1) ∧
      (if x ≤ level.center then 1 else -1 : ℝ) = direction := by
    split
    · exact ⟨1, Or.inl rfl, Int.cast_one.symm⟩
    · exact ⟨-1, Or.inr rfl, by norm_num⟩
  have hx : x = (roundHalfAway level.center : ℝ) := rfl
  rw [hcast, hx]
  have hcenter : |roundHalfAway level.center - level.center| ≤ 1 / 2 := by
    rw [abs_sub_comm]
    exact abs_sub_roundHalfAway level.center
  intro s'
  refine ⟨visitShells_advances h _ direction _ 0 s hs, fun hnodes y hy v hv => ?_⟩
  have hstart : level.signFree = true → roundHalfAway level.center ≤ y := by
    intro hsign
    rw [hfree hsign, roundHalfAway_zero]
    exact hy hsign
  obtain ⟨t, ht⟩ := exists_mem_integerShell hdirection hstart
  exact visitShells_covers h (nested_of_abs_le hdirection hcenter hlength) _ 0 s hs (by omega)
    hnodes t (Nat.zero_le t) y ht v hv

end Enumeration

end EmbeddingAttack
