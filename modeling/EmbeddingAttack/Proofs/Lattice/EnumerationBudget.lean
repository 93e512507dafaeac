import EmbeddingAttack.Proofs.Arithmetic.Fraction
import EmbeddingAttack.Proofs.Lattice.EnumerationWalk
import Mathlib.Data.Nat.Basic

/-!
# Enumerations within their limits

The walk through a block without a bound on its rounds: at each level it tries shell after shell
until one lies outside the radius or the node limit is reached.  Whatever the comparisons answer,
undefined values included, every round that goes on has counted a node, so that the walk ends, and
it ends in the state that the walk with a bound on its rounds finds.
-/

namespace EmbeddingAttack

variable {α : Type} [Scalar α] {n m : Nat}

namespace Enumeration

/-- The partial squared length with the coefficient `x` at a level. -/
def Level.normWith (level : Level α) (x : α) : α :=
  let difference := x - level.center
  level.above + difference * difference * level.length

/-! ## The walk without a bound on its rounds -/

/-- The rounds at a level from a state to the state in which they end.  The integers `pending` of
the shell at distance `t` are still to be tried, and `inside` tells whether one of those before them
lay inside the radius.  A visit to an integer takes one state to another. -/
inductive Rounds (p : SearchLimits α) (level : Level α)
    (visit : α → α → State α → State α → Prop) (x direction : α) :
    (pending : List α) → (inside : Bool) → (t : Nat) → State α → State α → Prop where
  | outside {y : α} {pending : List α} {inside : Bool} {t : Nat} {s s' : State α}
      (hout : s.radius ≤ level.normWith y)
      (rest : Rounds p level visit x direction pending inside t s s') :
      Rounds p level visit x direction (y :: pending) inside t s s'
  | limit {y : α} {pending : List α} {inside : Bool} {t : Nat} {s s' : State α}
      (hin : ¬ s.radius ≤ level.normWith y)
      (hvisit : visit y (level.normWith y) { s with nodes := s.nodes + 1 } s')
      (hlimit : p.maxNodes ≤ s'.nodes) :
      Rounds p level visit x direction (y :: pending) inside t s s'
  | visited {y : α} {pending : List α} {inside : Bool} {t : Nat} {s s₁ s' : State α}
      (hin : ¬ s.radius ≤ level.normWith y)
      (hvisit : visit y (level.normWith y) { s with nodes := s.nodes + 1 } s₁)
      (hlimit : ¬ p.maxNodes ≤ s₁.nodes)
      (rest : Rounds p level visit x direction pending true t s₁ s') :
      Rounds p level visit x direction (y :: pending) inside t s s'
  | again {t : Nat} {s s' : State α}
      (rest : Rounds p level visit x direction (shell x direction level.signFree (t + 1)) false
        (t + 1) s s') :
      Rounds p level visit x direction [] true t s s'
  | done {t : Nat} {s : State α} : Rounds p level visit x direction [] false t s s

/-- All rounds at a level, unless the node limit has been reached before. -/
def Tries (p : SearchLimits α) (L : LatticeBasis α n m) (start level : Nat) (later : List Int)
    (above : α) (signFree : Bool) (visit : α → α → State α → State α → Prop)
    (s s' : State α) : Prop :=
  if p.maxNodes ≤ s.nodes then s' = s
  else
    let c := center L start level later
    let x := Scalar.round c
    let direction := if x ≤ c then 1 else -1
    Rounds p ⟨c, L.length (start + level), above, signFree⟩ visit x direction
      (shell x direction signFree 0) false 0 s s'

/-- The walk through the subtree below the given coefficients, whose rounds end by themselves. -/
def Walks (p : SearchLimits α) (L : LatticeBasis α n m) (start : Nat) :
    (level : Nat) → (later : List Int) → (above : α) → (signFree : Bool) →
      State α → State α → Prop
  | 0, later, above, signFree =>
    Tries p L start 0 later above signFree fun x norm s s' =>
      s' = if (signFree && Scalar.equal x 0) = false ∧ 0 < norm then
          s.record p (Scalar.toWord x :: later) norm
        else s
  | level + 1, later, above, signFree =>
    Tries p L start (level + 1) later above signFree fun x norm =>
      Walks p L start level (Scalar.toWord x :: later) norm (signFree && Scalar.equal x 0)

/-! ## Nodes -/

/-- Nodes are only added, and not beyond the limit. -/
structure Spends (p : SearchLimits α) (s s' : State α) : Prop where
  grows : s.nodes ≤ s'.nodes
  within : s.nodes ≤ p.maxNodes → s'.nodes ≤ p.maxNodes

omit [Scalar α] in
theorem Spends.refl (p : SearchLimits α) (s : State α) : Spends p s s :=
  ⟨le_rfl, id⟩

section Level

variable {p : SearchLimits α} {level : Level α} {visit : α → α → State α → State α → Prop}
  {x direction : α} {pending : List α} {inside : Bool} {t : Nat} {s s' s'' : State α}

/-- The rounds of a level keep to the limit where each visit does: a node is counted only below the
limit, and the limit is asked for after each visit. -/
theorem Rounds.spends (hvisit : ∀ x norm s s', visit x norm s s' → Spends p s s')
    (h : Rounds p level visit x direction pending inside t s s') (hs : s.nodes < p.maxNodes) :
    Spends p s s' := by
  induction h with
  | outside _ _ ih => exact ih hs
  | @limit y _ _ _ s s' _ hv _ =>
      obtain ⟨hgrows, hwithin⟩ := hvisit y _ _ _ hv
      exact ⟨Nat.le_of_succ_le hgrows, fun _ => hwithin hs⟩
  | @visited y _ _ _ s s₁ s' _ hv hlimit _ ih =>
      obtain ⟨hgrows, -⟩ := hvisit y _ _ _ hv
      have hrest := ih (Nat.lt_of_not_le hlimit)
      exact ⟨Nat.le_of_succ_le (Nat.le_trans hgrows hrest.grows),
        fun _ => hrest.within (Nat.le_of_not_le hlimit)⟩
  | again _ ih => exact ih hs
  | done => exact .refl p _

/-- The rounds of a level end in one state only. -/
theorem Rounds.unique
    (hvisit : ∀ x norm s a b, visit x norm s a → visit x norm s b → a = b)
    (h : Rounds p level visit x direction pending inside t s s')
    (h' : Rounds p level visit x direction pending inside t s s'') : s' = s'' := by
  induction h with
  | outside hout _ ih =>
      cases h' with
      | outside _ rest => exact ih rest
      | limit hin => exact absurd hout hin
      | visited hin => exact absurd hout hin
  | limit hin hv hlimit =>
      cases h' with
      | outside hout => exact absurd hout hin
      | limit _ hv' => exact hvisit _ _ _ _ _ hv hv'
      | visited _ hv' hlimit' =>
          cases hvisit _ _ _ _ _ hv hv'
          exact absurd hlimit hlimit'
  | visited hin hv hlimit _ ih =>
      cases h' with
      | outside hout => exact absurd hout hin
      | limit _ hv' hlimit' =>
          cases hvisit _ _ _ _ _ hv hv'
          exact absurd hlimit' hlimit
      | visited _ hv' _ rest =>
          cases hvisit _ _ _ _ _ hv hv'
          exact ih rest
  | again _ ih =>
      cases h' with
      | again rest => exact ih rest
  | done =>
      cases h' with
      | done => rfl

end Level

section Tries

variable {p : SearchLimits α} {L : LatticeBasis α n m} {start level : Nat} {later : List Int}
  {above : α} {signFree : Bool} {visit : α → α → State α → State α → Prop} {s s' s'' : State α}

theorem Tries.spends (hvisit : ∀ x norm s s', visit x norm s s' → Spends p s s')
    (h : Tries p L start level later above signFree visit s s') : Spends p s s' := by
  unfold Tries at h
  split at h
  · rw [h]
    exact .refl p s
  · exact Rounds.spends hvisit h (Nat.lt_of_not_le ‹_›)

theorem Tries.unique (hvisit : ∀ x norm s a b, visit x norm s a → visit x norm s b → a = b)
    (h : Tries p L start level later above signFree visit s s')
    (h' : Tries p L start level later above signFree visit s s'') : s' = s'' := by
  unfold Tries at h h'
  split at h
  · rename_i hlimit
    rw [if_pos hlimit] at h'
    rw [h, h']
  · rename_i hlimit
    rw [if_neg hlimit] at h'
    exact Rounds.unique hvisit h h'

end Tries

section Walks

variable {p : SearchLimits α} {L : LatticeBasis α n m} {start level : Nat} {later : List Int}
  {above : α} {signFree : Bool} {s s' s'' : State α}

theorem Walks.spends (h : Walks p L start level later above signFree s s') : Spends p s s' := by
  induction level generalizing later above signFree s s' with
  | zero =>
      refine Tries.spends (fun x norm s s' hvisit => ?_) h
      rw [hvisit]
      split
      · exact ⟨le_rfl, id⟩
      · exact .refl p s
  | succ level ih => exact Tries.spends (fun x norm s s' hvisit => ih hvisit) h

theorem Walks.unique (h : Walks p L start level later above signFree s s')
    (h' : Walks p L start level later above signFree s s'') : s' = s'' := by
  induction level generalizing later above signFree s s' s'' with
  | zero => exact Tries.unique (fun x norm s a b ha hb => ha.trans hb.symm) h h'
  | succ level ih =>
      refine Tries.unique ?_ h h'
      exact fun x norm s a b ha hb => ih ha hb

end Walks

/-! ## The bound on the rounds -/

section Bound

variable {p : SearchLimits α} {level : Level α} {visit : α → α → State α → State α → Prop}
  {f : α → α → State α → State α} (hvisit : ∀ x norm s, visit x norm s (f x norm s))
  {x direction : α}

include hvisit in
/-- A shell is tried integer by integer; the rounds go on after it where it reports an integer
inside and end with it where it reports none. -/
theorem rounds_of_visitShell {t : Nat} {pending : List α} {inside : Bool} {s s' : State α}
    (hinside : (visitShell p level f pending inside s).1 = true →
      Rounds p level visit x direction [] true t (visitShell p level f pending inside s).2 s')
    (hnone : (visitShell p level f pending inside s).1 = false →
      s' = (visitShell p level f pending inside s).2) :
    Rounds p level visit x direction pending inside t s s' := by
  induction pending generalizing inside s with
  | nil =>
      cases inside with
      | true => exact hinside rfl
      | false =>
          rw [hnone rfl]
          exact .done
  | cons y pending ih =>
      rw [visitShell] at hinside hnone
      dsimp only at hinside hnone
      split at hinside
      · rename_i hout
        rw [if_pos hout] at hnone
        exact .outside hout (ih hinside hnone)
      · rename_i hin
        rw [if_neg hin] at hnone
        have hv := hvisit y (level.normWith y) { s with nodes := s.nodes + 1 }
        split at hinside
        · rename_i hlimit
          rw [if_pos hlimit] at hnone
          rw [hnone rfl]
          exact .limit hin hv hlimit
        · rename_i hlimit
          rw [if_neg hlimit] at hnone
          exact .visited hin hv hlimit (ih hinside hnone)

/-- A shell that reports an integer inside has counted a node and not reached the limit. -/
theorem nodes_visitShell (hgrows : ∀ x norm s, s.nodes ≤ (f x norm s).nodes) {pending : List α}
    {inside : Bool} {s : State α} (hs : s.nodes < p.maxNodes)
    (h : (visitShell p level f pending inside s).1 = true) :
    (visitShell p level f pending inside s).2.nodes < p.maxNodes ∧
      s.nodes ≤ (visitShell p level f pending inside s).2.nodes ∧
      (inside = true ∨ s.nodes < (visitShell p level f pending inside s).2.nodes) := by
  induction pending generalizing inside s with
  | nil => exact ⟨hs, le_rfl, .inl h⟩
  | cons y pending ih =>
      rw [visitShell] at h ⊢
      dsimp only at h ⊢
      split at h
      · rename_i hout
        rw [if_pos hout]
        exact ih hs h
      · rename_i hin
        rw [if_neg hin]
        have hcount := hgrows y (level.normWith y) { s with nodes := s.nodes + 1 }
        split at h
        · cases h
        · rename_i hlimit
          rw [if_neg hlimit]
          obtain ⟨hbelow, hmore, -⟩ := ih (Nat.lt_of_not_le hlimit) h
          have hless := Nat.lt_of_succ_le (Nat.le_trans hcount hmore)
          exact ⟨hbelow, Nat.le_of_lt hless, .inr hless⟩

theorem visitShells_succ (budget t : Nat) (s : State α) :
    visitShells p level f x direction (budget + 1) t s =
      let result := visitShell p level f (shell x direction level.signFree t) false s
      if result.1 = true then visitShells p level f x direction budget (t + 1) result.2
      else result.2 := by
  rw [visitShells]
  split <;> rename_i heq <;> rw [heq] <;> rfl

include hvisit in
/-- Each round that goes on uses up a part of the bound and counts a node, so that the node limit is
reached before the bound. -/
theorem rounds_visitShells (hgrows : ∀ x norm s, s.nodes ≤ (f x norm s).nodes) {budget t : Nat}
    {s : State α} (hs : s.nodes < p.maxNodes) (hbudget : p.maxNodes ≤ s.nodes + budget) :
    Rounds p level visit x direction (shell x direction level.signFree t) false t s
      (visitShells p level f x direction budget t s) := by
  induction budget generalizing t s with
  | zero => omega
  | succ budget ih =>
      refine rounds_of_visitShell hvisit (fun hinside => ?_) fun hnone => ?_
      · obtain ⟨hbelow, -, hcounted⟩ := nodes_visitShell hgrows hs hinside
        have hless := hcounted.resolve_left Bool.false_ne_true
        rw [visitShells_succ]
        dsimp only
        rw [if_pos hinside]
        exact .again (ih hbelow (by omega))
      · rw [visitShells_succ]
        dsimp only
        rw [hnone]
        rfl

end Bound

/-- The walk with a bound on its rounds takes the same way as the one without. -/
theorem walks_descend (p : SearchLimits α) (L : LatticeBasis α n m) (start level : Nat)
    (later : List Int) (above : α) (signFree : Bool) (s : State α) :
    Walks p L start level later above signFree s
      (descend p L start level later above signFree s) := by
  induction level generalizing later above signFree s with
  | zero =>
      unfold Walks Tries descend
      split
      · rfl
      · refine rounds_visitShells ?_ ?_ ?_ ?_
        · intro x norm s
          rfl
        · intro x norm s
          split <;> exact le_rfl
        · omega
        · omega
  | succ level ih =>
      unfold Walks Tries descend
      split
      · rfl
      · refine rounds_visitShells (fun x norm s => ih _ _ _ s)
          (fun x norm s => (ih _ _ _ s).spends.grows) ?_ ?_
        · omega
        · omega

/-! ## Vectors -/

/-- No more vectors are kept than the limit allows. -/
theorem length_found_descend (p : SearchLimits α) (L : LatticeBasis α n m) (start level : Nat)
    (later : List Int) (above : α) (signFree : Bool) {s : State α}
    (hs : s.found.length ≤ p.maxCandidates) :
    (descend p L start level later above signFree s).found.length ≤ p.maxCandidates := by
  refine descend_keeps (P := fun s => s.found.length ≤ p.maxCandidates) (fun _ _ hs => hs)
    (fun s c norm _ _ => ?_) L start rfl above signFree hs
  exact List.length_take_le _ _

end Enumeration

/-! ## Undefined values -/

/-- A scalar or the undefined value, which each operation hands on and no comparison holds of. -/
def WithUndefined (α : Type) : Type := Option α

namespace WithUndefined

def lift₂ (f : α → α → α) : Option α → Option α → Option α
  | some x, some y => some (f x y)
  | _, _ => none

def Compare (r : α → α → Prop) : Option α → Option α → Prop
  | some x, some y => r x y
  | _, _ => False

instance (r : α → α → Prop) [DecidableRel r] : DecidableRel (Compare r)
  | some x, some y => inferInstanceAs (Decidable (r x y))
  | some _, none => inferInstanceAs (Decidable False)
  | none, _ => inferInstanceAs (Decidable False)

instance : Scalar (WithUndefined α) where
  zero := some (0 : α)
  one := some (1 : α)
  natCast n := some (n : α)
  intCast n := some (n : α)
  ofScientific m s e := some (OfScientific.ofScientific m s e : α)
  add := lift₂ (· + ·)
  sub := lift₂ (· - ·)
  mul := lift₂ (· * ·)
  div := lift₂ (· / ·)
  neg := Option.map (- ·)
  le := Compare (· ≤ ·)
  lt := Compare (· < ·)
  decidableLE := inferInstanceAs (DecidableRel (Compare fun (x y : α) => x ≤ y))
  decidableLT := inferInstanceAs (DecidableRel (Compare fun (x y : α) => x < y))
  isFinite := Option.any Scalar.isFinite
  abs := Option.map Scalar.abs
  sqrt := Option.map Scalar.sqrt
  round := Option.map Scalar.round
  floor := Option.map Scalar.floor
  exp := Option.map Scalar.exp
  exp2 := Option.map Scalar.exp2
  log := Option.map Scalar.log
  log2 := Option.map Scalar.log2
  pow := lift₂ Scalar.pow
  logGamma := Option.map Scalar.logGamma
  pi := some (Scalar.pi : α)
  e := some (Scalar.e : α)
  toInt := fun x => Option.elim x 0 Scalar.toInt
  toNat := fun x => Option.elim x 0 Scalar.toNat
  integers := Scalar.integers α

end WithUndefined

namespace LatticeBasis

open Enumeration

/-- Whatever the comparisons of the numbers answer: the walk through a block ends, and in one state
only.  The enumeration reports what this walk has found.  It has visited no more nodes than the
limit allows, and reports that it was cut short exactly where it visited as many.  It has kept no
more vectors than the limit allows, each with a coefficient for each row of the block. -/
theorem enumerate_keeps_limits (L : LatticeBasis α n m) (p : SearchLimits α) (start stop : Nat)
    (radius : α) (hp : p.validate = .ok ()) (hstart : start < stop) (hstop : stop ≤ n) :
    ∃ s f, (∀ s', Walks p L start (stop - start - 1) [] 0 true ⟨radius, [], 0⟩ s' ↔ s' = s) ∧
      L.enumerate p start stop radius = .ok f ∧
      f.candidates = s.found.reverse ∧ f.nodes = s.nodes ∧
      f.nodes ≤ p.maxNodes ∧
      f.candidates.length ≤ p.maxCandidates ∧
      (∀ c ∈ f.candidates, c.coefficients.length = stop - start) ∧
      (f.truncated = true ↔ f.nodes = p.maxNodes) := by
  let s := descend p L start (stop - start - 1) [] 0 true ⟨radius, [], 0⟩
  have hwalk : Walks p L start (stop - start - 1) [] 0 true ⟨radius, [], 0⟩ s :=
    walks_descend p L start _ [] 0 true _
  have hnodes : s.nodes ≤ p.maxNodes := hwalk.spends.within (Nat.zero_le _)
  have hfound : s.found.length ≤ p.maxCandidates :=
    length_found_descend p L start _ [] 0 true (Nat.zero_le _)
  have hrun := L.enumerate_eq_ok radius hp hstart hstop
  refine ⟨s, _, fun s' => ⟨fun h => h.unique hwalk, ?_⟩, hrun, rfl, rfl, hnodes, ?_,
    length_coefficients_of_enumerate hrun, ?_⟩
  · rintro rfl
    exact hwalk
  · rwa [List.length_reverse]
  · rw [decide_eq_true_eq]
    exact ⟨fun h => Nat.le_antisymm hnodes h, fun h => Nat.le_of_eq h.symm⟩

/-- Two rows of which nothing but the entries is defined. -/
def undefinedBasis : LatticeBasis (WithUndefined Fraction) 2 2 where
  basis := ⟨#v[#v[1, 0], #v[0, 1]]⟩
  mu := .replicate 2 (.replicate 2 none)
  r := .replicate 2 none

theorem enumerate_keeps_limits_undefined :
    let p : SearchLimits (WithUndefined Fraction) := ⟨5, 1, 1⟩
    p.validate = .ok () ∧
      ∃ f, undefinedBasis.enumerate p 0 2 none = .ok f ∧ f.nodes = 5 ∧ f.truncated = true := by
  intro p
  have hp : p.validate = .ok () := by
    have hfactor : 0 < p.radiusFactor ∧ p.radiusFactor ≤ 1 := by decide +kernel
    unfold SearchLimits.validate
    exact guard_eq_ok.mpr ⟨by decide, guard_eq_ok.mpr ⟨by decide, if_neg (not_not.mpr hfactor)⟩⟩
  obtain ⟨-, f, -, hf, -, -, -, -, -, htruncated⟩ :=
    undefinedBasis.enumerate_keeps_limits p 0 2 none hp (by decide) (by decide)
  have hnodes : (undefinedBasis.enumerate p 0 2 none).toOption.map (·.nodes) = some 5 := by
    decide +kernel
  rw [hf] at hnodes
  have hfive : f.nodes = 5 := Option.some.inj hnodes
  exact ⟨hp, f, hf, hfive, htruncated.mpr hfive⟩

end LatticeBasis

end EmbeddingAttack
