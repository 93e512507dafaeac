import EmbeddingAttack.Lattice.Enumeration
import EmbeddingAttack.Proofs.Computation

/-!
# Enumerations over any numbers

What can be said of an enumeration without a law of its arithmetic: whatever the walk meets, it
changes its state only by counting nodes and by recording vectors that have a coefficient for each
row of the block.
-/

namespace EmbeddingAttack

variable {α : Type} [Scalar α] {n m : Nat}

namespace Enumeration

section Shells

variable {p : SearchLimits α} {level : Level α} {visit : α → α → State α → State α}
  {P : State α → Prop} {T : α → Prop} (hcount : ∀ s nodes, P s → P { s with nodes })
  (hvisit : ∀ x norm s, T x → P s → P (visit x norm s))

include hcount hvisit

theorem visitShell_keeps {xs : List α} (hxs : ∀ x ∈ xs, T x) (inside : Bool) {s : State α}
    (hs : P s) : P (visitShell p level visit xs inside s).2 := by
  induction xs generalizing inside s with
  | nil => exact hs
  | cons x xs ih =>
      obtain ⟨hx, hxs⟩ := List.forall_mem_cons.mp hxs
      unfold visitShell
      dsimp only
      split
      · exact ih hxs inside hs
      · have hvisited := hvisit x (level.above +
          (x - level.center) * (x - level.center) * level.length) _ hx (hcount s (s.nodes + 1) hs)
        split
        · exact hvisited
        · exact ih hxs true hvisited

theorem visitShells_keeps {x direction : α}
    (hshell : ∀ t, ∀ y ∈ shell x direction level.signFree t, T y) (budget t : Nat)
    {s : State α} (hs : P s) : P (visitShells p level visit x direction budget t s) := by
  induction budget generalizing t s with
  | zero => exact hs
  | succ budget ih =>
      have hkept := @visitShell_keeps _ _ p level visit P T hcount hvisit
        (shell x direction level.signFree t) (hshell t) false s hs
      unfold visitShells
      split <;> rename_i heq <;> rw [heq] at hkept
      · exact ih _ hkept
      · exact hkept

end Shells

/-- What survives the counting of nodes and the recording of a vector with `k` coefficients is kept
by the walk through a block of `k` rows. -/
theorem descend_keeps {p : SearchLimits α} {k : Nat} {P : State α → Prop}
    (hcount : ∀ s nodes, P s → P { s with nodes })
    (hrecord : ∀ s c norm, c.length = k → P s → P (s.record p c norm))
    (L : LatticeBasis α n m) (start : Nat) {level : Nat} {later : List Int}
    (hlength : level + 1 + later.length = k) (above : α) (signFree : Bool) {s : State α}
    (hs : P s) : P (descend p L start level later above signFree s) := by
  induction level generalizing later above signFree s with
  | zero =>
      unfold descend
      split
      · exact hs
      · refine visitShells_keeps (T := fun _ => True) hcount (fun x norm s _ hs => ?_)
          (fun _ _ _ => trivial) _ _ hs
        split
        · exact hrecord s _ norm (by rw [List.length_cons]; omega) hs
        · exact hs
  | succ level ih =>
      unfold descend
      split
      · exact hs
      · refine visitShells_keeps (T := fun _ => True) hcount (fun x norm s _ hs => ?_)
          (fun _ _ _ => trivial) _ _ hs
        exact ih (by rw [List.length_cons]; omega) _ _ hs

/-- Numbers whose integers tell whether they are zero: what a walk tries around a rounded centre is
cut to zero only if it is zero. -/
class TellsZero (α : Type) [Scalar α] : Prop where
  equal_zero : ∀ (c : α) (signFree : Bool) (t : Nat),
    ∀ x ∈ shell (Scalar.round c) (if Scalar.round c ≤ c then 1 else -1) signFree t,
      Scalar.toWord x = 0 → Scalar.equal x 0 = true

theorem exists_nonzero_cons {later : List Int} {signFree : Bool}
    (hfree : signFree = false → ∃ y ∈ later, y ≠ 0) {x : α}
    (hx : Scalar.toWord x = 0 → Scalar.equal x 0 = true)
    (hnot : (signFree && Scalar.equal x 0) = false) : ∃ y ∈ Scalar.toWord x :: later, y ≠ 0 := by
  by_cases hzero : Scalar.toWord x = 0
  · rw [hx hzero, Bool.and_true] at hnot
    obtain ⟨y, hy, hne⟩ := hfree hnot
    exact ⟨y, List.mem_cons_of_mem _ hy, hne⟩
  · exact ⟨_, List.mem_cons_self, hzero⟩

/-- The walk records no zero vector: once the sign is no longer free, a later coefficient is not
zero. -/
theorem descend_keeps_nonzero [TellsZero α] {p : SearchLimits α} (L : LatticeBasis α n m)
    (start level : Nat) {later : List Int} (above : α) {signFree : Bool}
    (hfree : signFree = false → ∃ x ∈ later, x ≠ 0) {s : State α}
    (hs : ∀ c ∈ s.found, ∃ x ∈ c.coefficients, x ≠ 0) :
    ∀ c ∈ (descend p L start level later above signFree s).found, ∃ x ∈ c.coefficients, x ≠ 0 := by
  induction level generalizing later above signFree s with
  | zero =>
      unfold descend
      split
      · exact hs
      · refine visitShells_keeps (P := fun s => ∀ c ∈ s.found, ∃ x ∈ c.coefficients, x ≠ 0)
          (fun _ _ hs => hs) (fun x norm s hx hs => ?_) (TellsZero.equal_zero _ signFree) _ _ hs
        split
        · rename_i hrecord
          intro d hd
          rcases List.mem_cons.mp (List.mem_of_mem_take hd) with rfl | hd
          · exact exists_nonzero_cons hfree hx hrecord.1
          · exact hs d hd
        · exact hs
  | succ level ih =>
      unfold descend
      split
      · exact hs
      · refine visitShells_keeps (P := fun s => ∀ c ∈ s.found, ∃ x ∈ c.coefficients, x ≠ 0)
          (fun _ _ hs => hs) (fun x norm s hx hs => ?_) (TellsZero.equal_zero _ signFree) _ _ hs
        exact ih norm (exists_nonzero_cons hfree hx) hs

end Enumeration

namespace LatticeBasis

/-- An enumeration with valid limits of a block of the basis reports what the walk has found. -/
theorem enumerate_eq_ok (L : LatticeBasis α n m) {p : SearchLimits α} {start stop : Nat}
    (radius : α) (hp : p.validate = .ok ()) (hstart : start < stop) (hstop : stop ≤ n) :
    let s := Enumeration.descend p L start (stop - start - 1) [] 0 true ⟨radius, [], 0⟩
    L.enumerate p start stop radius =
      .ok ⟨s.found.reverse, s.nodes, decide (p.maxNodes ≤ s.nodes)⟩ := by
  unfold enumerate
  rw [hp]
  exact if_neg (by omega)

/-- An enumeration with valid limits of a block of the basis succeeds, and the vectors that it
finds have a coefficient for each row of the block. -/
theorem exists_enumerate_block (L : LatticeBasis α n m) {p : SearchLimits α} {start stop : Nat}
    (radius : α) (hp : p.validate = .ok ()) (hstart : start < stop) (hstop : stop ≤ n) :
    ∃ f, L.enumerate p start stop radius = .ok f ∧
      ∀ c ∈ f.candidates, c.coefficients.length = stop - start := by
  let s := Enumeration.descend p L start (stop - start - 1) [] 0 true ⟨radius, [], 0⟩
  have hfound : ∀ c ∈ s.found, c.coefficients.length = stop - start := by
    refine Enumeration.descend_keeps (k := stop - start)
      (P := fun s => ∀ c ∈ s.found, c.coefficients.length = stop - start)
      (fun _ _ hs => hs) (fun s c norm hc hs => ?_) L start ?_ 0 true (by simp)
    · intro d hd
      rcases List.mem_cons.mp (List.mem_of_mem_take hd) with rfl | hd
      · exact hc
      · exact hs d hd
    · rw [List.length_nil]
      omega
  exact ⟨_, L.enumerate_eq_ok radius hp hstart hstop,
    fun c hc => hfound c (List.mem_reverse.mp hc)⟩

/-- What an enumeration that succeeds was asked for: a block of the basis, with valid limits. -/
theorem block_of_enumerate {L : LatticeBasis α n m} {p : SearchLimits α} {start stop : Nat}
    {radius : α} {f : Findings α} (h : L.enumerate p start stop radius = .ok f) :
    p.validate = .ok () ∧ start < stop ∧ stop ≤ n := by
  obtain ⟨_, hp, hblock⟩ := bind_eq_ok.mp h
  obtain ⟨hrows, -⟩ := guard_eq_ok.mp hblock
  exact ⟨hp, by omega⟩

theorem nonzero_of_enumerate [Enumeration.TellsZero α] {L : LatticeBasis α n m}
    {p : SearchLimits α} {start stop : Nat} {radius : α} {f : Findings α}
    (h : L.enumerate p start stop radius = .ok f) :
    ∀ c ∈ f.candidates, ∃ x ∈ c.coefficients, x ≠ 0 := by
  obtain ⟨hp, hstart, hstop⟩ := block_of_enumerate h
  cases (L.enumerate_eq_ok radius hp hstart hstop).symm.trans h
  have hfree : true = false → ∃ x ∈ ([] : List Int), x ≠ 0 := nofun
  have hfound := Enumeration.descend_keeps_nonzero (p := p) (s := ⟨radius, [], 0⟩) L start
    (stop - start - 1) 0 hfree (by simp)
  exact fun c hc => hfound c (List.mem_reverse.mp hc)

theorem length_coefficients_of_enumerate {L : LatticeBasis α n m} {p : SearchLimits α}
    {start stop : Nat} {radius : α} {f : Findings α}
    (h : L.enumerate p start stop radius = .ok f) :
    ∀ c ∈ f.candidates, c.coefficients.length = stop - start := by
  obtain ⟨hp, hstart, hstop⟩ := block_of_enumerate h
  obtain ⟨f', hf', hlength⟩ := L.exists_enumerate_block radius hp hstart hstop
  cases hf'.symm.trans h
  exact hlength

end LatticeBasis

end EmbeddingAttack
