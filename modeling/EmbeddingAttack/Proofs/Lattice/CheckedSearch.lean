import EmbeddingAttack.Proofs.Lattice.CheckedBasis
import EmbeddingAttack.Proofs.Lattice.EnumerationWalk
import EmbeddingAttack.Proofs.Lattice.Refusals

/-!
# Checked access in a search

The search of a window with every entry of the basis, every norm of a lift and every part of its
coefficients looked up, so that an index beyond the end is a failure.  A window within the basis
meets none, whatever its limits, its goal and the cached data are.
-/

namespace EmbeddingAttack

variable {α : Type} [Scalar α] {n m : Nat}

/-- The failure is about the place in the basis at which an operation was to work. -/
def Failure.IsMisplaced : Failure α → Prop
  | .parameters (.searchWindow ..) => True
  | .parameters (.enumerationBlock ..) => True
  | .dimensions .. => True
  | .outOfRange => True
  | _ => False

namespace Enumeration

/-- Takes off the share of the rows from `i` on. -/
def tryCenter (L : LatticeBasis α n m) (start level : Nat) :
    (i : Nat) → List Int → α → Except (Failure α) α
  | _, [], c => return c
  | i, x :: xs, c => do
    tryCenter L start level (i + 1) xs (c - (x : α) * (← L.tryCoefficient i (start + level)))

def tryVisitShell (p : SearchLimits α) (level : Level α)
    (visit : α → α → State α → Except (Failure α) (State α)) :
    List α → Bool → State α → Except (Failure α) (Bool × State α)
  | [], inside, s => return (inside, s)
  | x :: xs, inside, s => do
    let difference := x - level.center
    let partialNorm := level.above + difference * difference * level.length
    if s.radius ≤ partialNorm then tryVisitShell p level visit xs inside s
    else
      let s ← visit x partialNorm { s with nodes := s.nodes + 1 }
      if p.maxNodes ≤ s.nodes then return (false, s) else tryVisitShell p level visit xs true s

def tryVisitShells (p : SearchLimits α) (level : Level α)
    (visit : α → α → State α → Except (Failure α) (State α)) (x direction : α) :
    (budget t : Nat) → State α → Except (Failure α) (State α)
  | 0, _, s => return s
  | budget + 1, t, s => do
    match ← tryVisitShell p level visit (shell x direction level.signFree t) false s with
    | (true, s) => tryVisitShells p level visit x direction budget (t + 1) s
    | (false, s) => return s

def tryDescend (p : SearchLimits α) (L : LatticeBasis α n m) (start : Nat) :
    (level : Nat) → (later : List Int) → (above : α) → (signFree : Bool) → State α →
      Except (Failure α) (State α)
  | 0, later, above, signFree, s =>
    if p.maxNodes ≤ s.nodes then return s
    else do
      let c ← tryCenter L start 0 (start + 0 + 1) later 0
      let x := Scalar.round c
      tryVisitShells p ⟨c, ← L.tryLength start, above, signFree⟩
        (fun x norm s =>
          if (signFree && Scalar.equal x 0) = false ∧ 0 < norm then
            pure (s.record p (Scalar.toWord x :: later) norm)
          else pure s)
        x (if x ≤ c then 1 else -1) (p.maxNodes - s.nodes) 0 s
  | level + 1, later, above, signFree, s =>
    if p.maxNodes ≤ s.nodes then return s
    else do
      let c ← tryCenter L start (level + 1) (start + (level + 1) + 1) later 0
      let x := Scalar.round c
      tryVisitShells p ⟨c, ← L.tryLength (start + (level + 1)), above, signFree⟩
        (fun x norm s => tryDescend p L start level (Scalar.toWord x :: later) norm
          (signFree && Scalar.equal x 0) s)
        x (if x ≤ c then 1 else -1) (p.maxNodes - s.nodes) 0 s

theorem tryCenter_eq (L : LatticeBasis α n m) {start level i : Nat} {later : List Int}
    (hlevel : start + level < n) (hlater : i + later.length ≤ n) (c : α) :
    tryCenter L start level i later c = .ok (center.go L start level i later c) := by
  induction later generalizing i c with
  | nil => rfl
  | cons x xs ih =>
      rw [List.length_cons] at hlater
      unfold tryCenter
      exact bind_eq_ok.mpr ⟨_, L.tryCoefficient_of_lt (by omega) hlevel, ih (by omega) _⟩

section Shells

variable {p : SearchLimits α} {level : Level α} {visit : α → α → State α → State α}
  {tryVisit : α → α → State α → Except (Failure α) (State α)}
  (hvisit : ∀ x norm s, tryVisit x norm s = .ok (visit x norm s))

include hvisit

theorem tryVisitShell_eq (xs : List α) (inside : Bool) (s : State α) :
    tryVisitShell p level tryVisit xs inside s = .ok (visitShell p level visit xs inside s) := by
  induction xs generalizing inside s with
  | nil => rfl
  | cons x xs ih =>
      unfold tryVisitShell visitShell
      dsimp only
      split
      · exact ih inside s
      · refine bind_eq_ok.mpr ⟨_, hvisit _ _ _, ?_⟩
        split
        · rfl
        · exact ih true _

theorem tryVisitShells_eq (x direction : α) (budget t : Nat) (s : State α) :
    tryVisitShells p level tryVisit x direction budget t s =
      .ok (visitShells p level visit x direction budget t s) := by
  induction budget generalizing t s with
  | zero => rfl
  | succ budget ih =>
      unfold tryVisitShells visitShells
      refine bind_eq_ok.mpr ⟨_, tryVisitShell_eq hvisit _ _ _, ?_⟩
      generalize visitShell p level visit (shell x direction level.signFree t) false s = result
      split
      · exact ih _ _
      · rfl

end Shells

/-- The walk stays in its block: a level and the coefficients above it make up the whole of it. -/
theorem tryDescend_eq (p : SearchLimits α) (L : LatticeBasis α n m) {start level : Nat}
    {later : List Int} (hblock : start + level + 1 + later.length ≤ n) (above : α)
    (signFree : Bool) (s : State α) : tryDescend p L start level later above signFree s =
      .ok (descend p L start level later above signFree s) := by
  induction level generalizing later above signFree s with
  | zero =>
      unfold tryDescend descend
      split
      · rfl
      · refine bind_eq_ok.mpr ⟨_, tryCenter_eq L (by omega) (by omega) 0, ?_⟩
        refine bind_eq_ok.mpr ⟨_, L.tryLength_of_lt (by omega), ?_⟩
        refine tryVisitShells_eq (fun x norm s => ?_) _ _ _ _ _
        split <;> rfl
  | succ level ih =>
      unfold tryDescend descend
      split
      · rfl
      · refine bind_eq_ok.mpr ⟨_, tryCenter_eq L (by omega) (by omega) 0, ?_⟩
        refine bind_eq_ok.mpr ⟨_, L.tryLength_of_lt (by omega), ?_⟩
        refine tryVisitShells_eq (fun x norm s => ?_) _ _ _ _ _
        exact ih (by rw [List.length_cons]; omega) _ _ _

end Enumeration

theorem mapM_eq_ok_map {ε β γ : Type} {f : β → Except ε γ} {g : β → γ} {xs : List β}
    (h : ∀ x ∈ xs, f x = .ok (g x)) : xs.mapM f = .ok (xs.map g) := by
  induction xs with
  | nil => rfl
  | cons x xs ih =>
      obtain ⟨hx, hxs⟩ := List.forall_mem_cons.mp h
      rw [List.mapM_cons, hx, ih hxs]
      rfl

namespace LatticeBasis

def tryEnumerate (L : LatticeBasis α n m) (p : SearchLimits α) (start stop : Nat) (radius : α) :
    Except (Failure α) (Findings α) := do
  p.validate
  if stop ≤ start ∨ n < stop then
    throw (.parameters (.enumerationBlock start stop n))
  let s ← Enumeration.tryDescend p L start (stop - start - 1) [] 0 true ⟨radius, [], 0⟩
  return ⟨s.found.reverse, s.nodes, decide (p.maxNodes ≤ s.nodes)⟩

theorem tryEnumerate_eq (L : LatticeBasis α n m) (p : SearchLimits α) (start stop : Nat)
    (radius : α) : L.tryEnumerate p start stop radius = L.enumerate p start stop radius := by
  unfold tryEnumerate enumerate
  refine bind_congr fun _ => ?_
  split
  · rfl
  · rw [Enumeration.tryDescend_eq p L (by simp only [List.length_nil]; omega)]
    rfl

/-! ## Lifting -/

def tryOffset (L : LatticeBasis α n m) (j : Nat) :
    (i : Nat) → List Int → α → Except (Failure α) α
  | _, [], y => return y
  | i, x :: xs, y => do
    if x = 0 then tryOffset L j (i + 1) xs y
    else tryOffset L j (i + 1) xs (y + (x : α) * (← L.tryCoefficient i j))

def tryLiftOver (L : LatticeBasis α n m) :
    (j : Nat) → (coefficients : List Int) → (norm : α) → (norms : List α) →
      Except (Failure α) (Lift α)
  | 0, coefficients, norm, norms => return ⟨coefficients, norm :: norms⟩
  | j + 1, coefficients, norm, norms => do
    let y ← L.tryOffset j (j + 1) coefficients 0
    let x := Scalar.round (-y)
    let residual := x + y
    L.tryLiftOver j (Scalar.toWord x :: coefficients)
      (norm + residual * residual * (← L.tryLength j)) (norm :: norms)

theorem tryOffset_eq (L : LatticeBasis α n m) {i j : Nat} {coefficients : List Int} (hj : j < n)
    (hblock : i + coefficients.length ≤ n) (y : α) :
    L.tryOffset j i coefficients y = .ok (L.offset j i coefficients y) := by
  induction coefficients generalizing i y with
  | nil => rfl
  | cons x xs ih =>
      rw [List.length_cons] at hblock
      unfold tryOffset offset
      split
      · exact ih (by omega) y
      · exact bind_eq_ok.mpr ⟨_, L.tryCoefficient_of_lt (by omega) hj, ih (by omega) _⟩

theorem tryLiftOver_eq (L : LatticeBasis α n m) {j : Nat} {coefficients : List Int}
    (hblock : j + coefficients.length ≤ n) (norm : α) (norms : List α) :
    L.tryLiftOver j coefficients norm norms = .ok (L.liftOver j coefficients norm norms) := by
  induction j generalizing coefficients norm norms with
  | zero => rfl
  | succ j ih =>
      unfold tryLiftOver liftOver
      refine bind_eq_ok.mpr ⟨_, L.tryOffset_eq (by omega) hblock 0, ?_⟩
      refine bind_eq_ok.mpr ⟨_, L.tryLength_of_lt (by omega), ?_⟩
      exact ih (by rw [List.length_cons]; omega) _ _

/-! ## The search -/

/-- The entries from `start` to before `stop`, which must be there. -/
def slice {β : Type} (xs : List β) (start stop : Nat) : Except (Failure α) (List β) :=
  if start ≤ stop ∧ stop ≤ xs.length then return (xs.take stop).drop start
  else throw .outOfRange

omit [Scalar α] in
theorem slice_length {β : Type} {xs : List β} {start stop : Nat} (hlength : xs.length = stop)
    (hstart : start ≤ stop) :
    (slice xs start stop : Except (Failure α) (List β)) = .ok (xs.drop start) := by
  subst hlength
  rw [slice, if_pos ⟨hstart, le_rfl⟩, List.take_length]
  rfl

def tryShortestAt (j : Nat) (lifts : List (Lift α)) :
    Except (Failure α) (Option (Lift α × α)) :=
  lifts.foldlM (fun best lift => do
    let norm ← fetch lift.norms[j]?
    match best with
    | none => return some (lift, norm)
    | some (_, least) => return if norm < least then some (lift, norm) else best) none

theorem tryShortestAt_eq {j : Nat} {lifts : List (Lift α)}
    (h : ∀ lift ∈ lifts, j < lift.norms.length) :
    tryShortestAt j lifts = .ok (shortestAt j lifts) := by
  unfold tryShortestAt shortestAt
  generalize (none : Option (Lift α × α)) = best
  induction lifts generalizing best with
  | nil => rfl
  | cons lift rest ih =>
      obtain ⟨hlift, hrest⟩ := List.forall_mem_cons.mp h
      rw [List.foldlM_cons, List.foldl_cons]
      refine bind_eq_ok.mpr ⟨_, ?_, ih hrest _⟩
      refine bind_eq_ok.mpr ⟨lift.norms.getD j 0, ?_, ?_⟩
      · rw [List.getD_eq_getElem?_getD]
        exact fetch_getD (by simp [hlift]) 0
      · cases best <;> rfl

/-- The search of a window with every look-up checked. -/
def trySearchWindow (p : SearchLimits α) (first window free liftTo : Nat) (goal : α) :
    Reduction α n m (WindowFindings α) := do
  let stop := first + window
  if n < stop ∨ first < liftTo ∨ window < free + 2 then
    throw (.parameters (.searchWindow first window free liftTo n))
  let start := first + free
  let L ← get
  let length ← ofExcept (L.tryLength start)
  let findings ← ofExcept (L.tryEnumerate p start stop (length * (1 + 1e-9)))
  let lifts ← ofExcept (findings.candidates.mapM fun c =>
    L.tryLiftOver start c.coefficients c.normSquared [])
  let front ← ofExcept (tryShortestAt 0 lifts)
  let below ← ofExcept (tryShortestAt liftTo lifts)
  let lengthFront ← ofExcept (L.tryLength 0)
  let lengthBelow ← ofExcept (L.tryLength liftTo)
  let insertedFirst ←
    match front with
    | some (lift, norm) =>
      if 0.5 < norm ∧ norm < lengthFront * (1 - 1e-9) ∧ lift.coefficients.any (· ≠ 0) then
        tryInsertCombination 0 (← ofExcept (slice lift.coefficients 0 stop))
        pure true
      else pure false
    | none => pure false
  match below with
  | none => return ⟨none, if insertedFirst then some 0 else none, false, findings.nodes⟩
  | some (lift, norm) =>
    let reached := decide (norm ≤ goal)
    if insertedFirst then
      return ⟨some norm, some 0, reached, findings.nodes⟩
    else if norm < lengthBelow * (1 - 1e-9) then
      tryInsertCombination liftTo (← ofExcept (slice lift.coefficients liftTo stop))
      return ⟨some norm, some liftTo, reached, findings.nodes⟩
    else
      return ⟨some norm, none, reached, findings.nodes⟩

/-- Coefficients of rows of the basis can be lifted. -/
theorem tryLifts_eq (L : LatticeBasis α n m) {start stop : Nat} {candidates : List (Candidate α)}
    (hstart : start ≤ stop) (hstop : stop ≤ n)
    (hlength : ∀ c ∈ candidates, c.coefficients.length = stop - start) :
    (candidates.mapM fun c => L.tryLiftOver start c.coefficients c.normSquared []) =
      .ok (candidates.map fun c => L.nearestPlaneLift start c.coefficients c.normSquared) := by
  refine mapM_eq_ok_map fun c hc => L.tryLiftOver_eq ?_ _ _
  rw [hlength c hc]
  omega

/-- Where the coefficients found are those of the rows from `start` to before `stop`, a lift has a
coefficient for each row before `stop`, and a norm at each index up to `start`. -/
theorem length_lifts (L : LatticeBasis α n m) {start stop : Nat} {candidates : List (Candidate α)}
    (hstart : start ≤ stop) (hlength : ∀ c ∈ candidates, c.coefficients.length = stop - start) :
    ∀ lift ∈ candidates.map fun c => L.nearestPlaneLift start c.coefficients c.normSquared,
      lift.coefficients.length = stop ∧ lift.norms.length = start + 1 := by
  intro lift hlift
  obtain ⟨c, hc, rfl⟩ := List.mem_map.mp hlift
  refine ⟨?_, L.length_norms_liftOver start c.coefficients c.normSquared []⟩
  rw [length_nearestPlaneLift, hlength c hc]
  omega

/-- A search looks up nothing that is not there: what its guard lets through lies within the
basis. -/
theorem trySearchWindow_eq (p : SearchLimits α) (first window free liftTo : Nat) (goal : α) :
    (trySearchWindow p first window free liftTo goal : Reduction α n m (WindowFindings α)) =
      searchWindow p first window free liftTo goal := by
  unfold trySearchWindow searchWindow
  dsimp only
  split
  · rfl
  rename_i hfits
  refine bind_congr fun L => ?_
  rw [L.tryLength_of_lt (by omega), ofExcept_ok_bind, L.tryEnumerate_eq]
  generalize hresult : L.enumerate p (first + free) (first + window) _ = result
  cases result with
  | error e => rfl
  | ok f =>
      have hlength := length_coefficients_of_enumerate hresult
      have hlifts := L.length_lifts (by omega) hlength
      rw [ofExcept_ok_bind, ofExcept_ok_bind, L.tryLifts_eq (by omega) (by omega) hlength,
        ofExcept_ok_bind]
      generalize (f.candidates.map fun c =>
        L.nearestPlaneLift (first + free) c.coefficients c.normSquared) = lifts at hlifts ⊢
      have hnorms (j : Nat) (hj : j ≤ first) : ∀ lift ∈ lifts, j < lift.norms.length := by
        intro lift hlift
        have := (hlifts lift hlift).2
        omega
      have hslice (j : Nat) (hj : j ≤ first) {lift : Lift α} {norm : α}
          (hlift : shortestAt j lifts = some (lift, norm)) :
          (slice lift.coefficients j (first + window) : Except (Failure α) _) =
            .ok (lift.coefficients.drop j) :=
        slice_length (hlifts lift (mem_of_shortestAt hlift).1).1 (by omega)
      rw [tryShortestAt_eq (hnorms 0 (Nat.zero_le _)), ofExcept_ok_bind,
        tryShortestAt_eq (hnorms liftTo (by omega)), ofExcept_ok_bind,
        L.tryLength_of_lt (by omega), ofExcept_ok_bind, L.tryLength_of_lt (by omega),
        ofExcept_ok_bind]
      rcases hfront : shortestAt 0 lifts with _ | ⟨front, frontNorm⟩ <;>
        rcases hbelow : shortestAt liftTo lifts with _ | ⟨below, belowNorm⟩
      · rfl
      · simp only [hslice _ (by omega) hbelow, ofExcept_ok_bind, tryInsertCombination_eq]
      · simp only [hslice _ (Nat.zero_le _) hfront, ofExcept_ok_bind, tryInsertCombination_eq,
          List.drop_zero]
      · simp only [hslice _ (Nat.zero_le _) hfront, hslice _ (by omega) hbelow, ofExcept_ok_bind,
          tryInsertCombination_eq, List.drop_zero]

/-! ## Windows within the basis -/

theorem not_isMisplaced_validate (p : SearchLimits α) :
    FailsOnly (fun e => ¬ e.IsMisplaced) p.validate := by
  unfold SearchLimits.validate
  refine FailsOnly.guard (fun _ h => h) <| FailsOnly.guard (fun _ h => h) ?_
  exact FailsOnly.guard (fun _ h => h) <| FailsOnly.pure _

theorem not_isMisplaced_enumerate (L : LatticeBasis α n m) (p : SearchLimits α) {start stop : Nat}
    (radius : α) (hstart : start < stop) (hstop : stop ≤ n) :
    FailsOnly (fun e => ¬ e.IsMisplaced) (L.enumerate p start stop radius) := by
  unfold enumerate
  refine (not_isMisplaced_validate p).bind fun _ _ => ?_
  exact FailsOnly.guard (fun hblock => by omega) <| FailsOnly.pure _

theorem not_isMisplaced_insertCombination {start : Nat} {coefficients : List Int}
    (hstop : start + coefficients.length ≤ n) :
    Throws (fun _ => True) (insertCombination start coefficients : Reduction α n m Unit)
      fun e _ => ¬ e.IsMisplaced := by
  unfold insertCombination
  refine Throws.guard (fun hshort => absurd hshort (not_lt.mpr hstop)) fun _ => ?_
  refine Throws.guard (fun _ _ _ h => h) fun _ => Throws.guard (fun _ _ _ h => h) fun _ => ?_
  refine (Throws.modify _).bind_of_forall fun _ => ?_
  refine throws_orthogonalize.mono (fun _ h => h) ?_
  rintro e L ⟨fault, rfl⟩ hmisplaced
  exact hmisplaced

/-- A window within the basis that leaves two rows to enumerate is not refused for its place,
whatever the limits, the goal and the cached data are. -/
theorem not_isMisplaced_searchWindow (p : SearchLimits α) {first window free liftTo : Nat}
    (goal : α) (hstop : first + window ≤ n) (hliftTo : liftTo ≤ first)
    (hfree : free + 2 ≤ window) :
    Throws (fun _ => True)
      (searchWindow p first window free liftTo goal : Reduction α n m (WindowFindings α))
      fun e _ => ¬ e.IsMisplaced := by
  unfold searchWindow
  refine Throws.guard (fun hrefused => by omega) fun _ => Throws.get_bind fun L _ => ?_
  refine Throws.of_forall <| Throws.ofExcept_bind (fun e he _ _ => ?_) fun f hf => ?_
  · exact L.not_isMisplaced_enumerate p _ (by omega) hstop e he
  have hlifts := L.length_lifts (by omega) (length_coefficients_of_enumerate hf)
  extract_lets lifts rest
  have hinsert (j : Nat) (hj : j ≤ first) {lift : Lift α} {norm : α}
      (hlift : shortestAt j lifts = some (lift, norm)) :
      Throws (fun _ => True) (insertCombination j (lift.coefficients.drop j) : Reduction α n m Unit)
        fun e _ => ¬ e.IsMisplaced := by
    apply not_isMisplaced_insertCombination
    rw [List.length_drop, (hlifts lift (mem_of_shortestAt hlift).1).1]
    omega
  have hrest (inserted : Bool) : Throws (fun _ => True) (rest inserted)
      fun e _ => ¬ e.IsMisplaced := by
    dsimp only [rest]
    split
    · exact Throws.pure _
    · rename_i lift norm hbelow
      split
      · exact Throws.pure _
      · split
        · exact (hinsert liftTo hliftTo hbelow).bind_of_forall fun _ => Throws.pure _
        · exact Throws.pure _
  split
  · rename_i lift norm hfront
    split
    · exact (hinsert 0 (Nat.zero_le _) hfront).bind_of_forall fun _ =>
        (Throws.pure true).bind_of_forall hrest
    · exact (Throws.pure false).bind_of_forall hrest
  · exact (Throws.pure false).bind_of_forall hrest

end LatticeBasis

end EmbeddingAttack
