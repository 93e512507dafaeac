import EmbeddingAttack.Proofs.Lattice.BlockImprovement
import EmbeddingAttack.Proofs.Lattice.Refusals

/-!
# The search of a window

In exact arithmetic.  Every vector that the enumeration finds is lifted, and two of the lifts are
kept: the shortest at the front of the basis and the shortest at the index searched for.  At most
one of them is inserted, and only where it shortens the row that stands there by the tolerance; so
an insertion always makes progress, and a search that inserts nothing has found no lift that would.
-/

namespace EmbeddingAttack

variable {n m : Nat}

open IntMatrix

namespace LatticeBasis

/-! ## The shortest lift -/

theorem shortestAt_concat {α : Type} [Scalar α] (j : Nat) (lifts : List (Lift α)) (lift : Lift α) :
    shortestAt j (lifts ++ [lift]) =
      match shortestAt j lifts with
      | none => some (lift, lift.norms.getD j 0)
      | some (best, least) =>
        if lift.norms.getD j 0 < least then some (lift, lift.norms.getD j 0)
        else some (best, least) := by
  rw [shortestAt, List.foldl_concat, ← shortestAt]
  cases shortestAt j lifts <;> rfl

theorem shortestAt_eq_none_iff {α : Type} [Scalar α] {j : Nat} {lifts : List (Lift α)} :
    shortestAt j lifts = none ↔ lifts = [] := by
  cases lifts using List.reverseRecOn with
  | nil => simp [shortestAt]
  | append_singleton lifts last =>
      rw [shortestAt_concat]
      cases shortestAt j lifts with
      | none => simp
      | some best =>
          dsimp only
          split <;> simp

theorem le_of_shortestAt {j : Nat} {lifts : List (Lift ℝ)} {best : Lift ℝ} {least : ℝ}
    (h : shortestAt j lifts = some (best, least)) :
    ∀ lift ∈ lifts, least ≤ lift.norms.getD j 0 := by
  induction lifts using List.reverseRecOn generalizing best least with
  | nil => nofun
  | append_singleton lifts last ih =>
      rw [shortestAt_concat] at h
      rw [List.forall_mem_append, List.forall_mem_singleton]
      cases hearlier : shortestAt j lifts with
      | none =>
          rw [hearlier] at h
          cases h
          rw [shortestAt_eq_none_iff.mp hearlier]
          exact ⟨nofun, le_rfl⟩
      | some earlier =>
          rw [hearlier] at h
          have hle := ih hearlier
          dsimp only at h
          split at h
          · rename_i hlt
            cases h
            exact ⟨fun lift hlift => hlt.le.trans (hle lift hlift), le_rfl⟩
          · rename_i hnot
            cases h
            exact ⟨hle, not_lt.mp hnot⟩

/-! ## Lifts and their insertion -/

/-- A lift over the rows before `start` of a vector of the block that ends before `stop`, with the
squared lengths of its projections. -/
structure Lifted (L : LatticeBasis ℝ n m) (start stop : Nat) (lift : Lift ℝ) : Prop where
  count : lift.coefficients.length = stop
  norm : ∀ j ≤ start, lift.norms.getD j 0 = L.blockNorm j (lift.coefficients.drop j)
  nonzero : ∀ j ≤ start, ∃ x ∈ lift.coefficients.drop j, x ≠ 0

/-- Between `L` and `L'` the row `j` has become shorter by the tolerance.  The rows before it and
those from `stop` on are the same, and so are the lengths before it. -/
structure ShortenedAt (L : LatticeBasis ℝ n m) (stop j : Nat) (L' : LatticeBasis ℝ n m) : Prop where
  rows : ∀ i < n, i < j ∨ stop ≤ i → L'.basis.intRow i = L.basis.intRow i
  lengths : ∀ i < j, L'.length i = L.length i
  shorter : L'.length j < L.length j * (1 - 1e-9)

section Lifts

variable {L : LatticeBasis ℝ n m} {p : SearchLimits ℝ} {start stop : Nat}

theorem lifted_of_enumerate (hL : L.IsCurrent) {radius : ℝ} {found : Findings ℝ}
    (hf : L.enumerate p start stop radius = .ok found) : ∀ c ∈ found.candidates,
      L.Lifted start stop (L.nearestPlaneLift start c.coefficients c.normSquared) := by
  obtain ⟨-, hstart, hstop, hfound⟩ := found_of_enumerate hL hf
  intro c hc
  obtain ⟨hlength, hnonzero, hnorm, -⟩ := hfound c hc
  have hlift (j : Nat) (hj : j ≤ start) := L.norm_nearestPlaneLift c.coefficients hj
  rw [← hnorm] at hlift
  exact {
    count := by
      rw [length_nearestPlaneLift, hlength]
      omega
    norm := hlift
    nonzero := fun j hj => (L.valid_lift c.normSquared hstop hj hstart hlength hnonzero).2 }

theorem exists_insert_lift (hL : L.IsCurrent) {lift : Lift ℝ} (h : L.Lifted start stop lift)
    (hstart : start < stop) (hstop : stop ≤ n) {j : Nat} (hj : j ≤ start)
    (hshorter : lift.norms.getD j 0 < L.length j * (1 - 1e-9)) :
    ∃ L', insertCombination j (lift.coefficients.drop j) L = .ok () L' ∧
      L.ShortenedAt stop j L' := by
  have hend : j + (lift.coefficients.drop j).length = stop := by
    rw [List.length_drop, h.count]
    omega
  obtain ⟨L', hinsert⟩ := exists_insertCombination hL (hend.trans_le hstop) (h.nonzero j hj)
  have hinserts := inserts_of_insertCombination hL hinsert
  refine ⟨L', hinsert, ?_⟩
  exact {
    rows := hend ▸ hinserts.transforms.outside
    lengths := fun i hi => hinserts.kept i (by omega) (.inl hi)
    shorter := by
      rw [h.norm j hj] at hshorter
      exact (hinserts.length_le (h.nonzero j hj) (by omega)).trans_lt hshorter }

theorem isLeast_of_shortestAt {lifts : List (Lift ℝ)}
    (hlifted : ∀ lift ∈ lifts, L.Lifted start stop lift) {j : Nat} (hj : j ≤ start) {best : Lift ℝ}
    {least : ℝ} (h : shortestAt j lifts = some (best, least)) :
    IsLeast {q | ∃ lift ∈ lifts, L.blockNorm j (lift.coefficients.drop j) = q} least := by
  obtain ⟨hmem, hleast⟩ := mem_of_shortestAt h
  refine ⟨⟨best, hmem, ?_⟩, ?_⟩
  · rw [hleast, (hlifted best hmem).norm j hj]
  · rintro _ ⟨lift, hlift, rfl⟩
    rw [← (hlifted lift hlift).norm j hj]
    exact le_of_shortestAt h lift hlift

/-- The squared length of a vector of the lattice, other than zero, is at least one. -/
theorem one_le_blockNorm_zero (hL : L.IsCurrent) {c : List Int} (hlength : c.length ≤ n)
    (hc : ∃ x ∈ c, x ≠ 0) : 1 ≤ L.blockNorm 0 c := by
  have hpos : 0 < L.blockNorm 0 c :=
    blockNorm_pos (fun j hj => hL.gramSchmidt.positive _ (by omega)) hc
  have hsquare := hL.square_eq_blockNorm (show 0 + c.length ≤ n by omega)
    (Projects.self L.basis (L.basis.realCombination 0 c))
  have hint : L.basis.realCombination 0 c ⬝ᵥ L.basis.realCombination 0 c =
      ((L.basis.combination 0 c ⬝ᵥ L.basis.combination 0 c : ℤ) : ℝ) := by
    simp [realCombination, dotProduct]
  rw [← hsquare, hint] at hpos ⊢
  exact_mod_cast hpos

end Lifts

/-! ## Where a lift is inserted -/

/-- Where a search of the window that ends before `stop` inserts one of the lifts, and what that
leaves. -/
structure Placed (L : LatticeBasis ℝ n m) (stop liftTo : Nat) (lifts : List (Lift ℝ))
    (insertedAt : Option Nat) (L' : LatticeBasis ℝ n m) : Prop where
  place : insertedAt = none ∨ insertedAt = some 0 ∨ insertedAt = some liftTo
  unchanged : insertedAt = none → L' = L
  shortened : ∀ j, insertedAt = some j → L.ShortenedAt stop j L'
  front : (∃ lift ∈ lifts, L.blockNorm 0 lift.coefficients < L.length 0 * (1 - 1e-9)) →
    insertedAt = some 0
  exhausted : insertedAt = none → ∀ lift ∈ lifts,
    L.length liftTo * (1 - 1e-9) ≤ L.blockNorm liftTo (lift.coefficients.drop liftTo)

section Placed

variable {L L' : LatticeBasis ℝ n m} {stop liftTo : Nat} {lifts : List (Lift ℝ)}

theorem placed_front (h : L.ShortenedAt stop 0 L') : L.Placed stop liftTo lifts (some 0) L' where
  place := .inr (.inl rfl)
  unchanged := nofun
  shortened := by
    rintro _ ⟨⟩
    exact h
  front _ := rfl
  exhausted := nofun

theorem placed_liftTo
    (hfront : ∀ lift ∈ lifts, L.length 0 * (1 - 1e-9) ≤ L.blockNorm 0 lift.coefficients)
    (h : L.ShortenedAt stop liftTo L') : L.Placed stop liftTo lifts (some liftTo) L' where
  place := .inr (.inr rfl)
  unchanged := nofun
  shortened := by
    rintro _ ⟨⟩
    exact h
  front := fun ⟨lift, hlift, hlt⟩ => absurd hlt (not_lt.mpr (hfront lift hlift))
  exhausted := nofun

theorem placed_none
    (hfront : ∀ lift ∈ lifts, L.length 0 * (1 - 1e-9) ≤ L.blockNorm 0 lift.coefficients)
    (hliftTo : ∀ lift ∈ lifts,
      L.length liftTo * (1 - 1e-9) ≤ L.blockNorm liftTo (lift.coefficients.drop liftTo)) :
    L.Placed stop liftTo lifts none L where
  place := .inl rfl
  unchanged _ := rfl
  shortened := nofun
  front := fun ⟨lift, hlift, hlt⟩ => absurd hlt (not_lt.mpr (hfront lift hlift))
  exhausted _ := hliftTo

end Placed

/-! ## The search -/

/-- What a search reports and leaves. -/
structure WindowOutcome (L : LatticeBasis ℝ n m) (stop liftTo : Nat) (goal : ℝ)
    (lifts : List (Lift ℝ)) (f : WindowFindings ℝ) (L' : LatticeBasis ℝ n m) : Prop where
  placed : L.Placed stop liftTo lifts f.insertedAt L'
  best : lifts ≠ [] → ∃ norm, f.bestProjected = some norm ∧
    IsLeast {q | ∃ lift ∈ lifts, L.blockNorm liftTo (lift.coefficients.drop liftTo) = q} norm ∧
    (f.reachedGoal = true ↔ norm ≤ goal)

/-- The lifts have been tried at the front, and one has been inserted there or none is short
enough. -/
def FrontTried (L : LatticeBasis ℝ n m) (stop : Nat) (lifts : List (Lift ℝ)) (inserted : Bool)
    (L' : LatticeBasis ℝ n m) : Prop :=
  if inserted then L.ShortenedAt stop 0 L'
  else L' = L ∧ ∀ lift ∈ lifts, L.length 0 * (1 - 1e-9) ≤ L.blockNorm 0 lift.coefficients

/-- Where the shortest lift is not inserted at the front, no lift is short enough. -/
theorem front_of_shortestAt {L : LatticeBasis ℝ n m} (hL : L.IsCurrent) {start stop : Nat}
    (hstop : stop ≤ n) {lifts : List (Lift ℝ)}
    (hlifted : ∀ lift ∈ lifts, L.Lifted start stop lift) {best : Lift ℝ} {least : ℝ}
    (h : shortestAt 0 lifts = some (best, least))
    (hnot : ¬ (0.5 < least ∧ least < L.length 0 * (1 - 1e-9) ∧ best.coefficients.any (· ≠ 0))) :
    ∀ lift ∈ lifts, L.length 0 * (1 - 1e-9) ≤ L.blockNorm 0 lift.coefficients := by
  intro lift hlift
  by_contra hshort
  obtain ⟨hmem, hleast⟩ := mem_of_shortestAt h
  have hbest := hlifted best hmem
  have hnonzero := hbest.nonzero 0 (Nat.zero_le _)
  have hle : least ≤ L.blockNorm 0 lift.coefficients :=
    (isLeast_of_shortestAt hlifted (Nat.zero_le _) h).2 ⟨lift, hlift, rfl⟩
  have hone : 1 ≤ least := by
    rw [hleast, hbest.norm 0 (Nat.zero_le _)]
    exact one_le_blockNorm_zero hL (hbest.count.trans_le hstop) hnonzero
  refine hnot ⟨by norm_num; linarith, hle.trans_lt (not_le.mp hshort), ?_⟩
  simpa using hnonzero

theorem delivers_searchWindow {L : LatticeBasis ℝ n m} (hL : L.IsCurrent) {p : SearchLimits ℝ}
    {first window free liftTo : Nat} (goal : ℝ) {found : Findings ℝ} (hstop : first + window ≤ n)
    (hliftTo : liftTo ≤ first) (hfree : free + 2 ≤ window)
    (hf : L.enumerate p (first + free) (first + window)
      (L.length (first + free) * (1 + 1e-9)) = .ok found) :
    Delivers (· = L) (searchWindow p first window free liftTo goal) fun f L' =>
      f.nodes = found.nodes ∧ L.WindowOutcome (first + window) liftTo goal
        (found.candidates.map fun c =>
          L.nearestPlaneLift (first + free) c.coefficients c.normSquared) f L' := by
  have hlifted := List.forall_mem_map.mpr (lifted_of_enumerate hL hf)
  unfold searchWindow
  refine Delivers.guard (by omega) (Delivers.get_bind ?_)
  rintro L rfl
  refine Delivers.ofExcept_bind hf ?_
  extract_lets lifts rest
  have hstart : first + free < first + window := by omega
  -- What is done at the index searched for, after the lifts have been tried at the front.
  have hrest (inserted : Bool) : Delivers (FrontTried L (first + window) lifts inserted)
      (rest inserted) fun f L' => f.nodes = found.nodes ∧
        L.WindowOutcome (first + window) liftTo goal lifts f L' := by
    dsimp only [rest]
    cases hshortest : shortestAt liftTo lifts with
    | none =>
        have hempty : lifts = [] := shortestAt_eq_none_iff.mp hshortest
        refine Delivers.pure fun L' hL' => ⟨rfl, ?_, fun hne => absurd hempty hne⟩
        cases inserted with
        | true => exact placed_front hL'
        | false =>
            obtain ⟨rfl, hfront⟩ := hL'
            exact placed_none hfront (hempty ▸ nofun)
    | some best =>
        obtain ⟨lift, norm⟩ := best
        obtain ⟨hmem, hnorm⟩ := mem_of_shortestAt hshortest
        have hliftTo : liftTo ≤ first + free := by omega
        have hleast := isLeast_of_shortestAt hlifted hliftTo hshortest
        have hbest : lifts ≠ [] → ∃ least, some norm = some least ∧
            IsLeast {q | ∃ lift ∈ lifts, L.blockNorm liftTo (lift.coefficients.drop liftTo) = q}
              least ∧ (decide (norm ≤ goal) = true ↔ least ≤ goal) := fun _ =>
          ⟨norm, rfl, hleast, decide_eq_true_iff⟩
        dsimp only
        cases inserted with
        | true => exact Delivers.pure fun L' hL' => ⟨rfl, placed_front hL', hbest⟩
        | false =>
            rw [if_neg Bool.false_ne_true]
            split
            · rename_i hshorter
              obtain ⟨L', hinsert, hshortened⟩ := exists_insert_lift hL (hlifted lift hmem) hstart
                hstop hliftTo (hnorm ▸ hshorter)
              rintro K ⟨rfl, hfront⟩
              exact ⟨_, L', bind_of_ok hinsert, rfl, placed_liftTo hfront hshortened, hbest⟩
            · rename_i hlonger
              refine Delivers.pure ?_
              rintro L' ⟨rfl, hfront⟩
              refine ⟨rfl, placed_none hfront fun other hother => ?_, hbest⟩
              exact (not_lt.mp hlonger).trans (hleast.2 ⟨other, hother, rfl⟩)
  have hskip (hfront : ∀ lift ∈ lifts, L.length 0 * (1 - 1e-9) ≤ L.blockNorm 0 lift.coefficients) :
      Delivers (· = L) (pure false : Reduction ℝ n m Bool) (FrontTried L (first + window) lifts) :=
    Delivers.pure fun L' hL' => ⟨hL', hfront⟩
  cases hshortest : shortestAt 0 lifts with
  | none =>
      refine (hskip ?_).bind hrest
      rw [shortestAt_eq_none_iff.mp hshortest]
      nofun
  | some best =>
      obtain ⟨lift, norm⟩ := best
      obtain ⟨hmem, hnorm⟩ := mem_of_shortestAt hshortest
      dsimp only
      split
      · rename_i hshorter
        obtain ⟨L', hinsert, hshortened⟩ := exists_insert_lift hL (hlifted lift hmem) hstart hstop
          (Nat.zero_le _) (hnorm ▸ hshorter.2.1)
        refine Delivers.bind (Q := fun _ => L.ShortenedAt (first + window) 0) ?_ fun _ => ?_
        · rintro L rfl
          exact ⟨(), L', hinsert, hshortened⟩
        · have htrue : Delivers (L.ShortenedAt (first + window) 0)
              (pure true : Reduction ℝ n m Bool) (FrontTried L (first + window) lifts) :=
            Delivers.pure fun L' hL' => hL'
          exact htrue.bind hrest
      · rename_i hlonger
        exact (hskip (front_of_shortestAt hL hstop hlifted hshortest hlonger)).bind hrest

theorem valid_of_searchWindow {p : SearchLimits ℝ} {first window free liftTo : Nat} {goal : ℝ}
    {L L' : LatticeBasis ℝ n m} {f : WindowFindings ℝ}
    (hrun : searchWindow p first window free liftTo goal L = .ok f L') :
    first + window ≤ n ∧ liftTo ≤ first ∧ free + 2 ≤ window ∧
      ∃ found, L.enumerate p (first + free) (first + window)
        (L.length (first + free) * (1 + 1e-9)) = .ok found := by
  unfold searchWindow at hrun
  split at hrun
  · cases hrun
  rename_i hwindow
  obtain ⟨_, _, hget, hrun⟩ := exists_of_bind_ok hrun
  cases hget
  obtain ⟨found, _, hfound, -⟩ := exists_of_bind_ok hrun
  refine ⟨by omega, by omega, by omega, found, ?_⟩
  cases henumerate : L.enumerate p (first + free) (first + window)
      (L.length (first + free) * (1 + 1e-9)) with
  | ok found' =>
      rw [henumerate] at hfound
      cases hfound
      rfl
  | error e =>
      rw [henumerate] at hfound
      cases hfound

/-- The radius lets in the first row of the block itself, so that an enumeration that the node limit
does not end finds a vector. -/
theorem candidates_ne_nil {L : LatticeBasis ℝ n m} (hL : L.IsCurrent) {p : SearchLimits ℝ}
    {start stop : Nat} {found : Findings ℝ}
    (hf : L.enumerate p start stop (L.length start * (1 + 1e-9)) = .ok found)
    (htruncated : found.truncated = false) : found.candidates ≠ [] := by
  obtain ⟨hp, hstart, hstop, -⟩ := found_of_enumerate hL hf
  obtain ⟨f, hf', hreports⟩ := exists_enumerate_reports hL (L.length start * (1 + 1e-9)) hp hstart
    hstop
  rw [hf] at hf'
  cases hf'
  intro hempty
  have hnodes : found.nodes < p.maxNodes := by
    rw [hreports.truncated] at htruncated
    simpa using htruncated
  have hnone : found.best? = none := by
    rw [Findings.best?, hempty, List.getLast?_nil]
  have hle := hreports.absent hnodes hnone _
    (hL.length_mem_projectedSquares (by omega) (show 0 < stop - start by omega))
  have hpos := hL.gramSchmidt.positive start (by omega)
  norm_num at hle
  linarith

section EnumerateLifts

variable {α β : Type} [Scalar α] [Scalar β]

/-- What a search of a window enumerates, and the lifts of it. -/
def enumerateLifts (L : LatticeBasis α n m) (p : SearchLimits α) (first window free : Nat) :
    Except (Failure α) (Findings α × List (Lift α)) := do
  let start := first + free
  let found ← L.enumerate p start (first + window) (L.length start * (1 + 1e-9))
  return (found, found.candidates.map fun c =>
    L.nearestPlaneLift start c.coefficients c.normSquared)

theorem enumerateLifts_map (g : α → β) [hom : ScalarHom g] {L : LatticeBasis α n m}
    {p : SearchLimits α} {first window free : Nat} {found : Findings α} {lifts : List (Lift α)}
    (h : L.enumerateLifts p first window free = .ok (found, lifts)) :
    (L.map g).enumerateLifts (p.map g) first window free =
      .ok (found.map g, lifts.map (Lift.map g)) := by
  obtain ⟨_, hfound, hlifts⟩ := bind_eq_ok.mp h
  cases hlifts
  refine bind_eq_ok.mpr ⟨found.map g, ?_, ?_⟩
  · rw [length_map, ← hom.image_ofScientific, ← hom.image_one, ← hom.image_add, ← hom.image_mul]
    exact enumerate_map g p L hfound
  · simp only [Findings.map, List.map_map]
    refine congrArg (fun lifts => Except.ok (_, lifts)) (List.map_congr_left fun c _ => ?_)
    exact (L.map_nearestPlaneLift g _ _ _).symm

end EnumerateLifts

theorem fitsWords_enumerateLifts_toReal {L : LatticeBasis Fraction n m}
    {p : SearchLimits Fraction} {p' : SearchLimits ℝ} (hp : p.map Fraction.toReal = p')
    {first window free : Nat} {found : Findings Fraction} {lifts : List (Lift Fraction)}
    (h : L.enumerateLifts p first window free = .ok (found, lifts))
    (h' : @enumerateLifts n m Fraction Fraction.scalar.unbounded L p first window free =
      .ok (found, lifts)) :
    FitsWords realWords fun S =>
      @enumerateLifts n m ℝ S (L.map Fraction.toReal) p' first window free := by
  subst hp
  exact (@enumerateLifts_map n m Fraction ℝ Fraction.scalar realWords Fraction.toReal _ L p first
    window free found lifts h).trans
    (@enumerateLifts_map n m Fraction ℝ Fraction.scalar.unbounded realScalar Fraction.toReal _ L p
      first window free found lifts h').symm

/-- In exact arithmetic, and as long as the integers fit in words, a search that succeeds has
enumerated the end of its window and lifted what it found.  It inserts one lift or none: one at the
front where that shortens the first row of the basis by the tolerance, else one at the index
searched for where that shortens the row there, else none, and then nothing changes.  An insertion
leaves the rows before it and those after the window, and the lengths before it.  Unless the node
limit is reached, something has been found, and where something has been found, the least squared
length of a lift at the index searched for is reported and compared with the goal. -/
theorem searchWindow_inserts_shorter (p : SearchLimits ℝ) (first window free liftTo : Nat)
    (goal : ℝ) (L L' : LatticeBasis ℝ n m) (f : WindowFindings ℝ)
    (hrows : LinearIndependent ℤ L.basis.vector)
    (hdata : finalState (@orthogonalize ℝ realWords n m L) = L)
    (hlifts : FitsWords realWords fun S => @enumerateLifts n m ℝ S L p first window free)
    (hfits : FitsWords realWords fun S => @searchWindow ℝ S n m p first window free liftTo goal L)
    (hrun : @searchWindow ℝ realWords n m p first window free liftTo goal L = .ok f L') :
    ∃ (found : Findings ℝ) (lifts : List (Lift ℝ)),
      @enumerateLifts n m ℝ realWords L p first window free = .ok (found, lifts) ∧
      f.nodes = found.nodes ∧ (found.truncated = false → lifts ≠ []) ∧
      L.Placed (first + window) liftTo lifts f.insertedAt L' ∧
      (lifts ≠ [] → ∃ norm, f.bestProjected = some norm ∧
        IsLeast {q | ∃ lift ∈ lifts, L.blockNorm liftTo (lift.coefficients.drop liftTo) = q} norm ∧
        (f.reachedGoal = true ↔ norm ≤ goal)) := by
  rw [orthogonalize_words] at hdata
  have hL := isCurrent_of_independent hrows hdata
  have hexact : searchWindow p first window free liftTo goal L = .ok f L' := hfits.symm.trans hrun
  obtain ⟨hstop, hliftTo, hfree, found, hf⟩ := valid_of_searchWindow hexact
  obtain ⟨f', M, hrun', hnodes, houtcome⟩ :=
    delivers_searchWindow hL goal hstop hliftTo hfree hf L rfl
  rw [hexact] at hrun'
  cases hrun'
  have hfound : L.enumerateLifts p first window free = .ok (found, found.candidates.map fun c =>
      L.nearestPlaneLift (first + free) c.coefficients c.normSquared) :=
    bind_eq_ok.mpr ⟨found, hf, rfl⟩
  refine ⟨found, _, hlifts.trans hfound, hnodes, fun htruncated => ?_, houtcome.placed,
    houtcome.best⟩
  simpa using candidates_ne_nil hL hf htruncated

open Fraction LLL.Update

theorem searchWindow_inserts_shorter_slanted :
    let L : LatticeBasis ℝ 2 2 := slantedBasis.map toReal
    let p : SearchLimits ℝ := @SearchLimits.standard _ realScalar
    ∃ (f : WindowFindings ℝ) (L' : LatticeBasis ℝ 2 2),
      LinearIndependent ℤ L.basis.vector ∧ finalState (@orthogonalize ℝ realWords 2 2 L) = L ∧
      (FitsWords realWords fun S => @enumerateLifts 2 2 ℝ S L p 0 2 0) ∧
      (FitsWords realWords fun S => @searchWindow ℝ S 2 2 p 0 2 0 0 ((2 : ℚ) : ℝ) L) ∧
      @searchWindow ℝ realWords 2 2 p 0 2 0 0 ((2 : ℚ) : ℝ) L = .ok f L' ∧
      f.insertedAt = some 0 ∧
      ∃ (found : Findings ℝ) (lifts : List (Lift ℝ)),
        @enumerateLifts 2 2 ℝ realWords L p 0 2 0 = .ok (found, lifts) ∧
        f.nodes = found.nodes ∧ (found.truncated = false → lifts ≠ []) ∧
        L.Placed 2 0 lifts f.insertedAt L' := by
  intro L p
  have hdata : finalState (@orthogonalize ℝ realWords 2 2 L) = L :=
    congrArg finalState orthogonalize_slanted
  have hsearch : @searchWindow Fraction _ 2 2 .standard 0 2 0 0 (2 : ℚ) slantedBasis =
      .ok ⟨some (2 : ℚ), some 0, true, 5⟩ shortenedBasis := by decide +kernel
  have hrun := searchWindow_toReal map_standardLimits hsearch
  have hfits := fitsWords_searchWindow_toReal map_standardLimits hsearch (by decide +kernel)
  have henumerate : @enumerateLifts 2 2 Fraction scalar slantedBasis .standard 0 2 0 =
      .ok (⟨[⟨[1, 0], (4 : ℚ)⟩, ⟨[-2, 1], (2 : ℚ)⟩], 5, false⟩,
        [⟨[1, 0], [(4 : ℚ)]⟩, ⟨[-2, 1], [(2 : ℚ)]⟩]) := by decide +kernel
  have hlifts := fitsWords_enumerateLifts_toReal map_standardLimits henumerate (by decide +kernel)
  obtain ⟨found, lifts, hfound, hnodes, hne, hplaced, -⟩ :=
    searchWindow_inserts_shorter p 0 2 0 0 ((2 : ℚ) : ℝ) L _ _ linearIndependent_slanted hdata
      hlifts hfits hrun
  exact ⟨_, _, linearIndependent_slanted, hdata, hlifts, hfits, hrun, rfl, found, lifts, hfound,
    hnodes, hne, hplaced⟩

/-- The coefficient of the first row that would be best beside one of the second is no word.  The
lift inserted has the one below: it is reported shorter than the first row, which it makes
longer. -/
theorem searchWindow_leaning_lengthens :
    let L : LatticeBasis ℝ 2 3 := leaningBasis.map toReal
    let L' : LatticeBasis ℝ 2 3 := tiltedBasis.map toReal
    let f : WindowFindings ℝ := ⟨some ((1 : ℚ) : ℝ), some 0, true, 5⟩
    @ofMatrix ℝ realWords 2 3 leaningBasis.basis = .ok L ∧
      LinearIndependent ℤ L.basis.vector ∧ finalState (@orthogonalize ℝ realWords 2 3 L) = L ∧
      @searchWindow ℝ realWords 2 3 .standard 0 2 0 0 ((1 : ℚ) : ℝ) L = .ok f L' ∧
      ¬ L'.length 0 < L.length 0 * (1 - 1e-9) := by
  intro L L' f
  have hsearch : @searchWindow Fraction _ 2 3 .standard 0 2 0 0 (1 : ℚ) leaningBasis =
      .ok ⟨some (1 : ℚ), some 0, true, 5⟩ tiltedBasis := by decide +kernel
  refine ⟨ofMatrix_leaningBasis, linearIndependent_leaning,
    congrArg finalState orthogonalize_leaning, searchWindow_toReal map_standardLimits hsearch, ?_⟩
  rw [length_leaning_zero, length_tilted_zero]
  norm_num

end LatticeBasis

end EmbeddingAttack
