import EmbeddingAttack.Lattice.BlockSearch
import EmbeddingAttack.Proofs.Lattice.BlockNorm
import EmbeddingAttack.Proofs.Lattice.CarriedReductions
import Mathlib.Data.List.GetD

/-!
# Searches carried to other numbers

An enumeration walks the same tree among the images, since it compares numbers and rounds them to
integers and does nothing else with them.  So what a search finds, lifts and inserts has the same
coefficients.
-/

namespace EmbeddingAttack

variable {α β : Type} {n m : Nat} [Scalar α] [Scalar β] (f : α → β) [hom : ScalarHom f]

open ScalarHom

namespace SearchLimits

/-- The limits with their factor mapped. -/
def map (f : α → β) (p : SearchLimits α) : SearchLimits β :=
  ⟨p.maxNodes, p.maxCandidates, f p.radiusFactor⟩

theorem map_standard : (standard : SearchLimits α).map f = standard := by
  simp only [map, standard, hom.image_ofScientific]

theorem validate_map {p : SearchLimits α} (h : p.validate = .ok ()) :
    (p.map f).validate = .ok () := by
  unfold validate at h ⊢
  obtain ⟨hnodes, h⟩ := guard_eq_ok.mp h
  obtain ⟨hcandidates, h⟩ := guard_eq_ok.mp h
  obtain ⟨hfactor, -⟩ := guard_eq_ok.mp h
  refine guard_eq_ok.mpr ⟨hnodes, guard_eq_ok.mpr ⟨hcandidates, guard_eq_ok.mpr ⟨?_, rfl⟩⟩⟩
  dsimp only [map]
  rwa [pos_map f, ← hom.image_one, hom.le_iff]

end SearchLimits

/-- The vector found with its length mapped. -/
def Candidate.map (f : α → β) (c : Candidate α) : Candidate β :=
  ⟨c.coefficients, f c.normSquared⟩

/-- What was found with its lengths mapped. -/
def Findings.map (f : α → β) (found : Findings α) : Findings β :=
  ⟨found.candidates.map (Candidate.map f), found.nodes, found.truncated⟩

namespace Enumeration

variable (p : SearchLimits α) (L : LatticeBasis α n m)

/-- The state with its numbers mapped. -/
def State.map (f : α → β) (s : State α) : State β :=
  ⟨f s.radius, s.found.map (Candidate.map f), s.nodes⟩

omit [Scalar α] [Scalar β] hom in
theorem State.map_record (s : State α) (c : List Int) (norm : α) :
    (s.record p c norm).map f = (s.map f).record (p.map f) c (f norm) := by
  simp only [State.map, State.record, SearchLimits.map, List.map_take, List.map_cons, Candidate.map]

theorem map_center (start level : Nat) (later : List Int) :
    f (center L start level later) = center (L.map f) start level later := by
  have hgo (i : Nat) (xs : List Int) (c : α) : f (center.go L start level i xs c) =
      center.go (L.map f) start level i xs (f c) := by
    induction xs generalizing i c with
    | nil => rfl
    | cons x xs ih =>
        unfold center.go
        rw [ih, hom.image_sub, hom.image_mul, hom.image_intCast, L.coefficient_map f]
  rw [center, center, hgo, hom.image_zero]

theorem map_shell (x direction : α) (signFree : Bool) (t : Nat) :
    (shell x direction signFree t).map f = shell (f x) (f direction) signFree t := by
  unfold shell
  split
  · rfl
  · split
    · rw [List.map_singleton, hom.image_add, hom.image_natCast]
    · rw [List.map_cons, List.map_singleton, hom.image_add, hom.image_sub, hom.image_mul,
        hom.image_natCast]

section Levels

/-- The level with its numbers mapped. -/
def Level.map (f : α → β) (level : Level α) : Level β :=
  ⟨f level.center, f level.length, f level.above, level.signFree⟩

variable (level : Level α) {visit : α → α → State α → State α} {visit' : β → β → State β → State β}
  (hvisit : ∀ x norm s, (visit x norm s).map f = visit' (f x) (f norm) (s.map f))

include hvisit

theorem map_visitShell (xs : List α) (inside : Bool) (s : State α) :
    visitShell (p.map f) (level.map f) visit' (xs.map f) inside (s.map f) =
      ((visitShell p level visit xs inside s).1,
        (visitShell p level visit xs inside s).2.map f) := by
  induction xs generalizing inside s with
  | nil => rfl
  | cons x xs ih =>
      rw [List.map_cons]
      unfold visitShell
      dsimp only [Level.map]
      rw [← hom.image_sub, ← hom.image_mul, ← hom.image_mul, ← hom.image_add]
      have hcount : ({ s.map f with nodes := (s.map f).nodes + 1 } : State β) =
          State.map f { s with nodes := s.nodes + 1 } := rfl
      rw [hcount, ← hvisit]
      generalize level.above + (x - level.center) * (x - level.center) * level.length = norm
      have hradius : (s.map f).radius ≤ f norm ↔ s.radius ≤ norm := hom.le_iff _ _
      by_cases houtside : s.radius ≤ norm
      · rw [if_pos houtside, if_pos (hradius.mpr houtside)]
        exact ih inside s
      rw [if_neg houtside, if_neg (mt hradius.mp houtside)]
      generalize visit x norm _ = s'
      have hnodes : (p.map f).maxNodes ≤ (s'.map f).nodes ↔ p.maxNodes ≤ s'.nodes := Iff.rfl
      by_cases hlimit : p.maxNodes ≤ s'.nodes
      · rw [if_pos hlimit, if_pos (hnodes.mpr hlimit)]
      · rw [if_neg hlimit, if_neg (mt hnodes.mp hlimit)]
        exact ih true s'

theorem map_visitShells (x direction : α) (budget t : Nat) (s : State α) :
    (visitShells p level visit x direction budget t s).map f =
      visitShells (p.map f) (level.map f) visit' (f x) (f direction) budget t (s.map f) := by
  induction budget generalizing t s with
  | zero => rfl
  | succ budget ih =>
      unfold visitShells
      have hshell := map_visitShell f p level hvisit
        (shell x direction level.signFree t) false s
      rw [map_shell] at hshell
      dsimp only [Level.map] at hshell ⊢
      rw [hshell]
      generalize visitShell p level visit _ false s = result
      obtain ⟨inside, s'⟩ := result
      cases inside with
      | true => exact ih (t + 1) s'
      | false => rfl

end Levels

theorem map_descend (start level : Nat) (later : List Int) (above : α) (signFree : Bool)
    (s : State α) :
    (descend p L start level later above signFree s).map f =
      descend (p.map f) (L.map f) start level later (f above) signFree (s.map f) := by
  have hdirection (x c : α) : f (if x ≤ c then 1 else -1) = if f x ≤ f c then 1 else -1 := by
    rw [apply_ite f, hom.image_neg, hom.image_one]
    exact if_congr (hom.le_iff x c).symm rfl rfl
  have hfree (x : α) : Scalar.equal (f x) 0 = Scalar.equal x 0 := by
    rw [← equal_map f x 0, hom.image_zero]
  induction level generalizing later above signFree s with
  | zero =>
      unfold descend
      dsimp only
      rw [← map_center, ← hom.image_round, L.length_map f, ← hdirection]
      split
      · rename_i hlimit
        exact (if_pos (show (p.map f).maxNodes ≤ (s.map f).nodes from hlimit)).symm
      · rename_i hlimit
        refine (map_visitShells f p _ (fun x norm s => ?_) _ _ _ 0 s).trans
          (if_neg (show ¬ (p.map f).maxNodes ≤ (s.map f).nodes from hlimit)).symm
        rw [hfree, toWord_map f, apply_ite (State.map f), State.map_record]
        exact if_congr (and_congr_right fun _ => (pos_map f norm).symm) rfl rfl
  | succ level ih =>
      unfold descend
      dsimp only
      rw [← map_center, ← hom.image_round, L.length_map f, ← hdirection]
      split
      · rename_i hlimit
        exact (if_pos (show (p.map f).maxNodes ≤ (s.map f).nodes from hlimit)).symm
      · rename_i hlimit
        refine (map_visitShells f p _ (fun x norm s => ?_) _ _ _ 0 s).trans
          (if_neg (show ¬ (p.map f).maxNodes ≤ (s.map f).nodes from hlimit)).symm
        rw [hfree, toWord_map f, ih]

end Enumeration

namespace LatticeBasis

variable (p : SearchLimits α) (L : LatticeBasis α n m)

theorem enumerate_map {start stop : Nat} {radius : α} {found : Findings α}
    (h : L.enumerate p start stop radius = .ok found) :
    (L.map f).enumerate (p.map f) start stop (f radius) = .ok (found.map f) := by
  unfold enumerate at h ⊢
  obtain ⟨_, hvalid, h⟩ := bind_eq_ok.mp h
  obtain ⟨hblock, h⟩ := guard_eq_ok.mp h
  refine bind_eq_ok.mpr ⟨(), p.validate_map f hvalid, guard_eq_ok.mpr ⟨hblock, ?_⟩⟩
  have hwalk := Enumeration.map_descend f p L start (stop - start - 1) [] 0 true ⟨radius, [], 0⟩
  rw [hom.image_zero] at hwalk
  change _ = Enumeration.descend _ _ _ _ _ _ _ ⟨f radius, [], 0⟩ at hwalk
  cases h
  dsimp only
  rw [← hwalk, Enumeration.State.map, Findings.map, List.map_reverse]
  rfl

theorem carries_improveBlock (start stop : Nat) :
    Carries (map f) id (improveBlock p start stop : Reduction α n m (Bool × Nat))
      (improveBlock (p.map f) start stop : Reduction β n m (Bool × Nat)) := by
  unfold improveBlock
  refine Carries.get_bind fun L => ?_
  have hlength : (L.map f).length? start = (L.length? start).map f := Vector.getElem?_map ..
  rw [hlength]
  cases L.length? start with
  | none => exact Carries.throw _
  | some length =>
      dsimp only [Option.map_some]
      refine Carries.ofExcept_bind (h := Findings.map f) (fun found h => ?_) fun found => ?_
      · rw [SearchLimits.map, ← hom.image_mul]
        exact enumerate_map f p L h
      have hbest : (found.map f).best? = found.best?.map (Candidate.map f) := List.getLast?_map
      rw [hbest]
      cases found.best? with
      | none => exact Carries.pure _
      | some best => exact (carries_insertCombination f start _).bind fun _ => Carries.pure _

end LatticeBasis

/-- The lift with its lengths mapped. -/
def Lift.map (f : α → β) (lift : Lift α) : Lift β :=
  ⟨lift.coefficients, lift.norms.map f⟩

/-- What a search found with its length mapped. -/
def WindowFindings.map (f : α → β) (found : WindowFindings α) : WindowFindings β :=
  ⟨found.bestProjected.map f, found.insertedAt, found.reachedGoal, found.nodes⟩

namespace LatticeBasis

variable (L : LatticeBasis α n m)

theorem map_nearestPlaneLift (start : Nat) (c : List Int) (norm : α) :
    (L.nearestPlaneLift start c norm).map f = (L.map f).nearestPlaneLift start c (f norm) := by
  have hoffset (j i : Nat) (c : List Int) (y : α) :
      f (offset L j i c y) = offset (L.map f) j i c (f y) := by
    induction c generalizing i y with
    | nil => rfl
    | cons x xs ih =>
        unfold offset
        rw [ih, apply_ite f, hom.image_add, hom.image_mul, hom.image_intCast, coefficient_map]
  have hlift (j : Nat) (c : List Int) (norm : α) (norms : List α) :
      (liftOver L j c norm norms).map f = liftOver (L.map f) j c (f norm) (norms.map f) := by
    induction j generalizing c norm norms with
    | zero => rfl
    | succ j ih =>
        unfold liftOver
        dsimp only
        rw [ih, List.map_cons, ← hom.image_zero, ← hoffset, ← hom.image_neg, ← hom.image_round,
          toWord_map f, ← hom.image_add, ← hom.image_mul, length_map, ← hom.image_mul,
          ← hom.image_add]
  exact hlift start c norm []

theorem shortestAt_map (j : Nat) (lifts : List (Lift α)) :
    shortestAt j (lifts.map (Lift.map f)) =
      (shortestAt j lifts).map (Prod.map (Lift.map f) f) := by
  unfold shortestAt
  rw [List.foldl_map]
  change List.foldl _ (Option.map (Prod.map (Lift.map f) f) none) _ = _
  refine List.foldl_hom (Option.map (Prod.map (Lift.map f) f)) fun best lift => ?_
  have hnorm : (lift.map f).norms.getD j 0 = f (lift.norms.getD j 0) := by
    rw [← hom.image_zero, Lift.map, List.getD_map]
  dsimp only
  rw [hnorm]
  cases best with
  | none => rfl
  | some best =>
      dsimp only [Option.map_some]
      rw [apply_ite (Option.map _)]
      exact if_congr (hom.lt_iff _ _) rfl rfl

theorem carries_searchWindow (p : SearchLimits α) (first window free liftTo : Nat) (goal : α) :
    Carries (map f) (WindowFindings.map f)
      (searchWindow p first window free liftTo goal : Reduction α n m (WindowFindings α))
      (searchWindow (p.map f) first window free liftTo (f goal) :
        Reduction β n m (WindowFindings β)) := by
  have hscale (x : α) : f x * (1 - 1e-9) = f (x * (1 - 1e-9)) := by
    rw [hom.image_mul, hom.image_sub, hom.image_one, hom.image_ofScientific]
  have hwiden (x : α) : f x * (1 + 1e-9) = f (x * (1 + 1e-9)) := by
    rw [hom.image_mul, hom.image_add, hom.image_one, hom.image_ofScientific]
  have hhalf (x : α) : 0.5 < f x ↔ 0.5 < x := by
    rw [← hom.image_ofScientific, hom.lt_iff]
  unfold searchWindow
  refine Carries.guard Iff.rfl ?_
  refine Carries.get_bind fun L => ?_
  refine Carries.ofExcept_bind (h := Findings.map f) (fun found h => ?_) fun found => ?_
  · rw [length_map, hwiden]
    exact enumerate_map f p L h
  extract_lets lifts rest lifts' rest'
  have hlifts : lifts' = lifts.map (Lift.map f) := by
    simp only [lifts', lifts, Findings.map, List.map_map]
    exact List.map_congr_left fun c _ => (L.map_nearestPlaneLift f _ _ _).symm
  have hrest (insertedFirst : Bool) :
      Carries (map f) (WindowFindings.map f) (rest insertedFirst) (rest' insertedFirst) := by
    dsimp only [rest, rest']
    rw [hlifts, shortestAt_map]
    cases shortestAt liftTo lifts with
    | none => exact Carries.pure _
    | some best =>
        obtain ⟨lift, norm⟩ := best
        dsimp only [Option.map_some, Prod.map]
        rw [decide_eq_decide.mpr (hom.le_iff norm goal)]
        refine Carries.ite Iff.rfl (Carries.pure _) (Carries.ite ?_ ?_ (Carries.pure _))
        · rw [length_map, hscale, hom.lt_iff]
        · exact (carries_insertCombination f liftTo _).bind fun _ => Carries.pure _
  rw [hlifts, shortestAt_map]
  cases shortestAt 0 lifts with
  | none => exact Carries.bind (Carries.pure false) hrest
  | some best =>
      obtain ⟨lift, norm⟩ := best
      dsimp only [Option.map_some, Prod.map]
      refine Carries.ite ?_ ?_ (Carries.bind (Carries.pure false) hrest)
      · rw [length_map, hscale, hom.lt_iff, hhalf]
        rfl
      · exact (carries_insertCombination f 0 _).bind fun _ => Carries.bind (Carries.pure true) hrest

end LatticeBasis

/-! ## Fractions among the reals -/

theorem SearchLimits.validate_standard : (standard : SearchLimits ℝ).validate = .ok () := by
  have hfactor : (0 : ℝ) < 0.99 ∧ (0.99 : ℝ) ≤ 1 := by norm_num
  exact guard_eq_ok.mpr ⟨not_not.mpr hfactor, rfl⟩

namespace Fraction

open LatticeBasis

theorem map_standardLimits :
    (SearchLimits.standard : SearchLimits Fraction).map toReal = .standard :=
  @SearchLimits.map_standard Fraction ℝ scalar realWords toReal _

variable {L L' : LatticeBasis Fraction n m} {start stop : Nat}

theorem enumerate_toReal {p : SearchLimits Fraction} {p' : SearchLimits ℝ}
    (hp : p.map toReal = p') {radius : Fraction} {found : Findings Fraction}
    (h : L.enumerate p start stop radius = .ok found) :
    @enumerate ℝ realWords n m (L.map toReal) p' start stop (toReal radius) =
      .ok (found.map toReal) := by
  subst hp
  exact @enumerate_map Fraction ℝ n m scalar realWords toReal _ p L start stop radius found h

theorem fitsWords_enumerate_toReal {p : SearchLimits Fraction} {p' : SearchLimits ℝ}
    (hp : p.map toReal = p') {radius : Fraction} {found : Findings Fraction}
    (h : L.enumerate p start stop radius = .ok found)
    (h' : @enumerate Fraction scalar.unbounded n m L p start stop radius = .ok found) :
    FitsWords realWords fun S =>
      @enumerate ℝ S n m (L.map toReal) p' start stop (toReal radius) := by
  have hwords := enumerate_toReal hp h
  subst hp
  exact hwords.trans (@enumerate_map Fraction ℝ n m scalar.unbounded realScalar toReal _ p L start
    stop radius found h').symm

section Searches

variable {p : SearchLimits Fraction} {p' : SearchLimits ℝ} (hp : p.map toReal = p')

include hp

theorem improveBlock_toReal {report : Bool × Nat}
    (h : improveBlock p start stop L = .ok report L') :
    @improveBlock ℝ realWords n m p' start stop (L.map toReal) = .ok report (L'.map toReal) := by
  subst hp
  exact @carries_improveBlock Fraction ℝ n m scalar realWords toReal _ p start stop L report L' h

theorem fitsWords_improveBlock_toReal {report : Bool × Nat}
    (h : improveBlock p start stop L = .ok report L')
    (h' : @improveBlock Fraction scalar.unbounded n m p start stop L = .ok report L') :
    FitsWords realWords fun S => @improveBlock ℝ S n m p' start stop (L.map toReal) := by
  subst hp
  exact FitsWords.carried
    (@carries_improveBlock Fraction ℝ n m scalar realWords toReal _ p start stop)
    (@carries_improveBlock Fraction ℝ n m scalar.unbounded realScalar toReal _ p start stop) h h'

variable {first window free liftTo : Nat} {goal : Fraction} {found : WindowFindings Fraction}

theorem searchWindow_toReal (h : searchWindow p first window free liftTo goal L = .ok found L') :
    @searchWindow ℝ realWords n m p' first window free liftTo (toReal goal) (L.map toReal) =
      .ok (found.map toReal) (L'.map toReal) := by
  subst hp
  exact @carries_searchWindow Fraction ℝ n m scalar realWords toReal _ p first window free liftTo
    goal L found L' h

theorem fitsWords_searchWindow_toReal
    (h : searchWindow p first window free liftTo goal L = .ok found L')
    (h' : @searchWindow Fraction scalar.unbounded n m p first window free liftTo goal L =
      .ok found L') :
    FitsWords realWords fun S =>
      @searchWindow ℝ S n m p' first window free liftTo (toReal goal) (L.map toReal) := by
  subst hp
  exact FitsWords.carried
    (@carries_searchWindow Fraction ℝ n m scalar realWords toReal _ p first window free liftTo goal)
    (@carries_searchWindow Fraction ℝ n m scalar.unbounded realScalar toReal _ p first window free
      liftTo goal) h h'

end Searches

theorem nearestPlaneLift_toReal {c : List Int} {norm : Fraction} {lift : Lift Fraction}
    (h : L.nearestPlaneLift start c norm = lift) :
    @nearestPlaneLift ℝ realWords n m (L.map toReal) start c (toReal norm) = lift.map toReal :=
  (@map_nearestPlaneLift Fraction ℝ n m scalar realWords toReal _ L start c norm).symm.trans
    (congrArg _ h)

theorem fitsWords_tryNearestPlaneLift_toReal {c : List Int} {norm : Fraction}
    (hfits : FitsWords scalar fun S => @nearestPlaneLift Fraction S n m L start c norm) :
    FitsWords realWords fun S =>
      @tryNearestPlaneLift ℝ S n m (L.map toReal) start c (toReal norm) := by
  have hwords := @map_nearestPlaneLift Fraction ℝ n m scalar realWords toReal _ L start c norm
  have hexact :=
    @map_nearestPlaneLift Fraction ℝ n m scalar.unbounded realScalar toReal _ L start c norm
  have hlift := hwords.symm.trans ((congrArg (Lift.map toReal) hfits).trans hexact)
  dsimp only [FitsWords, tryNearestPlaneLift]
  rw [hlift]

/-- The vector of the leaning basis that the words lead to. -/
theorem blockNorm_leaning : (leaningBasis.map toReal).blockNorm 0 [2 ^ 63 - 1, 1] = 3 := by
  have hcoefficient : (leaningBasis.map toReal).coefficient 1 0 = ((-(2 ^ 63) : ℚ) : ℝ) :=
    coefficient_toReal rfl
  rw [blockNorm_two, Nat.zero_add, hcoefficient, length_leaning_zero, length_leaning_one]
  norm_num

end Fraction

end EmbeddingAttack
