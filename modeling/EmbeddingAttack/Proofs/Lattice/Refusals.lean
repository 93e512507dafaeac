import EmbeddingAttack.Proofs.Lattice.CarriedSearches
import EmbeddingAttack.Proofs.Lattice.FirstVector

/-!
# A refused call changes nothing

Each operation checks its arguments before it changes a basis.  A tour calls the operations that
check again and again, after it has begun to change the basis; but its windows lie within the basis,
as long as the sums of sizes that place them are words, and in exact arithmetic an enumeration finds
no zero vector.  So none of these calls is refused, and an argument error is always one of the first
check.
-/

namespace EmbeddingAttack

/-- The failure is about the arguments of a call, and not about its arithmetic. -/
def Failure.IsRefusal {α : Type} : Failure α → Prop
  | .parameters _ => True
  | .dimensions .. => True
  | _ => False

variable {α σ τ ρ : Type} {n m : Nat}

/-- From a state with `P`, no failure is a refusal. -/
def NeverRefuses (P : σ → Prop) (x : EStateM (Failure α) σ τ) : Prop :=
  Throws P x fun e _ => ¬ e.IsRefusal

/-- From a state with `P`, arguments are refused only where `valid` does not hold, and before
anything has changed. -/
def RefusesFirst (P : σ → Prop) (valid : Prop) (x : EStateM (Failure α) σ τ) : Prop :=
  ∀ s, P s → Throws (· = s) x fun e s' => e.IsRefusal → s' = s ∧ ¬ valid

namespace RefusesFirst

variable {P : σ → Prop} {valid : Prop} {x : EStateM (Failure α) σ τ}

theorem neverRefuses (h : RefusesFirst P valid x) (hvalid : valid) : NeverRefuses P x :=
  fun s e s' hs hx he => (h s hs s e s' rfl hx he).2 hvalid

theorem of_neverRefuses (h : NeverRefuses P x) : RefusesFirst P valid x :=
  fun _ hs => h.mono (fun _ hs' => hs' ▸ hs) fun _ _ hnot he => absurd he hnot

theorem mono {P' : σ → Prop} {valid' : Prop} (h : RefusesFirst P valid x) (hP : ∀ s, P' s → P s)
    (hvalid : valid' → valid) : RefusesFirst P' valid' x := by
  intro s hs
  refine (h s (hP s hs)).mono (fun _ hs' => hs') fun e s' hrefused he => ?_
  obtain ⟨hsame, hnot⟩ := hrefused he
  exact ⟨hsame, fun hvalid' => hnot (hvalid hvalid')⟩

theorem discard (h : RefusesFirst P valid x) :
    RefusesFirst P valid (discard x : EStateM (Failure α) σ PUnit) :=
  fun s hs => (h s hs).discard

theorem get_bind {g : σ → EStateM (Failure α) σ τ}
    (h : ∀ s, P s → RefusesFirst (· = s) valid (g s)) :
    RefusesFirst P valid ((MonadState.get : EStateM (Failure α) σ σ) >>= g) := by
  intro s hs
  apply Throws.get_bind
  intro t ht
  exact ht ▸ h s hs s rfl

/-- The first part refuses what it refuses before anything has changed, and what follows refuses
nothing. -/
theorem bind {Q : τ → σ → Prop} {g : τ → EStateM (Failure α) σ ρ} (h : RefusesFirst P valid x)
    (hok : Ensures P x Q) (hg : ∀ a, NeverRefuses (Q a) (g a)) :
    RefusesFirst P valid (x >>= g) := by
  intro s hs
  have hfirst : Ensures (· = s) x Q := hok.mono (fun _ hs' => hs' ▸ hs) fun _ _ h => h
  refine (h s hs).bind hfirst fun a => ?_
  exact (hg a).mono (fun _ h => h) fun _ _ hnot he => absurd he hnot

/-- A check in front, which accepts all that is valid. -/
theorem guard {c : Prop} [Decidable c] {e : Failure α} {k : PUnit → EStateM (Failure α) σ τ}
    (hcheck : valid → ¬ c) (hk : ¬ c → RefusesFirst P valid (k ⟨⟩)) :
    RefusesFirst P valid (if c then MonadExcept.throw e >>= k else k ⟨⟩) := by
  intro s hs
  refine Throws.guard (fun hc s' hs' _ => ⟨hs', fun hvalid => hcheck hvalid hc⟩) fun hc => ?_
  exact hk hc s hs

theorem ofExcept_bind {c : Except (Failure α) ρ} {g : ρ → EStateM (Failure α) σ τ}
    (hcheck : valid → ∃ a, c = .ok a) (hg : ∀ a, c = .ok a → RefusesFirst P valid (g a)) :
    RefusesFirst P valid (ofExcept c >>= g) := by
  intro s hs
  cases c with
  | ok a => exact hg a rfl s hs
  | error e =>
      refine Throws.bind (Q := fun _ _ => False) ?_ (Ensures.throw e) fun a => ?_
      · refine Throws.throw fun s' hs' _ => ⟨hs', fun hvalid => ?_⟩
        obtain ⟨a, ha⟩ := hcheck hvalid
        cases ha
      · exact fun _ _ _ hfalse => hfalse.elim

end RefusesFirst

/-! ## Insertions and reductions -/

namespace LatticeBasis

variable [Scalar α]

theorem neverRefuses_orthogonalize :
    NeverRefuses (fun _ => True) (orthogonalize : Reduction α n m Unit) := by
  refine throws_orthogonalize.mono (fun _ h => h) ?_
  rintro e L ⟨fault, rfl⟩ hrefusal
  exact hrefusal

/-- The combination names rows of the basis, and is none of coefficients all zero. -/
theorem refusesFirst_insertCombination (start : Nat) (coefficients : List Int) :
    RefusesFirst (fun _ => True) (start + coefficients.length ≤ n ∧ ∃ x ∈ coefficients, x ≠ 0)
      (insertCombination start coefficients : Reduction α n m Unit) := by
  unfold insertCombination
  refine RefusesFirst.guard (fun hvalid => not_lt.mpr hvalid.1) fun _ => ?_
  refine RefusesFirst.guard (fun hvalid => ?_) fun _ => RefusesFirst.of_neverRefuses ?_
  · rw [List.isEmpty_iff, support_eq_nil_iff]
    exact not_forall₂.mpr (by simpa using hvalid.2)
  · refine Throws.guard (fun _ _ _ hrefusal => hrefusal) fun _ => ?_
    exact (Throws.modify _).bind_of_forall fun _ => neverRefuses_orthogonalize

end LatticeBasis

namespace LLL

open LatticeBasis

variable [Scalar α]

theorem neverRefuses_exchange (k : Nat) :
    NeverRefuses (fun _ => True) (exchange k : Reduction α n m Unit) := by
  unfold exchange
  refine (Throws.modify _).bind_of_forall fun _ => ?_
  refine Throws.get_bind fun L _ => ?_
  exact Throws.guard (fun _ _ _ hrefusal => hrefusal) fun _ => Throws.modify _

theorem neverRefuses_run (p : LLL α) (start stop budget k : Nat) (stats : Statistics) :
    NeverRefuses (fun _ => True) (run p start stop budget k stats : Reduction α n m Statistics) := by
  induction budget generalizing k stats with
  | zero =>
      unfold run
      split
      · exact Throws.throw fun _ _ hrefusal => hrefusal
      · exact Throws.pure _
  | succ budget ih =>
      unfold run
      split
      · refine (Throws.modify _).bind_of_forall fun _ => ?_
        refine Throws.get_bind fun L _ => ?_
        split
        · exact (ih _ _).of_forall
        · exact Throws.of_forall ((neverRefuses_exchange k).bind_of_forall fun _ => ih _ _)
      · exact Throws.pure _

theorem refusesFirst_reduceRange (p : LLL α) (start stop : Nat) :
    RefusesFirst (fun _ => True) (p.validate = .ok () ∧ start < stop ∧ stop ≤ n)
      (p.reduceRange start stop : Reduction α n m Statistics) := by
  unfold reduceRange
  refine RefusesFirst.ofExcept_bind (fun hvalid => ⟨(), hvalid.1⟩) fun _ _ => ?_
  refine RefusesFirst.guard (fun hvalid => by omega) fun _ => RefusesFirst.of_neverRefuses ?_
  refine neverRefuses_orthogonalize.bind_of_forall fun _ => ?_
  extract_lets rest
  have hrest (u : Unit) : NeverRefuses (fun _ => True) (rest u) :=
    (p.neverRefuses_run start stop _ _ _).bind_of_forall fun stats =>
      neverRefuses_orthogonalize.bind_of_forall fun _ => Throws.pure stats
  split
  · exact (Throws.modify _).bind_of_forall hrest
  · exact hrest ⟨⟩

theorem refusesFirst_reduce (p : LLL α) (hn : 0 < n) :
    RefusesFirst (fun _ => True) (p.validate = .ok ()) (p.reduce : Reduction α n m Statistics) :=
  (p.refusesFirst_reduceRange 0 n).mono (fun _ h => h) fun hvalid => ⟨hvalid, hn, le_rfl⟩

end LLL

/-! ## Searches -/

namespace LatticeBasis

/-- Where the rows from `j` on take part in a lift, not all of their coefficients are zero. -/
theorem valid_lift [Scalar α] (L : LatticeBasis α n m) {start stop j : Nat} {c : List Int} (norm : α)
    (hstop : stop ≤ n) (hj : j ≤ start) (hstart : start < stop) (hlength : c.length = stop - start)
    (hc : ∃ x ∈ c, x ≠ 0) :
    let coefficients := ((L.nearestPlaneLift start c norm).coefficients.drop j)
    j + coefficients.length ≤ n ∧ ∃ x ∈ coefficients, x ≠ 0 := by
  obtain ⟨before, hbefore, hcoefficients⟩ := L.coefficients_liftOver start c norm []
  obtain ⟨x, hx, hne⟩ := hc
  unfold nearestPlaneLift
  rw [hcoefficients, List.drop_append_of_le_length (by omega)]
  dsimp only
  refine ⟨?_, x, List.mem_append_right _ hx, hne⟩
  rw [List.length_append, List.length_drop]
  omega

variable [Scalar α] [Enumeration.TellsZero α]

theorem refusesFirst_improveBlock (p : SearchLimits α) (start stop : Nat) :
    RefusesFirst (fun _ : LatticeBasis α n m => True)
      (p.validate = .ok () ∧ start < stop ∧ stop ≤ n) (improveBlock p start stop) := by
  unfold improveBlock
  refine RefusesFirst.get_bind fun L _ => ?_
  split
  case h_2 => exact RefusesFirst.of_neverRefuses (Throws.throw fun _ _ hrefusal => hrefusal)
  refine RefusesFirst.ofExcept_bind ?_ fun f hf => ?_
  · rintro ⟨hvalid, hstart, hstop⟩
    obtain ⟨f, hf, -⟩ := L.exists_enumerate_block _ hvalid hstart hstop
    exact ⟨f, hf⟩
  obtain ⟨-, hstart, hstop⟩ := block_of_enumerate hf
  split
  · exact RefusesFirst.of_neverRefuses (Throws.pure _)
  rename_i best hbest
  have hlength := length_coefficients_of_enumerate hf best (List.mem_of_getLast? hbest)
  have hnonzero := nonzero_of_enumerate hf best (List.mem_of_getLast? hbest)
  have hinsert : NeverRefuses (fun _ => True) (insertCombination start _ : Reduction α n m Unit) :=
    (refusesFirst_insertCombination start best.coefficients).neverRefuses ⟨by omega, hnonzero⟩
  refine RefusesFirst.of_neverRefuses (Throws.of_forall ?_)
  exact hinsert.bind_of_forall fun _ => Throws.pure _

theorem refusesFirst_searchWindow (p : SearchLimits α) (first window free liftTo : Nat) (goal : α) :
    RefusesFirst (fun _ : LatticeBasis α n m => True)
      (p.validate = .ok () ∧ first + window ≤ n ∧ liftTo ≤ first ∧ free + 2 ≤ window)
      (searchWindow p first window free liftTo goal) := by
  unfold searchWindow
  refine RefusesFirst.guard (fun hvalid => by omega) fun hwindow => ?_
  refine RefusesFirst.get_bind fun L _ => ?_
  refine RefusesFirst.ofExcept_bind (fun hvalid => ?_) fun f hf => ?_
  · have hblock : first + free < first + window := by omega
    obtain ⟨f, hf, -⟩ := L.exists_enumerate_block (L.length (first + free) * (1 + 1e-9)) hvalid.1
      hblock hvalid.2.1
    exact ⟨f, hf⟩
  obtain ⟨-, hstart, hstop⟩ := block_of_enumerate hf
  extract_lets lifts rest
  have hinsert (j : Nat) (hj : j ≤ first + free) (lift : Lift α) (hlift : lift ∈ lifts) :
      NeverRefuses (fun _ => True)
        (insertCombination j (lift.coefficients.drop j) : Reduction α n m Unit) := by
    obtain ⟨c, hc, rfl⟩ := List.mem_map.mp hlift
    exact (refusesFirst_insertCombination _ _).neverRefuses (L.valid_lift c.normSquared hstop hj
      hstart (length_coefficients_of_enumerate hf c hc) (nonzero_of_enumerate hf c hc))
  have hrest (insertedFirst : Bool) : NeverRefuses (fun _ => True) (rest insertedFirst) := by
    dsimp only [rest]
    split
    · exact Throws.pure _
    · rename_i lift norm hshortest
      split
      · exact Throws.pure _
      · split
        · exact (hinsert liftTo (by omega) lift (mem_of_shortestAt hshortest).1).bind_of_forall
            fun _ => Throws.pure _
        · exact Throws.pure _
  refine RefusesFirst.of_neverRefuses (Throws.of_forall ?_)
  split
  · rename_i lift norm hshortest
    have hfront := hinsert 0 (Nat.zero_le _) lift (mem_of_shortestAt hshortest).1
    rw [List.drop_zero] at hfront
    split
    · exact hfront.bind_of_forall fun _ => (Throws.pure true).bind_of_forall hrest
    · exact (Throws.pure false).bind_of_forall hrest
  · exact (Throws.pure false).bind_of_forall hrest

end LatticeBasis

/-! ## Tours -/

/-- The windows of a tour lie within the basis and leave at least two rows to enumerate. -/
theorem JumpingTour.fits_of_mem_windows {tour : JumpingTour α} {d : Nat} (hd : 2 ≤ tour.blocksize)
    (hsizes : tour.blocksize + tour.extraFreeDimensions < 2 ^ 64) {w : Window}
    (hw : w ∈ tour.windows d) : w.start + w.length ≤ d ∧ w.free + 2 ≤ w.length := by
  unfold windows at hw
  rw [wrapSize_eq hsizes] at hw
  extract_lets blocksize free jump at hw
  have hblocksize : blocksize ≤ d := Nat.min_le_right _ _
  have hfree : free ≤ blocksize - 2 := Nat.min_le_right _ _
  have hjump : 0 < jump := by
    have := Nat.le_max_right tour.jump 1
    omega
  simp only [List.mem_append, List.mem_map] at hw
  rcases hw with (⟨i, hi, rfl⟩ | ⟨kappa, hkappa, rfl⟩) | ⟨i, hi, rfl⟩
  · obtain ⟨-, -, hlt⟩ := (mem_stepsBelow hjump).mp hi
    dsimp only
    omega
  · obtain ⟨-, -, hlt⟩ := (mem_stepsBelow hjump).mp hkappa
    have hwhole : blocksize = tour.blocksize + tour.extraFreeDimensions := by
      dsimp only [blocksize] at hlt ⊢
      omega
    dsimp only
    omega
  · obtain ⟨-, -, hlt⟩ := (mem_stepsBelow hjump).mp hi
    dsimp only
    omega

namespace BlockReduction

open LatticeBasis

variable [Scalar α] {p : BlockReduction α}

theorem checkTour_eq_ok {blocksize : Nat} (h : p.checkTour blocksize = .ok ()) :
    p.lll.validate = .ok () ∧ p.limits.validate = .ok () ∧ 2 ≤ blocksize := by
  obtain ⟨_, hvalid, h⟩ := bind_eq_ok.mp h
  obtain ⟨_, hlll, hlimits⟩ := bind_eq_ok.mp hvalid
  obtain ⟨hblocksize, -⟩ := guard_eq_ok.mp h
  exact ⟨hlll, hlimits, by omega⟩

section Tours

variable [Enumeration.TellsZero α] (hlll : p.lll.validate = .ok ())
  (hlimits : p.limits.validate = .ok ())

include hlll hlimits

theorem neverRefuses_improveBlocks {blocksize : Nat} (hblocksize : 2 ≤ blocksize)
    {rows : List Nat} (hrows : ∀ kappa ∈ rows, kappa < n - 1 ∧ kappa + blocksize < 2 ^ 64)
    (stats : Statistics) :
    NeverRefuses (fun _ : LatticeBasis α n m => True) (p.improveBlocks blocksize rows stats) := by
  induction rows generalizing stats with
  | nil => exact Throws.pure _
  | cons kappa rest ih =>
      obtain ⟨⟨hkappa, hsize⟩, hrest⟩ := List.forall_mem_cons.mp hrows
      have hblock : kappa < min (kappa + blocksize) n ∧ min (kappa + blocksize) n ≤ n := by omega
      have himprove := (refusesFirst_improveBlock (m := m) p.limits _ _).neverRefuses
        ⟨hlimits, hblock⟩
      have hreduce : NeverRefuses (fun _ => True) (p.lll.reduceRange _ _ : Reduction α n m _) :=
        (p.lll.refusesFirst_reduceRange _ _).neverRefuses ⟨hlll, hblock⟩
      unfold improveBlocks
      rw [wrapSize_eq hsize]
      refine himprove.bind_of_forall fun result => ?_
      obtain ⟨improved, nodes⟩ := result
      dsimp only
      split
      · exact hreduce.discard.bind_of_forall fun _ => ih hrest _
      · exact ih hrest _

theorem neverRefuses_searchWindows (goal : α) {windows : List Window}
    (hwindows : ∀ w ∈ windows, w.start + w.length ≤ n ∧ w.free + 2 ≤ w.length)
    (stats : Statistics) :
    NeverRefuses (fun _ : LatticeBasis α n m => True) (p.searchWindows goal windows stats) := by
  induction windows generalizing stats with
  | nil => exact Throws.pure _
  | cons w rest ih =>
      obtain ⟨⟨hstop, hfree⟩, hrest⟩ := List.forall_mem_cons.mp hwindows
      have hsearch := (refusesFirst_searchWindow (m := m) p.limits w.start w.length w.free w.start
        goal).neverRefuses ⟨hlimits, hstop, le_rfl, hfree⟩
      have hreduce : NeverRefuses (fun _ => True)
          (p.lll.reduceRange 0 (w.start + w.length) : Reduction α n m _) :=
        (p.lll.refusesFirst_reduceRange _ _).neverRefuses ⟨hlll, by omega, hstop⟩
      unfold searchWindows
      refine hsearch.bind_of_forall fun findings => ?_
      extract_lets inserted total onward
      have honward (u : PUnit) : NeverRefuses (fun _ => True) (onward u) := by
        refine Throws.get_bind fun L _ => ?_
        split
        · exact Throws.pure _
        · exact (ih hrest total).of_forall
      split
      · exact hreduce.discard.bind_of_forall honward
      · exact honward ⟨⟩

end Tours

variable [Enumeration.TellsZero α]

theorem refusesFirst_enumerationTour (p : BlockReduction α) {blocksize : Nat} (hn : 0 < n)
    (hsizes : ∀ kappa < n - 1, kappa + blocksize < 2 ^ 64) :
    RefusesFirst (fun _ : LatticeBasis α n m => True) (p.checkTour blocksize = .ok ())
      (p.enumerationTour blocksize) := by
  unfold enumerationTour
  refine RefusesFirst.ofExcept_bind (fun hvalid => ⟨(), hvalid⟩) fun _ hcheck => ?_
  obtain ⟨hlll, hlimits, hblocksize⟩ := checkTour_eq_ok hcheck
  have hreduce : NeverRefuses (fun _ => True) (p.lll.reduce : Reduction α n m _) :=
    (p.lll.refusesFirst_reduce hn).neverRefuses hlll
  refine RefusesFirst.of_neverRefuses (hreduce.discard.bind_of_forall fun _ => ?_)
  refine neverRefuses_improveBlocks hlll hlimits hblocksize (fun kappa h => ?_) _
  have hkappa := List.mem_range.mp h
  exact ⟨hkappa, hsizes kappa hkappa⟩

theorem refusesFirst_jumpingTour (p : BlockReduction α) {tour : JumpingTour α} (hn : 0 < n)
    (hsizes : tour.blocksize + tour.extraFreeDimensions < 2 ^ 64) :
    RefusesFirst (fun _ : LatticeBasis α n m => True) (p.checkTour tour.blocksize = .ok ())
      (p.jumpingTour tour) := by
  unfold jumpingTour
  refine RefusesFirst.ofExcept_bind (fun hvalid => ⟨(), hvalid⟩) fun _ hcheck => ?_
  obtain ⟨hlll, hlimits, hblocksize⟩ := checkTour_eq_ok hcheck
  have hreduce : NeverRefuses (fun _ => True) (p.lll.reduce : Reduction α n m _) :=
    (p.lll.refusesFirst_reduce hn).neverRefuses hlll
  have hwindows : ∀ w ∈ tour.windows n, w.start + w.length ≤ n ∧ w.free + 2 ≤ w.length :=
    fun _ hw => JumpingTour.fits_of_mem_windows hblocksize hsizes hw
  refine RefusesFirst.of_neverRefuses (hreduce.discard.bind_of_forall fun _ => ?_)
  refine (neverRefuses_searchWindows hlll hlimits tour.goal hwindows _).bind_of_forall
    fun stats => ?_
  exact hreduce.discard.bind_of_forall fun _ => Throws.pure _

end BlockReduction

/-! ## Operations -/

namespace ReferenceEngine

/-- Work on a basis beside the counters refuses what the work refuses. -/
theorem refusesFirst_onBasis {P : LatticeBasis α n m → Prop} {valid : Prop}
    {work : {n m : Nat} → Reduction α n m τ} (h : RefusesFirst P valid (work : Reduction α n m τ)) :
    RefusesFirst (fun s => ∃ L, s.2 = ⟨L⟩ ∧ P L) valid (onBasis work) := by
  rintro ⟨totals, B⟩ ⟨L, rfl, hL⟩ s e s' rfl hfail hrefusal
  unfold onBasis at hfail
  dsimp only at hfail
  split at hfail
  · cases hfail
  · rename_i L' hw
    cases hfail
    obtain ⟨rfl, hnot⟩ := h L hL L e L' rfl hw hrefusal
    exact ⟨rfl, hnot⟩

end ReferenceEngine

namespace BasisOperation

open LatticeBasis ReferenceEngine

/-- The arguments that an operation accepts on a basis of `n` rows.  Those of a tour do not depend
on the basis. -/
def Accepts [Scalar α] (n : Nat) : BasisOperation α → Prop
  | .orthogonalize => True
  | .insertCombination start coefficients =>
    start + coefficients.length ≤ n ∧ ∃ x ∈ coefficients, x ≠ 0
  | .reduce p => p.validate = .ok ()
  | .reduceRange p start stop => p.validate = .ok () ∧ start < stop ∧ stop ≤ n
  | .improveBlock p start stop => p.validate = .ok () ∧ start < stop ∧ stop ≤ n
  | .searchWindow p first window free liftTo _ =>
    p.validate = .ok () ∧ first + window ≤ n ∧ liftTo ≤ first ∧ free + 2 ≤ window
  | .enumerationTour p blocksize => p.checkTour blocksize = .ok ()
  | .jumpingTour p tour => p.checkTour tour.blocksize = .ok ()
  | .engineTour p order => p.checkTour order.blocksize = .ok ()
  | .engineSearch p w _ => p.limits.validate = .ok () ∧ 2 ≤ w.length ∧ w.start + 2 ≤ n
  | .clean _ => True

/-- The sums of sizes that place the blocks and the windows of a tour of a basis of `n` rows are
words. -/
def SizesFit (n : Nat) : BasisOperation α → Prop
  | .enumerationTour _ blocksize | .engineTour _ (.enumeration blocksize) =>
    ∀ kappa < n - 1, kappa + blocksize < 2 ^ 64
  | .jumpingTour _ tour => tour.blocksize + tour.extraFreeDimensions < 2 ^ 64
  | .engineTour _ (.jumping blocksize _ extraFree _ _) => blocksize + extraFree < 2 ^ 64
  | _ => True

theorem refusesFirst_perform [Scalar α] [Enumeration.TellsZero α] (hn : 0 < n)
    (hstandard : (LLL.standard : LLL α).validate = .ok ()) (operation : BasisOperation α)
    (hsizes : operation.SizesFit n) :
    RefusesFirst (fun s => ∃ L : LatticeBasis α n m, s.2 = ⟨L⟩ ∧ True)
      (operation.Accepts n) operation.perform := by
  have hcharge (work : Statistics) {P : Statistics × SomeLatticeBasis α → Prop} :
      NeverRefuses P (charge work) := Throws.modify _
  cases operation with
  | orthogonalize =>
      exact refusesFirst_onBasis (.of_neverRefuses neverRefuses_orthogonalize)
  | insertCombination start coefficients =>
      unfold BasisOperation.perform
      apply refusesFirst_onBasis
      exact refusesFirst_insertCombination start coefficients
  | reduce p => exact (refusesFirst_onBasis (p.refusesFirst_reduce hn)).discard
  | reduceRange p start stop =>
      exact (refusesFirst_onBasis (p.refusesFirst_reduceRange _ _)).discard
  | improveBlock p start stop =>
      exact (refusesFirst_onBasis (refusesFirst_improveBlock p _ _)).discard
  | searchWindow p first window free liftTo goal =>
      exact (refusesFirst_onBasis (refusesFirst_searchWindow p _ _ _ _ _)).discard
  | enumerationTour p blocksize =>
      exact (refusesFirst_onBasis (p.refusesFirst_enumerationTour hn hsizes)).discard
  | jumpingTour p tour =>
      exact (refusesFirst_onBasis (p.refusesFirst_jumpingTour hn hsizes)).discard
  | engineTour p order =>
      refine (refusesFirst_onBasis ?_).bind (Ensures.trivial _) fun work => hcharge work
      cases order with
      | enumeration b => exact p.refusesFirst_enumerationTour hn hsizes
      | jumping b jump extra free goal => exact p.refusesFirst_jumpingTour hn hsizes
  | engineSearch p w goal =>
      refine ((refusesFirst_onBasis ?_).bind (Ensures.trivial _) fun findings =>
        (hcharge _).bind_of_forall fun _ => Throws.pure _).discard
      refine (refusesFirst_searchWindow p.limits _ _ _ _ _).mono (fun _ hs => hs) ?_
      rintro ⟨hvalid, hlength, hstart⟩
      exact ⟨hvalid, by omega, le_rfl, by omega⟩
  | clean p =>
      exact ((refusesFirst_onBasis (LLL.refusesFirst_reduce .standard hn)).mono (fun _ hs => hs)
        fun _ => hstandard).discard

open Fraction

end BasisOperation

end EmbeddingAttack
