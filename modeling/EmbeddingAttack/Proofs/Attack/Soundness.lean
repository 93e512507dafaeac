import EmbeddingAttack.Proofs.Embedding.FullRank
import EmbeddingAttack.Proofs.Engine.Alongside

/-!
# Reported solutions are solutions

A run that reports a solution reports the first row of a basis of the embedding.  Its squared
length, computed from the entries, meets the target.
-/

namespace EmbeddingAttack

namespace Attack

variable {α σ β κ : Type} [Scalar α]

/-- What is settled before the first tour belongs to one instance. -/
theorem exists_instance_of_prepare {A : Attack α} {n seed : Nat} {setup : Preparation α}
    (h : A.prepare n seed = .ok setup) :
    ∃ I m, A.source n A.parameters.alpha seed = .ok I ∧
      setup.parameters = ⟨I.n, I.alpha, I.q, m⟩ ∧
      setup.targetNorm = targetNorm A.parameters.goalMargin I.alpha I.q m ∧
      I.primalBasis m = .ok setup.basis := by
  unfold prepare at h
  dsimp only at h
  obtain ⟨_, _, h⟩ := bind_eq_ok.mp h
  obtain ⟨I, hI, h⟩ := bind_eq_ok.mp h
  obtain ⟨prediction, _, h⟩ := bind_eq_ok.mp h
  obtain ⟨parameters, hparameters, h⟩ := bind_eq_ok.mp h
  obtain ⟨schedule, _, h⟩ := bind_eq_ok.mp h
  obtain ⟨_, h⟩ := guard_eq_ok.mp h
  obtain ⟨basis, hbasis, h⟩ := bind_eq_ok.mp h
  cases h
  unfold LweInstance.parameters at hparameters
  split at hparameters
  · cases hparameters
  · cases hparameters
    exact ⟨I, _, hI, rfl, rfl, hbasis⟩

/-- A walk that is done has found the goal reached at a basis that the cleanup left. -/
theorem ensures_pursue (A : Attack α) {engine : Engine α σ β} {clock : Clock α σ}
    {setup : Preparation α} {context : RunContext α} {P Q : β → Prop} (h : engine.Keeps P Q)
    (hload : Ensures (fun _ => True) (engine.load setup.basis) fun basis _ => P basis) :
    Ensures (fun _ => True) (A.pursue engine clock setup context) fun finish _ =>
      finish.progress.phase = .done → ∃ basis, finish.firstRow = engine.firstRow basis ∧ Q basis ∧
        ∃ length, engine.firstLength basis = .ok length ∧ length ≤ setup.targetNorm := by
  unfold pursue
  extract_lets loop walk
  refine hload.bind fun basis => ?_
  have hwalk : Ensures (fun s => P s.basis) walk fun finish _ =>
      finish.progress.phase = .done → ∃ basis, finish.firstRow = engine.firstRow basis ∧ Q basis ∧
        loop.Reached basis := by
    refine Ensures.bind (Q := fun _ s => P s.basis) ?_ fun _ => ?_
    · exact (Run.ensures_work h.clean).mono (fun _ hs => hs) fun _ s hs => h.weaken _ hs
    refine Ensures.bind (loop.ensures_profile P) fun profile => ?_
    refine Ensures.bind (Run.ensures_modifyContext P _) fun _ => ?_
    refine Ensures.bind (Run.ensures_now P _) fun now => ?_
    refine Ensures.bind (Run.ensures_modifyContext P _) fun _ => ?_
    refine Ensures.bind (loop.ensures_drive h) fun progress => ?_
    extract_lets finish
    have hsettled : Ensures (fun s => loop.Settled P Q progress s.basis)
        (get : Run α σ β _) fun _ s => loop.Settled P Q progress s.basis :=
      Ensures.get.mono (fun _ hs => hs) fun _ _ hs => hs.2
    have hend (wallSeconds : α) : Ensures (fun s => loop.Settled P Q progress s.basis)
        (finish wallSeconds) fun finish _ => finish.progress.phase = .done →
          ∃ basis, finish.firstRow = engine.firstRow basis ∧ Q basis ∧ loop.Reached basis := by
      refine Ensures.get.bind fun t => Ensures.pure ?_
      rintro s ⟨rfl, hs⟩ hdone
      exact ⟨t.basis, rfl, hs.2 hdone⟩
    split
    · refine Ensures.bind (Run.ensures_now _ _) fun now => ?_
      refine Ensures.bind hsettled fun t => ?_
      exact Ensures.bind (Ensures.pure fun _ hs => hs) hend
    · exact Ensures.bind (Ensures.pure fun _ hs => hs) hend
  rintro world finish world' hbasis hfinish
  dsimp only at hfinish
  split at hfinish
  · rename_i s hs
    cases hfinish
    exact hwalk ⟨world, basis, context⟩ finish s hbasis hs
  · cases hfinish

/-- A run that reports an outcome has prepared an instance and pursued it until it was done. -/
theorem ensures_runWith (A : Attack α) (engine : Engine α σ β) (clock : Clock α σ) (n seed : Nat)
    (context : RunContext α) :
    Ensures (fun _ => True) (A.runWith engine clock n seed context) fun outcome _ =>
      ∃ setup finish world world', A.prepare n seed = .ok setup ∧
        A.pursue engine clock setup context world = .ok finish world' ∧
        finish.progress.phase = .done ∧ outcome.parameters = setup.parameters ∧
        outcome.solution = finish.firstRow := by
  unfold runWith
  refine Ensures.bind (Q := fun setup _ => A.prepare n seed = .ok setup)
    (Ensures.ofExcept fun _ _ hsetup _ => hsetup) fun setup => ?_
  refine Ensures.bind (Q := fun finish _ => A.prepare n seed = .ok setup ∧
    ∃ world world', A.pursue engine clock setup context world = .ok finish world') ?_
    fun finish => ?_
  · rintro ⟨world, files⟩ finish s' hsetup hfinish
    unfold Session.inWorld at hfinish
    dsimp only at hfinish
    split at hfinish
    · rename_i world' hpursue
      cases hfinish
      exact ⟨hsetup, world, world', hpursue⟩
    · cases hfinish
  dsimp only
  refine Ensures.guard fun hdone => ?_
  rw [not_not] at hdone
  refine Ensures.bind (Q := fun _ _ => A.prepare n seed = .ok setup ∧
    ∃ world world', A.pursue engine clock setup context world = .ok finish world') ?_
    fun artifact => ?_
  · exact fun s _ _ hs _ => hs
  · refine Ensures.pure ?_
    rintro s ⟨hsetup, world, world', hpursue⟩
    exact ⟨setup, finish, world, world', hsetup, hpursue, hdone, rfl, rfl⟩

/-- The first row of a basis of the embedding, once its cached length is fresh. -/
theorem exists_vector_of_lattice_eq {I : LweInstance α} {m : Nat} {B : SomeLatticeBasis α}
    {length : α} (hq : I.q ≠ 0) (hlattice : B.lattice = ⟨m + 1, m + 1, I.kannanLattice m⟩)
    (hfresh : 0 < B.rank → B.basis.FirstFresh) (hlength : B.basis.length? 0 = some length) :
    ∃ v : Vector Int (m + 1), B.basis.firstRow = v.toList ∧ (∃ i : Fin (m + 1), v[i] ≠ 0) ∧
      (fun i => v[i]) ∈ I.kannanLattice m ∧ (IntMatrix.dot v v : α) = length := by
  obtain @⟨rank, ambient, L⟩ := B
  simp only [SomeLatticeBasis.lattice, Prod.mk.injEq, Sigma.mk.injEq] at hlattice
  obtain ⟨rfl, rfl, hlattice⟩ := hlattice
  have hL : L.basis.lattice = I.kannanLattice m := eq_of_heq hlattice
  have hrow : L.basis.row 0 = L.basis.rows[0] := L.basis.row_of_lt (Nat.succ_pos m)
  have hvector : L.basis.vector 0 = fun i => (L.basis.row 0)[i] := by
    rw [hrow]
    rfl
  refine ⟨L.basis.row 0, rfl, ?_, ?_, ?_⟩
  · by_contra hzero
    rw [not_exists] at hzero
    apply LweInstance.vector_ne_zero hq hL 0
    rw [hvector]
    funext i
    exact not_not.mp (hzero i)
  · rw [← hL]
    have hmem := L.basis.vector_mem_lattice 0
    rwa [hvector] at hmem
  · have hr : L.length 0 = length := by
      simp only [LatticeBasis.length?, Vector.getElem?_eq_some_iff] at hlength
      obtain ⟨h0, hr⟩ := hlength
      rw [LatticeBasis.length, dif_pos h0, hr]
    rw [← hr]
    exact (hfresh (Nat.succ_pos m)).symm

theorem reports_short_vector_of_exact [ExactIntegers α] (A : Attack α) (p : BlockReduction α)
    (clock : Clock α (Statistics × κ)) (n seed : Nat) (context : RunContext α)
    {start stop : (Statistics × κ) × FileTree} {outcome : Outcome α}
    (hsource : ∀ n alpha seed I, A.source n alpha seed = .ok I → 2 ≤ I.q)
    (h : A.runWith ((ReferenceEngine.engine p).alongside κ) clock n seed context start =
      .ok outcome stop) :
    ∃ I m, A.source n A.parameters.alpha seed = .ok I ∧
      outcome.parameters = ⟨I.n, I.alpha, I.q, m⟩ ∧
      ∃ v : Vector Int (m + 1), outcome.solution = v.toList ∧
        (∃ i : Fin (m + 1), v[i] ≠ 0) ∧
        (∃ s : Fin I.n → ℤ, ∀ i : Fin m,
          v[i] ≡ ∑ j : Fin I.n, I.coefficient i j * s j + v[m] * I.c.getD i 0 [ZMOD I.q]) ∧
        (IntMatrix.dot v v : α) ≤ targetNorm A.parameters.goalMargin I.alpha I.q m := by
  obtain ⟨setup, finish, world, world', hsetup, hpursue, hdone, hparameters, hsolution⟩ :=
    A.ensures_runWith _ clock n seed context start outcome stop trivial h
  obtain ⟨I, m, hI, hsetupI, htarget, hbasis⟩ := exists_instance_of_prepare hsetup
  have hq := hsource _ _ _ _ hI
  have hexact : Embedding.reduceColumns (Scalar.integers α) I.q (I.columns m) =
      Embedding.reduceColumns .unbounded I.q (I.columns m) := by
    rw [integers_eq]
  obtain ⟨L, hL, hLlattice⟩ := LweInstance.lattice_of_primalBasis hq hexact hbasis
  have hkeeps := (ReferenceEngine.keeps p ⟨m + 1, m + 1, I.kannanLattice m⟩).alongside κ
  have hload : Ensures (fun _ => True)
      (((ReferenceEngine.engine p).alongside κ).load setup.basis)
      fun B _ => B.lattice = ⟨m + 1, m + 1, I.kannanLattice m⟩ := by
    rintro ⟨totals, other⟩ B t _ ht
    cases ht
    rw [hL, SomeLatticeBasis.lattice, hLlattice]
  obtain ⟨B, hrow, ⟨hlattice, hfresh⟩, length, hlength, hle⟩ :=
    A.ensures_pursue hkeeps hload world finish world' trivial hpursue hdone
  obtain ⟨v, hv, hne, hmem, hnorm⟩ := exists_vector_of_lattice_eq (by omega) hlattice hfresh
    (ReferenceEngine.length?_of_firstLength p hlength)
  refine ⟨I, m, hI, hparameters.trans hsetupI, v, ?_, hne, ?_, ?_⟩
  · rw [hsolution, hrow]
    exact hv
  · obtain ⟨s, hs⟩ := hmem
    exact ⟨s, hs⟩
  · rw [hnorm, ← htarget]
    exact hle

omit [Scalar α] in
/-- A run works with integers only where it prepares the instance and walks the schedule. -/
theorem fitsWords_runWith {S : Scalar α} {A : Attack α} {engine : (S : Scalar α) → @Engine α σ β S}
    {clock : Clock α σ} {n seed : Nat} {context : RunContext α} {world : σ} {files : FileTree}
    (hprepare : FitsWords S fun S => @prepare α S A n seed)
    (hpursue : ∀ setup ∈ (@prepare α S A n seed).toOption,
      FitsWords S fun S => @pursue α σ β S A (engine S) clock setup context world) :
    FitsWords S fun S => @runWith α σ β S A (engine S) clock n seed context (world, files) := by
  refine FitsWords.bind (x := fun S => ofExcept (@prepare α S A n seed)) ?_ fun setup s' h => ?_
  · exact congrArg (fun x => (ofExcept x : Session α σ _) (world, files)) hprepare
  refine FitsWords.bind (x := fun S => Session.inWorld (@pursue α σ β S A (engine S) clock setup
    context)) ?_ fun finish s' _ => rfl
  cases hsetup : @prepare α S A n seed with
  | error e =>
      rw [hsetup] at h
      cases h
  | ok setup' =>
      rw [hsetup] at h hpursue
      cases h
      have hpursue : @pursue α σ β S A (engine S) clock setup context world =
        @pursue α σ β S.unbounded A (engine S.unbounded) clock setup context world :=
          hpursue setup rfl
      unfold FitsWords Session.inWorld
      dsimp only
      rw [hpursue]

/-! ## A run on a small instance -/

deriving instance DecidableEq for InstanceParameters, Preparation, Table, TraceEntry, TraceReport,
  Finish

/-- Two samples with the secret `2` and the errors `1` and `-1`. -/
def smallInstance : LweInstance Fraction where
  n := 1
  q := 11
  alpha := 0.1
  a := [[1], [3]]
  c := [3, 5]
  secret := none

def smallAttack : Attack Fraction where
  parameters := { AttackParameters.standard with verbose := false, samples := some 2 }
  source _ _ _ := .ok smallInstance
  estimator _ _ _ _ _ := .ok ⟨2, 2, 2⟩

/-- A clock that moves on by a second at each reading. -/
def tickingClock : Clock Fraction (Statistics × Nat) := fun (totals, seconds) =>
  ((seconds : Fraction), (totals, seconds + 1))

def smallReduction : BlockReduction Fraction := .standard

def smallRun : EStateM.Result (Failure Fraction) ((Statistics × Nat) × FileTree)
    (Outcome Fraction) :=
  smallAttack.runWith ((ReferenceEngine.engine smallReduction).alongside Nat) tickingClock 1 0
    (.start .dummy 0) (({}, 0), .empty ["home"])

/-- Two samples whose modulus is a prime above `2 ^ 32`. -/
def wideInstance : LweInstance Fraction where
  n := 1
  q := 4294967311
  alpha := 0.1
  a := [[2748779079], [4294967302]]
  c := [0, 1000]
  secret := none

def wideAttack : Attack Fraction :=
  { smallAttack with source _ _ _ := .ok wideInstance }

def wideRun : EStateM.Result (Failure Fraction) ((Statistics × Nat) × FileTree)
    (Outcome Fraction) :=
  wideAttack.runWith ((ReferenceEngine.engine smallReduction).alongside Nat) tickingClock 1 0
    (.start .dummy 0) (({}, 0), .empty ["home"])

end Attack

end EmbeddingAttack
