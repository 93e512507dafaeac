import EmbeddingAttack.Lattice.Insertion
import EmbeddingAttack.Lattice.LLL
import EmbeddingAttack.Proofs.Arithmetic.ScalarHom
import EmbeddingAttack.Proofs.Computation

/-!
# Reductions carried to other numbers

The operations on a basis treat all numbers alike.  Where a map of numbers respects the operations
on scalars, an operation that succeeds on a basis does the same on its image: the cached numbers are
mapped, and the rows are the same.  The parameters of LLL have to be valid among either numbers,
since they are compared with a root.
-/

namespace EmbeddingAttack

variable {ε ε' σ σ' τ τ' ρ ρ' : Type}

/-- Where the first computation succeeds, the second does so from the image of the state, with the
image of the result. -/
def Carries (g : σ → σ') (k : τ → τ') (x : EStateM ε σ τ) (y : EStateM ε' σ' τ') : Prop :=
  ∀ s a s', x s = .ok a s' → y (g s) = .ok (k a) (g s')

namespace Carries

variable {g : σ → σ'} {k : τ → τ'} {h : ρ → ρ'} {x : EStateM ε σ τ} {y : EStateM ε' σ' τ'}

theorem pure (a : τ) : Carries g k (pure a : EStateM ε σ τ) (pure (k a) : EStateM ε' σ' τ') := by
  intro s b s' hb
  cases hb
  rfl

theorem throw (e : ε) : Carries g k (throw e : EStateM ε σ τ) y := by
  intro s b s' hb
  cases hb

theorem modify {u : σ → σ} {u' : σ' → σ'} (hu : ∀ s, u' (g s) = g (u s)) :
    Carries g id (modify u : EStateM ε σ PUnit) (modify u' : EStateM ε' σ' PUnit) := by
  intro s b s' hb
  cases hb
  exact congrArg (EStateM.Result.ok _) (hu s)

theorem bind {p : τ → EStateM ε σ ρ} {q : τ' → EStateM ε' σ' ρ'} (hx : Carries g k x y)
    (hp : ∀ a, Carries g h (p a) (q (k a))) : Carries g h (x >>= p) (y >>= q) := by
  intro s b s' hb
  obtain ⟨a, t, ha, hb⟩ := exists_of_bind_ok hb
  exact (bind_of_ok (hx s a t ha)).trans (hp a t b s' hb)

theorem get_bind {p : σ → EStateM ε σ τ} {q : σ' → EStateM ε' σ' τ'}
    (hp : ∀ s, Carries g k (p s) (q (g s))) :
    Carries g k ((MonadState.get : EStateM ε σ σ) >>= p)
      ((MonadState.get : EStateM ε' σ' σ') >>= q) :=
  fun s b s' hb => hp s s b s' hb

theorem ofExcept_bind {x : Except ε ρ} {y : Except ε' ρ'} {p : ρ → EStateM ε σ τ}
    {q : ρ' → EStateM ε' σ' τ'} (hx : ∀ a, x = .ok a → y = .ok (h a))
    (hp : ∀ a, Carries g k (p a) (q (h a))) :
    Carries g k (ofExcept x >>= p) (ofExcept y >>= q) := by
  intro s b s' hb
  cases x with
  | error e => cases hb
  | ok a =>
      rw [hx a rfl]
      exact hp a s b s' hb

theorem ite {c c' : Prop} [Decidable c] [Decidable c'] {x' : EStateM ε σ τ}
    {y' : EStateM ε' σ' τ'} (hc : c' ↔ c) (hx : Carries g k x y) (hx' : Carries g k x' y') :
    Carries g k (if c then x else x') (if c' then y else y') := by
  by_cases h : c
  · rwa [if_pos h, if_pos (hc.mpr h)]
  · rwa [if_neg h, if_neg (mt hc.mp h)]

/-- A check in front. -/
theorem guard {c c' : Prop} [Decidable c] [Decidable c'] {e : ε} {e' : ε'}
    {p : PUnit → EStateM ε σ τ} {q : PUnit → EStateM ε' σ' τ'} (hc : c' ↔ c)
    (hp : Carries g k (p ⟨⟩) (q ⟨⟩)) :
    Carries g k (if c then MonadExcept.throw e >>= p else p ⟨⟩)
      (if c' then MonadExcept.throw e' >>= q else q ⟨⟩) := by
  refine ite hc ?_ hp
  intro s b s' hb
  cases hb

end Carries

variable {α β : Type} {n m : Nat}

namespace LatticeBasis

/-- The basis with its numbers mapped. -/
def map (f : α → β) (L : LatticeBasis α n m) : LatticeBasis β n m :=
  ⟨L.basis, L.mu.map (Vector.map f), L.r.map f⟩

theorem map_modifyCoefficients (f : α → β) (L : LatticeBasis α n m) (i : Nat)
    {u : Vector α n → Vector α n} {u' : Vector β n → Vector β n}
    (hu : ∀ row, u' (row.map f) = (u row).map f) :
    (L.map f).modifyCoefficients i u' = (L.modifyCoefficients i u).map f := by
  refine LatticeBasis.ext rfl ?_ rfl
  ext k hk : 1
  simp only [modifyCoefficients, map, Vector.getElem_mk, Array.getElem_modify, Vector.toArray_map,
    Array.getElem_map, Vector.getElem_toArray, Vector.getElem_map]
  split
  · exact hu _
  · rfl

theorem map_setLength (f : α → β) (L : LatticeBasis α n m) (i : Nat) (x : α) :
    (L.map f).setLength i (f x) = (L.setLength i x).map f := by
  refine LatticeBasis.ext rfl rfl ?_
  simp [setLength, map]

end LatticeBasis

theorem map_fold (f : σ → σ') (k : Nat) {u : (i : Nat) → i < k → σ → σ}
    {u' : (i : Nat) → i < k → σ' → σ'} (hu : ∀ i hi x, f (u i hi x) = u' i hi (f x)) (x : σ) :
    f (Nat.fold k u x) = Nat.fold k u' (f x) := by
  induction k with
  | zero => rfl
  | succ k ih => rw [Nat.fold_succ, Nat.fold_succ, hu, ih fun i hi => hu i (by omega)]

theorem getD_map (f : α → β) (xs : Array α) (k : Nat) (x : α) :
    (xs.map f).getD k (f x) = f (xs.getD k x) := by
  simp only [Array.getD_eq_getD_getElem?, Array.getElem?_map]
  cases xs[k]? <;> rfl

variable [Scalar α] [Scalar β] (f : α → β) [hom : ScalarHom f]

open ScalarHom

theorem getD_map_array (xs : Array α) (k : Nat) : (xs.map f).getD k 0 = f (xs.getD k 0) := by
  rw [← getD_map f, hom.image_zero]

theorem getD_map_vector (xs : Vector α n) (k : Nat) : (xs.map f).getD k 0 = f (xs.getD k 0) := by
  exact getD_map_array f xs.toArray k

theorem map_dot (x y : Vector Int m) : f (IntMatrix.dot x y) = IntMatrix.dot x y := by
  unfold IntMatrix.dot
  rw [← hom.image_zero]
  refine map_fold f m (fun i hi s => ?_) 0
  rw [hom.image_add, hom.image_mul, hom.image_intCast, hom.image_intCast]

/-! ## Orthogonalisation -/

namespace LatticeBasis

variable (L : LatticeBasis α n m)

theorem coefficient_map (i j : Nat) : (L.map f).coefficient i j = f (L.coefficient i j) := by
  unfold coefficient
  split
  · split
    · simp [map]
    · exact hom.image_zero.symm
  · exact hom.image_zero.symm

theorem length_map (i : Nat) : (L.map f).length i = f (L.length i) := by
  unfold length
  split
  · simp [map]
  · exact hom.image_zero.symm

theorem map_residue (i j : Nat) (row : Array α) :
    f (L.residue i j row) = (L.map f).residue i j (row.map f) := by
  unfold residue
  refine (map_fold f j (fun k _ s => ?_) _).trans (congrArg _ (map_dot f _ _))
  rw [hom.image_sub, hom.image_mul, hom.image_mul, coefficient_map, getD_map_array, length_map]

theorem map_projections (i j : Nat) :
    (L.projections i j).map f = (L.map f).projections i j := by
  induction j with
  | zero => exact Array.map_empty
  | succ j ih =>
      unfold projections
      rw [Array.map_push, hom.image_div, map_residue f, ← length_map f, ih]

theorem map_residualSquare (i : Nat) (row : Array α) :
    f (L.residualSquare i row) = (L.map f).residualSquare i (row.map f) := by
  unfold residualSquare
  refine (map_fold f i (fun k _ s => ?_) _).trans (congrArg _ (map_dot f _ _))
  rw [hom.image_sub, hom.image_mul, hom.image_mul, getD_map_array, length_map]

theorem carries_orthogonalizeRow (i : Nat) :
    Carries (map f) id (orthogonalizeRow i : Reduction α n m Unit)
      (orthogonalizeRow i : Reduction β n m Unit) := by
  unfold orthogonalizeRow
  refine Carries.get_bind fun L => ?_
  dsimp only
  rw [← map_projections, ← map_residualSquare]
  refine Carries.bind (Carries.modify fun L => ?_) fun _ => ?_
  · refine map_modifyCoefficients f L i fun row => ?_
    ext j hj
    simp only [Vector.getElem_mapIdx, Vector.getElem_map]
    split
    · exact getD_map f _ j _
    · rfl
  refine Carries.guard ?_ (Carries.modify fun L => ?_)
  · rw [pos_map f, isFinite_map]
  · rw [map_setLength]
    refine map_modifyCoefficients f _ i fun row => ?_
    ext j hj
    simp only [Vector.getElem_setIfInBounds, Vector.getElem_map]
    split
    · exact hom.image_one.symm
    · rfl

theorem carries_orthogonalize :
    Carries (map f) id (orthogonalize : Reduction α n m Unit)
      (orthogonalize : Reduction β n m Unit) := by
  have hrows (k : Nat) : Carries (map f) id (orthogonalizeRows k : Reduction α n m Unit)
      (orthogonalizeRows k : Reduction β n m Unit) := by
    induction k with
    | zero => exact Carries.pure _
    | succ k ih => exact ih.bind fun _ => carries_orthogonalizeRow f k
  exact hrows n

theorem ofMatrix_map {M : IntMatrix n m} {L : LatticeBasis α n m} (h : ofMatrix M = .ok L) :
    ofMatrix M = .ok (L.map f) := by
  unfold ofMatrix at h ⊢
  split at h
  · cases h
  rename_i hshape
  rw [if_neg hshape]
  split at h
  · cases h
  rename_i hrank
  rw [if_neg hrank]
  dsimp only at h ⊢
  split at h
  · rename_i hrun
    cases h
    have hrun' := carries_orthogonalize f _ _ _ hrun
    simp only [map, Vector.map_replicate, hom.image_zero] at hrun'
    rw [hrun']
    rfl
  · cases h

theorem carries_insertCombination (start : Nat) (coefficients : List Int) :
    Carries (map f) id (insertCombination start coefficients : Reduction α n m Unit)
      (insertCombination start coefficients : Reduction β n m Unit) := by
  unfold insertCombination
  rw [integers_map f]
  refine Carries.guard Iff.rfl <| Carries.guard Iff.rfl <| Carries.guard Iff.rfl ?_
  exact Carries.bind (Carries.modify fun _ => rfl) fun _ => carries_orthogonalize f

end LatticeBasis

/-! ## LLL -/

namespace LLL

open LatticeBasis

/-- The parameters with their numbers mapped. -/
def map (f : α → β) (p : LLL α) : LLL β :=
  ⟨f p.delta, f p.eta, p.maxIterations, f p.tolerance⟩

theorem map_standard : (standard : LLL α).map f = standard := by
  simp only [map, standard, hom.image_ofScientific]

variable (p : LLL α)

theorem map_reduceAlong (k j : Nat) (L : LatticeBasis α n m) :
    (reduceAlong p k j L).map f = reduceAlong (p.map f) k j (L.map f) := by
  unfold reduceAlong
  dsimp only
  rw [coefficient_map, ← hom.image_abs, ← hom.image_round, toWord_map f, integers_map f]
  have hsmall : f (Scalar.abs (L.coefficient k j)) ≤ (p.map f).eta ↔
      Scalar.abs (L.coefficient k j) ≤ p.eta := hom.le_iff _ _
  by_cases h : Scalar.abs (L.coefficient k j) ≤ p.eta
  · rw [if_pos h, if_pos (hsmall.mpr h)]
  rw [if_neg h, if_neg (mt hsmall.mp h)]
  refine (map_modifyCoefficients f (L.setBasis _) k fun row => ?_).symm
  have halong : (if h : j < n then (L.map f).mu[j] else Vector.replicate n 0) =
      (if h : j < n then L.mu[j] else Vector.replicate n 0).map f := by
    split
    · simp [LatticeBasis.map]
    · rw [Vector.map_replicate, hom.image_zero]
  ext i hi
  simp only [Vector.getElem_mapIdx, Vector.getElem_map, halong, getD_map_vector]
  split
  · rw [hom.image_sub, hom.image_mul]
  · split
    · rw [hom.image_sub]
    · rfl

theorem map_sizeReduceBelow (k j : Nat) (L : LatticeBasis α n m) :
    (sizeReduceBelow p k j L).map f = sizeReduceBelow (p.map f) k j (L.map f) := by
  induction j generalizing L with
  | zero => rfl
  | succ j ih =>
      unfold sizeReduceBelow
      rw [ih, map_reduceAlong]

theorem map_exchangeData (k : Nat) (square : α) (L : LatticeBasis α n m) :
    (exchangeData k square L).map f = exchangeData k (f square) (L.map f) := by
  have hrow (i : Nat) : (if h : i < n then (L.map f).mu[i] else Vector.replicate n 0) =
      (if h : i < n then L.mu[i] else Vector.replicate n 0).map f := by
    split
    · simp [LatticeBasis.map]
    · rw [Vector.map_replicate, hom.image_zero]
  unfold exchangeData
  extract_lets c below c' upper lower exchanged mu d above d' upper' lower' exchanged' mu'
  have hd : d = f c := coefficient_map f L _ _
  have habove : above = f below := length_map f L _
  have hd' : d' = f c' := by
    dsimp only [d', c']
    rw [hom.image_div, hom.image_mul, hd, habove]
  have hexchanged : exchanged' = exchanged.map f := by
    refine (congrArg (modifyCoefficients · k _) (map_modifyCoefficients f L (k - 1)
      fun row => ?_)).trans (map_modifyCoefficients f _ k fun row => ?_)
    · ext j hj
      simp only [Vector.getElem_mapIdx, Vector.getElem_map, lower', lower, hrow, getD_map_vector]
      split <;> rfl
    · ext j hj
      simp only [Vector.getElem_mapIdx, Vector.getElem_map, upper', upper, hrow, getD_map_vector]
      split
      · rfl
      · split
        · exact hd'
        · rfl
  have hmu : mu' = mu.map (Vector.map f) := by
    ext i hi j hj
    simp only [mu', mu, Vector.getElem_mapIdx, Vector.getElem_map, hexchanged, LatticeBasis.map]
    split
    · simp only [getD_map_vector, Vector.getElem_setIfInBounds, hd, hd', Vector.getElem_map]
      split
      · rw [hom.image_add, hom.image_mul, hom.image_sub, hom.image_mul]
      · split
        · rw [hom.image_sub, hom.image_mul]
        · rfl
    · exact Vector.getElem_map ..
  have hwhole : { exchanged' with mu := mu' } = LatticeBasis.map f { exchanged with mu } :=
    LatticeBasis.ext (congrArg basis hexchanged :) hmu (congrArg r hexchanged :)
  rw [← map_setLength, ← map_setLength, hom.image_div, hom.image_mul, ← length_map f L k, ← habove,
    ← hwhole]

theorem carries_exchange (k : Nat) :
    Carries (LatticeBasis.map f) id (exchange k : Reduction α n m Unit)
      (exchange k : Reduction β n m Unit) := by
  unfold exchange
  refine Carries.bind (Carries.modify fun _ => rfl) fun _ => Carries.get_bind fun L => ?_
  dsimp only
  rw [coefficient_map, length_map, length_map, ← hom.image_mul, ← hom.image_mul, ← hom.image_add]
  refine Carries.guard ?_ (Carries.modify fun L => (map_exchangeData f k _ L).symm)
  rw [pos_map f]

theorem lovasz_map (L : LatticeBasis α n m) (k : Nat) :
    lovasz (p.map f) (L.map f) k = lovasz p L k := by
  unfold lovasz
  dsimp only
  rw [coefficient_map, length_map, length_map, map, ← hom.image_mul, ← hom.image_sub,
    ← hom.image_mul, decide_eq_decide.mpr (hom.le_iff _ _)]

theorem carries_run (start stop budget k : Nat) (stats : Statistics) :
    Carries (LatticeBasis.map f) id (run p start stop budget k stats : Reduction α n m Statistics)
      (run (p.map f) start stop budget k stats : Reduction β n m Statistics) := by
  induction budget generalizing k stats with
  | zero =>
      unfold run
      exact Carries.ite Iff.rfl (Carries.throw _) (Carries.pure _)
  | succ budget ih =>
      unfold run
      refine Carries.ite Iff.rfl ?_ (Carries.pure _)
      refine Carries.bind (Carries.modify fun L => (map_sizeReduceBelow f p k k L).symm) fun _ => ?_
      refine Carries.get_bind fun L => ?_
      refine Carries.ite (by rw [lovasz_map]) (ih _ _) ?_
      exact (carries_exchange f k).bind fun _ => ih _ _

theorem carries_reduceRange (hp : (p.map f).validate = .ok ()) (start stop : Nat) :
    Carries (LatticeBasis.map f) id (p.reduceRange start stop : Reduction α n m Statistics)
      ((p.map f).reduceRange start stop : Reduction β n m Statistics) := by
  unfold reduceRange
  refine Carries.ofExcept_bind (h := id) (fun _ _ => hp) fun _ => ?_
  refine Carries.guard Iff.rfl ?_
  refine (carries_orthogonalize f).bind fun _ => ?_
  extract_lets rest rest'
  have hrest (u : Unit) : Carries (LatticeBasis.map f) id (rest u) (rest' u) :=
    (carries_run f p start stop _ _ _).bind fun stats =>
      (carries_orthogonalize f).bind fun _ => Carries.pure stats
  refine Carries.ite Iff.rfl ?_ (hrest ⟨⟩)
  exact Carries.bind (Carries.modify fun L => (map_sizeReduceBelow f p start start L).symm) hrest

end LLL

/-! ## Fractions among the reals -/

/-- The integers of a computation on the reals fit in words where it is carried over from fractions
on which it succeeds with the same result in words and with integers of any size. -/
theorem FitsWords.carried {g : σ → σ'} {k : τ → τ'} {x x' : EStateM ε σ τ}
    {y : Scalar ℝ → EStateM ε' σ' τ'} (hwords : Carries g k x (y realWords))
    (hexact : Carries g k x' (y realScalar)) {s s' : σ} {a : τ} (hrun : x s = .ok a s')
    (hrun' : x' s = .ok a s') : FitsWords realWords fun S => y S (g s) :=
  (hwords s a s' hrun).trans (hexact s a s' hrun').symm

theorem LLL.validate_standard : (standard : LLL ℝ).validate = .ok () := by
  have hfactor : (0.25 : ℝ) < 0.99 ∧ (0.99 : ℝ) < 1 := by norm_num
  have hbound : (0.5 : ℝ) ≤ 0.51 ∧ (0.51 : ℝ) < Real.sqrt 0.99 :=
    ⟨by norm_num, Real.lt_sqrt_of_sq_lt (by norm_num)⟩
  unfold validate
  refine guard_eq_ok.mpr ⟨not_not.mpr hfactor, ?_⟩
  exact guard_eq_ok.mpr ⟨not_not.mpr hbound, rfl⟩

theorem LLL.validate_standard_words : @LLL.validate ℝ realWords standard = .ok () :=
  validate_standard

namespace Fraction

theorem map_standard : (LLL.standard : LLL Fraction).map toReal = LLL.standard :=
  @LLL.map_standard Fraction ℝ scalar realWords toReal _

variable {L L' : LatticeBasis Fraction n m} {start stop : Nat} {stats : Statistics}

theorem ofMatrix_toReal {M : IntMatrix n m} (h : LatticeBasis.ofMatrix M = .ok L) :
    @LatticeBasis.ofMatrix ℝ realWords n m M = .ok (L.map toReal) :=
  @LatticeBasis.ofMatrix_map Fraction ℝ n m scalar realWords toReal _ M L h

theorem coefficient_toReal {i j : Nat} {x : ℚ} (h : L.coefficient i j = x) :
    (L.map toReal).coefficient i j = (x : ℝ) :=
  (@LatticeBasis.coefficient_map Fraction ℝ n m scalar realWords toReal _ L i j).trans
    (congrArg toReal h)

theorem length_toReal {i : Nat} {x : ℚ} (h : L.length i = x) :
    (L.map toReal).length i = (x : ℝ) :=
  (@LatticeBasis.length_map Fraction ℝ n m scalar realWords toReal _ L i).trans (congrArg toReal h)

theorem orthogonalize_toReal (h : LatticeBasis.orthogonalize L = .ok () L') :
    @LatticeBasis.orthogonalize ℝ realWords n m (L.map toReal) = .ok () (L'.map toReal) :=
  @LatticeBasis.carries_orthogonalize Fraction ℝ n m scalar realWords toReal _ L () L' h

section Reduction

variable {p : LLL Fraction} {p' : LLL ℝ} (hp : p.map toReal = p') (hvalid : p'.validate = .ok ())
  (h : p.reduceRange start stop L = .ok stats L')

include hp hvalid h

theorem reduceRange_toReal :
    @LLL.reduceRange ℝ realWords n m p' start stop (L.map toReal) = .ok stats (L'.map toReal) := by
  subst hp
  exact @LLL.carries_reduceRange Fraction ℝ n m scalar realWords toReal _ p hvalid start stop L
    stats L' h

theorem fitsWords_reduceRange_toReal
    (h' : @LLL.reduceRange Fraction scalar.unbounded n m p start stop L = .ok stats L') :
    FitsWords realWords fun S => @LLL.reduceRange ℝ S n m p' start stop (L.map toReal) := by
  subst hp
  exact FitsWords.carried
    (@LLL.carries_reduceRange Fraction ℝ n m scalar realWords toReal _ p hvalid start stop)
    (@LLL.carries_reduceRange Fraction ℝ n m scalar.unbounded realScalar toReal _ p hvalid start
      stop) h h'

end Reduction

/-- A basis that LLL changes in two steps. -/
def slantedBasis : LatticeBasis Fraction 2 2 :=
  ⟨⟨#v[#v[2, 0], #v[3, 1]]⟩, #v[#v[1, 0], #v[(3 / 2 : ℚ), 1]], #v[(4 : ℚ), 1]⟩

/-- What LLL makes of the slanted basis. -/
def straightBasis : LatticeBasis Fraction 2 2 :=
  ⟨⟨#v[#v[-1, 1], #v[1, 1]]⟩, #v[#v[1, 0], #v[0, 1]], #v[(2 : ℚ), (2 : ℚ)]⟩

/-- What a size reduction and an exchange make of the slanted basis. -/
def exchangedBasis : LatticeBasis Fraction 2 2 :=
  ⟨⟨#v[#v[-1, 1], #v[2, 0]]⟩, #v[#v[1, 0], #v[(-1 : ℚ), 1]], #v[(2 : ℚ), (2 : ℚ)]⟩

/-- What a search makes of the slanted basis. -/
def shortenedBasis : LatticeBasis Fraction 2 2 :=
  ⟨⟨#v[#v[-1, 1], #v[-2, 0]]⟩, #v[#v[1, 0], #v[1, 1]], #v[(2 : ℚ), (2 : ℚ)]⟩

/-- What LLL makes of the shortened basis. -/
def squareBasis : LatticeBasis Fraction 2 2 :=
  ⟨⟨#v[#v[-1, 1], #v[-1, -1]]⟩, #v[#v[1, 0], #v[0, 1]], #v[(2 : ℚ), (2 : ℚ)]⟩

theorem length_slanted_zero : (slantedBasis.map toReal).length 0 = 4 :=
  (length_toReal rfl).trans (Rat.cast_ofNat 4)

theorem length_slanted_one : (slantedBasis.map toReal).length 1 = 1 :=
  (length_toReal rfl).trans Rat.cast_one

theorem slantedBasis_computed :
    LatticeBasis.ofMatrix slantedBasis.basis = .ok slantedBasis ∧
      LatticeBasis.orthogonalize slantedBasis = .ok () slantedBasis ∧
      LLL.standard.reduce slantedBasis = .ok ⟨1, 2, 0⟩ straightBasis ∧
      @LLL.reduce Fraction scalar.unbounded 2 2 (@LLL.standard _ scalar) slantedBasis =
        .ok ⟨1, 2, 0⟩ straightBasis := by
  decide +kernel

theorem ofMatrix_slantedBasis :
    @LatticeBasis.ofMatrix ℝ realWords 2 2 slantedBasis.basis = .ok (slantedBasis.map toReal) :=
  ofMatrix_toReal slantedBasis_computed.1

theorem orthogonalize_slanted :
    @LatticeBasis.orthogonalize ℝ realWords 2 2 (slantedBasis.map toReal) =
      .ok () (slantedBasis.map toReal) :=
  orthogonalize_toReal slantedBasis_computed.2.1

theorem reduce_slanted :
    @LLL.reduce ℝ realWords 2 2 LLL.standard (slantedBasis.map toReal) =
      .ok ⟨1, 2, 0⟩ (straightBasis.map toReal) :=
  reduceRange_toReal map_standard LLL.validate_standard slantedBasis_computed.2.2.1

theorem fitsWords_reduce_slanted : FitsWords realWords fun S =>
    @LLL.reduce ℝ S 2 2 (@LLL.standard _ realScalar) (slantedBasis.map toReal) :=
  have ⟨_, _, hwords, hexact⟩ := slantedBasis_computed
  fitsWords_reduceRange_toReal map_standard LLL.validate_standard hwords hexact

/-- A basis whose second row has `2 ^ 63` times the first in it, one more than a word can say. -/
def steepBasis : LatticeBasis Fraction 2 3 :=
  ⟨⟨#v[#v[-1, -1, 0], #v[-(2 ^ 63), -(2 ^ 63), 1]]⟩, #v[#v[1, 0], #v[(2 ^ 63 : ℚ), 1]],
    #v[(2 : ℚ), 1]⟩

/-- What LLL makes of the steep basis: it takes the first row off once too little. -/
def tiltedBasis : LatticeBasis Fraction 2 3 :=
  ⟨⟨#v[#v[-1, -1, 1], #v[-1, -1, 0]]⟩, #v[#v[1, 0], #v[(2 / 3 : ℚ), 1]], #v[(3 : ℚ), (2 / 3 : ℚ)]⟩

/-- The rows that a size reduction of the steep basis leaves, with a coefficient. -/
def shearedBasis (c : Fraction) : LatticeBasis Fraction 2 3 :=
  ⟨⟨#v[#v[-1, -1, 0], #v[-1, -1, 1]]⟩, #v[#v[1, 0], #v[c, 1]], #v[(2 : ℚ), 1]⟩

theorem length_tilted_zero : (tiltedBasis.map toReal).length 0 = 3 :=
  (length_toReal rfl).trans (Rat.cast_ofNat 3)

theorem steepBasis_computed :
    LatticeBasis.ofMatrix steepBasis.basis = .ok steepBasis ∧
      LatticeBasis.orthogonalize steepBasis = .ok () steepBasis ∧
      LLL.standard.reduce steepBasis = .ok ⟨1, 2, 0⟩ tiltedBasis := by
  decide +kernel

theorem ofMatrix_steepBasis :
    @LatticeBasis.ofMatrix ℝ realWords 2 3 steepBasis.basis = .ok (steepBasis.map toReal) :=
  ofMatrix_toReal steepBasis_computed.1

theorem orthogonalize_steep :
    @LatticeBasis.orthogonalize ℝ realWords 2 3 (steepBasis.map toReal) =
      .ok () (steepBasis.map toReal) :=
  orthogonalize_toReal steepBasis_computed.2.1

theorem reduce_steep :
    @LLL.reduce ℝ realWords 2 3 LLL.standard (steepBasis.map toReal) =
      .ok ⟨1, 2, 0⟩ (tiltedBasis.map toReal) :=
  reduceRange_toReal map_standard LLL.validate_standard steepBasis_computed.2.2

/-- A basis whose second row has `-2 ^ 63` times the first in it: to take this off, the first row
has to be added once more than a word can say. -/
def leaningBasis : LatticeBasis Fraction 2 3 :=
  ⟨⟨#v[#v[1, 1, 0], #v[-(2 ^ 63), -(2 ^ 63), 1]]⟩, #v[#v[1, 0], #v[(-(2 ^ 63) : ℚ), 1]],
    #v[(2 : ℚ), 1]⟩

theorem length_steep_zero : (steepBasis.map toReal).length 0 = 2 :=
  (length_toReal rfl).trans (Rat.cast_ofNat 2)

theorem length_leaning_zero : (leaningBasis.map toReal).length 0 = 2 :=
  (length_toReal rfl).trans (Rat.cast_ofNat 2)

theorem length_leaning_one : (leaningBasis.map toReal).length 1 = 1 :=
  (length_toReal rfl).trans Rat.cast_one

theorem leaningBasis_computed :
    LatticeBasis.ofMatrix leaningBasis.basis = .ok leaningBasis ∧
      LatticeBasis.orthogonalize leaningBasis = .ok () leaningBasis := by
  decide +kernel

theorem ofMatrix_leaningBasis :
    @LatticeBasis.ofMatrix ℝ realWords 2 3 leaningBasis.basis = .ok (leaningBasis.map toReal) :=
  ofMatrix_toReal leaningBasis_computed.1

theorem orthogonalize_leaning :
    @LatticeBasis.orthogonalize ℝ realWords 2 3 (leaningBasis.map toReal) =
      .ok () (leaningBasis.map toReal) :=
  orthogonalize_toReal leaningBasis_computed.2

end Fraction

end EmbeddingAttack
