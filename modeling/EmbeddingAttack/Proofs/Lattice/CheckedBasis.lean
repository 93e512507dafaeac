import EmbeddingAttack.Proofs.Lattice.Recomputation

/-!
# Checked access to a basis

A look-up beyond the end of a list gives no value here but a failure of its own, as it ends a
program that indexes its lists without asking.  The recomputation of the cached data and the
insertion of a combination look up each entry in this way, and never fail for it: they agree with
the operations that read on beyond the end.
-/

namespace EmbeddingAttack

variable {α : Type} {n m : Nat}

/-- What a look-up found, which must be there. -/
def fetch {β : Type} : Option β → Except (Failure α) β
  | some x => .ok x
  | none => .error .outOfRange

theorem fetch_getD {β : Type} {x : Option β} (h : x.isSome = true) (default : β) :
    (fetch x : Except (Failure α) β) = .ok (x.getD default) := by
  obtain ⟨b, rfl⟩ := Option.isSome_iff_exists.mp h
  rfl

theorem ofExcept_ok_bind {ε σ τ ρ : Type} (a : τ) (g : τ → EStateM ε σ ρ) :
    (ofExcept (.ok a : Except ε τ) >>= g : EStateM ε σ ρ) = g a :=
  rfl

namespace IntMatrix

theorem row?_of_lt (M : IntMatrix n m) {i : Nat} (hi : i < n) :
    (M.row? i : Except (Failure α) (Vector Int m)) = .ok (M.row i) := by
  rw [row?, dif_pos hi, row_of_lt M hi]
  rfl

variable [Scalar α]

/-- Turning a row of length zero needs no row. -/
def tryNegateRow (M : IntMatrix n m) (i : Nat) : Except (Failure α) (IntMatrix n m) :=
  if m ≠ 0 ∧ n ≤ i then throw .outOfRange else return M.negateRow (Scalar.integers α) i

def tryGather (M : IntMatrix n m) (position : Nat) (weight : Int) :
    List (Nat × Int) → Except (Failure α) (IntMatrix n m × Nat × Int)
  | [] => return (M, position, weight)
  | (i, x) :: rest => do
    let d := Bezout.of x weight
    let g := (Scalar.integers α).keep d.gcd
    let M ← M.tryCombineRows i position (x.tdiv g) (weight.tdiv g) (-d.right) d.left
    M.tryGather i g rest

def tryInsertCombination (M : IntMatrix n m) (start : Nat) :
    List (Nat × Int) → Except (Failure α) (IntMatrix n m)
  | [] => return M
  | (i, x) :: rest => do
    let (gathered, position, weight) ← M.tryGather i x rest
    let oriented ← if weight < 0 then gathered.tryNegateRow position else pure gathered
    oriented.tryRotateRowUp position start

theorem tryCombineRows_of_lt (M : IntMatrix n m) {i j : Nat} (a b c d : Int) (hi : i < n)
    (hj : j < n) : (M.tryCombineRows i j a b c d : Except (Failure α) (IntMatrix n m)) =
      .ok (M.combineRows (Scalar.integers α) i j a b c d) :=
  if_neg fun h => by omega

theorem tryNegateRow_of_lt (M : IntMatrix n m) {i : Nat} (hi : i < n) :
    (M.tryNegateRow i : Except (Failure α) (IntMatrix n m)) =
      .ok (M.negateRow (Scalar.integers α) i) :=
  if_neg fun h => by omega

omit [Scalar α] in
theorem tryRotateRowUp_of_lt (M : IntMatrix n m) {source : Nat} (target : Nat)
    (hsource : source < n) : (M.tryRotateRowUp source target : Except (Failure α) (IntMatrix n m)) =
      .ok (M.rotateRowUp source target) :=
  if_neg fun h => by omega

/-- Gathering ends in a row of the matrix. -/
theorem tryGather_eq (M : IntMatrix n m) {position : Nat} (weight : Int) {rows : List (Nat × Int)}
    (hposition : position < n) (hrows : ∀ r ∈ rows, r.1 < n) :
    (M.tryGather position weight rows : Except (Failure α) _) =
        .ok (M.gather (Scalar.integers α) position weight rows) ∧
      (M.gather (Scalar.integers α) position weight rows).2.1 < n := by
  induction rows generalizing M position weight with
  | nil => exact ⟨rfl, hposition⟩
  | cons r rest ih =>
      obtain ⟨i, x⟩ := r
      obtain ⟨hi, hrest⟩ := List.forall_mem_cons.mp hrows
      obtain ⟨heq, hlt⟩ := ih _ ((Scalar.integers α).keep (Bezout.of x weight).gcd) hi hrest
      refine ⟨?_, hlt⟩
      unfold tryGather
      exact bind_eq_ok.mpr ⟨_, M.tryCombineRows_of_lt _ _ _ _ hi hposition, heq⟩

theorem tryInsertCombination_eq (M : IntMatrix n m) (start : Nat) {rows : List (Nat × Int)}
    (hrows : ∀ r ∈ rows, r.1 < n) :
    (M.tryInsertCombination start rows : Except (Failure α) _) =
      .ok (M.insertCombination (Scalar.integers α) start rows) := by
  cases rows with
  | nil => rfl
  | cons r rest =>
      obtain ⟨i, x⟩ := r
      obtain ⟨hi, hrest⟩ := List.forall_mem_cons.mp hrows
      obtain ⟨hgather, hlt⟩ := M.tryGather_eq (α := α) x hi hrest
      unfold tryInsertCombination insertCombination
      refine bind_eq_ok.mpr ⟨_, hgather, ?_⟩
      dsimp only
      split
      · exact bind_eq_ok.mpr ⟨_, tryNegateRow_of_lt _ hlt, tryRotateRowUp_of_lt _ _ hlt⟩
      · exact tryRotateRowUp_of_lt _ _ hlt

end IntMatrix

namespace LatticeBasis

variable [Scalar α]

def tryLength (L : LatticeBasis α n m) (i : Nat) : Except (Failure α) α :=
  fetch (L.length? i)

def tryCoefficient (L : LatticeBasis α n m) (i j : Nat) : Except (Failure α) α := do
  let row ← fetch L.mu[i]?
  fetch row[j]?

theorem tryLength_of_lt (L : LatticeBasis α n m) {i : Nat} (hi : i < n) :
    L.tryLength i = .ok (L.length i) := by
  rw [tryLength, length?, Vector.getElem?_eq_getElem hi, length_of_lt L hi]
  rfl

theorem tryCoefficient_of_lt (L : LatticeBasis α n m) {i j : Nat} (hi : i < n) (hj : j < n) :
    L.tryCoefficient i j = .ok (L.coefficient i j) := by
  rw [tryCoefficient, Vector.getElem?_eq_getElem hi]
  refine bind_eq_ok.mpr ⟨_, rfl, ?_⟩
  rw [Vector.getElem?_eq_getElem hj, coefficient_of_lt L hi hj]
  rfl

/-! ## Orthogonalisation -/

/-- What is left of the product of the rows `i` and `j` after the first `k` directions. -/
def tryResidue (L : LatticeBasis α n m) (i j : Nat) (row : Array α) :
    (k : Nat) → Except (Failure α) α
  | 0 => return IntMatrix.dot (← L.basis.row? i) (← L.basis.row? j)
  | k + 1 => do
    let s ← tryResidue L i j row k
    return s - (← L.tryCoefficient j k) * (← fetch row[k]?) * (← L.tryLength k)

def tryProjections (L : LatticeBasis α n m) (i : Nat) : (j : Nat) → Except (Failure α) (Array α)
  | 0 => return #[]
  | j + 1 => do
    let row ← tryProjections L i j
    return row.push ((← tryResidue L i j row j) / (← L.tryLength j))

/-- What is left of the square of row `i` after the first `k` directions. -/
def tryResidualSquare (L : LatticeBasis α n m) (i : Nat) (row : Array α) :
    (k : Nat) → Except (Failure α) α
  | 0 => return IntMatrix.dot (← L.basis.row? i) (← L.basis.row? i)
  | k + 1 => do
    let s ← tryResidualSquare L i row k
    return s - (← fetch row[k]?) * (← fetch row[k]?) * (← L.tryLength k)

/-- The data are written to row `i`, which must be there. -/
def tryOrthogonalizeRow (i : Nat) : Reduction α n m Unit := do
  let L ← get
  let row ← ofExcept (L.tryProjections i i)
  let square ← ofExcept (L.tryResidualSquare i row i)
  if n ≤ i then throw .outOfRange
  modify fun L => L.modifyCoefficients i fun old =>
    old.mapIdx fun j x => if j < i then row.getD j x else x
  if ¬ 0 < square ∨ Scalar.isFinite square = false then
    throw (.numerical (.orthogonalLength i square))
  modify fun L => (L.setLength i square).modifyCoefficients i (·.setIfInBounds i 1)

def tryOrthogonalizeRows : (k : Nat) → Reduction α n m Unit
  | 0 => pure ()
  | k + 1 => do
    tryOrthogonalizeRows k
    tryOrthogonalizeRow k

def tryInsertCombination (start : Nat) (coefficients : List Int) : Reduction α n m Unit := do
  let stop := start + coefficients.length
  if n < stop then
    throw (.dimensions (n, m) (stop, m))
  let rows := support start coefficients
  if rows.isEmpty then
    throw (.parameters .zeroCombination)
  if hasQuotients (Scalar.integers α) rows = false then
    throw .noQuotient
  let L ← get
  let M ← ofExcept (L.basis.tryInsertCombination start rows)
  modify (·.setBasis fun _ => M)
  tryOrthogonalizeRows n

section Agreement

variable (L : LatticeBasis α n m) {i j k : Nat}

theorem tryResidue_eq {row : Array α} (hi : i < n) (hj : j < n) (hsize : row.size = j)
    (hk : k ≤ j) : L.tryResidue i j row k =
      .ok (Nat.fold k (fun k _ s => s - L.coefficient j k * row.getD k 0 * L.length k)
        (IntMatrix.dot (L.basis.row i) (L.basis.row j))) := by
  induction k with
  | zero =>
      rw [tryResidue, L.basis.row?_of_lt hi, L.basis.row?_of_lt hj]
      rfl
  | succ k ih =>
      have hentry : (fetch row[k]? : Except (Failure α) α) = .ok (row.getD k 0) := by
        rw [Array.getD_eq_getD_getElem?]
        exact fetch_getD (by simp [hsize]; omega) 0
      rw [tryResidue, ih (by omega), L.tryCoefficient_of_lt hj (by omega), hentry,
        L.tryLength_of_lt (by omega)]
      rfl

theorem tryProjections_eq (hi : i < n) (hj : j ≤ i) :
    L.tryProjections i j = .ok (L.projections i j) := by
  induction j with
  | zero => rfl
  | succ j ih =>
      rw [tryProjections, ih (by omega)]
      refine bind_eq_ok.mpr ⟨_, rfl, ?_⟩
      rw [L.tryResidue_eq hi (by omega) (L.size_projections i j) le_rfl,
        L.tryLength_of_lt (by omega)]
      rfl

theorem tryResidualSquare_eq {row : Array α} (hi : i < n) (hsize : row.size = i) (hk : k ≤ i) :
    L.tryResidualSquare i row k =
      .ok (Nat.fold k (fun k _ s => s - row.getD k 0 * row.getD k 0 * L.length k)
        (IntMatrix.dot (L.basis.row i) (L.basis.row i))) := by
  induction k with
  | zero =>
      rw [tryResidualSquare, L.basis.row?_of_lt hi]
      rfl
  | succ k ih =>
      have hentry : (fetch row[k]? : Except (Failure α) α) = .ok (row.getD k 0) := by
        rw [Array.getD_eq_getD_getElem?]
        exact fetch_getD (by simp [hsize]; omega) 0
      rw [tryResidualSquare, ih (by omega), hentry, L.tryLength_of_lt (by omega)]
      rfl

theorem tryOrthogonalizeRow_eq (hi : i < n) :
    (tryOrthogonalizeRow i : Reduction α n m Unit) = orthogonalizeRow i := by
  unfold tryOrthogonalizeRow orthogonalizeRow
  refine bind_congr fun L => ?_
  rw [L.tryProjections_eq hi le_rfl, ofExcept_ok_bind,
    L.tryResidualSquare_eq hi (L.size_projections i i) le_rfl, ofExcept_ok_bind, if_neg (by omega)]
  rfl

theorem tryOrthogonalizeRows_eq (hk : k ≤ n) :
    (tryOrthogonalizeRows k : Reduction α n m Unit) = orthogonalizeRows k := by
  induction k with
  | zero => rfl
  | succ k ih =>
      unfold tryOrthogonalizeRows orthogonalizeRows
      rw [ih (by omega), tryOrthogonalizeRow_eq (by omega)]

theorem tryInsertCombination_eq (start : Nat) (coefficients : List Int) :
    (tryInsertCombination start coefficients : Reduction α n m Unit) =
      insertCombination start coefficients := by
  unfold tryInsertCombination insertCombination
  dsimp only
  split
  · rfl
  · rename_i hstop
    split
    · rfl
    split
    · rfl
    · have hrows : ∀ r ∈ support start coefficients, r.1 < n := by
        intro r hr
        obtain ⟨hlt, -⟩ := mem_support hr
        omega
      rw [tryOrthogonalizeRows_eq le_rfl]
      funext L
      change (ofExcept (L.basis.tryInsertCombination start _) >>= _ : Reduction α n m Unit) L = _
      rw [L.basis.tryInsertCombination_eq start hrows]
      rfl

end Agreement

end LatticeBasis

end EmbeddingAttack
