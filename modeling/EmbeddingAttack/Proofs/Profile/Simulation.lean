import EmbeddingAttack.Profile.Simulation
import EmbeddingAttack.Proofs.Arithmetic.RealScalar

/-!
# Volume of simulated profiles

A simulated tour hands lengths on from the first rows to the tail: what the rows before the tail
lose, the tail gets back in equal shares, since its shape is taken relative to its mean.  So the sum
of the logarithms of the lengths stays what it was, tour after tour.

The simulation walks along lists.  Its rows can also be looked up by their indices in arrays of
fixed length, as long as no index is out of range, and none ever is.
-/

namespace EmbeddingAttack

namespace Simulation

/-! ## Looking up by index -/

section Lookup

variable {β : Type}

/-- The difference of two indices, which must not be negative. -/
def minus? (a b : Nat) : Option Nat :=
  if b ≤ a then some (a - b) else none

/-- The entries before an index, which must not be past the end. -/
def upTo? (xs : List β) (i : Nat) : Option (List β) :=
  if i ≤ xs.length then some (xs.take i) else none

/-- The entries from an index on, which must not be past the end. -/
def from? (xs : List β) (i : Nat) : Option (List β) :=
  if i ≤ xs.length then some (xs.drop i) else none

/-- Writes the entry at an index, which must be there. -/
def assign? (xs : List β) (i : Nat) (x : β) : Option (List β) :=
  if i < xs.length then some (xs.set i x) else none

theorem minus?_of_le {a b : Nat} (h : b ≤ a) : minus? a b = some (a - b) :=
  if_pos h

theorem upTo?_of_le {xs : List β} {i : Nat} (h : i ≤ xs.length) : upTo? xs i = some (xs.take i) :=
  if_pos h

theorem from?_of_le {xs : List β} {i : Nat} (h : i ≤ xs.length) : from? xs i = some (xs.drop i) :=
  if_pos h

/-- Writing the first entry after a front of known length. -/
theorem assign?_append_cons {front : List β} {k : Nat} (h : front.length = k) (x y : β)
    (rest : List β) : assign? (front ++ x :: rest) k y = some (front ++ y :: rest) := by
  subst h
  unfold assign?
  rw [if_pos (by simp)]
  simp

/-- Writing entry by entry what comes after a front of known length. -/
theorem foldlM_assign? {γ : Type} (f : γ → β) (xs : List γ) (front old : List β) {k : Nat}
    (hk : front.length = k) (hlength : old.length = xs.length) :
    ((List.range' k xs.length).zip xs).foldlM (fun new (i, x) => assign? new i (f x))
      (front ++ old) = some (front ++ xs.map f) := by
  induction xs generalizing front old k with
  | nil =>
      rw [List.eq_nil_of_length_eq_zero hlength]
      rfl
  | cons x xs ih =>
      cases old with
      | nil => cases hlength
      | cons y old =>
          have hfront : (front ++ [f x]).length = k + 1 := by
            rw [List.length_append, hk, List.length_singleton]
          have hrest : old.length = xs.length := Nat.succ.inj hlength
          rw [List.length_cons, List.range'_succ, List.zip_cons_cons, List.foldlM_cons]
          dsimp only
          rw [assign?_append_cons hk]
          simpa using ih (front ++ [f x]) old hfront hrest

theorem mapM_eq_some_map {γ : Type} {f : β → Option γ} {g : β → γ} {xs : List β}
    (h : ∀ x ∈ xs, f x = some (g x)) : xs.mapM f = some (xs.map g) := by
  induction xs with
  | nil => rfl
  | cons x xs ih =>
      obtain ⟨hx, hxs⟩ := List.forall_mem_cons.mp h
      rw [List.mapM_cons, hx, ih hxs]
      rfl

end Lookup

section ByIndex

variable {α : Type} [Scalar α]

/-- The constant of the block dimension `j`, if the shape of the tail has as many entries. -/
def blockConstant? (shape : List α) (j : Nat) : Option α := do
  let tail ← from? shape (← minus? tailDimension j)
  let first ← tail[0]?
  return first - mean tail j

def blockConstants? (blocksize : Nat) : Option (Array α) := do
  let small ← (List.range' 1 tailDimension).mapM (blockConstant? tailShape)
  let large := (List.range' (tailDimension + 1) (blocksize - tailDimension)).map unitLogHeuristic
  return (small ++ large).toArray

/-- Row `k` of a tour on `old`.  The new logarithms start as a copy of the old ones. -/
def headRow? (constants : Array α) (blocksize : Nat) (old : List α)
    (state : List α × Running α) (k : Nat) : Option (List α × Running α) := do
  let (new, s) := state
  let beta := min blocksize (← minus? old.length k)
  let x ← old[k]?
  let constant ← constants[← minus? beta 1]?
  let volume := s.oldPrefix + s.window - s.newPrefix
  let expected := volume / (beta : α) + constant
  let unchanged := s.unchanged && !decide (expected < x)
  let new ← (if unchanged then some new else assign? new k expected)
  let y ← new[k]?
  let window := s.window - x
  let window ← (if k + beta < old.length then old[k + beta]?.map (window + ·) else some window)
  return (new, ⟨unchanged, s.oldPrefix + x, s.newPrefix + y, window⟩)

/-- One simulated tour, or nothing if it changes nothing, if no index is out of range. -/
def tourByIndex? (constants : Array α) (shape : List α) (blocksize : Nat)
    (old : List α) : Option (Option (List α)) := do
  let d := old.length
  let tailLength := min (min tailDimension blocksize) d
  let head := d - min tailDimension blocksize
  let start : Running α := ⟨true, 0, 0, Scalar.sum (← upTo? old (min blocksize d))⟩
  let (new, s) ← (List.range head).foldlM (headRow? constants blocksize old) (old, start)
  if s.unchanged || same old new then return none
  else
    let first ← minus? d tailLength
    let volume := Scalar.sum old - Scalar.sum (← upTo? new first)
    let tail ← from? shape (← minus? tailDimension tailLength)
    let center := mean tail tailLength
    let new ← ((List.range' first tailLength).zip tail).foldlM
      (fun new (k, s) => assign? new k (volume / (tailLength : α) + (s - center))) new
    return if same old new then none else some new

def toursByIndex? (constants : Array α) (shape : List α) (blocksize : Nat) :
    (tours : Nat) → List α → Option (List α)
  | 0, logs => some logs
  | t + 1, logs => do
    match ← tourByIndex? constants shape blocksize logs with
    | none => return logs
    | some logs => toursByIndex? constants shape blocksize t logs

end ByIndex

end Simulation

/-- The simulation with every entry looked up by its index: nothing if an index is out of range. -/
def Profile.simulateByIndex? {α : Type} [Scalar α] (p : Profile α)
    (blocksize tours : Nat) : Option (Except (Failure α) (Profile α)) :=
  if blocksize < 2 then some (throw (.parameters (.blocksize blocksize)))
  else do
    let logs := p.lengths.map fun r => Scalar.log r / 2.0
    let constants ← Simulation.blockConstants? blocksize
    let after ← Simulation.toursByIndex? constants Simulation.tailShape blocksize (max tours 1) logs
    return ofLengths (after.map fun l => Scalar.exp (2.0 * l))

namespace Simulation

section Agreement

variable {α : Type} [Scalar α]

theorem length_fullyReduced (k : Nat) (remaining : α) : (fullyReduced k remaining).length = k := by
  induction k generalizing remaining with
  | zero => rfl
  | succ k ih =>
      unfold fullyReduced
      rw [List.length_cons, ih]

theorem length_tailShape : (tailShape : List α).length = tailDimension :=
  length_fullyReduced _ _

theorem blockConstant?_tailShape {j : Nat} (hpos : 0 < j) (hle : j ≤ tailDimension) :
    blockConstant? (tailShape : List α) j =
      some ((tailShape.drop (tailDimension - j)).headD 0 -
        mean (tailShape.drop (tailDimension - j)) j) := by
  have hstart : tailDimension - j ≤ (tailShape : List α).length := by
    rw [length_tailShape]
    exact Nat.sub_le _ _
  have hlength : ((tailShape : List α).drop (tailDimension - j)).length = j := by
    rw [List.length_drop, length_tailShape, Nat.sub_sub_self hle]
  unfold blockConstant?
  rw [minus?_of_le hle]
  cases htail : (tailShape : List α).drop (tailDimension - j) with
  | nil =>
      rw [htail] at hlength
      exact absurd hlength hpos.ne
  | cons first rest =>
      change (from? _ _ >>= _) = _
      rw [from?_of_le hstart, htail]
      rfl

theorem blockConstants?_eq (blocksize : Nat) :
    blockConstants? blocksize = some (blockConstants blocksize : Array α) := by
  have hsmall : (List.range' 1 tailDimension).mapM (blockConstant? (tailShape : List α)) =
      some ((List.range' 1 tailDimension).map fun j =>
        (tailShape.drop (tailDimension - j)).headD 0 -
          mean (tailShape.drop (tailDimension - j)) j) := by
    apply mapM_eq_some_map
    intro j hj
    rw [List.mem_range'_1] at hj
    exact blockConstant?_tailShape (by omega) (by omega)
  unfold blockConstants?
  rw [hsmall]
  rfl

theorem size_blockConstants (blocksize : Nat) :
    (blockConstants blocksize : Array α).size = max tailDimension blocksize := by
  unfold blockConstants
  simp
  omega

/-- The new logarithm of a row whose old one is `x`, and the running sums after it.  The old
logarithm `incoming` enters the window, if there is one. -/
def row (constants : Array α) (beta : Nat) (x : α) (incoming : Option α)
    (s : Running α) : α × Running α :=
  let volume := s.oldPrefix + s.window - s.newPrefix
  let expected := volume / (beta : α) + constants.getD (beta - 1) 0
  let unchanged := s.unchanged && !decide (expected < x)
  let y := if unchanged then x else expected
  let window := s.window - x
  (y, ⟨unchanged, s.oldPrefix + x, s.newPrefix + y, incoming.elim window (window + ·)⟩)

theorem headRows_cons (constants : Array α) (beta : Nat) (blocks : List Nat) (x : α)
    (old incoming : List α) (s : Running α) :
    headRows constants (beta :: blocks) (x :: old) incoming s =
      let (y, next) := row constants beta x incoming.head? s
      let (rest, result) := headRows constants blocks old (incoming.drop 1) next
      (y :: rest, result) := by
  cases incoming <;> rfl

variable {constants : Array α} {blocksize : Nat} {old : List α}

theorem headRow?_eq (hpositive : 0 < blocksize) (hsize : blocksize ≤ constants.size)
    {front : List α} {k : Nat} (hfront : front.length = k) (hk : k < old.length)
    (s : Running α) :
    headRow? constants blocksize old (front ++ old.drop k, s) k =
      let (y, next) := row constants (min blocksize (old.length - k)) old[k]
        old[k + blocksize]? s
      some (front ++ y :: old.drop (k + 1), next) := by
  generalize hbeta : min blocksize (old.length - k) = beta
  have hbeta_pos : 1 ≤ beta := by omega
  have hbeta_le : beta - 1 < constants.size := by omega
  have hconstant : constants[beta - 1]? = some (constants.getD (beta - 1) 0) := by
    rw [Array.getElem?_eq_getElem hbeta_le, Array.getElem_eq_getD]
  have hwindow (window : α) :
      (if k + beta < old.length then old[k + beta]?.map (window + ·) else some window) =
        some (old[k + blocksize]?.elim window (window + ·)) := by
    by_cases hinside : k + blocksize < old.length
    · have heq : beta = blocksize := by omega
      rw [heq, if_pos hinside, List.getElem?_eq_getElem hinside]
      rfl
    · rw [if_neg (by omega), List.getElem?_eq_none (by omega)]
      rfl
  -- The copy already holds the old logarithm, which a row that does not improve keeps.
  have hwrite (unchanged : Bool) (expected : α) :
      (if unchanged then some (front ++ old[k] :: old.drop (k + 1))
        else assign? (front ++ old[k] :: old.drop (k + 1)) k expected) =
      some (front ++ (if unchanged then old[k] else expected) :: old.drop (k + 1)) := by
    cases unchanged
    · exact assign?_append_cons hfront _ _ _
    · rfl
  have hread (y : α) : (front ++ y :: old.drop (k + 1))[k]? = some y := by
    simp [← hfront]
  unfold headRow?
  rw [List.drop_eq_getElem_cons hk, List.getElem?_eq_getElem hk]
  simp only [minus?_of_le hk.le, minus?_of_le hbeta_pos, hbeta, hconstant, hwrite, hread, hwindow,
    Option.bind_eq_bind, Option.bind_some]
  rfl

/-- The loop over the rows, from row `k` on. -/
theorem foldlM_headRow? (hpositive : 0 < blocksize) (hsize : blocksize ≤ constants.size) (n : Nat)
    {front : List α} {k : Nat} (hfront : front.length = k) (hn : k + n ≤ old.length)
    (s : Running α) :
    ∃ rest s', headRows constants
        ((List.range' k n).map fun i => min blocksize (old.length - i)) (old.drop k)
        (old.drop (k + blocksize)) s = (rest, s'.unchanged) ∧ rest.length = n ∧
      (List.range' k n).foldlM (headRow? constants blocksize old) (front ++ old.drop k, s) =
        some (front ++ rest ++ old.drop (k + n), s') := by
  induction n generalizing front k s with
  | zero => exact ⟨[], s, rfl, rfl, by simp⟩
  | succ n ih =>
      have hk : k < old.length := by omega
      have hrow := headRow?_eq hpositive hsize hfront hk s
      generalize hresult : row constants (min blocksize (old.length - k)) old[k]
        old[k + blocksize]? s = result at hrow
      obtain ⟨y, next⟩ := result
      have hfront' : (front ++ [y]).length = k + 1 := by
        rw [List.length_append, hfront, List.length_singleton]
      obtain ⟨rest, s', hrows, hlength, hfold⟩ := ih hfront' (by omega) next
      refine ⟨y :: rest, s', ?_, by rw [List.length_cons, hlength], ?_⟩
      · rw [List.range'_succ, List.map_cons, List.drop_eq_getElem_cons hk, headRows_cons,
          List.head?_drop, hresult, List.drop_drop, Nat.add_right_comm]
        dsimp only
        rw [hrows]
      · rw [List.range'_succ, List.foldlM_cons, hrow]
        simpa [Nat.add_comm, Nat.add_left_comm] using hfold

theorem length_headRows (constants : Array α) (blocks : List Nat) (old incoming : List α)
    (s : Running α) :
    (headRows constants blocks old incoming s).1.length = min blocks.length old.length := by
  induction blocks generalizing old incoming s with
  | nil => simp [headRows]
  | cons beta blocks ih =>
      cases old with
      | nil => rfl
      | cons x old =>
          rw [headRows_cons, List.length_cons, List.length_cons, List.length_cons,
            Nat.add_min_add_right, ih]

theorem tourByIndex?_eq (hpositive : 0 < blocksize) (hsize : blocksize ≤ constants.size)
    {shape : List α} (hshape : shape.length = tailDimension) :
    tourByIndex? constants shape blocksize old = some (tour? constants shape blocksize old) := by
  unfold tourByIndex? tour?
  dsimp only
  generalize htail : min (min tailDimension blocksize) old.length = tailLength
  generalize hhead : old.length - min tailDimension blocksize = head
  have hsum : head + tailLength = old.length := by omega
  obtain ⟨front, s, hrows, hfront, hfold⟩ := foldlM_headRow? (k := 0) hpositive hsize head
    List.length_nil (show 0 + head ≤ old.length by omega)
    ⟨true, 0, 0, Scalar.sum (old.take (min blocksize old.length))⟩
  rw [List.drop_zero, Nat.zero_add, ← List.range_eq_range'] at hrows
  rw [List.nil_append, List.nil_append, List.drop_zero, Nat.zero_add, ← List.range_eq_range']
    at hfold
  have hshare : (shape.drop (tailDimension - tailLength)).length = tailLength := by
    rw [List.length_drop, hshape]
    omega
  have hold : (old.drop head).length = (shape.drop (tailDimension - tailLength)).length := by
    rw [hshare, List.length_drop]
    omega
  have hnew := foldlM_assign? (fun s => (Scalar.sum old - Scalar.sum front) / (tailLength : α) +
    (s - mean (shape.drop (tailDimension - tailLength)) tailLength)) _ _ _ hfront hold
  rw [hshare] at hnew
  have hbefore : upTo? (front ++ old.drop head) head = some front := by
    rw [upTo?_of_le (by simp [hfront]), List.take_left' hfront]
  have hfirst : old.length - tailLength = head := by omega
  simp only [hrows, hfold, hfirst, hbefore, hnew, upTo?_of_le (Nat.min_le_right blocksize _),
    minus?_of_le (show tailLength ≤ old.length by omega),
    minus?_of_le (show tailLength ≤ tailDimension by omega),
    from?_of_le (show tailDimension - tailLength ≤ shape.length by omega),
    Option.bind_eq_bind, Option.bind_some]
  split <;> rfl

theorem toursByIndex?_eq (hpositive : 0 < blocksize) (hsize : blocksize ≤ constants.size)
    {shape : List α} (hshape : shape.length = tailDimension) (t : Nat) (logs : List α) :
    toursByIndex? constants shape blocksize t logs =
      some (tours constants shape blocksize t logs) := by
  induction t generalizing logs with
  | zero => rfl
  | succ t ih =>
      unfold toursByIndex? tours
      rw [tourByIndex?_eq hpositive hsize hshape]
      cases tour? constants shape blocksize logs with
      | none => rfl
      | some logs => exact ih logs

end Agreement

end Simulation

/-- No index is out of range, so looking entries up by their indices makes no difference. -/
theorem Profile.simulateByIndex?_eq {α : Type} [Scalar α] (p : Profile α) (blocksize tours : Nat) :
    p.simulateByIndex? blocksize tours = some (p.simulate blocksize tours) := by
  unfold simulateByIndex? simulate
  by_cases hsmall : blocksize < 2
  · rw [if_pos hsmall, if_pos hsmall]
  · have hsize : blocksize ≤ (Simulation.blockConstants blocksize : Array α).size := by
      rw [Simulation.size_blockConstants]
      exact Nat.le_max_right _ _
    rw [if_neg hsmall, if_neg hsmall, Simulation.blockConstants?_eq]
    change (Simulation.toursByIndex? _ _ _ _ _ >>= _) = _
    rw [Simulation.toursByIndex?_eq (by omega) hsize Simulation.length_tailShape]
    rfl

/-! ## Shares of the volume -/

namespace Simulation

variable {constants : Array ℝ} {shape : List ℝ} {blocksize : Nat}

theorem same_iff {xs ys : List ℝ} : same xs ys = true ↔ xs = ys := by
  induction xs generalizing ys with
  | nil => cases ys <;> simp [same]
  | cons x xs ih =>
      cases ys with
      | nil => simp [same]
      | cons y ys =>
          have hcons : same (x :: xs) (y :: ys) = (Scalar.equal x y && same xs ys) := by
            simp [same, Bool.and_left_comm]
          rw [hcons, Bool.and_eq_true, equal_iff, ih, List.cons.injEq]

/-- Equal shares of a volume, moved apart by how far the entries of a shape lie from their mean,
make up the volume. -/
theorem sum_shares (volume : ℝ) {tail : List ℝ} (hne : tail ≠ []) :
    (tail.map fun s => volume / (tail.length : ℝ) + (s - mean tail tail.length)).sum = volume := by
  have hlength : (tail.length : ℝ) ≠ 0 := by
    simpa using hne
  have hshift : (fun s => volume / (tail.length : ℝ) + (s - mean tail tail.length)) =
      (· + (volume / tail.length - mean tail tail.length)) := by
    funext s
    ring
  have hmean : tail.length * mean tail tail.length = tail.sum := by
    unfold mean
    rw [sum_eq, mul_div_cancel₀ _ hlength]
  rw [hshift, sum_map_add_const, mul_sub, mul_div_cancel₀ _ hlength, hmean, add_sub_cancel]

theorem volume_tour? (hpositive : 0 < blocksize) (hshape : shape.length = tailDimension)
    {old new : List ℝ} (h : tour? constants shape blocksize old = some new) (hne : old ≠ []) :
    new.length = old.length ∧ new.sum = old.sum := by
  have hd : 0 < old.length := List.length_pos_iff.mpr hne
  have htail : (shape.drop (tailDimension - min (min tailDimension blocksize) old.length)).length =
      min (min tailDimension blocksize) old.length := by
    rw [List.length_drop, hshape]
    omega
  unfold tour? at h
  dsimp only at h
  split at h
  · cases h
  split at h
  · cases h
  cases h
  constructor
  · rw [List.length_append, List.length_map, htail, length_headRows, List.length_map,
      List.length_range]
    omega
  · have hnonempty : shape.drop (tailDimension - min (min tailDimension blocksize) old.length) ≠
        [] := by
      rw [← List.length_pos_iff, htail]
      unfold tailDimension
      omega
    have hshares (volume : ℝ) := sum_shares volume hnonempty
    rw [htail] at hshares
    rw [List.sum_append, hshares]
    simp only [sum_eq]
    exact add_sub_cancel _ _

/-- However many tours there are, and wherever they stop. -/
theorem volume_tours (hpositive : 0 < blocksize) (hshape : shape.length = tailDimension) (t : Nat)
    {logs : List ℝ} (hne : logs ≠ []) :
    (tours constants shape blocksize t logs).length = logs.length ∧
      (tours constants shape blocksize t logs).sum = logs.sum := by
  induction t generalizing logs with
  | zero => exact ⟨rfl, rfl⟩
  | succ t ih =>
      unfold tours
      split
      · exact ⟨rfl, rfl⟩
      · rename_i new hnew
        obtain ⟨hlength, hsum⟩ := volume_tour? hpositive hshape hnew hne
        have hnew_ne : new ≠ [] := by
          rw [← List.length_pos_iff, hlength]
          exact List.length_pos_iff.mpr hne
        obtain ⟨hlength', hsum'⟩ := ih hnew_ne
        exact ⟨hlength'.trans hlength, hsum'.trans hsum⟩

end Simulation

namespace Profile

/-- The profile of some positive lengths. -/
def positive (lengths : List ℝ) (hne : lengths ≠ []) (hpos : ∀ r ∈ lengths, 0 < r) :
    Profile ℝ where
  lengths
  nonempty := hne
  proper r hr := ⟨rfl, not_le.mpr (hpos r hr)⟩

theorem eq_of_lengths {p q : Profile ℝ} (h : p.lengths = q.lengths) : p = q := by
  cases p
  cases q
  cases h
  rfl

theorem pos_of_mem (p : Profile ℝ) {r : ℝ} (h : r ∈ p.lengths) : 0 < r :=
  not_le.mp (p.proper r h).2

theorem ofLengths_eq {lengths : List ℝ} (hne : lengths ≠ []) (hpos : ∀ r ∈ lengths, 0 < r) :
    ofLengths lengths = .ok (positive lengths hne hpos) := by
  have hnone : lengths.findIdx? (!isLength ·) = none := by
    rw [List.findIdx?_eq_none_iff]
    intro r hr
    simpa [isLength, positive] using (positive lengths hne hpos).proper r hr
  unfold ofLengths
  rw [dif_neg hne]
  split
  · rename_i hsome
    rw [hnone] at hsome
    cases hsome
  · rfl

/-- The logarithms that the simulation works with. -/
noncomputable def logs (p : Profile ℝ) : List ℝ :=
  p.lengths.map fun r => Real.log r / 2.0

theorem lengths_eq_map_logs (p : Profile ℝ) :
    p.lengths = p.logs.map fun l => Real.exp (2.0 * l) := by
  unfold logs
  rw [List.map_map]
  conv_lhs => rw [← List.map_id p.lengths]
  apply List.map_congr_left
  intro r hr
  change r = Real.exp (2.0 * (Real.log r / 2.0))
  rw [two_eq, mul_div_cancel₀ _ two_ne_zero, Real.exp_log (p.pos_of_mem hr)]

theorem eq_of_logs {p q : Profile ℝ} (h : p.logs = q.logs) : p = q := by
  apply eq_of_lengths
  rw [lengths_eq_map_logs, h, ← lengths_eq_map_logs]

/-- The logarithms that the simulation ends with. -/
noncomputable def simulatedLogs (p : Profile ℝ) (blocksize tours : Nat) : List ℝ :=
  Simulation.tours (Simulation.blockConstants blocksize) Simulation.tailShape blocksize
    (max tours 1) p.logs

theorem volume_simulatedLogs (p : Profile ℝ) {blocksize : Nat} (h : 0 < blocksize) (tours : Nat) :
    (p.simulatedLogs blocksize tours).length = p.dimension ∧
      (p.simulatedLogs blocksize tours).sum = p.logs.sum := by
  have hlogs : p.logs ≠ [] := fun hnil => p.nonempty (List.map_eq_nil_iff.mp hnil)
  obtain ⟨hlength, hsum⟩ := Simulation.volume_tours h Simulation.length_tailShape
    (max tours 1) hlogs
  refine ⟨hlength.trans ?_, hsum⟩
  exact List.length_map _

theorem simulate_eq (p : Profile ℝ) {blocksize : Nat} (h : 2 ≤ blocksize) (tours : Nat) :
    ∃ p', p.simulate blocksize tours = .ok p' ∧
      p'.lengths = (p.simulatedLogs blocksize tours).map fun l => Real.exp (2.0 * l) := by
  obtain ⟨hlength, -⟩ := p.volume_simulatedLogs (show 0 < blocksize by omega) tours
  have hne : (p.simulatedLogs blocksize tours).map (fun l => Real.exp (2.0 * l)) ≠ [] := by
    rw [← List.length_pos_iff, List.length_map, hlength]
    exact List.length_pos_iff.mpr p.nonempty
  have hpos : ∀ r ∈ (p.simulatedLogs blocksize tours).map fun l => Real.exp (2.0 * l), 0 < r := by
    intro r hr
    obtain ⟨l, -, rfl⟩ := List.mem_map.mp hr
    exact Real.exp_pos _
  refine ⟨positive _ hne hpos, ?_, rfl⟩
  unfold simulate
  rw [if_neg (by omega)]
  exact ofLengths_eq hne hpos

theorem simulate_logs (p : Profile ℝ) {blocksize : Nat} (h : 2 ≤ blocksize) (tours : Nat) :
    ∃ p', p.simulate blocksize tours = .ok p' ∧ p'.logs = p.simulatedLogs blocksize tours := by
  obtain ⟨p', hsimulate, hlengths⟩ := p.simulate_eq h tours
  refine ⟨p', hsimulate, ?_⟩
  unfold logs
  rw [hlengths, List.map_map]
  conv_rhs => rw [← List.map_id (p.simulatedLogs blocksize tours)]
  congr 1
  funext l
  change Real.log (Real.exp (2.0 * l)) / 2.0 = l
  rw [Real.log_exp, two_eq, mul_div_cancel_left₀ _ two_ne_zero]

/-- The simulation preserves the volume of the lattice, for every profile, every blocksize and
every number of tours.  It always succeeds, with no index out of range. -/
theorem simulate_preserves_volume (p : Profile ℝ) (blocksize tours : Nat) (h : 2 ≤ blocksize) :
    ∃ p', p.simulate blocksize tours = .ok p' ∧
      p.simulateByIndex? blocksize tours = some (.ok p') ∧
      p'.dimension = p.dimension ∧
      (p'.lengths.map Real.log).sum = (p.lengths.map Real.log).sum := by
  obtain ⟨p', hsimulate, hlengths⟩ := p.simulate_eq h tours
  obtain ⟨hlength, hsum⟩ := p.volume_simulatedLogs (show 0 < blocksize by omega) tours
  refine ⟨p', hsimulate, ?_, ?_, ?_⟩
  · rw [simulateByIndex?_eq, hsimulate]
  · unfold dimension
    rw [hlengths, List.length_map, hlength]
    rfl
  · have hbefore : p.lengths.map Real.log = p.logs.map fun l => 2 * l := by
      unfold logs
      rw [List.map_map]
      congr 1
      funext r
      change Real.log r = 2 * (Real.log r / 2.0)
      rw [two_eq, mul_div_cancel₀ _ two_ne_zero]
    have hafter : p'.lengths.map Real.log =
        (p.simulatedLogs blocksize tours).map fun l => 2 * l := by
      rw [hlengths, List.map_map]
      congr 1
      funext l
      change Real.log (Real.exp (2.0 * l)) = 2 * l
      rw [two_eq, Real.log_exp]
    rw [hafter, hbefore, List.sum_map_mul_left, List.sum_map_mul_left, List.map_id', List.map_id',
      hsum]

theorem simulate_triple_preserves_volume :
    2 ≤ 2 ∧ ∃ p', (positive [16, 4, 1] (by simp) (by simp)).simulate 2 3 = .ok p' ∧
      p'.dimension = 3 ∧ (p'.lengths.map Real.log).sum = Real.log 16 + Real.log 4 := by
  have h : 2 ≤ 2 := le_rfl
  obtain ⟨p', hsimulate, -, hdimension, hvolume⟩ :=
    simulate_preserves_volume (positive [16, 4, 1] (by simp) (by simp)) 2 3 h
  refine ⟨h, p', hsimulate, hdimension, hvolume.trans ?_⟩
  simp [positive]

end Profile

end EmbeddingAttack
