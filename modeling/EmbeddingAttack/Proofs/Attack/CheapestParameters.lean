import EmbeddingAttack.Attack.Preparation
import EmbeddingAttack.Proofs.Arithmetic.RealScalar
import EmbeddingAttack.Proofs.Computation
import EmbeddingAttack.Proofs.Embedding.Subsystem

/-!
# Cheapest parameters

The search for parameters leaves out most of the triples of samples, blocksize and search dimension.
With a search dimension of its own, it takes the least that succeeds for each blocksize; without,
the least blocksize that succeeds for each number of samples.  Costs grow in both, so what is left
out costs at least as much as something tried, and the answer is the cheapest of all that succeed.
-/

namespace EmbeddingAttack

namespace Estimate

/-! ## Costs -/

theorem logb_two_add_logb (x y : ℝ) :
    x + Real.logb 2 (1 + 2 ^ (y - x)) = Real.logb 2 (2 ^ x + 2 ^ y) := by
  have hfactor : (2 : ℝ) ^ x + 2 ^ y = 2 ^ x * (1 + 2 ^ (y - x)) := by
    rw [mul_add, mul_one, ← Real.rpow_add two_pos, add_sub_cancel]
  have hpow : (2 : ℝ) ^ x ≠ 0 := (Real.rpow_pos_of_pos two_pos x).ne'
  have hsum : 1 + (2 : ℝ) ^ (y - x) ≠ 0 := by
    positivity
  rw [hfactor, Real.logb_mul hpow hsum, Real.logb_rpow two_pos (by norm_num)]

variable {exponent : ℝ}

theorem logCost_coupled (d b s : Nat) :
    logCost exponent d b s false = exponent * b + Real.logb 2 d :=
  rfl

/-- The work of the reduction and that of the search add up. -/
theorem logCost_decoupled (d b s : Nat) :
    logCost exponent d b s true =
      Real.logb 2 (2 ^ (exponent * b + Real.logb 2 d) + 2 ^ (exponent * s)) := by
  generalize htour : exponent * b + Real.logb 2 d = tour
  generalize hsearch : exponent * s = search
  have hcost : logCost exponent d b s true =
      (if search < tour then (tour, search) else (search, tour)).1 +
        Real.logb 2 (1 + 2 ^ ((if search < tour then (tour, search) else (search, tour)).2 -
          (if search < tour then (tour, search) else (search, tour)).1)) := by
    rw [← htour, ← hsearch]
    rfl
  rw [hcost]
  split
  · exact logb_two_add_logb tour search
  · rw [logb_two_add_logb search tour, add_comm]

theorem logCost_coupled_le (hexponent : 0 ≤ exponent) (d s s' : Nat) {b b' : Nat} (h : b ≤ b') :
    logCost exponent d b s false ≤ logCost exponent d b' s' false := by
  rw [logCost_coupled, logCost_coupled]
  gcongr

theorem logCost_decoupled_le (hexponent : 0 ≤ exponent) (d b : Nat) {s s' : Nat} (h : s ≤ s') :
    logCost exponent d b s true ≤ logCost exponent d b s' true := by
  rw [logCost_decoupled, logCost_decoupled]
  apply Real.logb_le_logb_of_le one_lt_two (by positivity)
  gcongr
  exact one_le_two

/-! ## What is tried -/

namespace Setting

variable (S : Setting ℝ)

noncomputable def cost (r : Prediction) : ℝ :=
  logCost S.exponent (r.samples + 1) r.blocksize r.searchDimension S.decouple

/-- The logarithm of the volume of the basis for `m` samples. -/
noncomputable def logVolume (m : Nat) : ℝ :=
  ((m - S.n : Nat) : ℝ) * Real.log S.q

/-- The blocksize and the search dimension are in range for the number of samples and succeed. -/
structure Allows (r : Prediction) : Prop where
  blocksize : 2 ≤ r.blocksize
  search : r.blocksize ≤ r.searchDimension
  rank : r.searchDimension ≤ r.samples + 1
  coupled : S.decouple = false → r.searchDimension = r.blocksize
  succeeds : Estimate.succeeds (S.logVolume r.samples) (r.samples + 1) r.blocksize
    r.searchDimension S.sigma = true

/-- The best so far is the cheapest of some predictions, if there is any. -/
def IsBest (C : Prediction → Prop) : Option (ℝ × Prediction) → Prop
  | none => ∀ r, ¬ C r
  | some (least, r) => least = S.cost r ∧ C r ∧ ∀ r', C r' → least ≤ S.cost r'

variable {S} {C C' : Prediction → Prop} {best : Option (ℝ × Prediction)} {m b s : Nat}

/-- Predictions that cost no less than others make no difference. -/
theorem IsBest.mono (h : S.IsBest C best) (hsubset : ∀ r, C r → C' r)
    (hcheaper : ∀ r, C' r → ∃ r', C r' ∧ S.cost r' ≤ S.cost r) : S.IsBest C' best := by
  cases best with
  | none =>
      intro r hr
      obtain ⟨r', hr', -⟩ := hcheaper r hr
      exact h r' hr'
  | some found =>
      obtain ⟨hcost, hfound, hleast⟩ := h
      refine ⟨hcost, hsubset _ hfound, ?_⟩
      intro r hr
      obtain ⟨r', hr', hle⟩ := hcheaper r hr
      exact (hleast r' hr').trans hle

theorem IsBest.congr (h : S.IsBest C best) (hiff : ∀ r, C r ↔ C' r) : S.IsBest C' best :=
  h.mono (fun r hr => (hiff r).mp hr) fun r hr => ⟨r, (hiff r).mpr hr, le_rfl⟩

theorem isBest_consider (h : S.IsBest C best) (m b s : Nat) :
    S.IsBest (fun r => C r ∨ r = ⟨b, s, m⟩) (consider S m b s best) := by
  unfold consider
  cases best with
  | none =>
      refine ⟨rfl, .inr rfl, ?_⟩
      rintro r (hr | rfl)
      · exact absurd hr (h r)
      · exact le_rfl
  | some found =>
      obtain ⟨least, r⟩ := found
      obtain ⟨hcost, hr, hleast⟩ := h
      dsimp only
      split
      · rename_i hlt
        refine ⟨rfl, .inr rfl, ?_⟩
        rintro r' (hr' | rfl)
        · exact hlt.le.trans (hleast r' hr')
        · exact le_rfl
      · rename_i hle
        refine ⟨hcost, .inl hr, ?_⟩
        rintro r' (hr' | rfl)
        · exact hleast r' hr'
        · exact not_lt.mp hle

/-- Without a search dimension of its own there is only one to choose. -/
theorem cost_le_of_searchDimension (hexponent : 0 ≤ S.exponent) {s' : Nat}
    (hallows : S.Allows ⟨b, s, m⟩) (hallows' : S.Allows ⟨b, s', m⟩) (h : s ≤ s') :
    S.cost ⟨b, s, m⟩ ≤ S.cost ⟨b, s', m⟩ := by
  cases hdecouple : S.decouple with
  | false =>
      have hs : s = b := hallows.coupled hdecouple
      have hs' : s' = b := hallows'.coupled hdecouple
      rw [hs, hs']
  | true =>
      unfold cost
      rw [hdecouple]
      exact logCost_decoupled_le hexponent _ _ h

theorem cost_le_of_blocksize (hexponent : 0 ≤ S.exponent) {b' s' : Nat} (h : b ≤ b')
    (hdecouple : S.decouple = false) : S.cost ⟨b, s, m⟩ ≤ S.cost ⟨b', s', m⟩ := by
  unfold cost
  rw [hdecouple]
  exact logCost_coupled_le hexponent _ _ _ h

/-! ### Search dimensions -/

/-- The search dimensions that are tried are those in range. -/
theorem mem_candidates (hbm : b ≤ m + 1) {s : Nat} :
    (s ∈ if S.decouple then List.range' b (m + 1 + 1 - b) else [b]) ↔
      b ≤ s ∧ s ≤ m + 1 ∧ (S.decouple = false → s = b) := by
  cases S.decouple with
  | false =>
      rw [if_neg Bool.false_ne_true, List.mem_singleton]
      constructor
      · rintro rfl
        exact ⟨le_rfl, hbm, fun _ => rfl⟩
      · rintro ⟨-, -, hs⟩
        exact hs rfl
  | true =>
      rw [if_pos rfl, List.mem_range'_1]
      constructor
      · intro ⟨hlow, hhigh⟩
        exact ⟨hlow, by omega, fun h => absurd h.symm Bool.false_ne_true⟩
      · rintro ⟨hlow, hhigh, -⟩
        exact ⟨hlow, by omega⟩

theorem pairwise_candidates (k : Nat) :
    (if S.decouple then List.range' b k else [b]).Pairwise (· < ·) := by
  split
  · exact List.pairwise_lt_range'
  · exact List.pairwise_singleton _ _

theorem searchDimension?_eq_none (hbm : b ≤ m + 1)
    (h : searchDimension? S (S.logVolume m) (m + 1) b = none) (s : Nat) :
    ¬ S.Allows ⟨b, s, m⟩ := by
  intro hallows
  exact List.find?_eq_none.mp h s
    ((mem_candidates hbm).mpr ⟨hallows.search, hallows.rank, hallows.coupled⟩) hallows.succeeds

/-- The search dimension found is the least that is allowed. -/
theorem searchDimension?_eq_some (hb : 2 ≤ b) (hbm : b ≤ m + 1)
    (h : searchDimension? S (S.logVolume m) (m + 1) b = some s) :
    S.Allows ⟨b, s, m⟩ ∧ ∀ s', S.Allows ⟨b, s', m⟩ → s ≤ s' := by
  obtain ⟨hsucceeds, earlier, later, hlist, hearlier⟩ := List.find?_eq_some_iff_append.mp h
  have hmem := List.mem_of_find?_eq_some h
  obtain ⟨hlow, hhigh, hcoupled⟩ := (mem_candidates hbm).mp hmem
  refine ⟨⟨hb, hlow, hhigh, hcoupled, hsucceeds⟩, ?_⟩
  intro s' hallows
  have hmem' := (mem_candidates hbm).mpr ⟨hallows.search, hallows.rank, hallows.coupled⟩
  have hpairwise := pairwise_candidates (S := S) (b := b) (m + 1 + 1 - b)
  rw [hlist] at hmem' hpairwise
  rw [List.mem_append, List.mem_cons] at hmem'
  rcases hmem' with hbefore | rfl | hafter
  · have hfails := hearlier s' hbefore
    rw [hallows.succeeds] at hfails
    cases hfails
  · exact le_rfl
  · rw [List.pairwise_append, List.pairwise_cons] at hpairwise
    exact (hpairwise.2.1.1 s' hafter).le

/-! ### Blocksizes and samples -/

theorem isBest_of_none (hbm : b ≤ m + 1)
    (hsearch : searchDimension? S (S.logVolume m) (m + 1) b = none) (h : S.IsBest C best) :
    S.IsBest (fun r => C r ∨ S.Allows r ∧ r.samples = m ∧ r.blocksize = b) best := by
  refine h.congr fun r => ⟨.inl, ?_⟩
  rintro (hr | ⟨hallows, rfl, rfl⟩)
  · exact hr
  · exact absurd hallows (searchDimension?_eq_none hbm hsearch _)

theorem isBest_of_some (hexponent : 0 ≤ S.exponent) (hb : 2 ≤ b) (hbm : b ≤ m + 1)
    (hsearch : searchDimension? S (S.logVolume m) (m + 1) b = some s) (h : S.IsBest C best) :
    S.IsBest (fun r => C r ∨ S.Allows r ∧ r.samples = m ∧ r.blocksize = b)
      (consider S m b s best) := by
  obtain ⟨hallows, hleast⟩ := searchDimension?_eq_some hb hbm hsearch
  refine (isBest_consider h m b s).mono ?_ ?_
  · rintro r (hr | rfl)
    · exact .inl hr
    · exact .inr ⟨hallows, rfl, rfl⟩
  · rintro r (hr | ⟨hallows', rfl, rfl⟩)
    · exact ⟨r, .inl hr, le_rfl⟩
    · exact ⟨_, .inr rfl, cost_le_of_searchDimension hexponent hallows hallows'
        (hleast _ hallows')⟩

/-- The blocksizes from `b` on, for `m` samples.  Without a search dimension of its own the first
that succeeds ends the search, as the later ones cost more. -/
theorem isBest_tryBlocksizes (hexponent : 0 ≤ S.exponent) (m k : Nat) (hb : 2 ≤ b)
    (hk : b + k ≤ m + 2) (h : S.IsBest C best) :
    S.IsBest (fun r => C r ∨ S.Allows r ∧ r.samples = m ∧ b ≤ r.blocksize ∧ r.blocksize < b + k)
      (tryBlocksizes S m (S.logVolume m) (List.range' b k) best) := by
  induction k generalizing b best C with
  | zero =>
      refine h.congr fun r => ⟨.inl, ?_⟩
      rintro (hr | ⟨-, -, hlow, hhigh⟩)
      · exact hr
      · omega
  | succ k ih =>
      have hsplit (r : Prediction) :
          ((C r ∨ S.Allows r ∧ r.samples = m ∧ r.blocksize = b) ∨
            S.Allows r ∧ r.samples = m ∧ b + 1 ≤ r.blocksize ∧ r.blocksize < b + 1 + k) ↔
          C r ∨ S.Allows r ∧ r.samples = m ∧ b ≤ r.blocksize ∧ r.blocksize < b + (k + 1) := by
        have hrange : r.blocksize = b ∨ b + 1 ≤ r.blocksize ∧ r.blocksize < b + 1 + k ↔
            b ≤ r.blocksize ∧ r.blocksize < b + (k + 1) := by
          omega
        rw [or_assoc, ← and_or_left, ← and_or_left, hrange]
      rw [List.range'_succ]
      unfold tryBlocksizes
      cases hsearch : searchDimension? S (S.logVolume m) (m + 1) b with
      | none =>
          have hbest := isBest_of_none (by omega) hsearch h
          exact (ih (by omega) (by omega) hbest).congr hsplit
      | some s =>
          have hbest := isBest_of_some hexponent hb (by omega) hsearch h
          obtain ⟨hallows, -⟩ := searchDimension?_eq_some hb (by omega) hsearch
          dsimp only
          cases hdecouple : S.decouple with
          | true => exact (ih (by omega) (by omega) hbest).congr hsplit
          | false =>
              refine hbest.mono (fun r hr => (hsplit r).mp (.inl hr)) ?_
              intro r hr
              rcases (hsplit r).mpr hr with hr | ⟨-, rfl, hlater, -⟩
              · exact ⟨r, hr, le_rfl⟩
              · exact ⟨_, .inr ⟨hallows, rfl, rfl⟩,
                  cost_le_of_blocksize hexponent (by omega) hdecouple⟩

theorem isBest_foldl_trySamples (hexponent : 0 ≤ S.exponent) (k : Nat) {m : Nat}
    (h : S.IsBest C best) :
    S.IsBest (fun r => C r ∨ S.Allows r ∧ m ≤ r.samples ∧ r.samples < m + k)
      ((List.range' m k).foldl (trySamples S) best) := by
  induction k generalizing m best C with
  | zero =>
      refine h.congr fun r => ⟨.inl, ?_⟩
      rintro (hr | ⟨-, hlow, hhigh⟩)
      · exact hr
      · omega
  | succ k ih =>
      rw [List.range'_succ, List.foldl_cons]
      have htry := isBest_tryBlocksizes hexponent m m le_rfl (by omega) h
      refine (ih htry).congr fun r => ?_
      have hrange (hallows : S.Allows r) :
          (r.samples = m ∧ 2 ≤ r.blocksize ∧ r.blocksize < 2 + m) ∨
            (m + 1 ≤ r.samples ∧ r.samples < m + 1 + k) ↔
          m ≤ r.samples ∧ r.samples < m + (k + 1) := by
        have hlow := hallows.blocksize
        have hhigh := hallows.search.trans hallows.rank
        omega
      rw [or_assoc, ← and_or_left, and_congr_right hrange]

end Setting

/-! ## The answer -/

/-- The samples, the blocksize and the search dimension are in range and succeed. -/
structure Feasible (factor n : Nat) (alpha : ℝ) (q : Int) (decouple : Bool)
    (available : Option Nat) (r : Prediction) : Prop where
  samples : n < r.samples
  available : ∀ most, available = some most → r.samples ≤ most
  factor : r.samples ≤ factor * n
  blocksize : 2 ≤ r.blocksize
  search : r.blocksize ≤ r.searchDimension
  rank : r.searchDimension ≤ r.samples + 1
  coupled : decouple = false → r.searchDimension = r.blocksize
  succeeds : Estimate.succeeds (((r.samples - n : Nat) : ℝ) * Real.log q) (r.samples + 1)
    r.blocksize r.searchDimension (alpha * q) = true

variable {factor n : Nat} {alpha : ℝ} {q : Int} {decouple : Bool} {available : Option Nat}

/-- What the search answers is a best one of the predictions that it goes through. -/
theorem exists_isBest (hexponent : 0 ≤ exponent) (hn : 1 ≤ n) (hq : 2 ≤ q) (halpha : 0 < alpha)
    (factor : Nat) (decouple : Bool) (available : Option Nat) :
    ∃ best, Setting.IsBest ⟨n, q, alpha * q, exponent, decouple⟩ (fun r => False ∨
        Setting.Allows ⟨n, q, alpha * q, exponent, decouple⟩ r ∧ n + 1 ≤ r.samples ∧
          r.samples < n + 1 + (min (available.getD (wrapSize (factor * n)))
            (wrapSize (factor * n)) - n)) best ∧
      cheapest exponent factor n alpha q decouple available =
        match best with
        | some (_, prediction) => .ok prediction
        | none => .error (.infeasible n alpha q) := by
  have hvalid : ¬ (n = 0 ∨ q < 2 ∨ ¬ 0 < alpha) := by
    rintro (hzero | hsmall | hnonpos)
    · omega
    · omega
    · exact hnonpos halpha
  have hstart : Setting.IsBest ⟨n, q, alpha * q, exponent, decouple⟩ (fun _ => False) none :=
    fun _ => id
  refine ⟨_, Setting.isBest_foldl_trySamples hexponent (min (available.getD (wrapSize (factor * n)))
    (wrapSize (factor * n)) - n) (m := n + 1) hstart, ?_⟩
  unfold cheapest
  rw [if_neg hvalid]
  dsimp only
  split <;> rename_i heq <;> rw [heq] <;> rfl

theorem allows_iff_feasible (hsizes : factor * n + 1 < 2 ^ 64) (r : Prediction) :
    (False ∨ Setting.Allows ⟨n, q, alpha * q, exponent, decouple⟩ r ∧ n + 1 ≤ r.samples ∧
        r.samples < n + 1 + (min (available.getD (wrapSize (factor * n)))
          (wrapSize (factor * n)) - n)) ↔
      Feasible factor n alpha q decouple available r := by
  rw [wrapSize_eq (by omega)]
  constructor
  · rintro (hfalse | ⟨hallows, hlow, hhigh⟩)
    · exact hfalse.elim
    refine ⟨hlow, ?_, by omega, hallows.blocksize, hallows.search, hallows.rank, hallows.coupled,
      hallows.succeeds⟩
    rintro most rfl
    rw [Option.getD_some] at hhigh
    omega
  · intro h
    have hmost : r.samples ≤ available.getD (factor * n) := by
      cases available with
      | none => exact h.factor
      | some most => exact h.available most rfl
    have hfactor := h.factor
    have hsamples := h.samples
    exact .inr ⟨⟨h.blocksize, h.search, h.rank, h.coupled, h.succeeds⟩, h.samples, by omega⟩

/-- The search answers with a cheapest feasible prediction, or there is none. -/
theorem cheapest_cases (hexponent : 0 ≤ exponent) (hn : 1 ≤ n) (hq : 2 ≤ q) (halpha : 0 < alpha)
    (hsizes : factor * n + 1 < 2 ^ 64) (decouple : Bool) (available : Option Nat) :
    (∃ r, cheapest exponent factor n alpha q decouple available = .ok r ∧
      Feasible factor n alpha q decouple available r ∧
      ∀ r', Feasible factor n alpha q decouple available r' →
        logCost exponent (r.samples + 1) r.blocksize r.searchDimension decouple ≤
          logCost exponent (r'.samples + 1) r'.blocksize r'.searchDimension decouple) ∨
    cheapest exponent factor n alpha q decouple available = .error (.infeasible n alpha q) ∧
      ∀ r, ¬ Feasible factor n alpha q decouple available r := by
  obtain ⟨best, hbest, hanswer⟩ := exists_isBest hexponent hn hq halpha factor decouple available
  replace hbest := hbest.congr (allows_iff_feasible hsizes)
  cases best with
  | none => exact .inr ⟨hanswer, hbest⟩
  | some found =>
      obtain ⟨hcost, hfeasible, hleast⟩ := hbest
      refine .inl ⟨found.2, hanswer, hfeasible, ?_⟩
      intro r' hr'
      exact hcost.symm.trans_le (hleast r' hr')

theorem eq_infeasible_of_cheapest {e : Failure ℝ}
    (h : cheapest exponent factor n alpha q decouple available = .error e) :
    e = .infeasible n alpha q := by
  unfold cheapest at h
  split at h
  · cases h
    rfl
  dsimp only at h
  split at h
  · cases h
  · cases h
    rfl

/-- Whatever the factor is, an answer takes no more samples than there are, and more than there are
coordinates. -/
theorem samples_of_cheapest (hexponent : 0 ≤ exponent) {r : Prediction}
    (h : cheapest exponent factor n alpha q decouple available = .ok r) :
    n < r.samples ∧ ∀ most, available = some most → r.samples ≤ most := by
  by_cases hvalid : n = 0 ∨ q < 2 ∨ ¬ 0 < alpha
  · unfold cheapest at h
    rw [if_pos hvalid] at h
    cases h
  have hn : 1 ≤ n := Nat.one_le_iff_ne_zero.mpr fun hzero => hvalid (.inl hzero)
  have hq : 2 ≤ q := not_lt.mp fun hsmall => hvalid (.inr (.inl hsmall))
  have halpha : 0 < alpha := not_not.mp fun hnonpos => hvalid (.inr (.inr hnonpos))
  obtain ⟨best, hbest, hanswer⟩ := exists_isBest hexponent hn hq halpha factor decouple available
  rw [h] at hanswer
  cases best with
  | none => cases hanswer
  | some found =>
      cases hanswer
      obtain ⟨-, hfalse | ⟨-, hlow, hhigh⟩, -⟩ := hbest
      · exact hfalse.elim
      refine ⟨hlow, ?_⟩
      rintro most rfl
      rw [Option.getD_some] at hhigh
      omega

end Estimate

/-! ## Preparing with the answer -/

/-- Whether a failure finds fault with a number of samples. -/
def Failure.BlamesSampleCount {α : Type} : Failure α → Prop
  | .parameters (.samplesRequested ..) => True
  | .parameters (.samplesAvailable _) => True
  | .parameters (.tooFewSamples ..) => True
  | _ => False

section Preparation

variable {α : Type}

variable (α) in
theorem Schedule.failsOnly_build (text : Option String) (predicted : Nat) :
    FailsOnly (fun e : Failure α => ¬ e.BlamesSampleCount) (build text predicted) := by
  cases text with
  | none => exact .pure _
  | some text =>
      have hread (parts : List (List Char)) :
          FailsOnly (fun e : Failure α => ¬ e.BlamesSampleCount) (readEntries text parts) := by
        induction parts with
        | nil => exact .pure _
        | cons part parts ih =>
            unfold readEntries
            split
            · exact .throw id
            · exact ih.bind fun xs _ => .pure _
      unfold build explicit
      refine .bind (hread _) fun entries _ => ?_
      dsimp only
      split
      all_goals refine .bind ?_ fun range _ => .guard (fun _ => id) (.pure _)
      · exact .pure _
      · exact .pure _
      · exact .pure _
      · exact .throw id

theorem LweInstance.parameters_eq_ok {I : LweInstance α} {m : Nat} (hpositive : 0 < m)
    (hsamples : m ≤ I.samples) : I.parameters m = .ok ⟨I.n, I.alpha, I.q, m⟩ := by
  unfold parameters
  rw [if_neg (by omega)]
  rfl

variable [Scalar α]

theorem AttackParameters.failsOnly_validate (p : AttackParameters α) :
    FailsOnly (¬ ·.BlamesSampleCount) p.validate := by
  unfold validate
  refine .guard (fun _ => id) <| .guard (fun _ => id) <| .guard (fun _ => id) <|
    .guard (fun _ => id) <| .guard (fun _ => id) <| .guard (fun _ => id) <|
    .guard (fun _ => id) ?_
  split
  · exact .throw id
  · exact .pure _

theorem LweInstance.failsOnly_primalBasis {I : LweInstance α} {m : Nat}
    (hsamples : m ≤ I.samples) (hm : I.n < m) :
    FailsOnly (¬ ·.BlamesSampleCount) (I.primalBasis m) := by
  have hrows (rows : List (List Int)) : FailsOnly (fun e : Failure α => ¬ e.BlamesSampleCount)
      (SomeLatticeBasis.ofRows rows) := by
    intro e h hblames
    have hconcerns := failsOnly_ofRows rows e h
    unfold Failure.BlamesSampleCount at hblames
    split at hblames <;> trivial
  unfold primalBasis
  exact .guard (fun hfew => absurd hfew (by omega)) <|
    .guard (fun hfew => absurd hfew (by omega)) <| .guard (fun _ => id) <|
    .guard (fun _ => id) (hrows _)

end Preparation

theorem Attack.failsOnly_prepare {exponent : ℝ} (hexponent : 0 ≤ exponent) (factor : Nat)
    {A : Attack ℝ} (hsamples : A.parameters.samples = none)
    (hestimator : A.estimator = Estimate.cheapest exponent factor) {I : LweInstance ℝ}
    {n seed : Nat} (hsource : A.source n A.parameters.alpha seed = .ok I) :
    FailsOnly (¬ ·.BlamesSampleCount) (A.prepare n seed) := by
  unfold prepare
  dsimp only
  rw [hsource, hestimator, hsamples]
  refine .bind A.parameters.failsOnly_validate fun _ _ => ?_
  refine .bind (.pure I) fun I' hI => ?_
  cases hI
  refine .bind ?_ fun prediction hprediction => ?_
  · intro e he
    rw [Estimate.eq_infeasible_of_cheapest he]
    exact id
  obtain ⟨hleast, hmost⟩ := Estimate.samples_of_cheapest hexponent hprediction
  replace hmost := hmost I.samples rfl
  dsimp only [Option.getD_none]
  rw [LweInstance.parameters_eq_ok (by omega) hmost]
  refine .bind (.pure _) fun parameters _ => ?_
  refine .bind (Schedule.failsOnly_build ℝ _ _) fun schedule _ => ?_
  refine .guard (fun _ => id) ?_
  exact .bind (LweInstance.failsOnly_primalBasis hmost hleast) fun basis _ => .pure _

/-- The greatest noise rate at which a search in two dimensions is expected to succeed modulo two,
with `n` coordinates and one sample more. -/
noncomputable def gentleRate (n : Nat) : ℝ :=
  Real.exp ((((2 : ℕ) : ℝ) * (((n + 1 - n : ℕ) : ℝ) * Real.log (2 : ℤ)) / ((n + 1 + 1 : ℕ) : ℝ) -
    ((2 : ℕ) : ℝ) * (((n + 1 + 1 : ℕ) : ℝ) - ((2 : ℕ) : ℝ)) * Real.log (Estimate.rootHermite 2) -
      ballLogVolume 2) / ((2 : ℕ) : ℝ)) / (((2 : ℤ) : ℝ) * Real.sqrt ((2 : ℕ) : ℝ))

theorem gentleRate_pos (n : Nat) : 0 < gentleRate n := by
  unfold gentleRate
  positivity

theorem feasible_gentleRate {factor n most : Nat} (hfactor : n + 1 ≤ factor * n)
    (hmost : n + 1 ≤ most) :
    Estimate.Feasible factor n (gentleRate n) 2 false (some most) ⟨2, 2, n + 1⟩ where
  samples := Nat.lt_succ_self n
  available := by
    rintro most' h
    cases h
    exact hmost
  factor := hfactor
  blocksize := le_rfl
  search := le_rfl
  rank := by
    dsimp only
    omega
  coupled := fun _ => rfl
  succeeds := by
    apply decide_eq_true
    change gentleRate n * ((2 : ℤ) : ℝ) * Real.sqrt ((2 : ℕ) : ℝ) ≤ Real.exp _
    rw [mul_assoc]
    exact (div_mul_cancel₀ _ (by positivity)).le

noncomputable def gentleInstance : LweInstance ℝ :=
  ⟨1, 2, gentleRate 1, [[1], [1]], [0, 1], none⟩

noncomputable def gentleAttack : Attack ℝ where
  parameters := .standard
  source := fun _ _ _ => .ok gentleInstance
  estimator := Estimate.cheapest 1 3

end EmbeddingAttack
