import EmbeddingAttack.Proofs.Lattice.CarriedSearches
import EmbeddingAttack.Proofs.Lattice.EnumerationWalk
import EmbeddingAttack.Proofs.Lattice.ShellWalk

/-!
# Enumeration finds the shortest vector

In exact arithmetic.  Every vector kept is one of the block, with its squared length, and each is
shorter than the one before it.  Unless the node limit is reached, the radius ends up at or below
the squared length of every vector other than zero: of a vector and its negative, one has its last
coefficient other than zero positive, and the walk covers that one.
-/

namespace EmbeddingAttack

namespace Enumeration

variable {n m : Nat} {L : LatticeBasis ℝ n m} {p : SearchLimits ℝ} {start k : Nat} {radius₀ : ℝ}

/-! ## The vectors found -/

/-- What holds of a state of the walk in a block of `k` rows from `start` on. -/
structure Sound (L : LatticeBasis ℝ n m) (start k : Nat) (radius₀ : ℝ) (s : State ℝ) : Prop where
  found : ∀ c ∈ s.found, c.coefficients.length = k ∧ (∃ x ∈ c.coefficients, x ≠ 0) ∧
    c.normSquared = L.blockNorm start c.coefficients ∧ 0 < c.normSquared ∧ c.normSquared < radius₀
  sorted : s.found.Pairwise fun c d => c.normSquared < d.normSquared
  radius : s.radius = (s.found.head?.map Candidate.normSquared).getD radius₀

namespace Sound

variable {s : State ℝ}

theorem start_state (L : LatticeBasis ℝ n m) (start k : Nat) (radius₀ : ℝ) :
    Sound L start k radius₀ ⟨radius₀, [], 0⟩ where
  found := by simp
  sorted := List.Pairwise.nil
  radius := rfl

theorem count (h : Sound L start k radius₀ s) (nodes : Nat) :
    Sound L start k radius₀ { s with nodes } :=
  ⟨h.found, h.sorted, h.radius⟩

theorem radius_le_of_mem (h : Sound L start k radius₀ s) {c : Candidate ℝ} (hc : c ∈ s.found) :
    s.radius ≤ c.normSquared := by
  have hsorted := h.sorted
  rw [h.radius]
  cases hfound : s.found with
  | nil => simp [hfound] at hc
  | cons d rest =>
      rw [hfound] at hc hsorted
      rcases List.mem_cons.mp hc with rfl | hc
      · exact le_rfl
      · exact (List.rel_of_pairwise_cons hsorted hc).le

theorem radius_le (h : Sound L start k radius₀ s) : s.radius ≤ radius₀ := by
  cases hfound : s.found with
  | nil => rw [h.radius, hfound]; exact le_rfl
  | cons c rest =>
      have hc : c ∈ s.found := hfound ▸ List.mem_cons_self
      exact (h.radius_le_of_mem hc).trans (h.found c hc).2.2.2.2.le

theorem record (h : Sound L start k radius₀ s) (hmax : 0 < p.maxCandidates) {c : List Int}
    (hlength : c.length = k) (hc : ∃ x ∈ c, x ≠ 0) (hpos : 0 < L.blockNorm start c)
    (hlt : L.blockNorm start c < s.radius) :
    Sound L start k radius₀ (s.record p c (L.blockNorm start c)) where
  found := by
    intro d hd
    rcases List.mem_cons.mp (List.mem_of_mem_take hd) with rfl | hd
    · exact ⟨hlength, hc, rfl, hpos, hlt.trans_le h.radius_le⟩
    · exact h.found d hd
  sorted := by
    refine List.Pairwise.sublist (List.take_sublist _ _) (List.pairwise_cons.mpr ⟨?_, h.sorted⟩)
    exact fun d hd => hlt.trans_le (h.radius_le_of_mem hd)
  radius := by
    obtain ⟨l, hl⟩ := Nat.exists_eq_succ_of_ne_zero hmax.ne'
    simp only [State.record, hl, List.take_succ_cons, List.head?_cons, Option.map_some,
      Option.getD_some]

end Sound

/-! ## The vectors covered -/

/-- The first coefficient other than zero is positive. -/
def Led : List Int → Prop
  | [] => False
  | x :: rest => 0 < x ∨ x = 0 ∧ Led rest

theorem led_or_led_neg {c : List Int} (h : ∃ x ∈ c, x ≠ 0) : Led c ∨ Led (c.map (- ·)) := by
  induction c with
  | nil => simp at h
  | cons x rest ih =>
      simp only [Led, List.map_cons]
      by_cases hx : x = 0
      · have hrest : ∃ y ∈ rest, y ≠ 0 := by
          obtain ⟨y, hy, hne⟩ := h
          rcases List.mem_cons.mp hy with rfl | hy
          · exact absurd hx hne
          · exact ⟨y, hy, hne⟩
        rcases ih hrest with hled | hled
        · exact Or.inl (Or.inr ⟨hx, hled⟩)
        · exact Or.inr (Or.inr ⟨by omega, hled⟩)
      · omega

/-- The squared lengths of the vectors below the coefficient `x` at a level. -/
def targets (L : LatticeBasis ℝ n m) (start level : Nat) (later : List Int) (signFree : Bool)
    (x : ℤ) : Set ℝ :=
  {v | ∃ top : List Int, top.length = level ∧ (signFree = true → Led (x :: top)) ∧
    v = L.blockNorm start (top.reverse ++ x :: later)}

/-- The level of the coefficient of the row `start + level`. -/
noncomputable def levelAt (L : LatticeBasis ℝ n m) (start level : Nat) (later : List Int)
    (signFree : Bool) : Level ℝ :=
  ⟨center L start level later, L.length (start + level),
    L.blockNorm (start + (level + 1)) later, signFree⟩

theorem partialNorm_levelAt (L : LatticeBasis ℝ n m) (start level : Nat) (later : List Int)
    (signFree : Bool) (x : ℤ) :
    (levelAt L start level later signFree).partialNorm x =
      L.blockNorm (start + level) (x :: later) := by
  rw [L.blockNorm_cons, pow_two]
  rfl

theorem partialNorm_le_of_mem_targets {level : Nat} {later : List Int} {signFree : Bool} {x : ℤ}
    (hr : ∀ j < level, 0 < L.length (start + j)) :
    ∀ v ∈ targets L start level later signFree x,
      (levelAt L start level later signFree).partialNorm x ≤ v := by
  rintro v ⟨top, rfl, -, rfl⟩
  rw [partialNorm_levelAt, ← List.length_reverse]
  refine LatticeBasis.blockNorm_le_append top.reverse (x :: later) ?_
  rwa [List.length_reverse]

/-- Covering each integer at a level covers the vectors below. -/
theorem le_blockNorm_of_targets {level : Nat} {later : List Int} {signFree : Bool} {r : ℝ}
    (h : ∀ x : ℤ, (signFree = true → 0 ≤ x) → ∀ v ∈ targets L start level later signFree x, r ≤ v)
    (top : List Int) (htop : top.length = level + 1) (hled : signFree = true → Led top) :
    r ≤ L.blockNorm start (top.reverse ++ later) := by
  cases top with
  | nil => simp at htop
  | cons x rest =>
      have hx : signFree = true → 0 ≤ x := by
        intro hsign
        rcases hled hsign with hpos | ⟨rfl, -⟩
        · exact hpos.le
        · exact le_rfl
      refine h x hx _ ⟨rest, Nat.succ_injective htop, hled, ?_⟩
      rw [List.reverse_cons, List.append_assoc, List.singleton_append]

/-! ## The walk down the tree -/

/-- What a visit does at the last level: it keeps the vector unless it is zero. -/
theorem visits_record {later : List Int} {signFree : Bool} (hmax : 0 < p.maxCandidates)
    (hk : later.length + 1 = k) (hr : ∀ j < k, 0 < L.length (start + j))
    (hfree : signFree = false → ∃ x ∈ later, x ≠ 0) :
    Visits p (levelAt L start 0 later signFree) (Sound L start k radius₀)
      (targets L start 0 later signFree) fun x norm s =>
        if (signFree && Scalar.equal x 0) = false ∧ 0 < norm then
          s.record p (Scalar.toWord x :: later) norm
        else s := by
  have hnorm (x : ℤ) : (levelAt L start 0 later signFree).partialNorm x =
      L.blockNorm start (x :: later) := partialNorm_levelAt L start 0 later signFree x
  have hnonzero (x : ℤ) (hx : (signFree && decide (x = 0)) = false) :
      ∃ y ∈ x :: later, y ≠ 0 := by
    cases signFree with
    | true => exact ⟨x, List.mem_cons_self, by simpa using hx⟩
    | false =>
        obtain ⟨y, hy, hne⟩ := hfree rfl
        exact ⟨y, List.mem_cons_of_mem _ hy, hne⟩
  have hpos (x : ℤ) (hx : (signFree && decide (x = 0)) = false) :
      0 < L.blockNorm start (x :: later) := by
    refine LatticeBasis.blockNorm_pos ?_ (hnonzero x hx)
    rwa [List.length_cons, hk]
  exact {
    count := fun s nodes hs => hs.count nodes
    bound := fun x => partialNorm_le_of_mem_targets (by simp)
    advances := by
      intro x s hs hlt
      simp only [hnorm, toWord_intCast, equal_intCast_zero] at hlt ⊢
      split
      · rename_i hx
        exact ⟨hs.record hmax hk (hnonzero x hx.1) hx.2 hlt, hlt.le, le_rfl⟩
      · exact Advances.refl hs
    covers := by
      intro x s hs hlt _ v hv
      obtain ⟨top, htop, hled, rfl⟩ := hv
      obtain rfl := List.eq_nil_of_length_eq_zero htop
      have hx : (signFree && decide (x = 0)) = false := by
        cases signFree with
        | true =>
            have hlead := hled rfl
            simp only [Led, and_false, or_false] at hlead
            simpa using hlead.ne'
        | false => rfl
      simp only [hnorm, toWord_intCast, equal_intCast_zero]
      rw [if_pos ⟨hx, hpos x hx⟩]
      exact le_rfl }

/-- The walk below given coefficients keeps the state sound and, unless the node limit is reached,
covers every vector with these coefficients whose sign it tries. -/
def Explores (p : SearchLimits ℝ) (L : LatticeBasis ℝ n m) (start k : Nat) (radius₀ : ℝ)
    (level : Nat) (later : List Int) (signFree : Bool) : Prop :=
  ∀ s, Sound L start k radius₀ s →
    let s' := descend p L start level later (L.blockNorm (start + (level + 1)) later) signFree s
    Advances (Sound L start k radius₀) s s' ∧ (s'.nodes < p.maxNodes →
      ∀ top : List Int, top.length = level + 1 → (signFree = true → Led top) →
        s'.radius ≤ L.blockNorm start (top.reverse ++ later))

/-- What a visit does at the other levels: it explores the level below. -/
theorem visits_descend {level : Nat} {later : List Int} {signFree : Bool}
    (hr : ∀ j < level + 1, 0 < L.length (start + j))
    (hexplores : ∀ x : ℤ,
      Explores p L start k radius₀ level (x :: later) (signFree && decide (x = 0))) :
    Visits p (levelAt L start (level + 1) later signFree) (Sound L start k radius₀)
      (targets L start (level + 1) later signFree) fun x norm s =>
        descend p L start level (Scalar.toWord x :: later) norm
          (signFree && Scalar.equal x 0) s where
  count s nodes hs := hs.count nodes
  bound x := partialNorm_le_of_mem_targets hr
  advances := by
    intro x s hs _
    simp only [partialNorm_levelAt, toWord_intCast, equal_intCast_zero]
    exact (hexplores x s hs).1
  covers := by
    intro x s hs _ hnodes v hv
    simp only [partialNorm_levelAt, toWord_intCast, equal_intCast_zero] at hnodes ⊢
    obtain ⟨top, htop, hled, rfl⟩ := hv
    refine (hexplores x s hs).2 hnodes top htop fun hsign => ?_
    rw [Bool.and_eq_true, decide_eq_true_eq] at hsign
    rcases hled hsign.1 with hpos | hrest
    · exact absurd hsign.2 hpos.ne'
    · exact hrest.2

/-- A level that visits as it should explores all that is below. -/
theorem explores_of_visits {level : Nat} {later : List Int} {signFree : Bool}
    {visit : ℝ → ℝ → State ℝ → State ℝ}
    (hdescend : ∀ s, descend p L start level later (L.blockNorm (start + (level + 1)) later)
      signFree s =
        let x : ℝ := Scalar.round (center L start level later)
        if p.maxNodes ≤ s.nodes then s
        else visitShells p (levelAt L start level later signFree) visit x
          (if x ≤ center L start level later then 1 else -1) (p.maxNodes - s.nodes) 0 s)
    (hvisits : Visits p (levelAt L start level later signFree) (Sound L start k radius₀)
      (targets L start level later signFree) visit)
    (hfree : signFree = true → ∀ x ∈ later, x = 0) (hlength : 0 < L.length (start + level)) :
    Explores p L start k radius₀ level later signFree := by
  intro s hs s'
  by_cases hlimit : p.maxNodes ≤ s.nodes
  · have hs' : s' = s := (hdescend s).trans (if_pos hlimit)
    rw [hs']
    exact ⟨Advances.refl hs, fun hnodes => absurd hnodes (not_lt.mpr hlimit)⟩
  · obtain ⟨hadvances, hcovers⟩ := visitShells_round hvisits
      (fun hsign => LatticeBasis.center_eq_zero (hfree hsign)) hlength.le s hs
    have hs' : s' = visitShells p (levelAt L start level later signFree) visit _ _ _ 0 s :=
      (hdescend s).trans (if_neg hlimit)
    rw [hs']
    exact ⟨hadvances, fun hnodes => le_blockNorm_of_targets (hcovers hnodes)⟩

theorem explores (hmax : 0 < p.maxCandidates) (hr : ∀ j < k, 0 < L.length (start + j))
    (level : Nat) (later : List Int) (signFree : Bool) (hk : later.length + (level + 1) = k)
    (hfree : signFree = true → ∀ x ∈ later, x = 0)
    (hnonzero : signFree = false → ∃ x ∈ later, x ≠ 0) :
    Explores p L start k radius₀ level later signFree := by
  induction level generalizing later signFree with
  | zero =>
      exact explores_of_visits (fun _ => rfl) (visits_record hmax hk hr hnonzero) hfree
        (hr 0 (by omega))
  | succ level ih =>
      have hbelow (x : ℤ) :
          Explores p L start k radius₀ level (x :: later) (signFree && decide (x = 0)) := by
        refine ih (x :: later) _ (by rw [List.length_cons]; omega) ?_ ?_
        · intro hsign
          rw [Bool.and_eq_true, decide_eq_true_eq] at hsign
          exact List.forall_mem_cons.mpr ⟨hsign.2, hfree hsign.1⟩
        · intro hsign
          rw [Bool.and_eq_false_iff, decide_eq_false_iff_not] at hsign
          rcases hsign with hsign | hx
          · obtain ⟨y, hy, hne⟩ := hnonzero hsign
            exact ⟨y, List.mem_cons_of_mem _ hy, hne⟩
          · exact ⟨x, List.mem_cons_self, hx⟩
      exact explores_of_visits (fun _ => rfl)
        (visits_descend (fun j hj => hr j (by omega)) hbelow) hfree (hr (level + 1) (by omega))

end Enumeration

theorem SearchLimits.maxCandidates_pos {α : Type} [Scalar α] {p : SearchLimits α}
    (h : p.validate = .ok ()) : 0 < p.maxCandidates := by
  unfold validate at h
  obtain ⟨_, h⟩ := guard_eq_ok.mp h
  obtain ⟨hcandidates, _⟩ := guard_eq_ok.mp h
  exact Nat.pos_of_ne_zero hcandidates

namespace LatticeBasis

open Enumeration

variable {n m : Nat}

/-- A walk through the whole block that the node limit does not end leaves a radius up to the
squared length of every vector other than zero. -/
theorem radius_le_blockNorm {L : LatticeBasis ℝ n m} {start k : Nat} {s : State ℝ}
    (h : ∀ top : List Int, top.length = k → Led top → s.radius ≤ L.blockNorm start top.reverse)
    {c : List Int} (hlength : c.length = k) (hc : ∃ x ∈ c, x ≠ 0) :
    s.radius ≤ L.blockNorm start c := by
  have hreverse : ∃ x ∈ c.reverse, x ≠ 0 := by
    simpa only [List.mem_reverse] using hc
  rcases led_or_led_neg hreverse with hled | hled
  · have hle := h c.reverse (by rw [List.length_reverse, hlength]) hled
    rwa [List.reverse_reverse] at hle
  · have hle := h _ (by rw [List.length_map, List.length_reverse, hlength]) hled
    rwa [← List.map_reverse, List.reverse_reverse, blockNorm_neg] at hle

/-- An enumeration reports what a sound walk has found, and unless the node limit is reached, the
radius that the walk leaves is up to the squared length of every vector other than zero. -/
theorem exists_enumerate (L : LatticeBasis ℝ n m) {p : SearchLimits ℝ} {start stop : Nat}
    (radius : ℝ) (hp : p.validate = .ok ()) (hstart : start < stop) (hstop : stop ≤ n)
    (hr : ∀ j, start ≤ j → j < stop → 0 < L.length j) :
    ∃ s, L.enumerate p start stop radius =
        .ok ⟨s.found.reverse, s.nodes, decide (p.maxNodes ≤ s.nodes)⟩ ∧
      Sound L start (stop - start) radius s ∧
      (s.nodes < p.maxNodes → ∀ c : List Int, c.length = stop - start → (∃ x ∈ c, x ≠ 0) →
        s.radius ≤ L.blockNorm start c) := by
  have hblock : ∀ j < stop - start, 0 < L.length (start + j) :=
    fun j hj => hr (start + j) (by omega) (by omega)
  have hexplores : Explores p L start (stop - start) radius (stop - start - 1) [] true :=
    explores (SearchLimits.maxCandidates_pos hp) hblock _ _ _ (by rw [List.length_nil]; omega)
      (by simp) nofun
  obtain ⟨hadvances, hcovers⟩ := hexplores _ (Sound.start_state L start (stop - start) radius)
  rw [blockNorm_nil] at hadvances hcovers
  refine ⟨_, L.enumerate_eq_ok radius hp hstart hstop, hadvances.valid, ?_⟩
  intro hnodes c hlength hc
  refine radius_le_blockNorm (fun top htop hled => ?_) hlength hc
  have hle := hcovers hnodes top (by omega) fun _ => hled
  rwa [List.append_nil] at hle

/-- In exact arithmetic, and as long as the coefficients fit in words, each vector that an
enumeration returns is one of the block, other than zero and inside the radius, with its squared
length, and each is shorter than the one before.  Where the node limit was not reached, there is
none exactly where no vector lies inside the radius, and the last one is a shortest vector of the
block. -/
theorem enumerate_finds_shortest (L : LatticeBasis ℝ n m) (p : SearchLimits ℝ) (start stop : Nat)
    (radius : ℝ) (hp : p.validate = .ok ()) (hstart : start < stop) (hstop : stop ≤ n)
    (hr : ∀ j, start ≤ j → j < stop → 0 < L.length j)
    (hfits : FitsWords realWords fun S => @enumerate ℝ S n m L p start stop radius) :
    ∃ f, @enumerate ℝ realWords n m L p start stop radius = .ok f ∧
      (∀ c ∈ f.candidates, c.coefficients.length = stop - start ∧
        (∃ x ∈ c.coefficients, x ≠ 0) ∧ c.normSquared = L.blockNorm start c.coefficients ∧
        0 < c.normSquared ∧ c.normSquared < radius) ∧
      f.candidates.Pairwise (fun c d => d.normSquared < c.normSquared) ∧
      (f.truncated = false →
        (f.candidates = [] ↔ ∀ c : List Int, c.length = stop - start → (∃ x ∈ c, x ≠ 0) →
          radius ≤ L.blockNorm start c) ∧
        ∀ best, f.candidates.getLast? = some best → ∀ c : List Int, c.length = stop - start →
          (∃ x ∈ c, x ≠ 0) → best.normSquared ≤ L.blockNorm start c) := by
  obtain ⟨s, henumerate, hsound, hcovers⟩ := L.exists_enumerate radius hp hstart hstop hr
  refine ⟨_, hfits.trans henumerate, ?_, ?_, fun htruncated => ?_⟩
  · exact fun c hc => hsound.found c (List.mem_reverse.mp hc)
  · exact List.pairwise_reverse.mpr hsound.sorted
  have hradius := hcovers (not_le.mp (of_decide_eq_false htruncated))
  have hhead := hsound.radius
  refine ⟨⟨fun hempty c hlength hc => ?_, fun hnone => ?_⟩, fun best hbest c hlength hc => ?_⟩
  · rw [List.reverse_eq_nil_iff.mp hempty] at hhead
    exact (le_of_eq hhead.symm).trans (hradius c hlength hc)
  · rw [List.reverse_eq_nil_iff, List.eq_nil_iff_forall_not_mem]
    intro c hc
    obtain ⟨hlength, hne, hnorm, -, hlt⟩ := hsound.found c hc
    rw [hnorm] at hlt
    exact absurd (hnone c.coefficients hlength hne) (not_le.mpr hlt)
  · rw [List.getLast?_reverse] at hbest
    rw [hbest] at hhead
    exact (le_of_eq hhead.symm).trans (hradius c hlength hc)

open Fraction

theorem enumerate_finds_shortest_slanted :
    let L : LatticeBasis ℝ 2 2 := slantedBasis.map toReal
    (SearchLimits.standard : SearchLimits ℝ).validate = .ok () ∧
      (∀ j, 0 ≤ j → j < 2 → 0 < L.length j) ∧
      (FitsWords realWords fun S =>
        @enumerate ℝ S 2 2 L (@SearchLimits.standard _ realScalar) 0 2 ((4 : ℚ) : ℝ)) ∧
      ∃ f, @enumerate ℝ realWords 2 2 L .standard 0 2 ((4 : ℚ) : ℝ) = .ok f ∧
        (∀ c ∈ f.candidates, c.coefficients.length = 2 ∧ (∃ x ∈ c.coefficients, x ≠ 0) ∧
          c.normSquared = L.blockNorm 0 c.coefficients ∧
          0 < c.normSquared ∧ c.normSquared < ((4 : ℚ) : ℝ)) ∧
        (f.truncated = false → ∀ best, f.candidates.getLast? = some best →
          ∀ c : List Int, c.length = 2 → (∃ x ∈ c, x ≠ 0) →
            best.normSquared ≤ L.blockNorm 0 c) := by
  intro L
  have hlength : ∀ j, 0 ≤ j → j < 2 → 0 < L.length j := by
    intro j _ hj
    have hlength0 : L.length 0 = 4 := length_slanted_zero
    have hlength1 : L.length 1 = 1 := length_slanted_one
    obtain rfl | rfl : j = 0 ∨ j = 1 := by omega
    · rw [hlength0]
      norm_num
    · rw [hlength1]
      norm_num
  have hrun : slantedBasis.enumerate .standard 0 2 (4 : ℚ) =
      .ok ⟨[⟨[-2, 1], (2 : ℚ)⟩], 4, false⟩ := by decide +kernel
  have hfits := fitsWords_enumerate_toReal map_standardLimits hrun (by decide +kernel)
  obtain ⟨f, hf, hfound, -, hshortest⟩ := enumerate_finds_shortest L .standard 0 2 ((4 : ℚ) : ℝ)
    SearchLimits.validate_standard Nat.two_pos le_rfl hlength hfits
  exact ⟨SearchLimits.validate_standard, hlength, hfits, f, hf, hfound,
    fun htruncated => (hshortest htruncated).2⟩

/-- The coefficient of the first row that would be best beside one of the second is no word.  The
vector returned has the one below, and the length of the vector that is missed. -/
theorem enumerate_leaning_misses :
    let L : LatticeBasis ℝ 2 3 := leaningBasis.map toReal
    (SearchLimits.standard : SearchLimits ℝ).validate = .ok () ∧
      (∀ j, 0 ≤ j → j < 2 → 0 < L.length j) ∧
      ∃ f, @enumerate ℝ realWords 2 3 L .standard 0 2 ((2 : ℚ) : ℝ) = .ok f ∧
        ∃ c ∈ f.candidates, c.normSquared ≠ L.blockNorm 0 c.coefficients := by
  intro L
  have hlength : ∀ j, 0 ≤ j → j < 2 → 0 < L.length j := by
    intro j _ hj
    obtain rfl | rfl : j = 0 ∨ j = 1 := by omega
    · rw [length_leaning_zero]
      exact two_pos
    · rw [length_leaning_one]
      exact one_pos
  have hrun : leaningBasis.enumerate .standard 0 2 (2 : ℚ) =
      .ok ⟨[⟨[2 ^ 63 - 1, 1], (1 : ℚ)⟩], 4, false⟩ := by decide +kernel
  refine ⟨SearchLimits.validate_standard, hlength, _, enumerate_toReal map_standardLimits hrun,
    ⟨[2 ^ 63 - 1, 1], ((1 : ℚ) : ℝ)⟩, List.mem_singleton_self _, ?_⟩
  dsimp only
  rw [blockNorm_leaning]
  norm_num

end LatticeBasis

end EmbeddingAttack
