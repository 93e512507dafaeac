import EmbeddingAttack.Instance.Challenge
import EmbeddingAttack.Proofs.Computation
import EmbeddingAttack.Proofs.Decimal.Notation
import EmbeddingAttack.Proofs.Text.Lines

/-!
# Challenges read back

An instance written as a challenge text reads back as the same instance without its secret, whatever
noise rate the reader takes for granted.  What is read from a text can be written again, so that a
challenge once read is never changed by writing and reading it.
-/

namespace EmbeddingAttack

open Text

theorem LweInstance.validate_eq_ok_iff {α : Type} [Scalar α] {I : LweInstance α} :
    I.validate = .ok () ↔
      2 ≤ I.q ∧ I.a.length = I.c.length ∧ ∀ row ∈ I.a, row.length = I.n := by
  unfold validate
  rw [guard_eq_ok, guard_eq_ok, Int.not_lt, Classical.not_not]
  apply and_congr_right
  intro _
  apply and_congr_right
  intro _
  cases hfind : I.a.find? (·.length ≠ I.n) with
  | none =>
      have hall : ∀ row ∈ I.a, row.length = I.n := by
        simpa using List.find?_eq_none.mp hfind
      exact iff_of_true rfl hall
  | some row =>
      have hmem := List.mem_of_find?_eq_some hfind
      have hlength := List.find?_some hfind
      constructor
      · exact nofun
      · intro hall
        simp [hall row hmem] at hlength

namespace Challenge

/-- What a challenge text can hold: at least one sample, as many rows as samples, all of the length
of the secret, a modulus that leaves more than one residue, and signed 64-bit integers.  A vector
has at most so many entries that their number is one of these integers. -/
structure Admissible (I : LweInstance Float) : Prop where
  dimension : 1 ≤ I.n ∧ I.n ≤ maxInt64
  modulus : 2 ≤ I.q ∧ InInt64 I.q
  samples : 1 ≤ I.samples ∧ I.samples ≤ maxInt64
  rows : I.a.length = I.samples
  row : ∀ row ∈ I.a, row.length = I.n
  entries : ∀ v ∈ I.c :: I.a, ∀ x ∈ v, InInt64 x

/-! ## Vectors -/

theorem inBrackets?_vectorText (v : List Int) :
    inBrackets? (vectorText v) = some (joinWith [' '] (v.map writeInt)) := by
  simp [inBrackets?, vectorText]

theorem readEntries_map_writeInt {v : List Int} (h : ∀ x ∈ v, InInt64 x) :
    readEntries (v.map writeInt) = .ok v := by
  induction v with
  | nil => rfl
  | cons x v ih =>
      obtain ⟨hx, hv⟩ := List.forall_mem_cons.mp h
      rw [List.map_cons, readEntries, readInt_writeInt hx, ih hv]
      rfl

theorem readVector_vectorText {v : List Int} (h : ∀ x ∈ v, InInt64 x) :
    readVector (vectorText v) = .ok v := by
  have hsplit : (splitBy (fun c => c == ',' || isBlank c)
      (joinWith [' '] (v.map writeInt))).filter (!·.isEmpty) = v.map writeInt := by
    cases v with
    | nil => rfl
    | cons x v =>
        rw [splitBy_joinWith (by decide) (by simp)]
        · apply List.filter_eq_self.mpr
          intro piece hpiece
          obtain ⟨y, -, rfl⟩ := List.mem_map.mp hpiece
          simp [writeInt_ne_nil]
        · intro piece hpiece d hd
          obtain ⟨y, -, rfl⟩ := List.mem_map.mp hpiece
          obtain ⟨hblank, hcomma, -⟩ := plain_of_mem_writeInt hd
          simp [hblank, hcomma]
  rw [readVector, inBrackets?_vectorText]
  dsimp only
  rw [hsplit, readEntries_map_writeInt h]

theorem readVectors_map_vectorText {vs : List (List Int)} (h : ∀ v ∈ vs, ∀ x ∈ v, InInt64 x) :
    readVectors (vs.map vectorText) = .ok vs := by
  induction vs with
  | nil => rfl
  | cons v vs ih =>
      obtain ⟨hv, hvs⟩ := List.forall_mem_cons.mp h
      rw [List.map_cons, readVectors, readVector_vectorText hv, ih hvs]
      rfl

theorem inInt64_of_readEntries {entries : List (List Char)} {v : List Int}
    (h : readEntries entries = .ok v) : ∀ x ∈ v, InInt64 x := by
  induction entries generalizing v with
  | nil =>
      cases h
      simp
  | cons entry entries ih =>
      rw [readEntries] at h
      split at h
      · cases h
      · rename_i x hx
        obtain ⟨rest, hrest, hv⟩ := bind_eq_ok.mp h
        cases hv
        exact List.forall_mem_cons.mpr ⟨inInt64_of_readInt hx, ih hrest⟩

theorem inInt64_of_readVector {line : List Char} {v : List Int} (h : readVector line = .ok v) :
    ∀ x ∈ v, InInt64 x := by
  unfold readVector at h
  split at h
  · cases h
  · exact inInt64_of_readEntries h

theorem inInt64_of_readVectors {lines : List (List Char)} {vs : List (List Int)}
    (h : readVectors lines = .ok vs) : ∀ v ∈ vs, ∀ x ∈ v, InInt64 x := by
  induction lines generalizing vs with
  | nil =>
      cases h
      simp
  | cons line lines ih =>
      rw [readVectors] at h
      obtain ⟨v, hv, h⟩ := bind_eq_ok.mp h
      obtain ⟨rest, hrest, h⟩ := bind_eq_ok.mp h
      cases h
      exact List.forall_mem_cons.mpr ⟨inInt64_of_readVector hv, ih hrest⟩

theorem inInt64_of_readNoiseAndVector {default : Float} {lines : List (List Char)}
    {r : Float × List Int × List (List Char)} (h : readNoiseAndVector default lines = .ok r) :
    ∀ x ∈ r.2.1, InInt64 x := by
  unfold readNoiseAndVector at h
  split at h
  · cases h
  · split at h
    · obtain ⟨v, hv, h⟩ := bind_eq_ok.mp h
      cases h
      exact inInt64_of_readVector hv
    · split at h
      · cases h
      · split at h
        · cases h
        · obtain ⟨v, hv, h⟩ := bind_eq_ok.mp h
          cases h
          exact inInt64_of_readVector hv

theorem inInt64_of_readHeader {name : String} {lines : List (List Char)}
    {r : Int × List (List Char)} (h : readHeader name lines = .ok r) : InInt64 r.1 := by
  unfold readHeader at h
  split at h
  · cases h
  · split at h
    · cases h
    · rename_i hx
      cases h
      exact inInt64_of_readInt hx

/-! ## Lines -/

theorem tidy_of_word {s : List Char} (h : Decimal.Word s) : Tidy s :=
  tidy_of_plain h.inhabited fun c hc => (h.plain c hc).1

theorem tidy_vectorText (v : List Int) : Tidy (vectorText v) where
  inhabited := by simp [vectorText]
  single := by
    intro hmem
    simp only [vectorText, List.mem_append, List.mem_cons, List.not_mem_nil, or_false] at hmem
    rcases hmem with (hopen | hinner) | hclose
    · exact absurd hopen (by decide)
    · rcases mem_joinWith hinner with hblank | ⟨piece, hpiece, hchar⟩
      · exact absurd hblank (by decide)
      · obtain ⟨x, -, rfl⟩ := List.mem_map.mp hpiece
        exact absurd (plain_of_mem_writeInt hchar).1 (by decide)
    · exact absurd hclose (by decide)
  head := by
    rintro c ⟨⟩
    decide
  last := by
    simp only [vectorText, List.getLast?_append]
    rintro c ⟨⟩
    decide

theorem inhabitedLines_format (I : LweInstance Float) :
    inhabitedLines (format I).toList = lines I := by
  rw [format, String.toList_ofList]
  apply inhabitedLines_flatMap
  intro line hline
  rcases List.mem_append.mp hline with hline | hline
  · simp only [List.mem_cons, List.not_mem_nil, or_false] at hline
    rcases hline with rfl | rfl | rfl | rfl | rfl
    · exact tidy_of_word (Decimal.word_writeNat _)
    · exact tidy_of_word (Decimal.word_writeNat _)
    · exact tidy_of_word (Decimal.word_writeInt _)
    · exact tidy_of_word (Decimal.word_plain _)
    · exact tidy_vectorText _
  · obtain ⟨v, -, rfl⟩ := List.mem_map.mp hline
    exact tidy_vectorText v

/-! ## Whole texts -/

theorem readNoiseAndVector_plain {alpha : Float} (default : Float) {c : List Int}
    (halpha : Decimal.read (Decimal.plain alpha) = .ok alpha) (hc : ∀ x ∈ c, InInt64 x)
    (rest : List (List Char)) :
    readNoiseAndVector default (Decimal.plain alpha :: vectorText c :: rest) =
      .ok (alpha, c, rest) := by
  have hhead : (Decimal.plain alpha).head? ≠ some '[' := by
    intro hopen
    exact ((Decimal.word_plain alpha).plain _ (List.mem_of_mem_head? hopen)).2 rfl
  rw [readNoiseAndVector, if_neg hhead, halpha]
  dsimp only
  rw [readVector_vectorText hc]
  rfl

theorem readHeader_writeInt (name : String) {z : Int} (hz : InInt64 z) (rest : List (List Char)) :
    readHeader name (writeInt z :: rest) = .ok (z, rest) := by
  rw [readHeader, readInt_writeInt hz]
  rfl

theorem inInt64_natCast {n : Nat} (h : n ≤ maxInt64) : InInt64 n := by
  show _ ≤ (n : Int) ∧ (n : Int) ≤ _
  omega

/-- What is written reads back. -/
theorem parse_format {I : LweInstance Float} (hI : Admissible I)
    (halpha : Decimal.read (Decimal.plain I.alpha) = .ok I.alpha) (default : Float) :
    parse (format I) default = .ok { I with secret := none } := by
  have hc : ∀ x ∈ I.c, InInt64 x := hI.entries I.c List.mem_cons_self
  have ha : ∀ v ∈ I.a, ∀ x ∈ v, InInt64 x := fun v hv => hI.entries v (List.mem_cons_of_mem _ hv)
  have hvalid : ({ I with secret := none } : LweInstance Float).validate = .ok () :=
    LweInstance.validate_eq_ok_iff.mpr ⟨hI.modulus.1, hI.rows, hI.row⟩
  have hn := hI.dimension
  have hm := hI.samples
  unfold parse
  rw [inhabitedLines_format]
  refine bind_eq_ok.mpr ⟨_, readHeader_writeInt "n" (inInt64_natCast hn.2) _, ?_⟩
  refine bind_eq_ok.mpr ⟨_, readHeader_writeInt "m" (inInt64_natCast hm.2) _, ?_⟩
  refine bind_eq_ok.mpr ⟨_, readHeader_writeInt "q" hI.modulus.2 _, ?_⟩
  refine guard_eq_ok.mpr ⟨by omega, ?_⟩
  refine bind_eq_ok.mpr ⟨_, readNoiseAndVector_plain default halpha hc _, ?_⟩
  refine bind_eq_ok.mpr ⟨_, readVectors_map_vectorText ha, ?_⟩
  refine bind_eq_ok.mpr ⟨_, hvalid, ?_⟩
  refine guard_eq_ok.mpr ⟨by simp [LweInstance.samples], ?_⟩
  rfl

/-- What is read can be written. -/
theorem admissible_of_parse {text : String} {default : Float} {I : LweInstance Float}
    (h : parse text default = .ok I) : Admissible I ∧ I.secret = none := by
  unfold parse at h
  obtain ⟨⟨n, lines⟩, hn, h⟩ := bind_eq_ok.mp h
  obtain ⟨⟨m, lines⟩, hm, h⟩ := bind_eq_ok.mp h
  obtain ⟨⟨q, lines⟩, hq, h⟩ := bind_eq_ok.mp h
  obtain ⟨hsizes, h⟩ := guard_eq_ok.mp h
  obtain ⟨⟨alpha, c, lines⟩, hnoise, h⟩ := bind_eq_ok.mp h
  obtain ⟨a, ha, h⟩ := bind_eq_ok.mp h
  obtain ⟨_, hvalid, h⟩ := bind_eq_ok.mp h
  obtain ⟨hcount, h⟩ := guard_eq_ok.mp h
  cases h
  obtain ⟨hmodulus, hrows, hrow⟩ := LweInstance.validate_eq_ok_iff.mp hvalid
  have hn' : InInt64 n := inInt64_of_readHeader hn
  have hm' : InInt64 m := inInt64_of_readHeader hm
  unfold InInt64 at hn' hm'
  rw [Decidable.not_not] at hcount
  have hadmissible : Admissible ⟨n.toNat, q, alpha, a, c, none⟩ := {
    dimension := by
      show 1 ≤ n.toNat ∧ n.toNat ≤ maxInt64
      omega
    modulus := ⟨hmodulus, inInt64_of_readHeader hq⟩
    samples := by omega
    rows := hrows
    row := hrow
    entries := by
      intro v hv
      rcases List.mem_cons.mp hv with rfl | hv
      · exact inInt64_of_readNoiseAndVector hnoise
      · exact inInt64_of_readVectors ha v hv }
  exact ⟨hadmissible, rfl⟩

/-- Every challenge written reads back without its secret, whatever noise rate the reader takes for
granted, as long as the text of its own noise rate reads back; and every text that is accepted gives
a challenge that can be written, so that writing and reading it once more changes nothing. -/
theorem parse_format_roundtrip :
    (∀ I : LweInstance Float, Admissible I →
      Decimal.read (Decimal.plain I.alpha) = .ok I.alpha →
      ∀ default, parse (format I) default = .ok { I with secret := none }) ∧
    ∀ (text : String) (default : Float) (I : LweInstance Float), parse text default = .ok I →
      Admissible I ∧ (Decimal.read (Decimal.plain I.alpha) = .ok I.alpha →
        ∀ default', parse (format I) default' = .ok I) := by
  constructor
  · intro I hI halpha default
    exact parse_format hI halpha default
  · intro text default I hparse
    obtain ⟨hI, hsecret⟩ := admissible_of_parse hparse
    refine ⟨hI, fun halpha default' => ?_⟩
    rw [parse_format hI halpha default', ← hsecret]

/-- A challenge with a secret, with entries of both signs and the ends of their range. -/
def smallChallenge : LweInstance Float :=
  ⟨2, 29, 0.005, [[-1, 9223372036854775807], [-9223372036854775808, 0]], [0, -7], some [3, -4]⟩

theorem smallChallenge_roundtrip :
    Admissible smallChallenge ∧ Decimal.read (Decimal.plain 0.005) = .ok 0.005 ∧
      parse (format smallChallenge) 0.25 = .ok { smallChallenge with secret := none } ∧
      parse (format { smallChallenge with secret := none }) 0.75 =
        .ok { smallChallenge with secret := none } := by
  have hadmissible : Admissible smallChallenge := {
    dimension := by decide
    modulus := by decide
    samples := by decide
    rows := rfl
    row := by decide
    entries := by decide }
  have halpha : Decimal.read (Decimal.plain 0.005) = .ok 0.005 := by rfl
  obtain ⟨hwrite, hread⟩ := parse_format_roundtrip
  have hparse := hwrite smallChallenge hadmissible halpha 0.25
  exact ⟨hadmissible, halpha, hparse, (hread _ _ _ hparse).2 halpha 0.75⟩

end Challenge

end EmbeddingAttack
