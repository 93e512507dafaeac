import EmbeddingAttack.Proofs.Instance.ChallengeText
import EmbeddingAttack.Proofs.Text.Layout
import EmbeddingAttack.Proofs.Text.Literal

/-!
# The format of challenge texts

The format said without the reader: which lines a text must have, and which instance they describe.
The reader accepts exactly the texts of this format and gives the instance described.  All others it
refuses as malformed or for the sizes of their vectors.
-/

namespace EmbeddingAttack.Challenge

open Text

/-! ## The format -/

/-- A literal of a signed 64-bit integer. -/
def Int64Literal (s : List Char) (z : Int) : Prop :=
  Literal s z ∧ InInt64 z

/-- A vector in brackets.  At least one comma or white space stands between two entries, and any
number of them next to the brackets. -/
def VectorLine (line : List Char) (v : List Int) : Prop :=
  ∃ (inner : List Char) (entries : List (List Char)), line = '[' :: inner ++ [']'] ∧
    Spaced (fun c => c == ',' || isBlank c) inner entries ∧ List.Forall₂ Int64Literal entries v

/-- At most one line, which names the noise rate where it is there.  It does not look like a
vector. -/
inductive NoiseLine (default : Float) : List (List Char) → Float → Prop where
  | absent : NoiseLine default [] default
  | present {line : List Char} {alpha : Float} (hhead : line.head? ≠ some '[')
      (hread : Decimal.read line = .ok alpha) : NoiseLine default [line] alpha

/-- The lines of a challenge and the instance that they describe: the sizes and the modulus, perhaps
the noise rate, a vector with an entry for each of the `m` samples, and `m` vectors with `n` entries
each. -/
inductive Describes (default : Float) : List (List Char) → LweInstance Float → Prop where
  | intro {nLine mLine qLine cLine : List Char} {noise rows : List (List Char)} {n m : Nat}
      {q : Int} {alpha : Float} {c : List Int} {a : List (List Int)}
      (hn : Int64Literal nLine n) (hm : Int64Literal mLine m) (hq : Int64Literal qLine q)
      (sizes : 1 ≤ n ∧ 1 ≤ m) (modulus : 2 ≤ q) (hnoise : NoiseLine default noise alpha)
      (hc : VectorLine cLine c) (samples : c.length = m) (ha : List.Forall₂ VectorLine rows a)
      (count : a.length = m) (widths : ∀ row ∈ a, row.length = n) :
      Describes default (nLine :: mLine :: qLine :: (noise ++ cLine :: rows))
        ⟨n, q, alpha, a, c, none⟩

/-! ## Vectors -/

theorem readEntries_eq_ok_iff {entries : List (List Char)} {v : List Int} :
    readEntries entries = .ok v ↔ List.Forall₂ Int64Literal entries v := by
  induction entries generalizing v with
  | nil =>
      rw [List.forall₂_nil_left_iff]
      constructor
      · intro h
        cases h
        rfl
      · rintro rfl
        rfl
  | cons entry entries ih =>
      rw [readEntries, List.forall₂_cons_left_iff]
      constructor
      · intro h
        split at h
        · cases h
        rename_i x hx
        obtain ⟨rest, hrest, hv⟩ := bind_eq_ok.mp h
        cases hv
        exact ⟨x, rest, readInt_eq_ok_iff.mp hx, ih.mp hrest, rfl⟩
      · rintro ⟨x, rest, hx, hrest, rfl⟩
        rw [readInt_eq_ok_iff.mpr hx]
        exact bind_eq_ok.mpr ⟨rest, ih.mpr hrest, rfl⟩

theorem inBrackets?_eq_some_iff {line inner : List Char} :
    inBrackets? line = some inner ↔ line = '[' :: inner ++ [']'] := by
  constructor
  · intro h
    unfold inBrackets? at h
    split at h
    · rename_i rest
      split at h
      · rename_i hlast
        obtain ⟨front, rfl⟩ := List.getLast?_eq_some_iff.mp hlast
        rw [List.dropLast_concat] at h
        rw [← Option.some.inj h]
        rfl
      · cases h
    · cases h
  · rintro rfl
    simp [inBrackets?]

theorem readVector_eq_ok_iff {line : List Char} {v : List Int} :
    readVector line = .ok v ↔ VectorLine line v := by
  unfold readVector
  constructor
  · intro h
    split at h
    · cases h
    · rename_i inner hinner
      exact ⟨inner, _, inBrackets?_eq_some_iff.mp hinner, words_eq_iff.mp rfl,
        readEntries_eq_ok_iff.mp h⟩
  · rintro ⟨inner, entries, hline, hspaced, hentries⟩
    rw [inBrackets?_eq_some_iff.mpr hline]
    dsimp only
    rw [← readEntries_eq_ok_iff, ← hspaced.words_eq] at hentries
    exact hentries

theorem readVectors_eq_ok_iff {lines : List (List Char)} {vs : List (List Int)} :
    readVectors lines = .ok vs ↔ List.Forall₂ VectorLine lines vs := by
  induction lines generalizing vs with
  | nil =>
      rw [List.forall₂_nil_left_iff]
      constructor
      · intro h
        cases h
        rfl
      · rintro rfl
        rfl
  | cons line lines ih =>
      rw [readVectors, List.forall₂_cons_left_iff]
      constructor
      · intro h
        obtain ⟨v, hv, h⟩ := bind_eq_ok.mp h
        obtain ⟨rest, hrest, h⟩ := bind_eq_ok.mp h
        cases h
        exact ⟨v, rest, readVector_eq_ok_iff.mp hv, ih.mp hrest, rfl⟩
      · rintro ⟨v, rest, hv, hrest, rfl⟩
        exact bind_eq_ok.mpr ⟨v, readVector_eq_ok_iff.mpr hv,
          bind_eq_ok.mpr ⟨rest, ih.mpr hrest, rfl⟩⟩

/-! ## Lines -/

theorem readHeader_eq_ok_iff {name : String} {lines rest : List (List Char)} {x : Int} :
    readHeader name lines = .ok (x, rest) ↔ ∃ line, lines = line :: rest ∧ Int64Literal line x := by
  cases lines with
  | nil => exact iff_of_false nofun nofun
  | cons line lines =>
      rw [readHeader]
      constructor
      · intro h
        split at h
        · cases h
        · rename_i hx
          cases h
          exact ⟨line, rfl, readInt_eq_ok_iff.mp hx⟩
      · rintro ⟨_, ⟨⟩, hx⟩
        rw [readInt_eq_ok_iff.mpr hx]
        rfl

theorem readNoiseAndVector_eq_ok_iff {default alpha : Float} {lines rest : List (List Char)}
    {c : List Int} : readNoiseAndVector default lines = .ok (alpha, c, rest) ↔
      ∃ noise line, lines = noise ++ line :: rest ∧ NoiseLine default noise alpha ∧
        VectorLine line c := by
  constructor
  · intro h
    unfold readNoiseAndVector at h
    split at h
    · cases h
    rename_i line lines
    split at h
    · obtain ⟨v, hv, h⟩ := bind_eq_ok.mp h
      cases h
      exact ⟨[], line, rfl, .absent, readVector_eq_ok_iff.mp hv⟩
    rename_i hhead
    split at h
    · cases h
    rename_i alpha hread
    split at h
    · cases h
    rename_i next lines
    obtain ⟨v, hv, h⟩ := bind_eq_ok.mp h
    cases h
    exact ⟨[line], next, rfl, .present hhead hread, readVector_eq_ok_iff.mp hv⟩
  · rintro ⟨noise, line, rfl, hnoise, hc⟩
    have hvector := readVector_eq_ok_iff.mpr hc
    cases hnoise with
    | absent =>
        obtain ⟨inner, -, rfl, -⟩ := hc
        rw [List.nil_append, readNoiseAndVector, if_pos (by rfl)]
        exact bind_eq_ok.mpr ⟨c, hvector, rfl⟩
    | present hhead hread =>
        rw [List.singleton_append, readNoiseAndVector, if_neg hhead, hread]
        exact bind_eq_ok.mpr ⟨c, hvector, rfl⟩

/-! ## Whole texts -/

theorem parse_eq_ok_iff {text : String} {default : Float} {I : LweInstance Float} :
    parse text default = .ok I ↔ Describes default (inhabitedLines text.toList) I := by
  unfold parse
  constructor
  · intro h
    obtain ⟨⟨n, lines₁⟩, hn, h⟩ := bind_eq_ok.mp h
    obtain ⟨⟨m, lines₂⟩, hm, h⟩ := bind_eq_ok.mp h
    obtain ⟨⟨q, lines₃⟩, hq, h⟩ := bind_eq_ok.mp h
    obtain ⟨hsizes, h⟩ := guard_eq_ok.mp h
    obtain ⟨⟨alpha, c, lines₄⟩, hnoise, h⟩ := bind_eq_ok.mp h
    obtain ⟨a, ha, h⟩ := bind_eq_ok.mp h
    obtain ⟨_, hvalid, h⟩ := bind_eq_ok.mp h
    obtain ⟨hcount, h⟩ := guard_eq_ok.mp h
    cases h
    obtain ⟨hmodulus, hrows, hrow⟩ := LweInstance.validate_eq_ok_iff.mp hvalid
    rw [Decidable.not_not] at hcount
    obtain ⟨nLine, hlines, hnLine⟩ := readHeader_eq_ok_iff.mp hn
    obtain ⟨mLine, rfl, hmLine⟩ := readHeader_eq_ok_iff.mp hm
    obtain ⟨qLine, rfl, hqLine⟩ := readHeader_eq_ok_iff.mp hq
    obtain ⟨noise, cLine, rfl, hnoise, hc⟩ := readNoiseAndVector_eq_ok_iff.mp hnoise
    have hn' : n = (n.toNat : Int) := by omega
    have hm' : m = (m.toNat : Int) := by omega
    have hsamples : c.length = m.toNat := by
      have hlength : (c.length : Int) = m := hcount
      omega
    rw [hlines]
    exact .intro (hn' ▸ hnLine) (hm' ▸ hmLine) hqLine (by omega) hmodulus hnoise hc hsamples
      (readVectors_eq_ok_iff.mp ha) (hrows.trans hsamples) hrow
  · intro h
    generalize inhabitedLines text.toList = lines at h
    cases h with
    | @intro nLine mLine qLine cLine noise rows n m q alpha c a hn hm hq sizes modulus hnoise hc
        samples ha count widths =>
        have hvalid : (⟨n, q, alpha, a, c, none⟩ : LweInstance Float).validate = .ok () :=
          LweInstance.validate_eq_ok_iff.mpr ⟨modulus, count.trans samples.symm, widths⟩
        have hcount : ((⟨n, q, alpha, a, c, none⟩ : LweInstance Float).samples : Int) = m :=
          congrArg Nat.cast samples
        refine bind_eq_ok.mpr ⟨_, readHeader_eq_ok_iff.mpr ⟨nLine, rfl, hn⟩, ?_⟩
        refine bind_eq_ok.mpr ⟨_, readHeader_eq_ok_iff.mpr ⟨mLine, rfl, hm⟩, ?_⟩
        refine bind_eq_ok.mpr ⟨_, readHeader_eq_ok_iff.mpr ⟨qLine, rfl, hq⟩, ?_⟩
        refine guard_eq_ok.mpr ⟨by omega, ?_⟩
        refine bind_eq_ok.mpr
          ⟨_, readNoiseAndVector_eq_ok_iff.mpr ⟨noise, cLine, rfl, hnoise, hc⟩, ?_⟩
        refine bind_eq_ok.mpr ⟨a, readVectors_eq_ok_iff.mpr ha, ?_⟩
        refine bind_eq_ok.mpr ⟨(), hvalid, ?_⟩
        exact guard_eq_ok.mpr ⟨not_not.mpr hcount, rfl⟩

/-! ## Refusals -/

/-- The failure says that a text is malformed, or that its vectors have the wrong sizes. -/
def IsRefusal (e : Failure Float) : Prop :=
  (∃ fault, e = .parse fault) ∨ ∃ expected found, e = .dimensions expected found

theorem isRefusal_parse (fault : ParseFault) : IsRefusal (.parse fault) :=
  .inl ⟨fault, rfl⟩

theorem failsOnly_readHeader (name : String) (lines : List (List Char)) :
    FailsOnly IsRefusal (readHeader name lines) := by
  unfold readHeader
  split
  · exact FailsOnly.throw (isRefusal_parse _)
  · split
    · exact FailsOnly.throw (isRefusal_parse _)
    · exact FailsOnly.pure _

theorem failsOnly_readEntries (entries : List (List Char)) :
    FailsOnly IsRefusal (readEntries entries) := by
  induction entries with
  | nil => exact FailsOnly.pure _
  | cons entry entries ih =>
      rw [readEntries]
      split
      · exact FailsOnly.throw (isRefusal_parse _)
      · exact ih.bind fun _ _ => FailsOnly.pure _

theorem failsOnly_readVector (line : List Char) : FailsOnly IsRefusal (readVector line) := by
  unfold readVector
  split
  · exact FailsOnly.throw (isRefusal_parse _)
  · exact failsOnly_readEntries _

theorem failsOnly_readVectors (lines : List (List Char)) :
    FailsOnly IsRefusal (readVectors lines) := by
  induction lines with
  | nil => exact FailsOnly.pure _
  | cons line lines ih =>
      rw [readVectors]
      exact (failsOnly_readVector line).bind fun _ _ => ih.bind fun _ _ => FailsOnly.pure _

theorem failsOnly_readNoiseAndVector (default : Float) (lines : List (List Char)) :
    FailsOnly IsRefusal (readNoiseAndVector default lines) := by
  unfold readNoiseAndVector
  split
  · exact FailsOnly.throw (isRefusal_parse _)
  split
  · exact (failsOnly_readVector _).bind fun _ _ => FailsOnly.pure _
  split
  · exact FailsOnly.throw (isRefusal_parse _)
  split
  · exact FailsOnly.throw (isRefusal_parse _)
  · exact (failsOnly_readVector _).bind fun _ _ => FailsOnly.pure _

theorem failsOnly_validate (I : LweInstance Float) : FailsOnly IsRefusal I.validate := by
  unfold LweInstance.validate
  refine FailsOnly.guard (fun _ => isRefusal_parse _) ?_
  refine FailsOnly.guard (fun _ => .inr ⟨_, _, rfl⟩) ?_
  split
  · exact FailsOnly.throw (.inr ⟨_, _, rfl⟩)
  · exact FailsOnly.pure _

theorem failsOnly_parse (text : String) (default : Float) :
    FailsOnly IsRefusal (parse text default) := by
  unfold parse
  refine (failsOnly_readHeader _ _).bind fun _ _ => ?_
  refine (failsOnly_readHeader _ _).bind fun _ _ => ?_
  refine (failsOnly_readHeader _ _).bind fun _ _ => ?_
  refine FailsOnly.guard (fun _ => isRefusal_parse _) ?_
  refine (failsOnly_readNoiseAndVector _ _).bind fun _ _ => ?_
  refine (failsOnly_readVectors _).bind fun _ _ => ?_
  refine (failsOnly_validate _).bind fun _ _ => ?_
  exact FailsOnly.guard (fun _ => isRefusal_parse _) (FailsOnly.pure _)

/-- The reader accepts a text exactly where its lines follow the format, and gives the instance that
they describe.  Every other text is refused as malformed or for the sizes of its vectors. -/
theorem parse_accepts_described (text : String) (default : Float) :
    (∀ I, parse text default = .ok I ↔
      ∃ lines, Lined text.toList lines ∧ Describes default lines I) ∧
    ((∃ I lines, Lined text.toList lines ∧ Describes default lines I) ∨
      ∃ e, parse text default = .error e ∧
        ((∃ fault, e = .parse fault) ∨ ∃ expected found, e = .dimensions expected found)) := by
  have haccepts (I : LweInstance Float) : parse text default = .ok I ↔
      ∃ lines, Lined text.toList lines ∧ Describes default lines I := by
    rw [parse_eq_ok_iff]
    constructor
    · intro h
      exact ⟨_, inhabitedLines_eq_iff.mp rfl, h⟩
    · rintro ⟨lines, hlined, h⟩
      rwa [hlined.inhabitedLines_eq]
  refine ⟨haccepts, ?_⟩
  cases hparse : parse text default with
  | ok I => exact .inl ⟨I, (haccepts I).mp hparse⟩
  | error e => exact .inr ⟨e, rfl, failsOnly_parse text default e hparse⟩

/-- Blank lines, signs, and commas and white space next to brackets. -/
example : parse "2\n1\n 11\n\n0.5\r\n[ 7,,]\n[+4,\t-5]" 0.25 =
    .ok ⟨2, 11, 0.5, [[4, -5]], [7], none⟩ := by
  rfl

end EmbeddingAttack.Challenge
