import EmbeddingAttack.Proofs.Text.Layout
import EmbeddingAttack.Proofs.Text.Literal
import Mathlib.Data.List.TakeWhile

/-!
# Integers between separators

A text may hold integers with a separator between them and any white space around each.  Splitting
and trimming finds the integers of exactly such texts, as long as the separator is none of the
characters that an integer or white space consists of.
-/

namespace EmbeddingAttack.Text

/-- The literal of a signed 64-bit integer with any white space around it. -/
inductive Entry : List Char → Int → Prop where
  | intro {before literal after : List Char} {z : Int} (hbefore : ∀ c ∈ before, isBlank c = true)
      (hliteral : Literal literal z) (hrange : InInt64 z) (hafter : ∀ c ∈ after, isBlank c = true) :
      Entry (before ++ literal ++ after) z

/-- The text holds the given integers, with the separator between them. -/
def Holds (separator : Char) (s : List Char) (zs : List Int) : Prop :=
  ∃ parts, s = joinWith [separator] parts ∧ List.Forall₂ Entry parts zs

/-! ## Splitting -/

theorem joinWith_cons_cons (separator : List Char) (c : Char) (piece : List Char)
    (pieces : List (List Char)) :
    joinWith separator ((c :: piece) :: pieces) = c :: joinWith separator (piece :: pieces) := by
  cases pieces with
  | nil => rfl
  | cons next rest => simp [joinWith]

/-- The pieces of a split, joined again, are the text. -/
theorem joinWith_splitBy (separator : Char) (s : List Char) :
    joinWith [separator] (splitBy (· == separator) s) = s := by
  induction s with
  | nil => rfl
  | cons c s ih =>
      obtain ⟨piece, pieces, hs⟩ :=
        List.exists_cons_of_ne_nil (splitBy_ne_nil (p := (· == separator)) s)
      rw [hs] at ih
      rw [splitBy, hs]
      split
      · rename_i hc
        have hjoin : joinWith [separator] ([] :: piece :: pieces) =
            separator :: joinWith [separator] (piece :: pieces) := by
          simp [joinWith]
        rw [hjoin, ih, beq_iff_eq.mp hc]
      · exact (joinWith_cons_cons [separator] c piece pieces).trans (congrArg (c :: ·) ih)

/-! ## Trimming -/

theorem trim_append_append {before s after : List Char} (hbefore : ∀ c ∈ before, isBlank c = true)
    (hafter : ∀ c ∈ after, isBlank c = true) : trim (before ++ s ++ after) = trim s := by
  have hright (t : List Char) (h : ∀ c ∈ t, isBlank c = true) (s : List Char) :
      trim (s ++ t) = trim s := by
    induction t generalizing s with
    | nil => rw [List.append_nil]
    | cons c t ih =>
        obtain ⟨hc, ht⟩ := List.forall_mem_cons.mp h
        rw [List.append_cons, ih ht, trim_concat hc]
  rw [hright after hafter]
  induction before with
  | nil => rfl
  | cons c before ih =>
      obtain ⟨hc, hrest⟩ := List.forall_mem_cons.mp hbefore
      rw [List.cons_append, trim_cons hc, ih hrest]

/-- Trimming takes white space off both ends and nothing else. -/
theorem exists_append_trim (s : List Char) : ∃ before after : List Char,
    (∀ c ∈ before, isBlank c = true) ∧ (∀ c ∈ after, isBlank c = true) ∧
      s = before ++ trim s ++ after := by
  let rest := s.dropWhile isBlank
  refine ⟨s.takeWhile isBlank, (rest.reverse.takeWhile isBlank).reverse,
    fun c hc => List.mem_takeWhile_imp hc,
    fun c hc => List.mem_takeWhile_imp (List.mem_reverse.mp hc), ?_⟩
  have hrest : trim s ++ (rest.reverse.takeWhile isBlank).reverse = rest := by
    rw [trim, trimRight, ← List.reverse_append, List.takeWhile_append_dropWhile,
      List.reverse_reverse]
  rw [List.append_assoc, hrest, List.takeWhile_append_dropWhile]

/-! ## Entries -/

theorem Digits.exists_digit {s : List Char} {n : Nat} (h : Digits s n) :
    ∀ c ∈ s, ∃ d, digitValue? c = some d := by
  obtain ⟨ds, -, hlt, rfl, -⟩ := h
  intro c hc
  obtain ⟨d, hd, rfl⟩ := List.mem_map.mp hc
  exact ⟨d, digitValue?_eq_some_iff.mpr ⟨hlt d hd, rfl⟩⟩

/-- A literal consists of digits and signs. -/
theorem Literal.exists_digit_or_sign {s : List Char} {z : Int} (h : Literal s z) :
    ∀ c ∈ s, (∃ d, digitValue? c = some d) ∨ c = '+' ∨ c = '-' := by
  cases h with
  | unsigned digits => exact fun c hc => .inl (digits.exists_digit c hc)
  | plus digits =>
      exact List.forall_mem_cons.mpr ⟨.inr (.inl rfl), fun c hc => .inl (digits.exists_digit c hc)⟩
  | minus digits =>
      exact List.forall_mem_cons.mpr ⟨.inr (.inr rfl), fun c hc => .inl (digits.exists_digit c hc)⟩

theorem Literal.not_blank {s : List Char} {z : Int} (h : Literal s z) :
    ∀ c ∈ s, isBlank c = false := by
  intro c hc
  rcases h.exists_digit_or_sign c hc with ⟨d, hd⟩ | rfl | rfl
  · obtain ⟨hlt, rfl⟩ := digitValue?_eq_some_iff.mp hd
    exact (digitChar_facts d hlt).2.1
  · decide
  · decide

theorem readInt_trim_eq_ok_iff {part : List Char} {z : Int} :
    readInt (trim part) = .ok z ↔ Entry part z := by
  rw [readInt_eq_ok_iff]
  constructor
  · rintro ⟨hliteral, hrange⟩
    obtain ⟨before, after, hbefore, hafter, hpart⟩ := exists_append_trim part
    rw [hpart]
    exact .intro hbefore hliteral hrange hafter
  · rintro ⟨hbefore, hliteral, hrange, hafter⟩
    have hplain := hliteral.not_blank
    rw [trim_append_append hbefore hafter, trim_eq_self
      (fun c hc => hplain c (List.mem_of_mem_head? hc))
      (fun c hc => hplain c (List.mem_of_getLast? hc))]
    exact ⟨hliteral, hrange⟩

/-- What no entry holds: neither a digit nor a sign nor white space. -/
def Separates (separator : Char) : Prop :=
  digitValue? separator = none ∧ separator ≠ '+' ∧ separator ≠ '-' ∧ isBlank separator = false

theorem Entry.not_mem {separator : Char} (hseparator : Separates separator) {part : List Char}
    {z : Int} (h : Entry part z) : separator ∉ part := by
  obtain ⟨hdigit, hplus, hminus, hblank⟩ := hseparator
  obtain ⟨hbefore, hliteral, -, hafter⟩ := h
  have hgap {gap : List Char} (hgap : ∀ c ∈ gap, isBlank c = true) : separator ∉ gap := by
    intro hmem
    rw [hgap _ hmem] at hblank
    cases hblank
  rw [List.mem_append, List.mem_append, not_or, not_or]
  refine ⟨⟨hgap hbefore, fun hmem => ?_⟩, hgap hafter⟩
  rcases hliteral.exists_digit_or_sign _ hmem with ⟨d, hd⟩ | h | h
  · rw [hdigit] at hd
    cases hd
  · exact hplus h
  · exact hminus h

/-- A text that holds some integers is split into their entries. -/
theorem forall₂_splitBy_iff {separator : Char} (hseparator : Separates separator)
    {s : List Char} {zs : List Int} :
    List.Forall₂ Entry (splitBy (· == separator) s) zs ↔ zs ≠ [] ∧ Holds separator s zs := by
  constructor
  · intro h
    refine ⟨?_, _, (joinWith_splitBy separator s).symm, h⟩
    rintro rfl
    exact splitBy_ne_nil s (List.forall₂_nil_right_iff.mp h)
  · rintro ⟨hne, parts, rfl, h⟩
    have hparts : parts ≠ [] := by
      rintro rfl
      exact hne (List.forall₂_nil_left_iff.mp h)
    obtain ⟨hfree, -⟩ := (List.forall₂_and_left parts zs).mp
      (h.imp fun part z hentry => ⟨hentry.not_mem hseparator, hentry⟩)
    have hplain : ∀ part ∈ parts, ∀ c ∈ part, (c == separator) = false := by
      intro part hpart c hc
      exact beq_eq_false_iff_ne.mpr fun heq => hfree part hpart (heq ▸ hc)
    rwa [splitBy_joinWith (p := (· == separator)) (beq_self_eq_true separator) hparts hplain]

end EmbeddingAttack.Text
