import EmbeddingAttack.Proofs.Text.Lines

/-!
# Words and lines by their layout

A text lays out its words with runs of separators around them, and its lines with white space around
them and a line feed between them.  Every text has exactly one list of words and one list of lines
in this sense, and they are those that splitting finds.
-/

namespace EmbeddingAttack.Text

/-! ## Words -/

/-- The text lays out the words: none of them is empty or holds a separator, between two of them
stands at least one separator, and all other characters are separators. -/
inductive Spaced (p : Char → Bool) : List Char → List (List Char) → Prop where
  | gap {s : List Char} (hgap : ∀ c ∈ s, p c = true) : Spaced p s []
  | word (before : List Char) {word after : List Char} {words : List (List Char)}
      (hbefore : ∀ c ∈ before, p c = true) (hne : word ≠ []) (hword : ∀ c ∈ word, p c = false)
      (hafter : ∀ c ∈ after.head?, p c = true) (rest : Spaced p after words) :
      Spaced p (before ++ word ++ after) (word :: words)

/-- The pieces of a split that are not empty. -/
def words (p : Char → Bool) (s : List Char) : List (List Char) :=
  (splitBy p s).filter (!·.isEmpty)

section Words

variable {p : Char → Bool}

theorem splitBy_append_cons {c : Char} (hc : p c = true) (s t : List Char) :
    splitBy p (s ++ c :: t) = splitBy p s ++ splitBy p t := by
  induction s with
  | nil =>
      change splitBy p (c :: t) = [] :: splitBy p t
      rw [splitBy, if_pos hc]
  | cons d s ih =>
      rw [List.cons_append, splitBy, splitBy, ih]
      split
      · rfl
      · obtain ⟨piece, pieces, hs⟩ := List.exists_cons_of_ne_nil (splitBy_ne_nil (p := p) s)
        rw [hs]
        rfl

theorem words_append_cons {c : Char} (hc : p c = true) (s t : List Char) :
    words p (s ++ c :: t) = words p s ++ words p t := by
  unfold words
  rw [splitBy_append_cons hc, List.filter_append]

theorem words_cons {c : Char} (hc : p c = true) (s : List Char) : words p (c :: s) = words p s :=
  words_append_cons hc [] s

theorem words_gap_append {gap : List Char} (hgap : ∀ c ∈ gap, p c = true) (s : List Char) :
    words p (gap ++ s) = words p s := by
  induction gap with
  | nil => rfl
  | cons c gap ih =>
      obtain ⟨hc, hgap⟩ := List.forall_mem_cons.mp hgap
      rw [List.cons_append, words_cons hc, ih hgap]

theorem words_word {word : List Char} (hne : word ≠ []) (hword : ∀ c ∈ word, p c = false) :
    words p word = [word] := by
  unfold words
  rw [splitBy_eq_singleton hword]
  simp [hne]

theorem Spaced.words_eq {s : List Char} {ws : List (List Char)} (h : Spaced p s ws) :
    words p s = ws := by
  induction h with
  | @gap s hgap =>
      rw [← List.append_nil s, words_gap_append hgap]
      rfl
  | @word before word after ws hbefore hne hword hafter rest ih =>
      rw [List.append_assoc, words_gap_append hbefore]
      cases after with
      | nil =>
          rw [List.append_nil, words_word hne hword, ← ih]
          rfl
      | cons c after =>
          have hc : p c = true := hafter c rfl
          rw [words_append_cons hc, words_word hne hword, ← ih, words_cons hc,
            List.singleton_append]

/-- Every text lays out some words: a character in front either is a separator, starts a word of its
own or belongs to the first word. -/
theorem exists_spaced (s : List Char) : ∃ ws, Spaced p s ws := by
  induction s with
  | nil => exact ⟨[], .gap (by simp)⟩
  | cons c s ih =>
      obtain ⟨ws, h⟩ := ih
      by_cases hc : p c = true
      · cases h with
        | gap hgap => exact ⟨[], .gap (List.forall_mem_cons.mpr ⟨hc, hgap⟩)⟩
        | @word before word after ws hbefore hne hword hafter rest =>
            exact ⟨word :: ws,
              .word (c :: before) (List.forall_mem_cons.mpr ⟨hc, hbefore⟩) hne hword
                hafter rest⟩
      · rw [Bool.not_eq_true] at hc
        have hsingle : ∀ d ∈ [c], p d = false := by simpa using hc
        have hfirst (t : List Char) (ws : List (List Char)) (ht : ∀ d ∈ t.head?, p d = true)
            (h : Spaced p t ws) : Spaced p (c :: t) ([c] :: ws) :=
          .word [] (by simp) (List.cons_ne_nil c []) hsingle ht h
        cases h with
        | gap hgap =>
            exact ⟨[[c]], hfirst s [] (fun d hd => hgap d (List.mem_of_mem_head? hd)) (.gap hgap)⟩
        | @word before word after ws hbefore hne hword hafter rest =>
            cases before with
            | nil =>
                exact ⟨(c :: word) :: ws,
                  .word [] (by simp) (List.cons_ne_nil c word)
                    (List.forall_mem_cons.mpr ⟨hc, hword⟩) hafter rest⟩
            | cons d before =>
                refine ⟨[c] :: word :: ws, hfirst _ _ ?_ (.word _ hbefore hne hword hafter rest)⟩
                rintro e ⟨⟩
                exact hbefore _ List.mem_cons_self

theorem words_eq_iff {s : List Char} {ws : List (List Char)} : words p s = ws ↔ Spaced p s ws := by
  constructor
  · rintro rfl
    obtain ⟨ws, h⟩ := exists_spaced (p := p) s
    rwa [h.words_eq]
  · exact Spaced.words_eq

end Words

/-! ## Lines -/

/-- The text lays out the lines: none of them is empty, holds a line feed, or starts or ends with
white space; between two of them stand a line feed and any other white space, and all other
characters are white space. -/
inductive Lined : List Char → List (List Char) → Prop where
  | blank {s : List Char} (hblank : ∀ c ∈ s, isBlank c = true) : Lined s []
  | line (before : List Char) {line gap after : List Char} {lines : List (List Char)}
      (hbefore : ∀ c ∈ before, isBlank c = true) (hline : Tidy line)
      (hgap : ∀ c ∈ gap, isBlank c = true) (hafter : ∀ c ∈ after.head?, c = '\n')
      (rest : Lined after lines) : Lined (before ++ line ++ gap ++ after) (line :: lines)

theorem trim_cons {c : Char} (hc : isBlank c = true) (s : List Char) : trim (c :: s) = trim s := by
  rw [trim, List.dropWhile_cons_of_pos hc, trim]

theorem trimRight_concat {c : Char} (hc : isBlank c = true) (s : List Char) :
    trimRight (s ++ [c]) = trimRight s := by
  unfold trimRight
  rw [List.reverse_append, List.reverse_singleton, List.singleton_append,
    List.dropWhile_cons_of_pos hc]

theorem trim_concat {c : Char} (hc : isBlank c = true) (s : List Char) :
    trim (s ++ [c]) = trim s := by
  induction s with
  | nil => exact trim_cons hc []
  | cons d s ih =>
      by_cases hd : isBlank d = true
      · rw [List.cons_append, trim_cons hd, trim_cons hd, ih]
      · rw [trim, trim, List.cons_append, List.dropWhile_cons_of_neg hd,
          List.dropWhile_cons_of_neg hd, ← List.cons_append, trimRight_concat hc]

theorem inhabitedLines_append_cons (s t : List Char) :
    inhabitedLines (s ++ '\n' :: t) = inhabitedLines s ++ inhabitedLines t := by
  unfold inhabitedLines
  rw [splitBy_append_cons rfl, List.map_append, List.filter_append]

theorem inhabitedLines_cons {c : Char} (hc : isBlank c = true) (s : List Char) :
    inhabitedLines (c :: s) = inhabitedLines s := by
  by_cases hfeed : c = '\n'
  · subst hfeed
    exact inhabitedLines_append_cons [] s
  · obtain ⟨piece, pieces, hs⟩ := List.exists_cons_of_ne_nil (splitBy_ne_nil (p := (· == '\n')) s)
    have hsplit : splitBy (· == '\n') (c :: s) = (c :: piece) :: pieces := by
      rw [splitBy, if_neg (by simpa using hfeed), hs]
    unfold inhabitedLines
    rw [hsplit, hs, List.map_cons, List.map_cons, trim_cons hc]

theorem inhabitedLines_concat {c : Char} (hc : isBlank c = true) (s : List Char) :
    inhabitedLines (s ++ [c]) = inhabitedLines s := by
  by_cases hfeed : c = '\n'
  · subst hfeed
    rw [inhabitedLines_append_cons]
    exact List.append_nil _
  · obtain ⟨pieces, last, h⟩ := splitBy_append (p := (· == '\n')) s
    have hs := h [] (by simp)
    have hsc := h [c] (by simpa using hfeed)
    rw [List.append_nil, List.append_nil] at hs
    unfold inhabitedLines
    rw [hs, hsc, List.map_append, List.map_append, List.map_singleton, List.map_singleton,
      trim_concat hc]

theorem inhabitedLines_blank_append {gap : List Char} (hgap : ∀ c ∈ gap, isBlank c = true)
    (s : List Char) : inhabitedLines (gap ++ s) = inhabitedLines s := by
  induction gap with
  | nil => rfl
  | cons c gap ih =>
      obtain ⟨hc, hgap⟩ := List.forall_mem_cons.mp hgap
      rw [List.cons_append, inhabitedLines_cons hc, ih hgap]

theorem inhabitedLines_append_blank {gap : List Char} (hgap : ∀ c ∈ gap, isBlank c = true)
    (s : List Char) : inhabitedLines (s ++ gap) = inhabitedLines s := by
  induction gap generalizing s with
  | nil => rw [List.append_nil]
  | cons c gap ih =>
      obtain ⟨hc, hgap⟩ := List.forall_mem_cons.mp hgap
      rw [List.append_cons, ih hgap, inhabitedLines_concat hc]

theorem inhabitedLines_line {line : List Char} (h : Tidy line) : inhabitedLines line = [line] := by
  have hsingle : ∀ l ∈ [line], Tidy l := by simpa using h
  have hfeed := inhabitedLines_flatMap hsingle
  rw [← inhabitedLines_concat (c := '\n') (by decide) line]
  simpa using hfeed

theorem Lined.inhabitedLines_eq {s : List Char} {lines : List (List Char)} (h : Lined s lines) :
    inhabitedLines s = lines := by
  induction h with
  | @blank s hblank =>
      rw [← List.append_nil s, inhabitedLines_blank_append hblank]
      rfl
  | @line before line gap after lines hbefore hline hgap hafter rest ih =>
      have hfirst : inhabitedLines (before ++ line ++ gap) = [line] := by
        rw [inhabitedLines_append_blank hgap, inhabitedLines_blank_append hbefore,
          inhabitedLines_line hline]
      cases after with
      | nil =>
          rw [List.append_nil, hfirst, ← ih]
          rfl
      | cons c after =>
          obtain rfl : c = '\n' := hafter c rfl
          rw [inhabitedLines_append_cons, hfirst, ← ih, inhabitedLines_cons (by decide),
            List.singleton_append]

/-- A line that starts earlier, at a character that is not white space. -/
theorem Tidy.extend {c : Char} {before line : List Char} (h : Tidy line) (hc : isBlank c = false)
    (hfeed : '\n' ∉ before) : Tidy (c :: before ++ line) where
  inhabited := by simp
  single := by
    intro hmem
    rcases List.mem_append.mp hmem with hmem | hmem
    · rcases List.mem_cons.mp hmem with rfl | hmem
      · exact absurd hc (by decide)
      · exact hfeed hmem
    · exact h.single hmem
  head := by
    rintro d ⟨⟩
    exact hc
  last := by
    have hlast : (c :: before ++ line).getLast? = line.getLast? := by
      rw [List.getLast?_append, List.getLast?_eq_some_getLast h.inhabited]
      rfl
    rw [hlast]
    exact h.last

/-- Every text lays out some lines: a character in front either is white space, starts a line of its
own or, where no line feed follows before it, belongs to the first line. -/
theorem exists_lined (s : List Char) : ∃ lines, Lined s lines := by
  induction s with
  | nil => exact ⟨[], .blank (by simp)⟩
  | cons c s ih =>
      obtain ⟨lines, h⟩ := ih
      by_cases hc : isBlank c = true
      · cases h with
        | blank hblank => exact ⟨[], .blank (List.forall_mem_cons.mpr ⟨hc, hblank⟩)⟩
        | @line before line gap after lines hbefore hline hgap hafter rest =>
            exact ⟨line :: lines,
              .line (c :: before) (List.forall_mem_cons.mpr ⟨hc, hbefore⟩) hline hgap
                hafter rest⟩
      · rw [Bool.not_eq_true] at hc
        have hsingle : Tidy [c] := tidy_of_plain (List.cons_ne_nil c []) (by simpa using hc)
        cases h with
        | blank hblank =>
            have hlined : Lined ([] ++ [c] ++ s ++ []) [[c]] :=
              .line [] (by simp) hsingle hblank (by simp) (.blank (by simp))
            exact ⟨[[c]], by simpa using hlined⟩
        | @line before line gap after lines hbefore hline hgap hafter rest =>
            by_cases hfeed : '\n' ∈ before
            · obtain ⟨near, far, rfl⟩ := List.append_of_mem hfeed
              rw [List.forall_mem_append] at hbefore
              have hnext := Lined.line _ hbefore.2 hline hgap hafter rest
              have hlined := Lined.line [] (by simp) hsingle hbefore.1 (by simp) hnext
              exact ⟨[c] :: line :: lines, by simpa using hlined⟩
            · have hlonger := hline.extend hc hfeed
              have hlined := Lined.line [] (by simp) hlonger hgap hafter rest
              exact ⟨(c :: before ++ line) :: lines, by simpa using hlined⟩

theorem inhabitedLines_eq_iff {s : List Char} {lines : List (List Char)} :
    inhabitedLines s = lines ↔ Lined s lines := by
  constructor
  · rintro rfl
    obtain ⟨lines, h⟩ := exists_lined s
    rwa [h.inhabitedLines_eq]
  · exact Lined.inhabitedLines_eq

end EmbeddingAttack.Text
