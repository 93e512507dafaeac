import EmbeddingAttack.Text.Blank
import Mathlib.Tactic.Common

/-!
# Lines and pieces read back

A text put together from pieces without separators falls into the same pieces again, and a text
written line by line into the same lines, as long as no line starts or ends with white space.
-/

namespace EmbeddingAttack.Text

variable {p : Char → Bool}

theorem splitBy_eq_singleton {s : List Char} (h : ∀ c ∈ s, p c = false) : splitBy p s = [s] := by
  induction s with
  | nil => rfl
  | cons c s ih =>
      obtain ⟨hc, hs⟩ := List.forall_mem_cons.mp h
      rw [splitBy, if_neg (by simp [hc]), ih hs]

theorem splitBy_append_separator {s : List Char} (h : ∀ c ∈ s, p c = false) {c : Char}
    (hc : p c = true) (rest : List Char) :
    splitBy p (s ++ c :: rest) = s :: splitBy p rest := by
  induction s with
  | nil => rw [List.nil_append, splitBy, if_pos hc]
  | cons d s ih =>
      obtain ⟨hd, hs⟩ := List.forall_mem_cons.mp h
      rw [List.cons_append, splitBy, if_neg (by simp [hd]), ih hs]

/-- What holds no separator goes to the end of the last piece. -/
theorem splitBy_append (s : List Char) : ∃ pieces last, ∀ t : List Char, (∀ c ∈ t, p c = false) →
    splitBy p (s ++ t) = pieces ++ [last ++ t] := by
  induction s with
  | nil => exact ⟨[], [], fun t ht => splitBy_eq_singleton ht⟩
  | cons c s ih =>
      obtain ⟨pieces, last, h⟩ := ih
      by_cases hc : p c = true
      · refine ⟨[] :: pieces, last, fun t ht => ?_⟩
        rw [List.cons_append, splitBy, if_pos hc, h t ht, List.cons_append]
      · cases pieces with
        | nil =>
            refine ⟨[], c :: last, fun t ht => ?_⟩
            rw [List.cons_append, splitBy, if_neg hc, h t ht]
            rfl
        | cons first pieces =>
            refine ⟨(c :: first) :: pieces, last, fun t ht => ?_⟩
            rw [List.cons_append, splitBy, if_neg hc, h t ht]
            rfl

theorem splitBy_ne_nil (s : List Char) : splitBy p s ≠ [] := by
  obtain ⟨pieces, last, h⟩ := splitBy_append (p := p) s
  have hs := h [] (by simp)
  rw [List.append_nil] at hs
  simp [hs]

/-- Pieces joined by a separator are the pieces that a split finds. -/
theorem splitBy_joinWith {c : Char} (hc : p c = true) {pieces : List (List Char)}
    (hne : pieces ≠ []) (h : ∀ piece ∈ pieces, ∀ d ∈ piece, p d = false) :
    splitBy p (joinWith [c] pieces) = pieces := by
  induction pieces with
  | nil => exact absurd rfl hne
  | cons piece rest ih =>
      obtain ⟨hpiece, hrest⟩ := List.forall_mem_cons.mp h
      cases rest with
      | nil => exact splitBy_eq_singleton hpiece
      | cons next rest =>
          have hjoin : joinWith [c] (piece :: next :: rest) =
              piece ++ c :: joinWith [c] (next :: rest) := by
            simp [joinWith]
          rw [hjoin, splitBy_append_separator hpiece hc, ih (by simp) hrest]

theorem mem_joinWith {separator : List Char} {pieces : List (List Char)} {c : Char}
    (h : c ∈ joinWith separator pieces) : c ∈ separator ∨ ∃ piece ∈ pieces, c ∈ piece := by
  induction pieces with
  | nil => cases h
  | cons piece rest ih =>
      cases rest with
      | nil => exact .inr ⟨piece, by simp, h⟩
      | cons next rest =>
          rw [joinWith] at h
          · rcases List.mem_append.mp h with h | h
            · rcases List.mem_append.mp h with h | h
              · exact .inr ⟨piece, by simp, h⟩
              · exact .inl h
            · rcases ih h with h | ⟨other, hother, h⟩
              · exact .inl h
              · exact .inr ⟨other, List.mem_cons_of_mem _ hother, h⟩
          · simp

/-! ## Lines -/

theorem trim_eq_self {s : List Char} (hhead : ∀ c ∈ s.head?, isBlank c = false)
    (hlast : ∀ c ∈ s.getLast?, isBlank c = false) : trim s = s := by
  have hleft (t : List Char) (h : ∀ c ∈ t.head?, isBlank c = false) :
      t.dropWhile isBlank = t := by
    cases t with
    | nil => rfl
    | cons c t => simp [h c rfl]
  have hright : s.reverse.dropWhile isBlank = s.reverse := by
    apply hleft
    rwa [List.head?_reverse]
  rw [trim, hleft s hhead, trimRight, hright, List.reverse_reverse]

/-- A line that is kept as it is: there is something on it, and white space neither before nor
after. -/
structure Tidy (line : List Char) : Prop where
  inhabited : line ≠ []
  single : '\n' ∉ line
  head : ∀ c ∈ line.head?, isBlank c = false
  last : ∀ c ∈ line.getLast?, isBlank c = false

theorem tidy_of_plain {line : List Char} (hne : line ≠ []) (h : ∀ c ∈ line, isBlank c = false) :
    Tidy line where
  inhabited := hne
  single hmem := absurd (h _ hmem) (by decide)
  head c hc := h c (List.mem_of_mem_head? hc)
  last c hc := h c (List.mem_of_getLast? hc)

/-- Tidy lines, each ended by a line feed, are the inhabited lines of their text. -/
theorem inhabitedLines_flatMap {lines : List (List Char)} (h : ∀ line ∈ lines, Tidy line) :
    inhabitedLines (lines.flatMap (· ++ ['\n'])) = lines := by
  have hsplit : splitBy (· == '\n') (lines.flatMap (· ++ ['\n'])) = lines ++ [[]] := by
    induction lines with
    | nil => rfl
    | cons line rest ih =>
        obtain ⟨hline, hrest⟩ := List.forall_mem_cons.mp h
        have hsingle : ∀ c ∈ line, (c == '\n') = false := by
          intro c hc
          exact beq_eq_false_iff_ne.mpr fun heq => hline.single (heq ▸ hc)
        rw [List.flatMap_cons, List.append_assoc, List.singleton_append,
          splitBy_append_separator hsingle rfl, ih hrest, List.cons_append]
  have htrim : lines.map trim = lines := by
    calc
      lines.map trim = lines.map id := by
        apply List.map_congr_left
        intro line hline
        exact trim_eq_self (h line hline).head (h line hline).last
      _ = lines := List.map_id lines
  have hkept : lines.filter (!·.isEmpty) = lines := by
    apply List.filter_eq_self.mpr
    intro line hline
    simp [(h line hline).inhabited]
  rw [inhabitedLines, hsplit, List.map_append, htrim, List.filter_append, hkept]
  exact List.append_nil lines

end EmbeddingAttack.Text
