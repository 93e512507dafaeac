import EmbeddingAttack.Decimal.Notation
import EmbeddingAttack.Proofs.Text.Integer

/-!
# The characters of a number

A number in positional notation is written with digits, a point and a sign, and the names of the
undefined and infinite values with letters.  So its text is never empty and holds no white space.
-/

namespace EmbeddingAttack.Decimal

open Text

/-- A text of one word: there is something on it, no white space and no bracket that opens a
vector. -/
structure Word (s : List Char) : Prop where
  inhabited : s ≠ []
  plain : ∀ c ∈ s, isBlank c = false ∧ c ≠ '['

theorem word_of_all {s : List Char} (hne : s ≠ [])
    (h : s.all (fun c => !isBlank c && c != '[') = true) : Word s where
  inhabited := hne
  plain c hc := by simpa using List.all_eq_true.mp h c hc

theorem word_writeInt (z : Int) : Word (writeInt z) where
  inhabited := writeInt_ne_nil z
  plain _ hc := ⟨(plain_of_mem_writeInt hc).1, (plain_of_mem_writeInt hc).2.2⟩

theorem word_writeNat (n : Nat) : Word (writeNat n) :=
  word_writeInt n

theorem Word.cons {s : List Char} (h : Word s) {c : Char} (hblank : isBlank c = false)
    (hbracket : c ≠ '[') : Word (c :: s) where
  inhabited := List.cons_ne_nil c s
  plain := List.forall_mem_cons.mpr ⟨⟨hblank, hbracket⟩, h.plain⟩

theorem word_signed {s : List Char} (negative : Bool) (h : Word s) : Word (signed negative s) := by
  unfold signed
  split
  · exact h.cons (by decide) (by decide)
  · exact h

theorem word_setPoint (n places : Nat) : Word (setPoint n places) := by
  unfold setPoint
  extract_lets digits whole
  have hdigits : ∀ c ∈ digits, isBlank c = false ∧ c ≠ '[' := by
    intro c hc
    rcases List.mem_append.mp hc with hzero | hdigit
    · rw [List.eq_of_mem_replicate hzero]
      decide
    · exact (word_writeNat n).plain c hdigit
  have hlength : places < digits.length := by
    simp only [digits, padZeros, List.length_append, List.length_replicate]
    omega
  have hwhole : Word whole := by
    constructor
    · intro hnil
      have hzero := congrArg List.length hnil
      simp only [whole, List.length_take, List.length_nil] at hzero
      omega
    · exact fun c hc => hdigits c (List.mem_of_mem_take hc)
  split
  · exact hwhole
  · constructor
    · simp
    · intro c hc
      rcases List.mem_append.mp hc with hc | hc
      · exact hwhole.plain c hc
      · rcases List.mem_cons.mp hc with rfl | hc
        · decide
        · exact hdigits c (List.mem_of_mem_drop hc)

theorem word_plain (x : Float) : Word (plain x) := by
  unfold plain
  split
  · exact word_of_all (by simp) (by decide)
  · exact word_signed _ (word_of_all (by simp) (by decide))
  · apply word_signed
    unfold positional
    split
    · exact word_writeNat _
    · exact word_setPoint _ _

end EmbeddingAttack.Decimal
