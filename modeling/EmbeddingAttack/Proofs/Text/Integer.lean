import EmbeddingAttack.Text.Blank
import EmbeddingAttack.Text.Integer
import Mathlib.Tactic.Common

/-!
# Decimal integers read back

The digits of a number, read one after the other, give the number again, as long as it lies within
the bound.  What a reader accepts lies within its bound in any case.
-/

namespace EmbeddingAttack.Text

/-! ## Digits -/

/-- A digit is none of the characters that have a meaning of their own in a text. -/
theorem digitChar_facts : ∀ d < 10, digitValue? (Nat.digitChar d) = some d ∧
    isBlank (Nat.digitChar d) = false ∧ Nat.digitChar d ≠ '-' ∧ Nat.digitChar d ≠ '+' ∧
    Nat.digitChar d ≠ ',' ∧ Nat.digitChar d ≠ '[' := by
  decide

theorem exists_digit_of_mem_writeNat {n : Nat} {c : Char} (h : c ∈ writeNat n) :
    ∃ d < 10, c = Nat.digitChar d := by
  unfold writeNat at h
  induction n using Nat.strongRecOn with
  | ind n ih =>
      rw [Nat.toDigits_eq_if (by decide)] at h
      split at h
      · exact ⟨n, by omega, by simpa using h⟩
      · rcases List.mem_append.mp h with h | h
        · exact ih (n / 10) (by omega) h
        · exact ⟨n % 10, by omega, by simpa using h⟩

theorem writeNat_ne_nil (n : Nat) : writeNat n ≠ [] :=
  Nat.toDigits_ne_nil

/-- No number is written with white space or a comma. -/
theorem plain_of_mem_writeInt {z : Int} {c : Char} (h : c ∈ writeInt z) :
    isBlank c = false ∧ c ≠ ',' ∧ c ≠ '[' := by
  have hdigit (n : Nat) (h : c ∈ writeNat n) : isBlank c = false ∧ c ≠ ',' ∧ c ≠ '[' := by
    obtain ⟨d, hd, rfl⟩ := exists_digit_of_mem_writeNat h
    obtain ⟨-, hblank, -, -, hcomma, hbracket⟩ := digitChar_facts d hd
    exact ⟨hblank, hcomma, hbracket⟩
  cases z with
  | ofNat n => exact hdigit n h
  | negSucc n =>
      rcases List.mem_cons.mp h with rfl | h
      · decide
      · exact hdigit (n + 1) h

theorem writeInt_ne_nil (z : Int) : writeInt z ≠ [] := by
  cases z with
  | ofNat n => exact writeNat_ne_nil n
  | negSucc n => exact List.cons_ne_nil _ _

/-! ## Reading -/

section Digits

variable {beyond : IntegerFault} {bound : Nat}

theorem readDigits_append (s t : List Char) (value : Nat) :
    readDigits beyond bound (s ++ t) value =
      (readDigits beyond bound s value).bind (readDigits beyond bound t) := by
  induction s generalizing value with
  | nil => rfl
  | cons c s ih =>
      rw [List.cons_append, readDigits, readDigits]
      cases digitValue? c with
      | none => rfl
      | some d =>
          dsimp only
          split
          · rfl
          · exact ih _

theorem readDigits_writeNat {n : Nat} (h : n ≤ bound) :
    readDigits beyond bound (writeNat n) 0 = .ok n := by
  unfold writeNat
  induction n using Nat.strongRecOn with
  | ind n ih =>
      have hlast (value : Nat) (hvalue : 10 * value + n % 10 = n) :
          readDigits beyond bound [Nat.digitChar (n % 10)] value = .ok n := by
        rw [readDigits, (digitChar_facts (n % 10) (by omega)).1]
        dsimp only
        rw [hvalue, if_neg (by omega), readDigits]
      rw [Nat.toDigits_eq_if (by decide)]
      split
      · rename_i hlt
        rw [show n = n % 10 by omega] at hlast ⊢
        simpa using hlast 0 (by omega)
      · rw [readDigits_append, ih (n / 10) (by omega) (by omega)]
        exact hlast (n / 10) (by omega)

theorem readDigits_le {s : List Char} {value n : Nat} (hvalue : value ≤ bound)
    (h : readDigits beyond bound s value = .ok n) : n ≤ bound := by
  induction s generalizing value with
  | nil =>
      cases h
      exact hvalue
  | cons c s ih =>
      rw [readDigits] at h
      split at h
      · cases h
      · dsimp only at h
        split at h
        · cases h
        · exact ih (by omega) h

theorem readMagnitude_writeNat {n : Nat} (h : n ≤ bound) :
    readMagnitude beyond bound (writeNat n) = .ok n := by
  unfold readMagnitude
  rw [if_neg (by simp [writeNat_ne_nil])]
  exact readDigits_writeNat h

theorem readMagnitude_le {s : List Char} {n : Nat} (h : readMagnitude beyond bound s = .ok n) :
    n ≤ bound := by
  unfold readMagnitude at h
  split at h
  · cases h
  · exact readDigits_le (Nat.zero_le bound) h

end Digits

theorem readInt_writeNat {n : Nat} (h : n ≤ maxInt64) : readInt (writeNat n) = .ok n := by
  have hread : readMagnitude .tooLarge maxInt64 (writeNat n) = .ok n :=
    readMagnitude_writeNat h
  have hhead : ∀ c s, writeNat n = c :: s → c ≠ '-' ∧ c ≠ '+' := by
    intro c s hs
    obtain ⟨d, hd, rfl⟩ := exists_digit_of_mem_writeNat (hs ▸ List.mem_cons_self)
    obtain ⟨-, -, hminus, hplus, -⟩ := digitChar_facts d hd
    exact ⟨hminus, hplus⟩
  unfold readInt
  split
  · rename_i hnil
    exact absurd hnil (writeNat_ne_nil n)
  · rename_i s hs
    exact absurd rfl (hhead _ _ hs).1
  · rename_i s hs
    exact absurd rfl (hhead _ _ hs).2
  · rw [hread]
    rfl

/-- Every signed 64-bit integer reads back from its text. -/
theorem readInt_writeInt {z : Int} (h : InInt64 z) : readInt (writeInt z) = .ok z := by
  obtain ⟨hlower, hupper⟩ := h
  cases z with
  | ofNat n => exact readInt_writeNat (Int.ofNat_le.mp hupper)
  | negSucc n =>
      have hread : readMagnitude .tooSmall (maxInt64 + 1) (writeNat (n + 1)) = .ok (n + 1) := by
        apply readMagnitude_writeNat
        omega
      rw [writeInt, readInt, hread]
      rfl

theorem inInt64_of_readInt {s : List Char} {z : Int} (h : readInt s = .ok z) : InInt64 z := by
  have hpositive {s : List Char}
      (h : (readMagnitude .tooLarge maxInt64 s).map Int.ofNat = .ok z) : InInt64 z := by
    cases hn : readMagnitude .tooLarge maxInt64 s with
    | error e =>
        rw [hn] at h
        cases h
    | ok n =>
        rw [hn] at h
        cases h
        have hle := readMagnitude_le hn
        show _ ≤ (n : Int) ∧ (n : Int) ≤ _
        omega
  unfold readInt at h
  split at h
  · cases h
  · rename_i s
    cases hn : readMagnitude .tooSmall (maxInt64 + 1) s with
    | error e =>
        rw [hn] at h
        cases h
    | ok n =>
        rw [hn] at h
        cases h
        have hle := readMagnitude_le hn
        show _ ≤ -(n : Int) ∧ -(n : Int) ≤ _
        omega
  · exact hpositive h
  · exact hpositive h

end EmbeddingAttack.Text
