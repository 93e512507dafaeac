import EmbeddingAttack.Proofs.Text.Integer
import Mathlib.Data.Nat.Digits.Lemmas
import Mathlib.Tactic.Ring

/-!
# Integer literals

An integer literal is a sequence of decimal digits, with or without a sign before it.  The reader
accepts the literals whose values are signed 64-bit integers and nothing else, and gives these
values.
-/

namespace EmbeddingAttack.Text

/-- A sequence of decimal digits, the most significant first, and the number that it denotes. -/
def Digits (s : List Char) (n : Nat) : Prop :=
  ∃ ds : List Nat, ds ≠ [] ∧ (∀ d ∈ ds, d < 10) ∧ s = ds.map Nat.digitChar ∧
    Nat.ofDigits 10 ds.reverse = n

/-- Digits, with or without a sign before them, and the integer that they denote. -/
inductive Literal : List Char → Int → Prop where
  | unsigned {s : List Char} {n : Nat} (digits : Digits s n) : Literal s n
  | plus {s : List Char} {n : Nat} (digits : Digits s n) : Literal ('+' :: s) n
  | minus {s : List Char} {n : Nat} (digits : Digits s n) : Literal ('-' :: s) (-n)

/-! ## Digits -/

theorem digitValue?_eq_some_iff {c : Char} {d : Nat} :
    digitValue? c = some d ↔ d < 10 ∧ c = Nat.digitChar d := by
  constructor
  · intro h
    unfold digitValue? at h
    split at h
    · rename_i hrange
      have hlower : 48 ≤ c.toNat := hrange.1
      have hupper : c.toNat ≤ 57 := hrange.2
      have hd : c.toNat - 48 = d := Option.some.inj h
      refine ⟨by omega, Char.toNat_inj.mp ?_⟩
      rw [Nat.toNat_digitChar_of_lt_ten (by omega)]
      omega
    · cases h
  · rintro ⟨hd, rfl⟩
    exact (digitChar_facts d hd).1

theorem Digits.exists_head {s : List Char} {n : Nat} (h : Digits s n) :
    ∃ d < 10, s.head? = some (Nat.digitChar d) := by
  obtain ⟨ds, hne, hlt, rfl, -⟩ := h
  cases ds with
  | nil => exact absurd rfl hne
  | cons d ds => exact ⟨d, hlt d List.mem_cons_self, rfl⟩

section Reading

variable {beyond : IntegerFault} {bound : Nat}

/-- Digits are read after a number as long as the whole stays within the bound. -/
theorem readDigits_eq_ok_iff {s : List Char} {value n : Nat} (hvalue : value ≤ bound) :
    readDigits beyond bound s value = .ok n ↔ n ≤ bound ∧ ∃ ds : List Nat, (∀ d ∈ ds, d < 10) ∧
      s = ds.map Nat.digitChar ∧ value * 10 ^ ds.length + Nat.ofDigits 10 ds.reverse = n := by
  have hcons (d : Nat) (ds : List Nat) (value : Nat) :
      value * 10 ^ (d :: ds).length + Nat.ofDigits 10 (d :: ds).reverse =
        (10 * value + d) * 10 ^ ds.length + Nat.ofDigits 10 ds.reverse := by
    rw [List.reverse_cons, Nat.ofDigits_append, Nat.ofDigits_singleton, List.length_reverse,
      List.length_cons]
    ring
  induction s generalizing value with
  | nil =>
      constructor
      · intro h
        cases h
        exact ⟨hvalue, [], by simp⟩
      · rintro ⟨-, ds, -, hnil, rfl⟩
        obtain rfl := List.map_eq_nil_iff.mp hnil.symm
        simp [readDigits]
  | cons c s ih =>
      rw [readDigits]
      constructor
      · intro h
        split at h
        · cases h
        rename_i d hdigit
        obtain ⟨hd, rfl⟩ := digitValue?_eq_some_iff.mp hdigit
        dsimp only at h
        split at h
        · cases h
        rename_i hnext
        obtain ⟨hn, ds, hds, rfl, hsum⟩ := (ih (Nat.le_of_not_lt hnext)).mp h
        exact ⟨hn, d :: ds, List.forall_mem_cons.mpr ⟨hd, hds⟩, rfl, (hcons d ds value).trans hsum⟩
      · rintro ⟨hn, ds, hds, hs, hsum⟩
        cases ds with
        | nil => cases hs
        | cons d ds =>
            obtain ⟨rfl, rfl⟩ := List.cons.inj hs
            obtain ⟨hd, hds⟩ := List.forall_mem_cons.mp hds
            rw [hcons] at hsum
            have hnext : 10 * value + d ≤ bound := by
              have hpow : 10 * value + d ≤ (10 * value + d) * 10 ^ ds.length :=
                Nat.le_mul_of_pos_right _ (by positivity)
              omega
            rw [digitValue?_eq_some_iff.mpr ⟨hd, rfl⟩]
            dsimp only
            rw [if_neg (Nat.not_lt.mpr hnext)]
            exact (ih hnext).mpr ⟨hn, ds, hds, rfl, hsum⟩

theorem readMagnitude_eq_ok_iff {s : List Char} {n : Nat} :
    readMagnitude beyond bound s = .ok n ↔ Digits s n ∧ n ≤ bound := by
  unfold readMagnitude
  cases s with
  | nil =>
      refine iff_of_false (by simp) ?_
      rintro ⟨⟨ds, hne, -, hnil, -⟩, -⟩
      exact hne (List.map_eq_nil_iff.mp hnil.symm)
  | cons c s =>
      rw [if_neg (by simp), readDigits_eq_ok_iff (Nat.zero_le bound)]
      constructor
      · rintro ⟨hn, ds, hds, hs, hsum⟩
        refine ⟨⟨ds, ?_, hds, hs, by simpa using hsum⟩, hn⟩
        rintro rfl
        cases hs
      · rintro ⟨⟨ds, -, hds, hs, hsum⟩, hn⟩
        exact ⟨hn, ds, hds, hs, by simpa using hsum⟩

end Reading

/-! ## Signs -/

theorem exists_of_map_ok {ε τ ρ : Type} {x : Except ε τ} {f : τ → ρ} {b : ρ} :
    x.map f = .ok b ↔ ∃ a, x = .ok a ∧ f a = b := by
  cases x with
  | error e => exact iff_of_false nofun nofun
  | ok a =>
      constructor
      · intro h
        exact ⟨a, rfl, Except.ok.inj h⟩
      · rintro ⟨_, ⟨⟩, rfl⟩
        rfl

theorem readInt_minus (s : List Char) : readInt ('-' :: s) =
    (readMagnitude .tooSmall (maxInt64 + 1) s).map fun n : Nat => -(n : Int) := by
  rw [readInt]
  cases readMagnitude .tooSmall (maxInt64 + 1) s with
  | error e => rfl
  | ok n => rfl

theorem readInt_plus (s : List Char) :
    readInt ('+' :: s) = (readMagnitude .tooLarge maxInt64 s).map Int.ofNat := by
  rw [readInt]

theorem readInt_unsigned {c : Char} (hminus : c ≠ '-') (hplus : c ≠ '+') (s : List Char) :
    readInt (c :: s) = (readMagnitude .tooLarge maxInt64 (c :: s)).map Int.ofNat := by
  rw [readInt]
  · exact List.cons_ne_nil c s
  · rintro _ ⟨⟩
    exact hminus rfl
  · rintro _ ⟨⟩
    exact hplus rfl

theorem Digits.head_ne_sign {c : Char} {s : List Char} {n : Nat} (h : Digits (c :: s) n) :
    c ≠ '-' ∧ c ≠ '+' := by
  obtain ⟨d, hd, hhead⟩ := h.exists_head
  obtain rfl : c = Nat.digitChar d := Option.some.inj hhead
  obtain ⟨-, -, hminus, hplus, -⟩ := digitChar_facts d hd
  exact ⟨hminus, hplus⟩

theorem nonnegative_eq_ok_iff {s : List Char} {z : Int} :
    (readMagnitude .tooLarge maxInt64 s).map Int.ofNat = .ok z ↔
      ∃ n : Nat, Digits s n ∧ z = n ∧ InInt64 z := by
  rw [exists_of_map_ok]
  constructor
  · rintro ⟨n, hread, rfl⟩
    obtain ⟨hdigits, hn⟩ := readMagnitude_eq_ok_iff.mp hread
    refine ⟨n, hdigits, rfl, ?_⟩
    show _ ≤ (n : Int) ∧ (n : Int) ≤ _
    omega
  · rintro ⟨n, hdigits, rfl, -, hn⟩
    exact ⟨n, readMagnitude_eq_ok_iff.mpr ⟨hdigits, Int.ofNat_le.mp hn⟩, rfl⟩

theorem negative_eq_ok_iff {s : List Char} {z : Int} :
    ((readMagnitude .tooSmall (maxInt64 + 1) s).map fun n : Nat => -(n : Int)) = .ok z ↔
      ∃ n : Nat, Digits s n ∧ z = -n ∧ InInt64 z := by
  rw [exists_of_map_ok]
  constructor
  · rintro ⟨n, hread, rfl⟩
    obtain ⟨hdigits, hn⟩ := readMagnitude_eq_ok_iff.mp hread
    refine ⟨n, hdigits, rfl, ?_⟩
    show _ ≤ -(n : Int) ∧ -(n : Int) ≤ _
    omega
  · rintro ⟨n, hdigits, rfl, hz, -⟩
    exact ⟨n, readMagnitude_eq_ok_iff.mpr ⟨hdigits, by omega⟩, rfl⟩

/-- The reader accepts the literals of signed 64-bit integers and gives their values. -/
theorem readInt_eq_ok_iff {s : List Char} {z : Int} :
    readInt s = .ok z ↔ Literal s z ∧ InInt64 z := by
  constructor
  · intro hread
    cases s with
    | nil => cases hread
    | cons c s =>
        by_cases hminus : c = '-'
        · rw [hminus, readInt_minus] at hread
          obtain ⟨n, hdigits, rfl, hz⟩ := negative_eq_ok_iff.mp hread
          exact ⟨hminus ▸ .minus hdigits, hz⟩
        by_cases hplus : c = '+'
        · rw [hplus, readInt_plus] at hread
          obtain ⟨n, hdigits, rfl, hz⟩ := nonnegative_eq_ok_iff.mp hread
          exact ⟨hplus ▸ .plus hdigits, hz⟩
        rw [readInt_unsigned hminus hplus] at hread
        obtain ⟨n, hdigits, rfl, hz⟩ := nonnegative_eq_ok_iff.mp hread
        exact ⟨.unsigned hdigits, hz⟩
  · rintro ⟨hliteral, hz⟩
    cases hliteral with
    | @unsigned s n hdigits =>
        cases s with
        | nil =>
            obtain ⟨d, -, hhead⟩ := hdigits.exists_head
            cases hhead
        | cons c s =>
            obtain ⟨hminus, hplus⟩ := hdigits.head_ne_sign
            rw [readInt_unsigned hminus hplus]
            exact nonnegative_eq_ok_iff.mpr ⟨n, hdigits, rfl, hz⟩
    | @plus s n hdigits =>
        rw [readInt_plus]
        exact nonnegative_eq_ok_iff.mpr ⟨n, hdigits, rfl, hz⟩
    | @minus s n hdigits =>
        rw [readInt_minus]
        exact negative_eq_ok_iff.mpr ⟨n, hdigits, rfl, hz⟩

end EmbeddingAttack.Text
