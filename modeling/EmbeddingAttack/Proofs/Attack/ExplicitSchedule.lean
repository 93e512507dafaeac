import EmbeddingAttack.Proofs.Attack.SteppedRange
import EmbeddingAttack.Proofs.Computation
import EmbeddingAttack.Proofs.Text.Parts

/-!
# Explicit schedules

The format of an explicit range, said without the reader, and the schedule that it stands for.
Every text either describes a range, and then its schedule is the ramp followed by the blocksizes of
that range, or it is refused for what is wrong with it.
-/

namespace EmbeddingAttack.Schedule

open Text

/-! ## The format -/

/-- The integers of a range with its first value, its end and its step. -/
inductive Bounds : List Int → (low high step : Int) → Prop where
  | upTo (high : Int) : Bounds [high] 0 high 1
  | between (low high : Int) : Bounds [low, high] low high 1
  | stepped (low high : Int) {step : Int} (hstep : step ≠ 0) :
      Bounds [low, high, step] low high step

/-- The text gives the bounds and the step of a range, with colons between them. -/
def Describes (text : String) (low high step : Int) : Prop :=
  ∃ zs, Holds ':' text.toList zs ∧ Bounds zs low high step

/-- Why a text describes no range: it does not consist of integers, there are too many of them, or
the step is zero. -/
inductive Refused (α : Type) (text : String) : ParameterFault α → Prop where
  | entry (fault : IntegerFault) (hnone : ∀ zs ≠ [], ¬ Holds ':' text.toList zs) :
      Refused α text (.blocksizeEntry text fault)
  | arity {zs : List Int} (hholds : Holds ':' text.toList zs) (hmany : 3 < zs.length) :
      Refused α text (.blocksizeArity text)
  | increment {low high : Int} (hholds : Holds ':' text.toList [low, high, 0]) :
      Refused α text (.blocksizeIncrement text)

/-! ## Reading -/

variable {α : Type}

theorem readEntries_eq_ok_iff {text : String} {parts : List (List Char)} {zs : List Int} :
    (readEntries text parts : Except (Failure α) (List Int)) = .ok zs ↔
      List.Forall₂ Entry parts zs := by
  induction parts generalizing zs with
  | nil =>
      rw [List.forall₂_nil_left_iff, readEntries]
      exact ⟨fun h => (Except.ok.inj h).symm, fun h => h ▸ rfl⟩
  | cons part parts ih =>
      rw [readEntries, List.forall₂_cons_left_iff]
      constructor
      · intro h
        split at h
        · cases h
        rename_i z hz
        obtain ⟨rest, hrest, h⟩ := bind_eq_ok.mp h
        cases h
        exact ⟨z, rest, readInt_trim_eq_ok_iff.mp hz, ih.mp hrest, rfl⟩
      · rintro ⟨z, rest, hz, hrest, rfl⟩
        rw [readInt_trim_eq_ok_iff.mpr hz]
        exact bind_eq_ok.mpr ⟨rest, ih.mpr hrest, rfl⟩

theorem failsOnly_readEntries (text : String) (parts : List (List Char)) :
    FailsOnly (fun e : Failure α => ∃ fault, e = .parameters (.blocksizeEntry text fault))
      (readEntries text parts) := by
  induction parts with
  | nil => exact .pure []
  | cons part parts ih =>
      rw [readEntries]
      split
      · exact .throw ⟨_, rfl⟩
      · exact ih.bind fun rest _ => .pure _

theorem separates_colon : Separates ':' := by
  unfold Separates
  decide

/-- The integers of a text are read off, or it holds none and the first part that is no integer is
reported. -/
theorem readEntries_cases (α : Type) (text : String) :
    (∃ zs ≠ [], Holds ':' text.toList zs ∧
      (readEntries text (splitBy (· == ':') text.toList) : Except (Failure α) _) = .ok zs) ∨
    ((∀ zs ≠ [], ¬ Holds ':' text.toList zs) ∧ ∃ fault,
      (readEntries text (splitBy (· == ':') text.toList) : Except (Failure α) _) =
        .error (.parameters (.blocksizeEntry text fault))) := by
  have hiff (zs : List Int) :
      (readEntries text (splitBy (· == ':') text.toList) : Except (Failure α) _) = .ok zs ↔
        zs ≠ [] ∧ Holds ':' text.toList zs :=
    readEntries_eq_ok_iff.trans (forall₂_splitBy_iff separates_colon)
  cases hread : (readEntries text (splitBy (· == ':') text.toList) : Except (Failure α) _) with
  | ok zs =>
      obtain ⟨hne, hholds⟩ := (hiff zs).mp hread
      exact .inl ⟨zs, hne, hholds, rfl⟩
  | error e =>
      obtain ⟨fault, rfl⟩ := failsOnly_readEntries text _ e hread
      refine .inr ⟨fun zs hne hholds => ?_, fault, rfl⟩
      cases hread.symm.trans ((hiff zs).mpr ⟨hne, hholds⟩)

/-! ## The schedule -/

/-- The ramp consists of blocksizes, so that all of it is kept. -/
theorem ofInts_ramp (xs : List Int) : ofInts (steppedRange 10 40 1 ++ xs) =
    ⟨List.range' 10 30 ++ (xs.filter (2 ≤ ·)).map Int.toNat⟩ := by
  have hramp : ((steppedRange 10 40 1).filter (2 ≤ ·)).map Int.toNat = List.range' 10 30 := by
    decide
  unfold ofInts
  rw [List.filter_append, List.map_append, hramp]

theorem explicit_of_bounds {text : String} {zs : List Int} {low high step : Int}
    (hread : (readEntries text (splitBy (· == ':') text.toList) : Except (Failure α) _) = .ok zs)
    (hbounds : Bounds zs low high step) : (explicit text : Except (Failure α) Schedule) =
      .ok (ofInts (steppedRange 10 40 1 ++ steppedRange low high step)) := by
  unfold explicit
  rw [hread]
  cases hbounds with
  | upTo => rfl
  | between => rfl
  | stepped _ _ hstep => exact if_neg hstep

/-- Integers that give no bounds are too many or have a step of zero. -/
theorem refused_of_not_bounds {text : String} {zs : List Int} (hne : zs ≠ [])
    (hholds : Holds ':' text.toList zs)
    (hread : (readEntries text (splitBy (· == ':') text.toList) : Except (Failure α) _) = .ok zs)
    (hnone : ∀ low high step, ¬ Bounds zs low high step) :
    ∃ fault, (explicit text : Except (Failure α) Schedule) = .error (.parameters fault) ∧
      Refused α text fault := by
  unfold explicit
  rw [hread]
  match zs, hne, hholds, hnone with
  | [high], _, _, hnone => exact absurd (.upTo high) (hnone 0 high 1)
  | [low, high], _, _, hnone => exact absurd (.between low high) (hnone low high 1)
  | [low, high, step], _, hholds, hnone =>
      obtain rfl : step = 0 := by
        by_contra hstep
        exact hnone low high step (.stepped low high hstep)
      exact ⟨_, rfl, .increment hholds⟩
  | low :: high :: step :: next :: rest, _, hholds, _ =>
      exact ⟨_, rfl, .arity hholds (by simp)⟩

/-- A text that describes a range gives the ramp, followed by the values of the range that are
blocksizes: the first multiples of the step from the low end on, as many as lead to values before
the high end.  All other texts are refused, each for what is wrong with it. -/
theorem explicit_reads_range (text : String) :
    ((explicit text : Except (Failure α) Schedule).isOk = true ↔
      ∃ low high step, Describes text low high step) ∧
    (∀ low high step, Describes text low high step → ∃ count : Nat,
      (∀ i : Nat, i < count ↔ ComesBefore step high (low + i * step)) ∧
      (explicit text : Except (Failure α) Schedule) = .ok ⟨List.range' 10 30 ++
        (((List.range count).map fun i : Nat => low + i * step).filter (2 ≤ ·)).map Int.toNat⟩) ∧
    ((¬ ∃ low high step, Describes text low high step) →
      ∃ fault, (explicit text : Except (Failure α) Schedule) = .error (.parameters fault) ∧
        Refused α text fault) := by
  have hdescribed {low high step : Int} (h : Describes text low high step) :
      (explicit text : Except (Failure α) Schedule) =
        .ok (ofInts (steppedRange 10 40 1 ++ steppedRange low high step)) := by
    obtain ⟨zs, hholds, hbounds⟩ := h
    have hne : zs ≠ [] := by
      rintro rfl
      cases hbounds
    exact explicit_of_bounds
      (readEntries_eq_ok_iff.mpr ((forall₂_splitBy_iff separates_colon).mpr ⟨hne, hholds⟩)) hbounds
  have hrefused (h : ¬ ∃ low high step, Describes text low high step) :
      ∃ fault, (explicit text : Except (Failure α) Schedule) = .error (.parameters fault) ∧
        Refused α text fault := by
    rcases readEntries_cases α text with ⟨zs, hne, hholds, hread⟩ | ⟨hnone, fault, hread⟩
    · exact refused_of_not_bounds hne hholds hread
        fun low high step hbounds => h ⟨low, high, step, zs, hholds, hbounds⟩
    · refine ⟨_, ?_, .entry fault hnone⟩
      unfold explicit
      rw [hread]
      rfl
  refine ⟨⟨fun hok => ?_, ?_⟩, fun low high step h => ?_, hrefused⟩
  · by_contra hnone
    obtain ⟨fault, herror, -⟩ := hrefused hnone
    rw [herror] at hok
    cases hok
  · rintro ⟨low, high, step, h⟩
    rw [hdescribed h]
    rfl
  · obtain ⟨count, hcount, hrange⟩ := exists_steppedRange_eq low high step
    exact ⟨count, hcount, by rw [hdescribed h, hrange, ofInts_ramp]⟩

/-- A range that goes down, with white space in its text. -/
theorem explicit_reads_descending :
    Describes " 50:44: -2" 50 44 (-2) ∧
      (explicit " 50:44: -2" : Except (Failure Float) Schedule) =
        .ok ⟨List.range' 10 30 ++ [50, 48, 46]⟩ := by
  have hliteral {s : List Char} {z : Int} (h : readInt (trim s) = .ok z) : Entry s z :=
    readInt_trim_eq_ok_iff.mp h
  have hdescribes : Describes " 50:44: -2" 50 44 (-2) :=
    ⟨[50, 44, -2], ⟨[" 50".toList, "44".toList, " -2".toList], rfl,
      .cons (hliteral rfl) (.cons (hliteral rfl) (.cons (hliteral rfl) .nil))⟩,
      .stepped 50 44 (by decide)⟩
  obtain ⟨count, hcount, hexplicit⟩ :=
    (explicit_reads_range (α := Float) " 50:44: -2").2.1 50 44 (-2) hdescribes
  have hthree : 2 < count ∧ ¬ 3 < count := by
    rw [hcount, hcount]
    decide
  obtain rfl : count = 3 := by omega
  exact ⟨hdescribes, hexplicit.trans rfl⟩

end EmbeddingAttack.Schedule
