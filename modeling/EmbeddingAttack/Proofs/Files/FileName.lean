import EmbeddingAttack.Attack.Solution
import EmbeddingAttack.Proofs.Files.Changes
import EmbeddingAttack.Proofs.Text.Integer

/-!
# Names of solution files

The dimension can be read off the name of a solution file, and files with different names in one
directory stand at different places.
-/

namespace EmbeddingAttack

open Text

/-! ## Numbers with leading zeros -/

namespace Text

theorem readDigits_replicate_zero {beyond : IntegerFault} {bound : Nat} (count : Nat)
    (s : List Char) :
    readDigits beyond bound (List.replicate count '0' ++ s) 0 = readDigits beyond bound s 0 := by
  induction count with
  | zero => rfl
  | succ count ih =>
      rw [List.replicate_succ, List.cons_append, readDigits]
      show (if bound < 10 * 0 + 0 then _ else readDigits beyond bound _ (10 * 0 + 0)) = _
      rw [if_neg (by omega)]
      exact ih

theorem padZeros_writeNat_inj {width n k : Nat}
    (h : padZeros width (writeNat n) = padZeros width (writeNat k)) : n = k := by
  have hread (i : Nat) (hi : i ≤ max n k) :
      readDigits .tooLarge (max n k) (padZeros width (writeNat i)) 0 = .ok i := by
    rw [padZeros, readDigits_replicate_zero, readDigits_writeNat hi]
  have hn := hread n (by omega)
  rw [h, hread k (by omega)] at hn
  cases hn
  rfl

theorem ne_of_mem_padZeros {width n : Nat} {c : Char} (h : c ∈ padZeros width (writeNat n)) :
    c ≠ '-' ∧ c ≠ '/' := by
  rcases List.mem_append.mp h with h | h
  · rw [List.eq_of_mem_replicate h]
    decide
  · obtain ⟨d, hd, rfl⟩ := exists_digit_of_mem_writeNat h
    have hdigit : ∀ d < 10, Nat.digitChar d ≠ '-' ∧ Nat.digitChar d ≠ '/' := by decide
    exact hdigit d hd

end Text

/-! ## Names in a directory -/

/-- A name that is one step of a path and leads to an entry of a directory. -/
structure IsFileName (name : String) : Prop where
  single : '/' ∉ name.toList
  long : 2 < name.toList.length

namespace Path

theorem step_of_long (here : List String) {name : String} (h : 2 < name.toList.length) :
    step here name = here ++ [name] := by
  have hne (other : String) (hother : other.toList.length ≤ 2) : name ≠ other := by
    rintro rfl
    omega
  have hstays : stays name = false := by
    simp [stays, hne "" (by decide), hne "." (by decide)]
  rw [step, hstays, if_neg Bool.false_ne_true, if_neg (hne ".." (by decide))]

/-- A name goes to the end of the last segment of a path. -/
theorem exists_segments_join (directory : String) : ∃ before last, ∀ name, IsFileName name →
    segments (join directory name) = before ++ [String.ofList (last ++ name.toList)] := by
  obtain ⟨start, hstart⟩ : ∃ start, ∀ name, IsFileName name → join directory name = start ++ name := by
    have hrelative (name : String) (h : IsFileName name) : name.startsWith "/" = false := by
      by_contra hname
      rw [Bool.not_eq_false, String.startsWith_string_iff] at hname
      exact h.single (hname.subset (by decide))
    unfold join
    by_cases hempty : directory.isEmpty = true
    · refine ⟨"", fun name h => ?_⟩
      simp [hempty]
    by_cases hends : directory.endsWith "/" = true
    · refine ⟨directory, fun name h => ?_⟩
      simp [hempty, hends, hrelative name h]
    · refine ⟨directory ++ "/", fun name h => ?_⟩
      simp [hempty, hends, hrelative name h]
  obtain ⟨pieces, last, hpieces⟩ := splitBy_append (p := (· == '/')) start.toList
  refine ⟨pieces.map String.ofList, last, fun name h => ?_⟩
  have hname : ∀ c ∈ name.toList, (c == '/') = false := by
    intro c hc
    exact beq_eq_false_iff_ne.mpr fun heq => h.single (heq ▸ hc)
  rw [segments, hstart name h, String.toList_append, hpieces _ hname, List.map_append]
  rfl

theorem join_inj {directory name other : String} (hname : IsFileName name)
    (hother : IsFileName other) (h : join directory name = join directory other) : name = other := by
  obtain ⟨before, last, hsegments⟩ := exists_segments_join directory
  have hsame := hsegments name hname
  rw [h, hsegments other hother] at hsame
  simpa using hsame.symm

end Path

namespace FileTree

variable {t : FileTree} {place : List String}

theorem exists_step_of_follow? {here before : List String} {segment : String}
    (h : t.follow? here (before ++ [segment]) = some place) :
    ∃ parent, place = Path.step parent segment := by
  induction before generalizing here with
  | nil =>
      rw [List.nil_append] at h
      unfold follow? at h
      split at h
      · cases h
        exact ⟨here, rfl⟩
      · cases h
  | cons first before ih =>
      rw [List.cons_append] at h
      unfold follow? at h
      split at h
      · exact ih h
      · cases h

/-- Different names in a directory lead to different places. -/
theorem name_eq_of_place?_eq {directory name other : String} (hname : IsFileName name)
    (hother : IsFileName other) (h : t.place? (Path.join directory name) = some place)
    (h' : t.place? (Path.join directory other) = some place) : name = other := by
  obtain ⟨before, last, hsegments⟩ := Path.exists_segments_join directory
  have hend (name : String) (hname : IsFileName name)
      (h : t.place? (Path.join directory name) = some place) :
      ∃ parent, place = parent ++ [String.ofList (last ++ name.toList)] := by
    unfold place? at h
    split at h
    · rw [hsegments name hname] at h
      obtain ⟨parent, hparent⟩ := exists_step_of_follow? h
      rw [Path.step_of_long] at hparent
      · exact ⟨parent, hparent⟩
      · have := hname.long
        rw [String.toList_ofList, List.length_append]
        omega
    · cases h
  obtain ⟨parent, hparent⟩ := hend name hname h
  obtain ⟨parent', hparent'⟩ := hend other hother h'
  rw [hparent] at hparent'
  have hsame := List.append_inj_right' hparent' rfl
  simp only [List.cons.injEq, String.ofList_inj, List.append_cancel_left_eq, and_true] at hsame
  exact String.toList_inj.mp hsame

end FileTree

/-! ## Solution files -/

namespace Solution

variable {α : Type} [Scalar α] {n k : Nat} {alpha beta : α}

theorem toList_fileName : (instanceFileName "solution" n alpha).toList =
    padZeros 3 (writeNat n) ++ '-' :: (padZeros 3 (writeNat (alphaCode alpha)) ++
      "-solution.txt".toList) := by
  simp [instanceFileName]

theorem isFileName (n : Nat) (alpha : α) : IsFileName (instanceFileName "solution" n alpha) where
  single h := by
    rw [toList_fileName, List.mem_append, List.mem_cons, List.mem_append] at h
    rcases h with h | h | h | h
    · exact (ne_of_mem_padZeros h).2 rfl
    · exact absurd h (by decide)
    · exact (ne_of_mem_padZeros h).2 rfl
    · exact absurd h (by decide)
  long := by
    rw [toList_fileName]
    simp
    omega

theorem dimension_eq_of_fileName_eq
    (h : instanceFileName "solution" n alpha = instanceFileName "solution" k beta) : n = k := by
  have hsplit (i : Nat) (gamma : α) : ∃ rest,
      splitBy (· == '-') (instanceFileName "solution" i gamma).toList =
        padZeros 3 (writeNat i) :: rest := by
    rw [toList_fileName, splitBy_append_separator _ rfl]
    · exact ⟨_, rfl⟩
    · intro c hc
      exact beq_eq_false_iff_ne.mpr (ne_of_mem_padZeros hc).1
  obtain ⟨rest, hn⟩ := hsplit n alpha
  obtain ⟨rest', hk⟩ := hsplit k beta
  rw [h, hk] at hn
  exact (padZeros_writeNat_inj (List.cons.inj hn).1).symm

/-- The paths of solutions in a directory differ where their dimensions do. -/
theorem dimension_eq_of_path_eq {directory : String}
    (h : path directory n alpha = path directory k beta) : n = k :=
  dimension_eq_of_fileName_eq (Path.join_inj (isFileName n alpha) (isFileName k beta) h)

end Solution

end EmbeddingAttack
