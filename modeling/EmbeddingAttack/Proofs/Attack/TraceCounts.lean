import EmbeddingAttack.Attack.Tracer
import Mathlib.Data.List.Basic

/-!
# What statistics count

A tracer that collects statistics counts each label as often as it was recorded, whatever is noted
for it in between.  The number of calls can be read off one label, or added up over all labels of a
kind.
-/

namespace EmbeddingAttack

/-! ## Tables -/

namespace Table

variable {ν : Type} {key : String} {f : Option ν → ν} {entries : List (String × ν)}

/-- The keys ascend. -/
def Ascending (entries : List (String × ν)) : Prop :=
  entries.Pairwise fun a b => a.1 < b.1

theorem key_of_mem_updateEntries {entry : String × ν} (h : entry ∈ updateEntries key f entries) :
    entry.1 = key ∨ ∃ old ∈ entries, entry.1 = old.1 := by
  induction entries with
  | nil =>
      rw [List.mem_singleton.mp h]
      exact .inl rfl
  | cons first rest ih =>
      obtain ⟨k, v⟩ := first
      unfold updateEntries at h
      split at h
      · obtain rfl | h := List.mem_cons.mp h
        · exact .inl rfl
        · exact .inr ⟨entry, h, rfl⟩
      split at h
      · obtain rfl | h := List.mem_cons.mp h
        · exact .inl rfl
        · exact .inr ⟨entry, List.mem_cons_of_mem _ h, rfl⟩
      · obtain rfl | h := List.mem_cons.mp h
        · exact .inr ⟨_, List.mem_cons_self, rfl⟩
        · obtain hkey | ⟨old, hold, hkey⟩ := ih h
          · exact .inl hkey
          · exact .inr ⟨old, List.mem_cons_of_mem _ hold, hkey⟩

theorem ascending_updateEntries (h : Ascending entries) :
    Ascending (updateEntries key f entries) := by
  induction entries with
  | nil => exact List.pairwise_singleton _ _
  | cons first rest ih =>
      obtain ⟨k, v⟩ := first
      obtain ⟨hfirst, hrest⟩ := List.pairwise_cons.mp h
      unfold updateEntries
      split
      · rename_i hlt
        refine List.pairwise_cons.mpr ⟨?_, h⟩
        intro entry hentry
        obtain rfl | hentry := List.mem_cons.mp hentry
        · exact hlt
        · exact String.lt_trans hlt (hfirst entry hentry)
      split
      · rename_i heq
        subst heq
        exact List.pairwise_cons.mpr ⟨hfirst, hrest⟩
      · rename_i hlt hne
        refine List.pairwise_cons.mpr ⟨?_, ih hrest⟩
        intro entry hentry
        obtain hkey | ⟨old, hold, hkey⟩ := key_of_mem_updateEntries hentry
        · rw [hkey]
          apply Classical.byContradiction
          intro hle
          exact hne (String.le_antisymm (String.not_lt.mp hle) (String.not_lt.mp hlt))
        · rw [hkey]
          exact hfirst old hold

/-- The values at the keys with a property, added up. -/
def total (value : ν → Nat) (p : String → Bool) : List (String × ν) → Nat
  | [] => 0
  | (k, v) :: rest => (if p k then value v else 0) + total value p rest

theorem total_eq_zero {value : ν → Nat} {p : String → Bool}
    (h : ∀ entry ∈ entries, p entry.1 = false) : total value p entries = 0 := by
  induction entries with
  | nil => rfl
  | cons first rest ih =>
      obtain ⟨hfirst, hrest⟩ := List.forall_mem_cons.mp h
      rw [total, ih hrest, hfirst]
      rfl

theorem total_updateEntries {value : ν → Nat} {d : Nat}
    (hf : ∀ old, value (f old) = (old.map value).getD 0 + d) (p : String → Bool) :
    total value p (updateEntries key f entries) =
      total value p entries + if p key then d else 0 := by
  induction entries with
  | nil => simp [updateEntries, total, hf]
  | cons first rest ih =>
      obtain ⟨k, v⟩ := first
      unfold updateEntries
      split
      · rw [total, hf]
        simp [Nat.add_comm]
      split
      · rename_i heq
        subst heq
        rw [total, total, hf]
        split
        · exact Nat.add_right_comm _ _ _
        · rfl
      · rw [total, total, ih, Nat.add_assoc]

/-- In a table the total over a single key is the value there. -/
theorem total_key {value : ν → Nat} (h : Ascending entries) :
    total value (· = key) entries = ((entries.lookup key).map value).getD 0 := by
  induction entries with
  | nil => rfl
  | cons first rest ih =>
      obtain ⟨k, v⟩ := first
      obtain ⟨hfirst, hrest⟩ := List.pairwise_cons.mp h
      rw [total, List.lookup_cons]
      by_cases hk : k = key
      · subst hk
        -- No later key is the same.
        have hothers : total value (fun other => decide (other = k)) rest = 0 := by
          apply total_eq_zero
          intro entry hentry
          rw [decide_eq_false_iff_not]
          intro heq
          exact String.lt_irrefl k (heq ▸ hfirst entry hentry)
        rw [hothers]
        simp
      · have hne : (key == k) = false := by simpa using Ne.symm hk
        rw [hne, ← ih hrest]
        simp [hk]

end Table

/-! ## Reports -/

variable {α : Type}

namespace TraceReport

/-- How often a label was recorded. -/
def callsOf (report : TraceReport α) (label : String) : Nat :=
  ((report.entries.get? label).map (·.calls)).getD 0

/-- How often labels of a kind were recorded. -/
def callsWhere (report : TraceReport α) (kind : String → Bool) : Nat :=
  Table.total (·.calls) kind report.entries.entries

end TraceReport

namespace Tracer

variable [Scalar α] {labels : List String} {t : Tracer α}

/-- The tracer has recorded the labels. -/
def Counts (labels : List String) (t : Tracer α) : Prop :=
  ∃ report, t.report? = some report ∧ Table.Ascending report.entries.entries ∧
    ∀ kind, report.callsWhere kind = labels.countP kind

omit [Scalar α] in
theorem counts_start (root : String) : (start false root : Tracer α).Counts [] :=
  ⟨_, rfl, List.Pairwise.nil, fun _ => rfl⟩

namespace Counts

theorem update (h : t.Counts labels) (label : String) {d : Nat} {f : TraceEntry α → TraceEntry α}
    (hf : ∀ entry, (f entry).calls = entry.calls + d) :
    (t.update label f).Counts (labels ++ List.replicate d label) := by
  obtain ⟨report, ht, hascending, hcalls⟩ := h
  cases t with
  | dummy => cases ht
  | statistics _ =>
      cases ht
      refine ⟨_, rfl, Table.ascending_updateEntries hascending, fun kind => ?_⟩
      rw [List.countP_append, List.countP_replicate, ← hcalls]
      refine Table.total_updateEntries ?_ kind
      intro old
      rw [hf]
      cases old <;> rfl

theorem count (h : t.Counts labels) (label : String) :
    (t.count label).Counts (labels ++ [label]) :=
  h.update label (d := 1)
    (f := fun entry => { entry with calls := entry.calls + 1, seconds := entry.seconds + 0 })
    fun _ => rfl

theorem note (h : t.Counts labels) (label measure : String) (value : α) :
    (t.note label measure value).Counts labels := by
  have hnote := h.update label (d := 0)
    (f := fun entry => { entry with values := entry.values.insert measure value }) fun _ => rfl
  rwa [List.replicate_zero, List.append_nil] at hnote

omit [Scalar α] in
theorem exists_report (h : t.Counts labels) :
    ∃ report, t.report? = some report ∧ (∀ label, report.callsOf label = labels.count label) ∧
      ∀ kind, report.callsWhere kind = labels.countP kind := by
  obtain ⟨report, ht, hascending, hcalls⟩ := h
  refine ⟨report, ht, fun label => ?_, hcalls⟩
  have hlabel := (Table.total_key hascending).symm.trans (hcalls fun key => key = label)
  rw [List.count_eq_countP]
  exact hlabel

end Counts

end Tracer

end EmbeddingAttack
