import EmbeddingAttack.FileTree
import EmbeddingAttack.Proofs.Computation
import EmbeddingAttack.Proofs.Text.Lines
import Mathlib.Data.Set.Insert

/-!
# What a change leaves in place

Making directories changes nothing that was there.  Writing a file changes the file at one place
and nothing else, so that every path that led somewhere still leads there.
-/

namespace EmbeddingAttack

namespace FileNode

variable {node found new : FileNode}

theorem lookup_cons_of_ne {name other : String} (h : other ≠ name)
    (entries : List (String × FileNode)) :
    ((name, node) :: entries).lookup other = entries.lookup other := by
  rw [List.lookup_cons, beq_false_of_ne h]

/-- A directory has the new entry, and all others as before. -/
theorem lookup_setEntry (name other : String) (new : FileNode)
    (entries : List (String × FileNode)) :
    (setEntry name new entries).lookup other =
      if other = name then some new else entries.lookup other := by
  by_cases h : other = name
  · subst h
    rw [if_pos rfl]
    induction entries with
    | nil => exact List.lookup_cons_self
    | cons entry rest ih =>
        rw [setEntry]
        split
        · exact List.lookup_cons_self
        · rename_i hkey
          rw [lookup_cons_of_ne (Ne.symm hkey), ih]
  · rw [if_neg h]
    induction entries with
    | nil => exact lookup_cons_of_ne h []
    | cons entry rest ih =>
        rw [setEntry]
        split
        · rename_i hkey
          rw [lookup_cons_of_ne h, lookup_cons_of_ne (hkey ▸ h)]
        · rw [List.lookup_cons, List.lookup_cons, ih]

/-- The node at the end of the given steps. -/
def descend? (node : FileNode) (steps : List String) : Option FileNode :=
  steps.foldlM entry? node

theorem descend?_cons {name : String} {steps : List String} :
    node.descend? (name :: steps) = (node.entry? name).bind fun next => next.descend? steps := by
  unfold descend?
  rw [List.foldlM_cons]
  rfl

theorem descend?_append {steps more : List String} :
    node.descend? (steps ++ more) =
      (node.descend? steps).bind fun next => next.descend? more := by
  unfold descend?
  rw [List.foldlM_append]
  rfl

/-- Only a directory has anything below it. -/
theorem exists_entries_of_descend? {name : String} {steps : List String}
    (h : node.descend? (name :: steps) = some found) :
    ∃ entries next, node = .directory entries ∧ entries.lookup name = some next ∧
      next.descend? steps = some found := by
  rw [descend?_cons] at h
  cases node with
  | file text => cases h
  | directory entries =>
      obtain ⟨next, hnext, hfound⟩ := Option.bind_eq_some_iff.mp h
      exact ⟨entries, next, rfl, hnext, hfound⟩

/-- What is put into a directory stands there. -/
theorem descend?_put_append {steps : List String} {name : String}
    {entries : List (String × FileNode)} (h : node.descend? steps = some (.directory entries)) :
    (put new (steps ++ [name]) node).descend? (steps ++ [name]) = some new := by
  induction steps generalizing node with
  | nil =>
      cases h
      rw [List.nil_append, put, descend?_cons]
      show ((setEntry name _ entries).lookup name).bind _ = _
      rw [lookup_setEntry, if_pos rfl]
      rfl
  | cons step steps ih =>
      obtain ⟨children, next, rfl, hnext, hsteps⟩ := exists_entries_of_descend? h
      rw [List.cons_append, put, descend?_cons]
      show ((setEntry step _ children).lookup step).bind _ = _
      rw [lookup_setEntry, if_pos rfl, hnext]
      exact ih hsteps

/-- A file that stays as it is, or a directory that stays one. -/
inductive Persists : FileNode → FileNode → Prop
  | file (text : String) : Persists (.file text) (.file text)
  | directory (before after : List (String × FileNode)) :
      Persists (.directory before) (.directory after)

theorem Persists.refl (node : FileNode) : node.Persists node := by
  cases node with
  | file text => exact .file text
  | directory entries => exact .directory entries entries

/-- What is put somewhere leaves everything in place that is not there or below. -/
theorem persists_put {steps other : List String} (hapart : ¬ steps <+: other)
    (h : node.descend? other = some found) :
    ∃ after, (put new steps node).descend? other = some after ∧ found.Persists after := by
  induction steps generalizing node other with
  | nil => exact absurd List.nil_prefix hapart
  | cons name steps ih =>
      cases node with
      | file text => exact ⟨found, h, .refl found⟩
      | directory entries =>
          cases other with
          | nil =>
              cases h
              exact ⟨_, rfl, .directory _ _⟩
          | cons step other =>
              obtain ⟨_, next, hentries, hnext, hfound⟩ := exists_entries_of_descend? h
              cases hentries
              rw [put, descend?_cons]
              show ∃ after, ((setEntry name _ entries).lookup step).bind _ = _ ∧ _
              rw [lookup_setEntry]
              by_cases hstep : step = name
              · subst hstep
                have hrest : ¬ steps <+: other := by
                  simpa [List.cons_prefix_cons] using hapart
                rw [if_pos rfl, hnext]
                exact ih hrest hfound
              · rw [if_neg hstep, hnext]
                exact ⟨found, hfound, .refl found⟩

end FileNode

namespace FileTree

variable {α : Type} {t t' t'' : FileTree} {place other : List String} {path text : String}

theorem isDirectory_iff :
    t.isDirectory place = true ↔ ∃ entries, t.node? place = some (.directory entries) := by
  unfold isDirectory
  split
  · rename_i entries h
    exact iff_of_true rfl ⟨entries, h⟩
  · rename_i h
    exact iff_of_false Bool.false_ne_true fun ⟨entries, hentries⟩ => h entries hentries

/-- Nothing is changed but the files at the given places, and nothing is taken away. -/
structure Keeps (changed : Set (List String)) (t t' : FileTree) : Prop where
  home_eq : t'.home = t.home
  directory : ∀ place, t.isDirectory place = true → t'.isDirectory place = true
  file : ∀ place ∉ changed, ∀ text, t.node? place = some (.file text) →
    t'.node? place = some (.file text)

namespace Keeps

variable {changed : Set (List String)}

theorem refl (t : FileTree) : Keeps changed t t :=
  ⟨rfl, fun _ h => h, fun _ _ _ h => h⟩

theorem trans (h : Keeps changed t t') (h' : Keeps changed t' t'') : Keeps changed t t'' where
  home_eq := h'.home_eq.trans h.home_eq
  directory place hplace := h'.directory place (h.directory place hplace)
  file place hplace text htext := h'.file place hplace text (h.file place hplace text htext)

theorem mono {changed' : Set (List String)} (h : Keeps changed t t') (hsub : changed ⊆ changed') :
    Keeps changed' t t' :=
  { h with file := fun place hplace => h.file place fun hmem => hplace (hsub hmem) }

/-- A node that takes the place of no directory. -/
theorem put (hplace : t.isDirectory place = false) (node : FileNode) :
    Keeps {place} t (t.put place node) := by
  have hpersists (other : List String) (hne : other ≠ place) (found : FileNode)
      (h : t.node? other = some found) :
      ∃ after, (t.put place node).node? other = some after ∧ found.Persists after := by
    apply FileNode.persists_put _ h
    rintro ⟨rest, rfl⟩
    change t.root.descend? (place ++ rest) = some found at h
    rw [FileNode.descend?_append] at h
    obtain ⟨next, hnext, hfound⟩ := Option.bind_eq_some_iff.mp h
    cases rest with
    | nil => exact hne (List.append_nil place)
    | cons name rest =>
        obtain ⟨entries, -, rfl, -⟩ := FileNode.exists_entries_of_descend? hfound
        rw [isDirectory_iff.mpr ⟨entries, hnext⟩] at hplace
        cases hplace
  refine ⟨rfl, ?_, ?_⟩
  · intro other hother
    obtain ⟨entries, hentries⟩ := isDirectory_iff.mp hother
    have hne : other ≠ place := by
      rintro rfl
      rw [hother] at hplace
      cases hplace
    obtain ⟨after, hafter, hkept⟩ := hpersists other hne _ hentries
    cases hkept with
    | directory _ after => exact isDirectory_iff.mpr ⟨after, hafter⟩
  · intro other hother text htext
    obtain ⟨after, hafter, hkept⟩ := hpersists other hother _ htext
    cases hkept with
    | file => exact hafter

/-- A node put where nothing was. -/
theorem put_new (hplace : t.node? place = none) (node : FileNode) :
    Keeps ∅ t (t.put place node) := by
  have hdirectory : t.isDirectory place = false := by
    simp [isDirectory, hplace]
  have h := put hdirectory node
  refine ⟨h.home_eq, h.directory, fun other _ text htext => h.file other ?_ text htext⟩
  rintro rfl
  rw [hplace] at htext
  cases htext

/-! ## Paths -/

theorem follow? (h : Keeps changed t t') {here : List String} {segments : List String}
    (hfollow : t.follow? here segments = some place) :
    t'.follow? here segments = some place := by
  induction segments generalizing here with
  | nil => exact hfollow
  | cons segment rest ih =>
      unfold FileTree.follow? at hfollow ⊢
      split at hfollow
      · rename_i hhere
        rw [if_pos (h.directory here hhere)]
        exact ih hfollow
      · cases hfollow

theorem place? (h : Keeps changed t t') (hplace : t.place? path = some place) :
    t'.place? path = some place := by
  unfold FileTree.place? at hplace ⊢
  split at hplace
  · rename_i hvalid
    rw [if_pos hvalid]
    have hstart : t'.start path = t.start path := by
      simp only [start, h.home_eq]
    rw [hstart]
    exact h.follow? hplace
  · cases hplace

end Keeps

theorem isDirectory_of_append {name : String}
    (h : t.isDirectory (place ++ [name]) = true) : t.isDirectory place = true := by
  obtain ⟨entries, hentries⟩ := isDirectory_iff.mp h
  change t.root.descend? (place ++ [name]) = _ at hentries
  rw [FileNode.descend?_append] at hentries
  obtain ⟨next, hnext, hfound⟩ := Option.bind_eq_some_iff.mp hentries
  obtain ⟨children, -, rfl, -⟩ := FileNode.exists_entries_of_descend? hfound
  exact isDirectory_iff.mpr ⟨children, hnext⟩

/-- A path leads to a directory or to an entry of one. -/
theorem follow?_eq_some {here segments : List String} (hne : segments ≠ [])
    (h : t.follow? here segments = some place) :
    t.isDirectory place = true ∨
      ∃ parent name, place = parent ++ [name] ∧ t.isDirectory parent = true := by
  induction segments generalizing here with
  | nil => exact absurd rfl hne
  | cons segment rest ih =>
      unfold follow? at h
      split at h
      · rename_i hhere
        by_cases hrest : rest = []
        · subst hrest
          cases h
          unfold Path.step
          split
          · exact .inl hhere
          split
          · rcases List.eq_nil_or_concat here with rfl | ⟨parent, name, rfl⟩
            · exact .inl hhere
            · rw [List.concat_eq_append] at hhere ⊢
              rw [List.dropLast_concat]
              exact .inl (isDirectory_of_append hhere)
          · exact .inr ⟨here, segment, rfl, hhere⟩
        · exact ih hrest h
      · cases h

/-! ## Reading -/

theorem read_eq_ok : t.read (α := α) path = .ok text ↔
    ∃ place, t.place? path = some place ∧ t.node? place = some (.file text) := by
  unfold read find?
  cases hplace : t.place? path with
  | none => simp
  | some place =>
      rw [Option.bind_some]
      cases hnode : t.node? place with
      | none => simp [hnode]
      | some node =>
          cases node <;> simp [hnode, pure, Except.pure]

theorem Keeps.read {changed : Set (List String)} (h : Keeps changed t t')
    (hread : t.read (α := α) path = .ok text)
    (hunchanged : ∀ place, t.place? path = some place → place ∉ changed) :
    t'.read (α := α) path = .ok text := by
  obtain ⟨place, hplace, hnode⟩ := read_eq_ok.mp hread
  exact read_eq_ok.mpr ⟨place, h.place? hplace, h.file place (hunchanged place hplace) text hnode⟩

/-! ## Changes -/

theorem createAlong_cons (here : List String) (segment : String) (rest : List String) :
    (createAlong here (segment :: rest) : Change α Unit) t =
      match t.node? (Path.step here segment) with
      | some (.file _) => .error (.file .system) t
      | some (.directory _) => createAlong (Path.step here segment) rest t
      | none =>
        if Path.fits segment then
          createAlong (Path.step here segment) rest
            (t.put (Path.step here segment) (.directory []))
        else .error (.file .system) t := by
  rw [createAlong]
  have hget : (get : Change α FileTree) t = .ok t t := rfl
  rw [bind_of_ok hget]
  dsimp only
  cases t.node? (Path.step here segment) with
  | none =>
      by_cases hfits : Path.fits segment = true
      · simp only [hfits, if_true]
        rfl
      · simp only [hfits]
        rfl
  | some node => cases node <;> rfl

theorem keeps_createAlong (here segments : List String) (t : FileTree) :
    Keeps ∅ t (finalState ((createAlong here segments : Change α Unit) t)) := by
  induction segments generalizing here t with
  | nil => exact .refl t
  | cons segment rest ih =>
      rw [createAlong_cons]
      split
      · exact .refl t
      · exact ih _ t
      · rename_i hnode
        split
        · exact (Keeps.put_new hnode _).trans (ih _ _)
        · exact .refl t

theorem keeps_createDirectories (path : String) (t : FileTree) :
    Keeps ∅ t (finalState ((createDirectories path : Change α Unit) t)) := by
  have hget (t : FileTree) : (get : Change α FileTree) t = .ok t t := rfl
  unfold createDirectories
  split
  · exact .refl t
  dsimp only
  split
  · rw [bind_of_ok (hget t)]
    by_cases hdot : Path.endsInDot (Path.segments path) = true
    · rw [if_pos hdot]
      have hleading := keeps_createAlong (α := α) (t.start path)
        (Path.leading (Path.segments path)) t
      cases hrun : (createAlong (t.start path) (Path.leading (Path.segments path)) :
          Change α Unit) t with
      | error e t' =>
          rw [hrun] at hleading
          rw [bind_of_error hrun]
          exact hleading
      | ok u t' =>
          rw [hrun] at hleading
          rw [bind_of_ok hrun, bind_of_ok (hget t')]
          cases t'.find? path with
          | none => exact hleading
          | some node => cases node <;> exact hleading
    · rw [if_neg hdot]
      exact keeps_createAlong _ _ t
  · exact .refl t

theorem write_eq (path text : String) (t : FileTree) :
    (write path text : Change α Unit) t =
      match t.place? path with
      | none => .error (.file .system) t
      | some place =>
        match t.node? place with
        | some (.directory _) => .error (.file .system) t
        | some (.file _) => .ok () (t.put place (.file text))
        | none =>
          if place.getLast?.all Path.fits then .ok () (t.put place (.file text))
          else .error (.file .system) t := by
  have hget : (get : Change α FileTree) t = .ok t t := rfl
  unfold write
  rw [bind_of_ok hget]
  cases t.place? path with
  | none => rfl
  | some place =>
      dsimp only
      cases t.node? place with
      | none =>
          by_cases hfits : place.getLast?.all Path.fits = true
          · simp only [hfits, if_true]
            rfl
          · simp only [hfits]
            rfl
      | some node => cases node <;> rfl

theorem write_of_error {e : Failure α} (h : (write path text : Change α Unit) t = .error e t') :
    t' = t := by
  rw [write_eq] at h
  split at h
  · cases h
    rfl
  split at h
  · cases h
    rfl
  · cases h
  · split at h
    · cases h
    · cases h
      rfl

/-- A file that was written stands at the end of its path, and nothing else has changed. -/
theorem write_eq_ok (h : (write path text : Change α Unit) t = .ok () t') :
    ∃ place, t'.place? path = some place ∧ t'.node? place = some (.file text) ∧
      Keeps {place} t t' := by
  rw [write_eq] at h
  cases hplace : t.place? path with
  | none =>
      rw [hplace] at h
      cases h
  | some place =>
      rw [hplace] at h
      have hwritten : t.isDirectory place = false ∧ t' = t.put place (.file text) := by
        unfold isDirectory
        dsimp only at h
        split at h
        · cases h
        · rename_i hnode
          cases h
          exact ⟨by rw [hnode], rfl⟩
        · rename_i hnode
          split at h
          · cases h
            exact ⟨by rw [hnode], rfl⟩
          · cases h
      obtain ⟨hdirectory, rfl⟩ := hwritten
      have hkeeps := Keeps.put hdirectory (.file text)
      refine ⟨place, hkeeps.place? hplace, ?_, hkeeps⟩
      have hfollow : t.follow? (t.start path) (Path.segments path) = some place := by
        unfold place? at hplace
        split at hplace
        · exact hplace
        · cases hplace
      have hne : Path.segments path ≠ [] := by
        simpa [Path.segments] using Text.splitBy_ne_nil path.toList
      rcases follow?_eq_some hne hfollow with hplaced | ⟨parent, name, rfl, hparent⟩
      · rw [hdirectory] at hplaced
        cases hplaced
      · obtain ⟨entries, hentries⟩ := isDirectory_iff.mp hparent
        exact FileNode.descend?_put_append hentries

end FileTree

end EmbeddingAttack
