import HaxeBackend.Store.FileTree

/-!
# Written files stay below their directory

A path that is accepted for output has only names for components, so following it from the place of the output
directory leads straight down (`placeOf_push`).  Writing changes no file but the one at that place
(`eq_of_get?_writeBelow_ne`), whether it succeeds or not.
-/

namespace HaxeBackend

/-! ### Names of files -/

/-- A piece of a path that leads one step down. -/
def FilePath.IsStep (piece : String) : Prop := piece ≠ "" ∧ piece ≠ "." ∧ piece ≠ ".."

/-- The components of an accepted path lead down. -/
theorem isStep_of_outputComponents {path : String} {parts : List String} (h : outputComponents path = .ok parts) :
    ∀ part ∈ parts, FilePath.IsStep part := by
  unfold outputComponents at h
  dsimp only at h
  split at h
  · cases h
  · rename_i hrelative
    cases h
    intro part hpart
    simp only [Bool.not_eq_true, List.any_eq_false, Bool.or_eq_true, decide_eq_true_eq, not_or] at hrelative
    have hmem := (List.mem_filter.1 hpart).2
    exact ⟨by simpa using hmem, hrelative part hpart⟩

namespace FileTree

variable {t : FileTree} {root : FilePath} {place : List String} {name : String}

/-! ### Places -/

/-- The place that a path names, whether or not there is anything on the way to it. -/
def placeOf (t : FileTree) (path : FilePath) : List String :=
  path.pieces.foldl enter (if path.isAbsolute then [] else t.workingDirectory)

theorem follow_eq {pieces found : List String} (h : t.follow place pieces = .ok found) :
    found = pieces.foldl enter place := by
  induction pieces generalizing place with
  | nil =>
    cases h
    rfl
  | cons piece pieces ih =>
    unfold follow at h
    split at h
    · cases h
    · split at h
      · cases h
      · split at h
        · cases h
        · exact ih h

theorem locate_eq {path : FilePath} (h : t.locate path = .ok place) : place = t.placeOf path := by
  unfold locate at h
  split at h
  · cases h
  · split at h
    · cases h
    · split at h
      · cases h
      · exact follow_eq h

private theorem isAbsolute_push (hname : name ≠ "") : (root.push name).isAbsolute = root.isAbsolute := by
  unfold FilePath.push FilePath.isAbsolute
  rcases root.pieces with _ | ⟨first, _ | ⟨second, rest⟩⟩
  · simp [hname]
  · by_cases hfirst : first = "" <;> simp [hfirst, hname]
  · dsimp only
    split <;> simp

theorem placeOf_push (hname : FilePath.IsStep name) : t.placeOf (root.push name) = t.placeOf root ++ [name] := by
  have hdown : ∀ place, enter place name = place ++ [name] := by
    intro place
    simp [enter, FilePath.isIdle, hname.1, hname.2.1, hname.2.2]
  have hslash : ∀ place, (if root.pieces.getLast? = some "" then root.pieces.dropLast else root.pieces).foldl enter place
      = root.pieces.foldl enter place := by
    intro place
    split
    · rename_i hlast
      -- what is left out is the empty piece behind a slash, which leads nowhere
      obtain ⟨front, hfront⟩ := List.getLast?_eq_some_iff.1 hlast
      rw [hfront, List.dropLast_concat, List.foldl_append]
      rfl
    · rfl
  unfold placeOf
  rw [isAbsolute_push hname.1, FilePath.push, List.foldl_append, List.foldl_cons, List.foldl_nil, hdown, hslash]

theorem placeOf_foldl_push {parts : List String} (hparts : ∀ part ∈ parts, FilePath.IsStep part) :
    t.placeOf (parts.foldl FilePath.push root) = t.placeOf root ++ parts := by
  induction parts generalizing root with
  | nil => simp
  | cons part parts ih =>
    rw [List.foldl_cons, ih fun part hpart => hparts part (List.mem_cons_of_mem _ hpart),
      placeOf_push (hparts part List.mem_cons_self), List.append_assoc, List.singleton_append]

/-! ### Files -/

theorem makeDirectory_files {path : FilePath} {next : FileTree} (h : t.makeDirectory path = .ok next) :
    next.files = t.files ∧ next.workingDirectory = t.workingDirectory := by
  unfold makeDirectory at h
  cases hplace : t.locate path with
  | error e =>
    rw [hplace] at h
    cases h
  | ok place =>
    rw [hplace] at h
    change (if t.isDirectory place then _ else if t.isFile place then _ else _) = _ at h
    split at h
    · cases h
      exact ⟨rfl, rfl⟩
    · split at h
      · cases h
      · cases h
        exact ⟨rfl, rfl⟩

private theorem attempt_makeDirectory_files (t : FileTree) (path : FilePath) :
    (t.attempt (·.makeDirectory path)).2.files = t.files ∧
      (t.attempt (·.makeDirectory path)).2.workingDirectory = t.workingDirectory := by
  unfold attempt
  split
  · rename_i hnext
    exact makeDirectory_files hnext
  · exact ⟨rfl, rfl⟩

theorem makeDirectories_files (t : FileTree) (paths : List FilePath) :
    (t.makeDirectories paths).2.files = t.files ∧
      (t.makeDirectories paths).2.workingDirectory = t.workingDirectory := by
  induction paths with
  | nil => exact ⟨rfl, rfl⟩
  | cons path above ih =>
    unfold makeDirectories
    split
    · split
      · rename_i next hnext
        rw [hnext] at ih
        obtain ⟨hfiles, hworking⟩ := attempt_makeDirectory_files next path
        exact ⟨hfiles.trans ih.1, hworking.trans ih.2⟩
      · exact ih
    · exact attempt_makeDirectory_files t path

private theorem lookup_filter_ne {files : List (List String × String)} {other : List String} (h : place ≠ other) :
    (files.filter fun file => file.1 != other).lookup place = files.lookup place := by
  induction files with
  | nil => rfl
  | cons file files ih =>
    obtain ⟨key, text⟩ := file
    by_cases hkey : key = other
    · subst hkey
      have hplace : (place == key) = false := beq_eq_false_iff_ne.2 h
      simp [List.lookup_cons, hplace, ih]
    · simp only [List.filter_cons, bne_iff_ne, ne_eq, hkey, not_false_eq_true, if_true, List.lookup_cons, ih]

theorem get?_put_of_ne {other : List String} {text : String} (h : place ≠ other) :
    (t.put other text).get? place = t.get? place := by
  have hplace : (place == other) = false := by simpa using h
  simp only [get?, put, List.lookup_append, lookup_filter_ne h, List.lookup_cons, hplace, List.lookup_nil,
    Option.or_none]

theorem overwrite_eq {path : FilePath} {text : String} {next : FileTree} (h : t.overwrite path text = .ok next) :
    next = t.put (t.placeOf path) text := by
  unfold overwrite at h
  cases hplace : t.locate path with
  | error e =>
    rw [hplace] at h
    cases h
  | ok place =>
    rw [hplace] at h
    change (if t.isDirectory place then _ else _) = _ at h
    split at h
    · cases h
    · cases h
      rw [locate_eq hplace]

/-- The only file that writing below a directory can change is the one that the path names there. -/
theorem eq_of_get?_writeBelow_ne {path text : String} {parts : List String} (hparts : outputComponents path = .ok parts)
    (h : (t.writeBelow root path text).2.get? place ≠ t.get? place) : place = t.placeOf root ++ parts := by
  unfold writeBelow at h
  rw [hparts] at h
  dsimp only at h
  -- making directories changes no file, so only the last step can
  obtain ⟨hfiles, hworking⟩ := t.makeDirectories_files ((parts.foldl FilePath.push root).ancestors.drop 1)
  have hsame : ∀ {next : FileTree}, next.files = t.files → next.get? place = t.get? place := by
    intro next hnext
    unfold get?
    rw [hnext]
  split at h
  · rename_i next hnext
    rw [hnext] at hfiles hworking
    unfold attempt at h
    split at h
    · rename_i last hlast
      have hplace : next.placeOf (parts.foldl FilePath.push root) = t.placeOf root ++ parts := by
        rw [placeOf_foldl_push (isStep_of_outputComponents hparts), placeOf, hworking]
        rfl
      obtain rfl := overwrite_eq hlast
      rw [hplace] at h
      refine Decidable.byContradiction fun hne => ?_
      rw [get?_put_of_ne hne] at h
      exact h (hsame hfiles)
    · exact absurd (hsame hfiles) h
  · exact absurd (hsame hfiles) h

end FileTree

end HaxeBackend
