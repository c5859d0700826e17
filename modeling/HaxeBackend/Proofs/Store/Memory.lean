import HaxeBackend.Store.Memory
import Mathlib.Data.List.Nodup

/-!
# What a store in memory holds

Putting a file under a new path adds it to the others (`perm_insert`).  So a row of files with different paths is all
there when none is refused (`holds_writeAll`), and writing up to a refusal keeps what comes before it
(`writeFiles_append`).
-/

namespace HaxeBackend

namespace MemoryStore

variable {s : MemoryStore} {files : List (String × String)} {path text : String}

/-- The store holds these files and no others. -/
def Holds (s : MemoryStore) (files : List (String × String)) : Prop :=
  s.size = files.length ∧ ∀ path text, s.get? path = some text ↔ (path, text) ∈ files

theorem perm_insert (hnew : path ∉ files.map Prod.fst) : (insert path text files).Perm ((path, text) :: files) := by
  induction files with
  | nil => exact .refl _
  | cons file rest ih =>
    rw [List.map_cons, List.mem_cons, not_or] at hnew
    have hother : file.1 ≠ path := fun h => hnew.1 h.symm
    unfold insert
    rw [if_neg hother]
    split
    · exact .refl _
    · exact ((ih hnew.2).cons file).trans (.swap _ _ _)

private theorem lookup_eq_some_iff (hnodup : (files.map Prod.fst).Nodup) :
    files.lookup path = some text ↔ (path, text) ∈ files := by
  induction files with
  | nil => simp
  | cons file rest ih =>
    rw [List.map_cons, List.nodup_cons] at hnodup
    rw [List.lookup_cons, List.mem_cons]
    by_cases hpath : path = file.1
    · subst hpath
      have habsent : (file.1, text) ∉ rest := fun h => hnodup.1 (List.mem_map.2 ⟨_, h, rfl⟩)
      simp [habsent, Prod.ext_iff, eq_comm]
    · have hother : (path == file.1) = false := by simpa using hpath
      rw [hother, ih hnodup.2]
      simp [Prod.ext_iff, hpath]

theorem Holds.of_perm (hperm : s.files.Perm files) (hnodup : (files.map Prod.fst).Nodup) : s.Holds files := by
  refine ⟨hperm.length_eq, fun path text => ?_⟩
  have hstore : (s.files.map Prod.fst).Nodup := (hperm.map Prod.fst).nodup_iff.2 hnodup
  unfold get?
  rw [lookup_eq_some_iff hstore, hperm.mem_iff]

/-- Puts files in a row. -/
def writeAll (s : MemoryStore) (files : List (String × String)) : MemoryStore :=
  files.foldl (fun s file => s.write file.1 file.2) s

private theorem perm_writeAll (hnodup : ((s.files ++ files).map Prod.fst).Nodup) :
    (s.writeAll files).files.Perm (s.files ++ files) := by
  induction files generalizing s with
  | nil => simp [writeAll]
  | cons file rest ih =>
    have hmiddle : (s.files ++ file :: rest).Perm (file :: s.files ++ rest) := List.perm_middle
    have hfront : ((file :: s.files ++ rest).map Prod.fst).Nodup := (hmiddle.map Prod.fst).nodup_iff.1 hnodup
    have hnew : file.1 ∉ s.files.map Prod.fst := by
      rw [List.cons_append, List.map_cons, List.nodup_cons, List.map_append, List.mem_append, not_or] at hfront
      exact hfront.1.1
    have hput : (s.write file.1 file.2).files.Perm (file :: s.files) := perm_insert hnew
    have hrest := (ih (((hput.append_right rest).map Prod.fst).nodup_iff.2 hfront)).trans (hput.append_right rest)
    exact hrest.trans hmiddle.symm

/-- Files with different paths do not replace each other. -/
theorem holds_writeAll (hnodup : (files.map Prod.fst).Nodup) : (writeAll {} files).Holds files :=
  .of_perm (perm_writeAll hnodup) hnodup

end MemoryStore

open MemoryStore

/-- Files that are not refused are all put into the store before the next one is tried. -/
theorem writeFiles_append {refuses : String → Option String} {s : MemoryStore} {files : List (String × String)}
    (htaken : ∀ file ∈ files, refuses file.1 = none) (rest : List (String × String)) :
    writeFiles (writer refuses) s (files ++ rest) =
      ((writeFiles (writer refuses) (s.writeAll files) rest).1.map (· + files.length),
        (writeFiles (writer refuses) (s.writeAll files) rest).2) := by
  induction files generalizing s with
  | nil =>
    rw [List.nil_append, List.length_nil, writeAll, List.foldl_nil]
    rcases writeFiles (writer refuses) s rest with ⟨_ | _, _⟩ <;> rfl
  | cons file files ih =>
    have hfile : refuses file.1 = none := htaken file (List.mem_cons_self ..)
    have hstep : writer refuses s file.1 file.2 = (.ok (), s.write file.1 file.2) := by simp [writer, hfile]
    rw [List.cons_append, writeFiles, hstep]
    dsimp only
    rw [ih fun other hother => htaken other (List.mem_cons_of_mem _ hother), List.length_cons]
    have hcount : ∀ result : Except GenError Nat,
        (result.map (· + files.length)).map (· + 1) = result.map (· + (files.length + 1)) := by
      rintro (_ | n) <;> rfl
    rw [hcount]
    rfl

end HaxeBackend
