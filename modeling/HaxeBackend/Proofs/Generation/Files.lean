import HaxeBackend.Proofs.Generation.Functions
import HaxeBackend.Proofs.Naming.Units
import HaxeBackend.Proofs.Store.Memory

/-!
# Files of a run

The file of a unit ends in `.hx` and its map in `.hx.map`, and both are found from the name of the class
(`outputPath_injective`, `outputPath_ne_map`), so the files of a program have different paths (`nodup_paths`).
Writing them therefore loses none.
-/

namespace HaxeBackend.Generation

variable {env : Env}

/-! ### Paths -/

private theorem append_left_cancel {text rest rest' : String} (h : text ++ rest = text ++ rest') : rest = rest' := by
  have hlist := congrArg String.toList h
  rw [String.toList_append, String.toList_append] at hlist
  exact String.toList_injective (List.append_cancel_left hlist)

private theorem append_right_cancel {text text' rest : String} (h : text ++ rest = text' ++ rest) : text = text' := by
  have hlist := congrArg String.toList h
  rw [String.toList_append, String.toList_append] at hlist
  exact String.toList_injective (List.append_cancel_right hlist)

theorem outputPath_injective (options : GenOptions) : Function.Injective (outputPath options) := by
  intro path path' h
  unfold outputPath at h
  dsimp only at h
  generalize String.ofList (options.outPrefix.toList.reverse.dropWhile (· = '/')).reverse = directory at h
  split at h
  · exact h
  · exact append_left_cancel h

private theorem getLast?_outputPath (options : GenOptions) (source : Name) :
    (outputPath options (Naming.filePath source)).toList.getLast? = some 'x' := by
  have hunit : (Naming.filePath source).toList.getLast? = some 'x' := by
    unfold Naming.filePath
    split <;> rw [String.toList_append, List.getLast?_append] <;> rfl
  unfold outputPath
  dsimp only
  split
  · exact hunit
  · rw [String.toList_append, List.getLast?_append, hunit]
    rfl

/-- No map has the path of a unit. -/
theorem outputPath_ne_map (options : GenOptions) (source source' : Name) :
    outputPath options (Naming.filePath source) ≠ outputPath options (Naming.filePath source') ++ ".map" := by
  intro h
  have hlast := getLast?_outputPath options source
  rw [h, String.toList_append, List.getLast?_append] at hlast
  cases hlast

/-- The files of a class. -/
private def classFiles (env : Env) (c : ClassModel) : List (String × String) :=
  (generateClass env c).unit.toList.flatMap (GeneratedUnit.files env.options)

private theorem files_eq (env : Env) :
    (generateProgram env).files env.options = env.program.classes.flatMap (classFiles env) := by
  unfold ProgramOutput.files ProgramOutput.units generateProgram
  dsimp only
  induction env.program.classes with
  | nil => rfl
  | cons c classes ih =>
    rw [List.map_cons, List.flatMap_cons, ← ih, List.filterMap_cons, classFiles]
    split <;> simp_all

private theorem path_of_unit {c : ClassModel} {u : GeneratedUnit} (h : (generateClass env c).unit = some u) :
    u.path = Naming.filePath c.name := by
  rw [generateClass_unit] at h
  obtain ⟨unit, -, rfl⟩ := Option.map_eq_some_iff.1 h
  rfl

private theorem path_of_mem {c : ClassModel} {file : String × String} (h : file ∈ classFiles env c) :
    file.1 = outputPath env.options (Naming.filePath c.name) ∨
      file.1 = outputPath env.options (Naming.filePath c.name) ++ ".map" := by
  obtain ⟨u, hu, hfile⟩ := List.mem_flatMap.1 h
  rw [← path_of_unit (Option.mem_toList.1 hu)]
  rcases List.mem_cons.1 hfile with heq | hmap
  · left
    rw [heq]
  · obtain ⟨map, -, rfl⟩ := List.mem_map.1 hmap
    exact .inr rfl

private theorem nodup_classFiles (env : Env) (c : ClassModel) : ((classFiles env c).map Prod.fst).Nodup := by
  unfold classFiles
  cases hu : (generateClass env c).unit with
  | none => exact List.nodup_nil
  | some u =>
    have hne := path_of_unit hu ▸ outputPath_ne_map env.options c.name c.name
    cases hmap : u.sourceMap.filter fun map => !map.isEmpty with
    | none => simp [GeneratedUnit.files, hmap]
    | some map => simpa [GeneratedUnit.files, hmap] using hne

/-- The files of a program have different paths. -/
theorem nodup_paths (env : Env) : (((generateProgram env).files env.options).map Prod.fst).Nodup := by
  rw [files_eq, List.map_flatMap, List.nodup_flatMap]
  refine ⟨fun c _ => nodup_classFiles env c, ?_⟩
  refine (List.pairwise_map.1 env.program.distinct).imp fun {c c'} hne => ?_
  have hpath : outputPath env.options (Naming.filePath c.name) ≠ outputPath env.options (Naming.filePath c'.name) :=
    fun h => hne (Naming.filePath_injective (outputPath_injective _ h))
  intro path hmem hmem'
  obtain ⟨file, hfile, rfl⟩ := List.mem_map.1 hmem
  obtain ⟨file', hfile', hsame⟩ := List.mem_map.1 hmem'
  rcases path_of_mem hfile with h | h <;> rcases path_of_mem hfile' with h' | h' <;> rw [hsame, h] at h'
  · exact hpath h'
  · exact outputPath_ne_map _ _ _ h'
  · exact outputPath_ne_map _ _ _ h'.symm
  · exact hpath (append_right_cancel h')

/-! ### Writing -/

private theorem file_mem {c : ClassModel} {u : GeneratedUnit} {file : String × String}
    (hc : c ∈ env.program.classes) (hu : (generateClass env c).unit = some u)
    (hfile : file ∈ u.files env.options) : file ∈ (generateProgram env).files env.options := by
  rw [files_eq]
  exact List.mem_flatMap.2 ⟨c, hc, List.mem_flatMap.2 ⟨u, Option.mem_toList.2 hu, hfile⟩⟩

/-- Writing the output of a program into an empty store keeps every file: without a refusal the number of files is
returned, every unit is found under the path of its class and every map that is not empty beside it, and otherwise the
refused path is reported and the files in front of it are there. -/
theorem written_files_kept (env : Env) (refuses : String → Option String) :
    let files := (generateProgram env).files env.options
    let written := writeFiles (MemoryStore.writer refuses) {} files
    (files.map Prod.fst).Nodup ∧
    ((∀ file ∈ files, refuses file.1 = none) →
      written.1 = .ok written.2.size ∧ written.2.Holds files ∧
      ∀ c ∈ env.program.classes, ∀ u, (generateClass env c).unit = some u →
        written.2.get? (outputPath env.options (Naming.filePath c.name)) = some u.text ∧
        ∀ map, u.sourceMap = some map → map.isEmpty = false →
          written.2.get? (outputPath env.options (Naming.filePath c.name) ++ ".map") = some map.json) ∧
    ((∃ file ∈ files, refuses file.1 ≠ none) →
      ∃ before path text after reason, files = before ++ (path, text) :: after ∧
        (∀ file ∈ before, refuses file.1 = none) ∧ refuses path = some reason ∧
        written.1 = .error (.unwritable path reason) ∧ written.2.Holds before) := by
  intro files written
  have hnodup : (files.map Prod.fst).Nodup := nodup_paths env
  refine ⟨hnodup, fun htaken => ?_, fun ⟨file, hfile, hrefused⟩ => ?_⟩
  · have hwritten : written = (.ok files.length, MemoryStore.writeAll {} files) := by
      have happend := writeFiles_append (s := {}) htaken []
      rw [List.append_nil] at happend
      exact happend.trans (by simp [writeFiles, Except.map])
    have hholds : written.2.Holds files := by
      rw [hwritten]
      exact MemoryStore.holds_writeAll hnodup
    refine ⟨?_, hholds, fun c hc u hu => ⟨?_, fun map hmap hsome => ?_⟩⟩
    · rw [hholds.1, hwritten]
    · rw [hholds.2, ← path_of_unit hu]
      exact file_mem hc hu (List.mem_cons_self ..)
    · rw [hholds.2, ← path_of_unit hu]
      refine file_mem hc hu (List.mem_cons_of_mem _ (List.mem_map.2 ⟨map, ?_, rfl⟩))
      simp [hmap, hsome]
  · -- the first refused file ends the run
    have hsome : (files.find? fun file => (refuses file.1).isSome).isSome := by
      rw [List.find?_isSome]
      exact ⟨file, hfile, Option.isSome_iff_ne_none.2 hrefused⟩
    obtain ⟨⟨path, text⟩, hfound⟩ := Option.isSome_iff_exists.1 hsome
    obtain ⟨hpath, before, after, hfiles, hbefore⟩ := List.find?_eq_some_iff_append.1 hfound
    obtain ⟨reason, hreason⟩ := Option.isSome_iff_exists.1 hpath
    have htaken : ∀ file ∈ before, refuses file.1 = none := fun file hmem => by simpa using hbefore file hmem
    have hwritten : written = (.error (.unwritable path reason), MemoryStore.writeAll {} before) := by
      have happend := writeFiles_append (s := {}) htaken ((path, text) :: after)
      rw [← hfiles] at happend
      dsimp only at hreason
      exact happend.trans (by simp [writeFiles, MemoryStore.writer, hreason, Except.map])
    have hnodup' : (before.map Prod.fst).Nodup := by
      rw [hfiles, List.map_append] at hnodup
      exact hnodup.of_append_left
    refine ⟨before, path, text, after, reason, hfiles, htaken, hreason, ?_, ?_⟩
    · rw [hwritten]
    · rw [hwritten]
      exact MemoryStore.holds_writeAll hnodup'

end HaxeBackend.Generation
