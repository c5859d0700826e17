import HaxeBackend.Proofs.Generation.Functions
import HaxeBackend.Proofs.Target.Mappings
import HaxeBackend.Proofs.Target.Sheets

/-!
# Source maps of units

A marked line of a unit comes from the method whose body it stands in, which another class may declare: a class
carries inherited defaults, and an adapter copies the methods of its interface.  A map names the source file of the
class of the unit for all of them.  Main result: it tells the right places exactly when every marked line comes from
that file and the rows are lines (`sourceMap_right_iff`).
-/

namespace HaxeBackend.Generation

open Target (LineMapping MapEntry SourceMap marksOf placesOf)

variable {env : Env} {p : Program} {c : ClassModel} {u : Target.SourceUnit} {f : Target.Function}
  {x : MethodSite × Method} {out : GeneratedUnit} {map : SourceMap} {file : Name} {st st' : UnitState}

/-! ### Translated methods -/

/-- The methods that the adapter of an interface copies; it has none without an abstract method. -/
def adapterCopies (p : Program) (c : ClassModel) : List (MethodSite × Method) :=
  match p.dispatch c, (p.methodsToImplement c.name).find? fun e => !e.method.hasBody with
  | .adapter, some _ => ((p.methodsToImplement c.name).filter fun e => e.method.hasBody).map (copiedEntry p c)
  | _, _ => []

/-- The methods that are translated into the unit of a class. -/
def translated (p : Program) (c : ClassModel) : List (MethodSite × Method) :=
  unitMethods p c ++ if c.isInterface then adapterCopies p c else []

/-- The copies of an adapter are generated for the methods with a body. -/
private theorem forall₂_copies {entries : List MethodEntry} {methods : List Target.AdapterMethod}
    (h : List.Forall₂ (AdapterFor env c) entries methods) :
    List.Forall₂ (GeneratedFor env) ((entries.filter fun e => e.method.hasBody).map (copiedEntry env.program c))
      (methods.filterMap Target.AdapterMethod.function?) := by
  induction h with
  | nil => exact .nil
  | cons hfor _ ih =>
    cases hfor with
    | forward hbody =>
      rw [List.filter_cons, hbody, List.filterMap_cons_none rfl]
      exact ih
    | copied hbody hfor =>
      rw [List.filter_cons, if_pos hbody]
      exact .cons hfor ih

private theorem forall₂_dispatchClass {d : Target.DispatchClass} (h : Gives (dispatchClass env c) d) :
    List.Forall₂ (GeneratedFor env) (adapterCopies env.program c) d.functions := by
  unfold adapterCopies
  obtain ⟨hdispatch, rfl⟩ | ⟨hdispatch, a, rfl, hparts⟩ := dispatchClass_cases h
  · rw [hdispatch]
    exact .nil
  · rw [hdispatch]
    have hmembers := hparts.members
    cases hfind : (env.program.methodsToImplement c.name).find? fun e => !e.method.hasBody with
    | none =>
      rw [hfind] at hmembers
      rw [Target.DispatchClass.functions, Target.AdapterClass.functions, hmembers]
      exact .nil
    | some e =>
      rw [hfind] at hmembers
      obtain ⟨methods, hmembers, hmethods⟩ := hmembers
      rw [Target.DispatchClass.functions, Target.AdapterClass.functions, hmembers]
      exact forall₂_copies hmethods

/-- One function for each translated method, in order. -/
theorem forall₂_translated (h : unit? env c = some u) :
    List.Forall₂ (GeneratedFor env) (translated env.program c) u.functions := by
  have hown := forall₂_functions h
  unfold translated
  obtain ⟨hinterface, i, rfl, hparts⟩ | ⟨hclass, k, rfl, -⟩ := unit?_cases h
  · rw [if_pos hinterface]
    exact List.rel_append hown (forall₂_dispatchClass hparts.dispatch)
  · rw [if_neg (Bool.eq_false_iff.1 hclass), List.append_nil]
    exact hown

/-- A function with a translated body is marked where the body of its method has line markers. -/
def KeepsMarkers (x : MethodSite × Method) (f : Target.Function) : Prop :=
  ∀ b returnsThis, f.body = .lowered b returnsThis → ∃ body, x.2.body = some body ∧ b.code.marks = body.tree.markers

theorem GeneratedFor.keepsMarkers (h : GeneratedFor env x f) : KeepsMarkers x f := by
  intro b returnsThis hf
  obtain ⟨body, unit, hbody, hlowered⟩ := h.exists_lowerBody hf
  exact ⟨body, hbody, Lowering.marks_of_lowerBody hlowered⟩

/-! ### Places that maps tell -/

/-- A generated line, counted from zero, with the file and the line, counted from one, that it comes from. -/
structure Place where
  generated : Nat
  file : Option Name
  line : Int
  deriving DecidableEq, Repr

/-- The source of this number. -/
def sourceAt (map : SourceMap) : Int → Option Name
  | .ofNat i => map.sources[i]?
  | .negSucc _ => none

/-- What is read from the text of a map. -/
def places? (map : SourceMap) : Option (List Place) :=
  (Target.decode map.mappings).map fun mappings =>
    mappings.map fun x => ⟨x.generated, sourceAt map x.source, x.line + 1⟩

/-- The place of a marked line; there is no line zero. -/
def placeAt (generated : Nat) (origin : Option Name × Nat) : Place := ⟨generated, origin.1, (max origin.2 1 : Nat)⟩

/-- Records for later and later lines are all kept. -/
private theorem foldl_record {mappings : List LineMapping}
    (hsorted : mappings.Pairwise fun m m' => m.generated < m'.generated) (map : SourceMap)
    (hlater : ∀ e ∈ map.entries, ∀ m ∈ mappings, e.generated < m.generated) :
    mappings.foldl (fun map m => map.record ⟨m.generated, 0, m.source⟩) map =
      { map with entries := map.entries ++ mappings.map fun m => ⟨m.generated, 0, m.source⟩ } := by
  induction mappings generalizing map with
  | nil => simp
  | cons m mappings ih =>
    obtain ⟨hfirst, hrest⟩ := List.pairwise_cons.1 hsorted
    -- the line is behind all that are recorded, so no record is replaced
    have hfresh : (map.entries.any fun old => old.generated == m.generated) = false := by
      rw [List.any_eq_false]
      intro old hold
      have hlt := hlater old hold m List.mem_cons_self
      simp only [beq_iff_eq]
      omega
    have hrecord : map.record ⟨m.generated, 0, m.source⟩ =
        { map with entries := map.entries ++ [⟨m.generated, 0, m.source⟩] } := by
      unfold SourceMap.record
      rw [hfresh, if_neg Bool.false_ne_true]
    rw [List.foldl_cons, hrecord, ih hrest]
    · simp
    · intro e he m' hm'
      rcases List.mem_append.1 he with he | he
      · exact hlater e he m' (List.mem_cons_of_mem _ hm')
      · rw [List.mem_singleton.1 he]
        exact hfirst m' hm'

/-- A map tells what was marked, all of it in the source file of the class. -/
theorem places?_of_sourceMap? {path : String} {mappings : List LineMapping}
    (hsorted : mappings.Pairwise fun m m' => m.generated < m'.generated)
    (h : sourceMap? c path mappings = some map) :
    ∃ file, c.sourceFile = some file ∧
      places? map = some (mappings.map fun m => placeAt m.generated (some file, m.source)) := by
  obtain ⟨file, hfile, hmap⟩ := Option.map_eq_some_iff.1 h
  rw [foldl_record hsorted _ fun e he => absurd he List.not_mem_nil, List.nil_append] at hmap
  have hentries : map.entries = mappings.map fun m => ⟨m.generated, 0, m.source⟩ := by rw [← hmap]
  have hsources : map.sources = [file] := by rw [← hmap]
  -- the records are sorted already, so decoding changes nothing about their order
  have hlt : map.entries.Pairwise fun a b => a.generated < b.generated := by
    rw [hentries]
    exact List.pairwise_map.2 hsorted
  have hdistinct : map.IsDistinct := hlt.imp fun h => Nat.ne_of_lt h
  have hordered : map.entries.Pairwise fun a b => decide (a.generated ≤ b.generated) = true :=
    hlt.imp fun h => decide_eq_true (Nat.le_of_lt h)
  refine ⟨file, hfile, ?_⟩
  unfold places?
  rw [SourceMap.decode_mappings hdistinct, List.mergeSort_of_pairwise hordered, hentries, Option.map_some, List.map_map,
    List.map_map]
  refine congrArg some (List.map_congr_left fun m _ => ?_)
  have hsource : sourceAt map (0 : Nat) = some file := by
    show map.sources[0]? = _
    rw [hsources]
    rfl
  simp only [Function.comp_apply, placeAt, MapEntry.place, SourceMap.lineIndex, hsource, Place.mk.injEq, true_and]
  omega

/-! ### Written units -/

/-- The text of a unit consists of the lines of its page. -/
theorem splitAt_text_generatedUnit : Text.splitAt '\n' (generatedUnit env c u).text.toList =
    (u.code.pageLines.map fun line => line.text.toList) ++ [[]] := by
  have hlines := (Target.Code.shows_write u.isSheetOf_code.isSheet).lines_eq
  show Text.splitAt '\n' u.code.write.text.toList = _
  rw [Target.Writer.splitAt_text, hlines, List.map_map]
  rfl

/-- The map of a unit puts every marked line in the source file of the class, by the number of its row. -/
theorem places?_of_generatedUnit (h : (generatedUnit env c u).sourceMap = some map) :
    ∃ file, c.sourceFile = some file ∧
      places? map = some ((marksOf u.code.pageLines).map fun m => placeAt m.generated (some file, m.source)) := by
  have hwritten : sourceMap? c (Naming.filePath c.name) u.code.write.mappings = some map := by
    unfold generatedUnit at h
    split at h
    · exact h
    · cases h
  rw [(Target.Code.shows_write u.isSheetOf_code.isSheet).mappings_eq] at hwritten
  exact places?_of_sourceMap? ((u.code.isOrdered_page 0).sorted {}) hwritten

/-! ### Marked lines and their origins -/

/-- Where the marked lines of a unit come from, in order: the source file of the class that declares the method, and
the line. -/
def origins (p : Program) (c : ClassModel) (u : Target.SourceUnit) : List (Option Name × Nat) :=
  ((translated p c).zip u.functions).flatMap fun y =>
    y.2.body.takenMarks.map fun line => (y.1.1.owner.sourceFile, line)

theorem map_snd_origins (h : unit? env c = some u) :
    (origins env.program c u).map Prod.snd = u.code.takenMarks := by
  have hfunctions : ((translated env.program c).zip u.functions).map Prod.snd = u.functions :=
    List.map_snd_zip (Nat.le_of_eq (forall₂_translated h).length_eq.symm)
  rw [u.takenMarks_code, ← hfunctions, List.flatMap_map, origins, List.map_flatMap]
  refine congrArg (List.flatMap · _) (funext fun y => ?_)
  rw [List.map_map]
  exact List.map_id _

/-- The places that the map of a unit should tell. -/
def rightPlaces (p : Program) (c : ClassModel) (u : Target.SourceUnit) : List Place :=
  List.zipWith (fun m origin => placeAt m.generated origin) (placesOf u.code.pageLines) (origins p c u)

/-- Marks that are put in one file are in their places when they are so already and all come from that file. -/
private theorem map_placeAt_eq_iff {marks places : List LineMapping} {origins : List (Option Name × Nat)}
    (hmarks : marks.map LineMapping.source = origins.map Prod.snd)
    (hplaces : places.map LineMapping.source = origins.map Prod.snd) :
    (marks.map fun m => placeAt m.generated (some file, m.source)) =
        List.zipWith (fun m origin => placeAt m.generated origin) places origins ↔
      marks = places ∧ ∀ origin ∈ origins, origin.1 = some file := by
  induction origins generalizing marks places with
  | nil =>
    rw [List.map_eq_nil_iff.1 hmarks, List.map_eq_nil_iff.1 hplaces]
    simp
  | cons origin origins ih =>
    obtain ⟨m, marks, rfl, hm, hmarks⟩ := List.map_eq_cons_iff.1 hmarks
    obtain ⟨q, places, rfl, hq, hplaces⟩ := List.map_eq_cons_iff.1 hplaces
    -- both marks have the line of the origin, so only their places and the files can differ
    have hfirst : placeAt m.generated (some file, m.source) = placeAt q.generated origin ↔
        m = q ∧ origin.1 = some file := by
      obtain ⟨generated, source⟩ := m
      obtain ⟨generated', source'⟩ := q
      obtain ⟨home, line⟩ := origin
      simp only at hm hq
      subst hm hq
      simp only [placeAt, Place.mk.injEq, and_true, LineMapping.mk.injEq]
      exact and_congr_right fun _ => eq_comm
    rw [List.map_cons, List.zipWith_cons_cons, List.cons_eq_cons, hfirst, ih hmarks hplaces, List.cons_eq_cons,
      List.forall_mem_cons]
    exact and_and_and_comm

/-- The map of a unit is right when the rows are lines and no marked line comes from another file. -/
theorem places?_eq_rightPlaces_iff (hu : unit? env c = some u) (hmap : (generatedUnit env c u).sourceMap = some map)
    (hfile : c.sourceFile = some file) :
    places? map = some (rightPlaces env.program c u) ↔
      marksOf u.code.pageLines = placesOf u.code.pageLines ∧
        ∀ origin ∈ origins env.program c u, origin.1 = some file := by
  obtain ⟨file', hfile', htold⟩ := places?_of_generatedUnit hmap
  obtain rfl : file = file' := Option.some_inj.1 (hfile.symm.trans hfile')
  have htaken := map_snd_origins hu
  have hmarks := (Target.map_source_marksOf u.code.pageLines).trans htaken.symm
  have hplaces := (Target.map_source_placesOf u.code.pageLines).trans htaken.symm
  rw [htold, Option.some_inj]
  exact map_placeAt_eq_iff hmarks hplaces

/-- A unit with a map: its lines, the bodies that they come from, and what the map tells about them.  The map names
the source file of the class for every marked line, by the number of its row; so it is right when the rows are lines
and no marked line comes from another file. -/
theorem sourceMap_right_iff (hunit : (generateClass env c).unit = some out) (hmap : out.sourceMap = some map) :
    ∃ u file, unit? env c = some u ∧ c.sourceFile = some file ∧
      List.Forall₂ (fun x f => GeneratedFor env x f ∧ KeepsMarkers x f) (translated env.program c) u.functions ∧
      Text.splitAt '\n' out.text.toList = (u.code.pageLines.map fun line => line.text.toList) ++ [[]] ∧
      (placesOf u.code.pageLines).map LineMapping.source = (origins env.program c u).map Prod.snd ∧
      places? map = some ((marksOf u.code.pageLines).map fun m => placeAt m.generated (some file, m.source)) ∧
      (places? map = some (rightPlaces env.program c u) ↔
        marksOf u.code.pageLines = placesOf u.code.pageLines ∧
          ∀ origin ∈ origins env.program c u, origin.1 = some file) ∧
      (u.code.isFlat = true → marksOf u.code.pageLines = placesOf u.code.pageLines) := by
  rw [generateClass_unit] at hunit
  obtain ⟨u, hu, rfl⟩ := Option.map_eq_some_iff.1 hunit
  obtain ⟨file, hfile, htold⟩ := places?_of_generatedUnit hmap
  have hplaces := (Target.map_source_placesOf u.code.pageLines).trans (map_snd_origins hu).symm
  exact ⟨u, file, hu, hfile, (forall₂_translated hu).imp fun _ _ h => ⟨h, h.keepsMarkers⟩, splitAt_text_generatedUnit,
    hplaces, htold, places?_eq_rightPlaces_iff hu hmap hfile, Target.Code.marksOf_eq_placesOf⟩

/-! ### A default of another file -/

private def markedBody (line : Nat) : Body where
  stmts := #[.line line, .ret none]
  stmtLists := #[0, 1]
  root := ⟨0, 2⟩

/-- An interface with a default method. -/
private def drawable : ClassModel :=
  { bareClass "Drawable" .interface none [] [bareMethod 1 "draw" .standard (some (markedBody 7))] with
    sourceFile := some "Drawable.java" }

/-- A class that carries the default beside a method of its own. -/
private def tile : ClassModel :=
  { bareClass "Tile" .plain none ["Drawable"] [bareMethod 2 "turn" .standard (some (markedBody 3))] with
    sourceFile := some "Tile.java" }

private def pen : ClassModel :=
  { bareClass "Pen" .plain none [] [bareMethod 3 "lift" .standard (some (markedBody 5))] with
    sourceFile := some "Pen.java" }

private def drawEnv : Env := ⟨⟨[drawable, tile, pen], by decide⟩, { reflection := false }⟩

private def tileUnit : Target.SourceUnit := (unit? drawEnv tile).get (by decide +kernel)

private def penUnit : Target.SourceUnit := (unit? drawEnv pen).get (by decide +kernel)

private theorem unit?_tile : unit? drawEnv tile = some tileUnit := (Option.some_get _).symm

private theorem unit?_pen : unit? drawEnv pen = some penUnit := (Option.some_get _).symm

private theorem origins_tile : origins drawEnv.program tile tileUnit =
    [(some "Tile.java", 3), (some "Drawable.java", 7)] := by
  decide +kernel

/-- The default comes from the file of the interface, but the map of the class that carries it names its own file. -/
theorem sourceMap_misplaces_tile :
    drawEnv.options.sourceMaps = true ∧ tile ∈ drawEnv.program.classes ∧
    ∃ out map u places, (generateClass drawEnv tile).unit = some out ∧ out.sourceMap = some map ∧
      unit? drawEnv tile = some u ∧
      origins drawEnv.program tile u = [(some "Tile.java", 3), (some "Drawable.java", 7)] ∧
      places? map = some places ∧
      places.map (fun place => (place.file, place.line)) = [(some "Tile.java", 3), (some "Tile.java", 7)] ∧
      places? map ≠ some (rightPlaces drawEnv.program tile u) := by
  have hunit : (generateClass drawEnv tile).unit = some (generatedUnit drawEnv tile tileUnit) := by
    rw [generateClass_unit, unit?_tile]
    rfl
  obtain ⟨map, hmap⟩ : ∃ map, (generatedUnit drawEnv tile tileUnit).sourceMap = some map := ⟨_, rfl⟩
  obtain ⟨file, hfile, htold⟩ := places?_of_generatedUnit hmap
  obtain rfl : "Tile.java" = file := Option.some_inj.1 hfile
  refine ⟨rfl, List.mem_cons_of_mem _ List.mem_cons_self, _, map, tileUnit, _, hunit, hmap, unit?_tile, origins_tile,
    htold, ?_, ?_⟩
  · have hmarks : (marksOf tileUnit.code.pageLines).map LineMapping.source = [3, 7] := by
      rw [Target.map_source_marksOf]
      exact (map_snd_origins unit?_tile).symm.trans (congrArg (List.map Prod.snd) origins_tile)
    have hlines := congrArg (List.map fun line => (some "Tile.java", ((max line 1 : Nat) : Int))) hmarks
    rw [List.map_map] at hlines ⊢
    exact hlines
  · intro hright
    have hfiles := ((places?_eq_rightPlaces_iff unit?_tile hmap hfile).1 hright).2
    rw [origins_tile] at hfiles
    exact absurd (hfiles _ (List.mem_cons_of_mem _ List.mem_cons_self)) (by decide)

/-- A class with nothing but a method of its own. -/
theorem sourceMap_right_iff_pen :
    ∃ out map u, (generateClass drawEnv pen).unit = some out ∧ out.sourceMap = some map ∧
      unit? drawEnv pen = some u ∧ origins drawEnv.program pen u = [(some "Pen.java", 5)] ∧
      places? map = some (rightPlaces drawEnv.program pen u) := by
  have hunit : (generateClass drawEnv pen).unit = some (generatedUnit drawEnv pen penUnit) := by
    rw [generateClass_unit, unit?_pen]
    rfl
  have horigins : origins drawEnv.program pen penUnit = [(some "Pen.java", 5)] := by decide +kernel
  have hheaders : penUnit.code.isFlat = true := by decide +kernel
  obtain ⟨map, hmap⟩ : ∃ map, (generatedUnit drawEnv pen penUnit).sourceMap = some map := ⟨_, rfl⟩
  obtain ⟨u, file, hu, hfile, -, -, -, -, hiff, hflat⟩ := sourceMap_right_iff hunit hmap
  obtain rfl : penUnit = u := Option.some_inj.1 (unit?_pen.symm.trans hu)
  refine ⟨_, map, penUnit, hunit, hmap, unit?_pen, horigins, hiff.2 ⟨hflat hheaders, ?_⟩⟩
  rw [horigins]
  intro origin horigin
  rw [List.mem_singleton.1 horigin]
  exact hfile

end HaxeBackend.Generation
