import HaxeBackend.Proofs.Generation.Uses
import HaxeBackend.Proofs.Naming.Units

/-!
# Classes that guards initialize

Only the units of generated classes have an initializer to run.  Lowered code guards no other classes, but the
registration of a class guards every enum class in its annotations, whatever that class is.  Main result: the guards of
a unit all initialize generated classes exactly when its registration names no other enum class, except for one that
stands for the holder of a generated class (`guards_generated_iff`).
-/

namespace HaxeBackend.Generation

open Target (ClassUse)
open Naming (companion generated qualified staticHolder)

variable {env : Env} {p : Program} {c : ClassModel} {u : Target.SourceUnit} {name source : Name} {holder : String}

/-! ### Guards of a unit -/

private theorem own_touch (g : Guards) (name : Name) : (g.touch name).own = g.own := by
  unfold Guards.touch
  split <;> rfl

private theorem mem_pending_foldl_touch {g : Guards} (hown : g.own = none) (names : List Name) :
    source ∈ (names.foldl Guards.touch g).pending ↔ source ∈ g.pending ∨ source ∈ names := by
  induction names generalizing g with
  | nil => simp
  | cons name names ih =>
    have howns : g.owns name = false := by rw [Guards.owns, hown]; rfl
    rw [List.foldl_cons, ih ((own_touch g name).trans hown), Guards.mem_pending_touch, and_iff_left howns, or_assoc,
      List.mem_cons]

/-- The registration guards the holders of the enum classes that it names, and nothing else. -/
private theorem guard_mem_classUses_iff {info : Target.ClassInfo} (h : Registered env c (some info)) :
    ClassUse.guard holder ∈ info.classUses ↔
      ∃ name ∈ registeredEnums env.program c, staticHolder env.program name = holder := by
  obtain ⟨-, hguards, -, huses, hmembers⟩ := h
  have hpending : ∀ name, name ∈ ((registeredEnums env.program c).foldl Guards.touch {}).pending ↔
      name ∈ registeredEnums env.program c := by
    intro name
    rw [mem_pending_foldl_touch rfl, or_iff_right List.not_mem_nil]
  have hheld : holder ∈ info.guards ↔
      ∃ name ∈ registeredEnums env.program c, staticHolder env.program name = holder := by
    rw [hguards, Guards.holders, List.mem_map]
    exact exists_congr fun name => and_congr_left' (hpending name)
  rw [← hheld]
  unfold Target.ClassInfo.classUses
  simp only [List.mem_append, List.mem_map, List.mem_flatMap, ClassUse.guard.injEq, exists_eq_right, reduceCtorEq,
    and_false, exists_false, false_or]
  constructor
  · rintro (hmem | hmem | ⟨entry, hentry, hmem⟩)
    · exact hmem
    · exact (huses _ hmem).elim
    · exact (hmembers entry hentry _ hmem).elim
  · exact .inl

private theorem mem_guards_iff (h : unit? env c = some u) :
    holder ∈ u.guards ↔ (∃ f ∈ u.functions, ClassUse.guard holder ∈ f.body.classUses) ∨
      env.options.reflection = true ∧
        ∃ name ∈ registeredEnums env.program c, staticHolder env.program name = holder := by
  have hguards : holder ∈ u.guards ↔ ClassUse.guard holder ∈ u.classUses := by
    unfold Target.SourceUnit.guards
    rw [List.mem_filterMap]
    constructor
    · rintro ⟨use, huse, hguard⟩
      cases use with
      | guard name =>
        obtain rfl := Option.some_inj.1 hguard
        exact huse
      | access name | construct name | adapter name => cases hguard
    · exact fun huse => ⟨_, huse, rfl⟩
  have hregistered := registered_info? h
  rw [hguards, Target.SourceUnit.classUses, List.mem_append, List.mem_flatMap]
  -- the functions are the same on both sides; the rest are the guards of the registration
  refine or_congr_right ?_
  cases hinfo : u.info? with
  | none =>
    rw [hinfo] at hregistered
    exact ⟨fun hmem => absurd hmem List.not_mem_nil, fun hmem => absurd (hregistered.symm.trans hmem.1) (by decide)⟩
  | some info =>
    rw [hinfo] at hregistered
    rw [Option.toList_some, List.flatMap_cons, List.flatMap_nil, List.append_nil, guard_mem_classUses_iff hregistered,
      and_iff_right hregistered.1]

/-! ### Holders of generated classes -/

/-- The class stands for a target type that has the name of the holder of a generated class. -/
def StandsForHolder (p : Program) (name : Name) : Prop :=
  ∃ x, p.find? name = some x ∧ x.isInterface = false ∧
    ∃ source, p.Generates source ∧ x.nativeName = some (staticHolder p source)

private theorem staticHolder_of_generates (h : p.Generates source) :
    staticHolder p source = companion source .staticHolder ∨ staticHolder p source = generated source := by
  obtain ⟨x, hfind, hnative⟩ := h
  have hqualified : qualified p source = generated source := by
    rw [ClassModel.isNative, Option.isSome_eq_false_iff, Option.isNone_iff_eq_none] at hnative
    rw [qualified, hfind, Option.bind_some, hnative, Option.getD_none]
  unfold staticHolder
  split
  · exact .inl rfl
  · exact .inr hqualified

/-- Names of holders tell classes apart, but for the target types that a program names. -/
theorem holder_generated_iff :
    (∃ source, p.Generates source ∧ staticHolder p name = staticHolder p source) ↔
      p.Generates name ∨ StandsForHolder p name := by
  constructor
  · rintro ⟨source, hsource, hname⟩
    have hholder := staticHolder_of_generates hsource
    rw [← hname] at hholder
    cases hfind : p.find? name with
    | none =>
      have hgenerated : staticHolder p name = generated name := by simp [staticHolder, qualified, hfind]
      rw [hgenerated] at hholder
      rcases hholder with heq | heq
      · exact absurd heq.symm Naming.companion_ne_generated
      · exact .inl (Naming.generated_injective heq ▸ hsource)
    | some x =>
      cases hnative : x.nativeName with
      | none => exact .inl ⟨x, hfind, by rw [ClassModel.isNative, hnative]; rfl⟩
      | some target =>
        cases hinterface : x.isInterface with
        | false =>
          -- a class for a target type is its own holder, which a generated class may have for a name as well
          have htarget : staticHolder p name = target := by simp [staticHolder, qualified, hfind, hinterface, hnative]
          exact .inr ⟨x, hfind, hinterface, source, hsource, by rw [hnative, ← hname, htarget]⟩
        | true =>
          have hcompanion : staticHolder p name = companion name .staticHolder := by
            simp [staticHolder, hfind, hinterface]
          rw [hcompanion] at hholder
          rcases hholder with heq | heq
          · exact .inl ((Naming.companion_inj heq).1 ▸ hsource)
          · exact absurd heq Naming.companion_ne_generated
  · rintro (hgenerates | ⟨x, hfind, hinterface, source, hsource, hnative⟩)
    · exact ⟨name, hgenerates, rfl⟩
    · exact ⟨source, hsource, by simp [staticHolder, qualified, hfind, hinterface, hnative]⟩

/-- All guards in the unit of a class are on holders of generated classes exactly when the annotations that it
registers name no constant of another class, or of one that stands for such a holder. -/
theorem guards_generated_iff (hc : c ∈ env.program.classes) (h : unit? env c = some u) :
    (∀ holder ∈ u.guards, ∃ source, env.program.Generates source ∧ holder = staticHolder env.program source) ↔
      (env.options.reflection = true → ∀ name ∈ registeredEnums env.program c,
        env.program.Generates name ∨ StandsForHolder env.program name) := by
  constructor
  · intro hall hreflection name hname
    exact holder_generated_iff.1 (hall _ ((mem_guards_iff h).2 (.inr ⟨hreflection, name, hname, rfl⟩)))
  · intro hall holder hholder
    rcases (mem_guards_iff h).1 hholder with ⟨f, hf, huse⟩ | ⟨hreflection, name, hname, rfl⟩
    · exact known_of_mem_functions hc h f hf _ huse
    · exact holder_generated_iff.2 (hall hreflection name hname)

/-- An annotation type with one element. -/
private def styleClass : ClassModel :=
  { bareClass "Style" .interface none [] [{ bareMethod 1 "mode" ⟨0x0401⟩ none with ret := .ref "Mode" }] with
    markers := { annotationType := true } }

/-- A class with constants, which may stand for a target type. -/
private def modeClass (native : Option Name) : ClassModel :=
  { bareClass "Mode" .plain none [] [] with nativeName := native }

/-- A class whose annotation names a constant. -/
private def panelClass : ClassModel :=
  { bareClass "Panel" .plain none [] [] with
    annotations := [⟨"Style", [("mode", .enum "Mode" "DARK")], true⟩] }

private def panelEnv (native : Option Name) : Env where
  program := ⟨[styleClass, modeClass native, panelClass], show ["Style", "Mode", "Panel"].Nodup by decide⟩
  options := {}

/-- The registration initializes a target type, for which no initializer is generated. -/
theorem guards_target_type_panel :
    ∃ u, unit? (panelEnv (some "hx.Mode")) panelClass = some u ∧ u.guards = ["hx.Mode"] ∧
      ¬∃ source, (panelEnv (some "hx.Mode")).program.Generates source ∧
        "hx.Mode" = staticHolder (panelEnv (some "hx.Mode")).program source := by
  have hguards : (unit? (panelEnv (some "hx.Mode")) panelClass).map Target.SourceUnit.guards = some ["hx.Mode"] := by
    with_unfolding_all rfl
  obtain ⟨u, hu, hguards⟩ := Option.map_eq_some_iff.1 hguards
  refine ⟨u, hu, hguards, ?_⟩
  rintro ⟨source, ⟨x, hfind, hnative⟩, hholder⟩
  obtain ⟨hx, rfl⟩ := Program.mem_of_find? hfind
  have hall : ∀ x ∈ (panelEnv (some "hx.Mode")).program.classes, x.isNative = false →
      "hx.Mode" ≠ staticHolder (panelEnv (some "hx.Mode")).program x.name := by with_unfolding_all decide
  exact hall x hx hnative hholder

/-- The registration initializes the class whose constant it names. -/
theorem guards_generated_iff_panel :
    ∃ u, unit? (panelEnv none) panelClass = some u ∧ u.guards = ["Mode"] ∧
      ∀ holder ∈ u.guards, ∃ source, (panelEnv none).program.Generates source ∧
        holder = staticHolder (panelEnv none).program source := by
  have hguards : (unit? (panelEnv none) panelClass).map Target.SourceUnit.guards = some ["Mode"] := by
    with_unfolding_all rfl
  have henums : registeredEnums (panelEnv none).program panelClass = ["Mode"] := by with_unfolding_all rfl
  have hpanel : panelClass ∈ (panelEnv none).program.classes := .tail _ (.tail _ (.head _))
  obtain ⟨u, hu, hguards⟩ := Option.map_eq_some_iff.1 hguards
  refine ⟨u, hu, hguards, (guards_generated_iff hpanel hu).2 fun _ name hname => .inl ?_⟩
  rw [henums, List.mem_singleton] at hname
  rw [hname]
  exact ⟨modeClass none, by with_unfolding_all rfl, rfl⟩

end HaxeBackend.Generation
