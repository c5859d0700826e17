import HaxeBackend.Proofs.Generation.Outcome
import HaxeBackend.Proofs.Generation.Uses
import HaxeBackend.Proofs.Naming.Units

/-!
# Companions that units refer to

A unit refers to companions of other classes: to the holder of an interface's statics, to the adapter of an interface,
and to the implementation of an annotation type.  Such a class is always in the program, but whether its unit declares
the companion is decided elsewhere.  Main result: where no class fails, all references are declared exactly when none
of them is to a class that stands for a target type, to the adapter of what is no interface, or to the implementation
of what is no annotation type (`companions_declared_iff`).
-/

namespace HaxeBackend.Generation

open Target (ClassUse)
open Naming (companion companionSimple generated qualified staticHolder)

variable {env : Env} {p : Program} {c : ClassModel} {u : Target.SourceUnit} {source : Name} {kind : Companion}

/-! ### References -/

/-- The unit uses the companion by its full name, which no class of the program stands for. -/
def RefersTo (p : Program) (u : Target.SourceUnit) (source : Name) (kind : Companion) : Prop :=
  companion source kind ∈ u.classUses.map ClassUse.name ∧ ∀ c ∈ p.classes, c.nativeName ≠ some (companion source kind)

/-- What names a unit uses classes by. -/
private def Addressed (p : Program) : ClassUse → Prop
  | .access name => name = Target.objectArray ∨ ∃ source, name = staticHolder p source
  | .guard holder => ∃ source, holder = staticHolder p source
  | .construct name =>
    (∃ type, name = Naming.arrayClass type) ∨ (∃ source, name = qualified p source) ∨
      ∃ x ∈ p.classes, name = companion x.name .annotationImpl
  | .adapter name => ∃ x ∈ p.classes, p.dispatch x = .adapter ∧ name = companion x.name .adapter

private theorem addressed_of_known {use : ClassUse} (h : Lowering.Known p use) : Addressed p use := by
  cases use with
  | access name => exact h
  | guard holder =>
    obtain ⟨source, -, rfl⟩ := h
    exact ⟨source, rfl⟩
  | construct name =>
    rcases h with h | h
    · exact .inl h
    · exact .inr (.inl h)
  | adapter name => exact h

private theorem addressed_of_literal {use : ClassUse} (h : LiteralUse p use) : Addressed p use := by
  cases use with
  | access name => exact .inr h
  | construct name => exact .inr (.inr h)
  | guard holder | adapter name => exact h.elim

private theorem addressed_of_registered (hc : c ∈ env.program.classes) {info : Target.ClassInfo}
    (h : Registered env c (some info)) : ∀ use ∈ info.classUses, Addressed env.program use := by
  obtain ⟨-, hguards, hadapter, huses, hmembers⟩ := h
  refine List.forall_mem_append.2 ⟨?_, List.forall_mem_append.2 ⟨?_, List.forall_mem_append.2 ⟨?_, ?_⟩⟩⟩
  · intro use huse
    obtain ⟨holder, hholder, rfl⟩ := List.mem_map.1 huse
    rw [hguards] at hholder
    obtain ⟨source, -, rfl⟩ := List.mem_map.1 hholder
    exact ⟨source, rfl⟩
  · intro use huse
    obtain ⟨name, hname, rfl⟩ := List.mem_map.1 huse
    rw [Option.mem_toList, show info.entry.adapter = _ from hadapter, companionName] at hname
    split at hname
    · rename_i hwanted
      rw [Bool.and_eq_true, beq_iff_eq] at hwanted
      obtain rfl := Option.some_inj.1 hname
      exact ⟨c, hc, hwanted.2, rfl⟩
    · cases hname
  · exact fun use huse => addressed_of_literal (huses use huse)
  · exact List.forall_mem_flatMap.2 fun entry hentry use huse => addressed_of_literal (hmembers entry hentry use huse)

private theorem addressed_of_mem_classUses (hc : c ∈ env.program.classes) (h : unit? env c = some u) :
    ∀ use ∈ u.classUses, Addressed env.program use := by
  refine List.forall_mem_append.2 ⟨List.forall_mem_flatMap.2 fun f hf use huse => ?_, ?_⟩
  · exact addressed_of_known (known_of_mem_functions hc h f hf use huse)
  · have hregistered := registered_info? h
    cases hinfo : u.info? with
    | none => exact fun _ huse => absurd huse List.not_mem_nil
    | some info =>
      rw [hinfo] at hregistered
      exact List.forall_mem_flatMap.2 (List.forall_mem_singleton.2 (addressed_of_registered hc hregistered))

/-- What the reference to a companion says about its class. -/
private def Asked (p : Program) (x : ClassModel) : Companion → Prop
  | .staticHolder => x.isInterface = true
  | .adapter => p.dispatch x = .adapter
  | .annotationImpl => True
  | .proxy | .library => False

/-- The full name of a class is that of a companion only if the class stands for it. -/
private theorem qualified_ne_companion {name : Name}
    (hforeign : ∀ c ∈ p.classes, c.nativeName ≠ some (companion source kind)) :
    qualified p name ≠ companion source kind := by
  intro h
  unfold qualified at h
  cases hfind : p.find? name with
  | none =>
    rw [hfind] at h
    exact Naming.companion_ne_generated h.symm
  | some x =>
    rw [hfind, Option.bind_some] at h
    cases hnative : x.nativeName with
    | none =>
      rw [hnative] at h
      exact Naming.companion_ne_generated h.symm
    | some target =>
      rw [hnative, Option.getD_some] at h
      exact hforeign x (Program.mem_of_find? hfind).1 (by rw [hnative, h])

private theorem asked_of_staticHolder {name : Name}
    (hforeign : ∀ c ∈ p.classes, c.nativeName ≠ some (companion source kind))
    (h : staticHolder p name = companion source kind) : ∃ x ∈ p.classes, x.name = source ∧ Asked p x kind := by
  unfold staticHolder at h
  split at h
  · rename_i hinterface
    obtain ⟨rfl, rfl⟩ := Naming.companion_inj h
    obtain ⟨x, hfind, hx⟩ := Option.any_eq_true _ _ |>.1 hinterface
    obtain ⟨hmem, hname⟩ := Program.mem_of_find? hfind
    exact ⟨x, hmem, hname, hx⟩
  · exact absurd h (qualified_ne_companion hforeign)

private theorem arrayClass_ne_companion (type : Ty) : Naming.arrayClass type ≠ companion source kind := by
  refine (Naming.companion_ne_of_not_mem ?_).symm
  unfold Naming.arrayClass
  split
  · rename_i prim
    cases prim <;> decide
  · decide

/-- The class of a companion that a unit refers to is in the program. -/
private theorem asked_of_refersTo (hc : c ∈ env.program.classes) (h : unit? env c = some u)
    (href : RefersTo env.program u source kind) :
    ∃ x ∈ env.program.classes, x.name = source ∧ Asked env.program x kind := by
  obtain ⟨hmem, hforeign⟩ := href
  obtain ⟨use, huse, hname⟩ := List.mem_map.1 hmem
  have haddressed := addressed_of_mem_classUses hc h use huse
  cases use with
  | access name =>
    rcases haddressed with rfl | ⟨holder, rfl⟩
    · exact absurd hname.symm (Naming.companion_ne_of_not_mem (by decide))
    · exact asked_of_staticHolder hforeign hname
  | guard name =>
    obtain ⟨holder, rfl⟩ := haddressed
    exact asked_of_staticHolder hforeign hname
  | construct name =>
    rcases haddressed with ⟨type, rfl⟩ | ⟨name, rfl⟩ | ⟨x, hx, rfl⟩
    · exact absurd hname (arrayClass_ne_companion type)
    · exact absurd hname (qualified_ne_companion hforeign)
    · obtain ⟨rfl, rfl⟩ := Naming.companion_inj hname
      exact ⟨x, hx, rfl, trivial⟩
  | adapter name =>
    obtain ⟨x, hx, hdispatch, rfl⟩ := haddressed
    obtain ⟨rfl, rfl⟩ := Naming.companion_inj hname
    exact ⟨x, hx, rfl, hdispatch⟩

/-! ### Declarations -/

/-- The companion that objects of an interface are made with. -/
def dispatchKind (p : Program) (c : ClassModel) : Companion :=
  match p.dispatch c with
  | .proxy => .proxy
  | .adapter => .adapter

/-- The types that the unit of a class declares: its own, and those of the companions that it has. -/
def declaredKinds (p : Program) (c : ClassModel) : List (Option Companion) :=
  if c.isInterface then
    [none, some .staticHolder, some (dispatchKind p c)] ++
      ((if c.markers.annotationType then [some .annotationImpl] else []) ++
        if c.markers.nativeBound then [some .library] else [])
  else [none]

private theorem header_dispatchClass {d : Target.DispatchClass} (h : Gives (dispatchClass env c) d) :
    d.header.name = companionSimple c.name (dispatchKind env.program c) := by
  unfold dispatchKind
  obtain ⟨hdispatch, rfl⟩ | ⟨hdispatch, a, rfl, hparts⟩ := dispatchClass_cases h
  · rw [hdispatch]
    rfl
  · rw [hdispatch]
    exact hparts.name

theorem declared_eq (h : unit? env c = some u) :
    u.declared = (declaredKinds env.program c).map (Naming.typeName c.name) := by
  unfold declaredKinds
  obtain ⟨hinterface, i, rfl, hparts⟩ | ⟨hclass, k, rfl, hparts⟩ := unit?_cases h
  · have hheader := header_dispatchClass hparts.dispatch
    rw [if_pos hinterface]
    simp only [Target.SourceUnit.declared, hparts.name, hparts.holder, hheader, hparts.annotationImpl, hparts.library]
    cases c.markers.annotationType <;> cases c.markers.nativeBound <;> rfl
  · rw [if_neg (Bool.eq_false_iff.1 hclass), Target.SourceUnit.declared, hparts.name]
    rfl

/-- The unit of the class declares its companion. -/
def Declares (env : Env) (source : Name) (kind : Companion) : Prop :=
  ∃ c ∈ env.program.classes, c.name = source ∧
    ∃ u, unit? env c = some u ∧ companionSimple source kind ∈ u.declared

private theorem declares_iff (hc : c ∈ env.program.classes) :
    Declares env c.name kind ↔ (unit? env c).isSome = true ∧ some kind ∈ declaredKinds env.program c := by
  have hinjective : Function.Injective (Naming.typeName c.name) := fun a b h => (Naming.typeName_inj rfl h).2
  constructor
  · rintro ⟨c', hc', hname, u, hu, hmem⟩
    obtain rfl := Program.eq_of_name_eq hc' hc hname
    rw [declared_eq hu] at hmem
    exact ⟨by rw [hu]; rfl, (List.mem_map_of_injective hinjective).1 hmem⟩
  · rintro ⟨hunit, hmem⟩
    obtain ⟨u, hu⟩ := Option.isSome_iff_exists.1 hunit
    refine ⟨c, hc, rfl, u, hu, ?_⟩
    rw [declared_eq hu]
    exact List.mem_map.2 ⟨some kind, hmem, by rw [Naming.typeName]⟩

/-! ### Linking -/

/-- What makes the unit of a class declare a companion that is referred to. -/
def Fits (x : ClassModel) : Companion → Prop
  | .staticHolder => x.isNative = false
  | .adapter => x.isNative = false ∧ x.isInterface = true
  | .annotationImpl => x.isNative = false ∧ x.isInterface = true ∧ x.markers.annotationType = true
  | .proxy | .library => False

/-- Where nothing fails, a class has a unit unless it stands for a target type. -/
private theorem isSome_unit?_iff (h : (generateClass env c).hasErrors = false) :
    (unit? env c).isSome = true ↔ c.isNative = false := by
  constructor
  · intro hunit
    cases hnative : c.isNative with
    | false => rfl
    | true =>
      rw [unit?, hnative] at hunit
      cases hunit
  · intro hnative
    rw [← Option.isSome_map (f := generatedUnit env c), ← generateClass_unit, ← Option.ne_none_iff_isSome]
    intro hunit
    exact Bool.false_ne_true (h.symm.trans ((classified_generateClass env c).fails_iff.1 ⟨hunit, hnative⟩))

private theorem mem_declaredKinds_iff (hasked : Asked p c kind) :
    c.isNative = false ∧ some kind ∈ declaredKinds p c ↔ Fits c kind := by
  unfold declaredKinds
  cases kind with
  | staticHolder =>
    rw [if_pos (show c.isInterface = true from hasked)]
    simp [Fits]
  | adapter =>
    have hkind : dispatchKind p c = .adapter := by rw [dispatchKind, show p.dispatch c = .adapter from hasked]
    cases hinterface : c.isInterface <;> simp [Fits, hkind, hinterface]
  | annotationImpl =>
    have hkind : some Companion.annotationImpl ≠ some (dispatchKind p c) := by
      unfold dispatchKind
      split <;> decide
    cases hinterface : c.isInterface <;> cases hmarker : c.markers.annotationType <;>
      cases hlibrary : c.markers.nativeBound <;> simp [Fits, hinterface, hmarker, hkind]
  | proxy | library => exact hasked.elim

/-- Where no class fails, all companions that units refer to are declared by the units of their classes exactly when
each of these classes fits. -/
theorem companions_declared_iff (h : ∀ c ∈ env.program.classes, (generateClass env c).hasErrors = false) :
    (∀ c ∈ env.program.classes, ∀ u, unit? env c = some u →
      ∀ source kind, RefersTo env.program u source kind → Declares env source kind) ↔
    ∀ c ∈ env.program.classes, ∀ u, unit? env c = some u →
      ∀ source kind, RefersTo env.program u source kind →
        ∃ x ∈ env.program.classes, x.name = source ∧ Fits x kind := by
  refine forall₂_congr fun c hc => forall₂_congr fun u hu => forall₃_congr fun source kind href => ?_
  obtain ⟨x, hx, rfl, hasked⟩ := asked_of_refersTo hc hu href
  rw [declares_iff hx, isSome_unit?_iff (h x hx), mem_declaredKinds_iff hasked]
  constructor
  · exact fun hfits => ⟨x, hx, rfl, hfits⟩
  · rintro ⟨x', hx', hname, hfits⟩
    rwa [Program.eq_of_name_eq hx' hx hname] at hfits

/-- An interface with a static method, which may stand for a target type. -/
private def clockClass (native : Option Name) : ClassModel :=
  { bareClass "Clock" .interface none [] [bareMethod 1 "now" ⟨0x0009⟩ (some {})] with nativeName := native }

/-- A class that calls the static method. -/
private def clockUser : ClassModel :=
  let body : Body :=
    { exprs := #[⟨.call .static ⟨"Clock", "now", ⟨[], .void⟩⟩ ⟨0, 0⟩ false, .void⟩]
      stmts := #[.eval 0]
      stmtLists := #[0]
      root := ⟨0, 1⟩ }
  bareClass "Main" .plain none [] [bareMethod 2 "main" ⟨0x0009⟩ (some body)]

private def clockEnv (native : Option Name) : Env where
  program := ⟨[clockClass native, clockUser], show ["Clock", "Main"].Nodup by decide⟩
  options := { reflection := false }

/-- The unit of an interface that stands for a target type does not exist, but its holder is called. -/
theorem companions_undeclared_clock :
    (∀ c ∈ (clockEnv (some "hx.Clock")).program.classes,
      (generateClass (clockEnv (some "hx.Clock")) c).hasErrors = false) ∧
    (∃ u, unit? (clockEnv (some "hx.Clock")) clockUser = some u ∧
      RefersTo (clockEnv (some "hx.Clock")).program u "Clock" .staticHolder) ∧
    ¬Declares (clockEnv (some "hx.Clock")) "Clock" .staticHolder := by
  have huses : (unit? (clockEnv (some "hx.Clock")) clockUser).map (fun u => u.classUses.map ClassUse.name) =
      some ["Clock.Clock_IFields_"] := by with_unfolding_all rfl
  obtain ⟨u, hu, hnames⟩ := Option.map_eq_some_iff.1 huses
  refine ⟨by with_unfolding_all decide, ⟨u, hu, ?_, by with_unfolding_all decide⟩, ?_⟩
  · rw [hnames]
    with_unfolding_all decide
  · intro hdeclares
    have hunit := ((declares_iff (c := clockClass (some "hx.Clock")) List.mem_cons_self).1 hdeclares).1
    cases hunit

/-- An interface of the program declares the holder that is called. -/
theorem companions_declared_iff_clock :
    (∀ c ∈ (clockEnv none).program.classes, (generateClass (clockEnv none) c).hasErrors = false) ∧
    (∃ u, unit? (clockEnv none) clockUser = some u ∧ RefersTo (clockEnv none).program u "Clock" .staticHolder) ∧
    ∀ c ∈ (clockEnv none).program.classes, ∀ u, unit? (clockEnv none) c = some u →
      ∀ source kind, RefersTo (clockEnv none).program u source kind → Declares (clockEnv none) source kind := by
  have hclock : (unit? (clockEnv none) (clockClass none)).map (fun u => u.classUses.map ClassUse.name) = some [] := by
    with_unfolding_all rfl
  have huser : (unit? (clockEnv none) clockUser).map (fun u => u.classUses.map ClassUse.name) =
      some ["Clock.Clock_IFields_", "Clock.Clock_IFields_"] := by with_unfolding_all rfl
  have hquiet : ∀ c ∈ (clockEnv none).program.classes, (generateClass (clockEnv none) c).hasErrors = false := by
    with_unfolding_all decide
  obtain ⟨u, hu, hnames⟩ := Option.map_eq_some_iff.1 huser
  refine ⟨hquiet, ⟨u, hu, ?_, by with_unfolding_all decide⟩, (companions_declared_iff hquiet).2 ?_⟩
  · rw [hnames]
    with_unfolding_all decide
  · intro c hc u' hu' source kind href
    have hmem := href.1
    rcases List.mem_cons.1 hc with rfl | hc
    · rw [hu', Option.map_some, Option.some_inj] at hclock
      rw [hclock] at hmem
      cases hmem
    · obtain rfl := List.mem_singleton.1 hc
      obtain rfl := Option.some_inj.1 (hu.symm.trans hu')
      have hname : companion source kind = companion "Clock" .staticHolder := by
        rw [hnames, List.mem_cons, List.mem_singleton, or_self_iff] at hmem
        exact hmem.trans (by with_unfolding_all rfl)
      obtain ⟨rfl, rfl⟩ := Naming.companion_inj hname
      exact ⟨clockClass none, List.mem_cons_self, rfl, rfl⟩

end HaxeBackend.Generation
