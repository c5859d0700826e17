import HaxeBackend.Generation.Output
import HaxeBackend.Proofs.Hierarchy.Implementation
import HaxeBackend.Proofs.Run
import HaxeBackend.Proofs.Target.Contents
import Mathlib.Data.List.Forall2

/-!
# Functions of units

What a unit is made of is said once (`unit?_cases`, `dispatchClass_cases`).  The unit of a class has one function for
each of its methods, in order (`forall₂_functions`).  The methods of a class are those it declares and the inherited
defaults, and `mem_inheritedDefaults` says which defaults these are: where no class is above itself, those that no
superclass has to implement.
-/

namespace HaxeBackend.Generation

variable {env : Env} {p : Program} {c s : ClassModel} {u : Target.SourceUnit} {site : MethodSite} {m : Method}
  {f : Target.Function} {e : MethodEntry} {name : Name} {type : MethodTy}

/-! ### Units and their methods -/

/-- The unit of a class, unless the class stands for a target type or its generation fails. -/
def unit? (env : Env) (c : ClassModel) : Option Target.SourceUnit :=
  if c.isNative then none else ((sourceUnit env c).run.run {}).1.toOption

/-- The unit is what the output of the class holds. -/
theorem generateClass_unit : (generateClass env c).unit = (unit? env c).map (generatedUnit env c) := by
  unfold generateClass unit?
  split
  · rfl
  · rcases (sourceUnit env c).run.run {} with ⟨_ | u, last⟩ <;> rfl

/-- The parts of a unit stand in the text that is written for it. -/
theorem standIn_generatedUnit {parts : List Target.Code} (h : u.code.Holds parts) :
    Target.StandIn parts (generatedUnit env c u).text := by
  show Target.StandIn parts u.code.write.text
  exact u.standIn h

/-- Every class of the program has a unit. -/
def Complete (env : Env) : Prop := ∀ c ∈ env.program.classes, (unit? env c).isSome = true

/-- The functions of the class in a unit, or of the class that has the statics of an interface. -/
def functionsOf : Target.SourceUnit → List Target.Function
  | .ofClass u => u.functions
  | .ofInterface u => u.functions

/-- The methods that the functions of a unit are generated for. -/
def unitMethods (p : Program) (c : ClassModel) : List (MethodSite × Method) :=
  if c.isInterface then staticMethods c else classMethods p c

/-- The functions of the unit of a class, each behind the method that it is generated for. -/
def emitted (env : Env) (c : ClassModel) : List ((MethodSite × Method) × Target.Function) :=
  match unit? env c with
  | some u => (unitMethods env.program c).zip (functionsOf u)
  | none => []

/-- The function is generated for the method. -/
def GeneratedFor (env : Env) (x : MethodSite × Method) (f : Target.Function) : Prop :=
  ∃ st st', Runs (method env x.1 x.2) st f st'

theorem GeneratedFor.signature_eq {x : MethodSite × Method} (h : GeneratedFor env x f) :
    f.signature = signatureOf env.program x.1 x.2 := by
  obtain ⟨st, st', hrun⟩ := h
  obtain ⟨body, mid, -, hpure⟩ := runs_bind.1 hrun
  obtain ⟨rfl, -⟩ := runs_pure.1 hpure
  rfl

/-- Where the body of a method is lowered. -/
def bodySite (site : MethodSite) (m : Method) : Lowering.BodySite :=
  ⟨Lowering.paramNames m, m.isConstructor, site.own, site.pool⟩

/-- A function with a lowered body has it from the body of its method. -/
theorem GeneratedFor.exists_lowerBody {x : MethodSite × Method} (h : GeneratedFor env x f) {b : Target.Body}
    {returnsThis : Bool} (hf : f.body = .lowered b returnsThis) :
    ∃ body unit, x.2.body = some body ∧
      (Lowering.lowerBody env.program env.options (bodySite x.1 x.2) body unit).1 = .ok b := by
  obtain ⟨st, st', hrun⟩ := h
  obtain ⟨fbody, mid, hbody, hpure⟩ := runs_bind.1 hrun
  obtain ⟨rfl, -⟩ := runs_pure.1 hpure
  obtain rfl : fbody = .lowered b returnsThis := hf
  unfold methodBody at hbody
  obtain ⟨given, start, -, hbody⟩ := runs_bind.1 hbody
  split at hbody
  · cases (runs_pure.1 hbody).1
  · rename_i body hsome
    -- the other outcomes of the translation leave another kind of body
    unfold lowerMethodBody at hbody
    obtain ⟨unit, _, -, hbody⟩ := runs_bind.1 hbody
    obtain ⟨_, _, -, hbody⟩ := runs_bind.1 hbody
    split at hbody
    · rename_i lowered hlowered
      cases (runs_pure.1 hbody).1
      exact ⟨body, unit, hsome, hlowered⟩
    · split at hbody
      · exact absurd hbody runs_throw
      · obtain ⟨_, _, -, hbody⟩ := runs_bind.1 hbody
        cases (runs_pure.1 hbody).1
  · cases (runs_pure.1 hbody).1

theorem forall₂_methods {l : List (MethodSite × Method)} {fs : List Target.Function} {st st' : UnitState}
    (h : Runs (methods env l) st fs st') : List.Forall₂ (GeneratedFor env) l fs := by
  induction l generalizing st fs st' with
  | nil =>
    obtain ⟨rfl, -⟩ := runs_pure.1 h
    exact .nil
  | cons x l ih =>
    obtain ⟨first, mid, hfirst, h⟩ := runs_bind.1 h
    obtain ⟨rest, mid', hrest, h⟩ := runs_bind.1 h
    obtain ⟨rfl, -⟩ := runs_pure.1 h
    exact .cons ⟨_, _, hfirst⟩ (ih hrest)

theorem runs_of_unit? (h : unit? env c = some u) : ∃ last, Runs (sourceUnit env c) {} u last := by
  unfold unit? at h
  split at h
  · cases h
  · rcases hrun : (sourceUnit env c).run.run {} with ⟨_ | u', last⟩
    · rw [hrun] at h
      cases h
    · rw [hrun] at h
      cases h
      exact ⟨last, hrun⟩

/-- The result comes of the step, whatever the state is there. -/
def Gives {α : Type} (x : GenM α) (a : α) : Prop := ∃ st st', Runs x st a st'

/-- Where the parts of the unit of a class come from. -/
structure ClassParts (env : Env) (c : ClassModel) (k : Target.ClassUnit) : Prop where
  name : k.name = Naming.simple c.name
  functions : Gives (methods env (classMethods env.program c)) k.functions
  info : Gives (classInfo env c) k.info
  statics : Gives (Generation.statics env.program c) k.statics

/-- Where the parts of the unit of an interface come from. -/
structure InterfaceParts (env : Env) (c : ClassModel) (i : Target.InterfaceUnit) : Prop where
  name : i.name = Naming.simple c.name
  holder : i.holder = Naming.companionSimple c.name .staticHolder
  functions : Gives (methods env (staticMethods c)) i.functions
  dispatch : Gives (dispatchClass env c) i.dispatch
  info : Gives (classInfo env c) i.info
  statics : Gives (Generation.statics env.program c) i.statics
  annotationImpl : i.annotationImpl = if c.markers.annotationType then some (annotationClass env.program c) else none
  library : i.library = if c.markers.nativeBound then some (libraryClass env.program c) else none

private theorem classParts_of_runs {st st' : UnitState} {k : Target.ClassUnit} (h : Runs (classUnit env c) st k st') :
    ClassParts env c k := by
  unfold classUnit at h
  obtain ⟨_, _, -, h⟩ := runs_bind.1 h
  obtain ⟨_, _, -, h⟩ := runs_bind.1 h
  obtain ⟨functions, _, hfunctions, h⟩ := runs_bind.1 h
  obtain ⟨info, _, hinfo, h⟩ := runs_bind.1 h
  obtain ⟨_, _, -, h⟩ := runs_bind.1 h
  obtain ⟨_, _, -, h⟩ := runs_bind.1 h
  obtain ⟨statics, _, hstatics, h⟩ := runs_bind.1 h
  obtain ⟨rfl, -⟩ := runs_pure.1 h
  exact ⟨by dsimp only, ⟨_, _, hfunctions⟩, ⟨_, _, hinfo⟩, ⟨_, _, hstatics⟩⟩

private theorem interfaceParts_of_runs {st st' : UnitState} {i : Target.InterfaceUnit}
    (h : Runs (interfaceUnit env c) st i st') : InterfaceParts env c i := by
  unfold interfaceUnit at h
  obtain ⟨_, _, -, h⟩ := runs_bind.1 h
  obtain ⟨functions, _, hfunctions, h⟩ := runs_bind.1 h
  obtain ⟨dispatch, _, hdispatch, h⟩ := runs_bind.1 h
  obtain ⟨info, _, hinfo, h⟩ := runs_bind.1 h
  obtain ⟨_, _, -, h⟩ := runs_bind.1 h
  obtain ⟨statics, _, hstatics, h⟩ := runs_bind.1 h
  obtain ⟨rfl, -⟩ := runs_pure.1 h
  exact ⟨by dsimp only, by dsimp only, ⟨_, _, hfunctions⟩, ⟨_, _, hdispatch⟩, ⟨_, _, hinfo⟩, ⟨_, _, hstatics⟩, rfl, rfl⟩

/-- What a unit can be. -/
theorem unit?_cases (h : unit? env c = some u) :
    (c.isInterface = true ∧ ∃ i, u = .ofInterface i ∧ InterfaceParts env c i) ∨
      (c.isInterface = false ∧ ∃ k, u = .ofClass k ∧ ClassParts env c k) := by
  obtain ⟨last, hruns⟩ := runs_of_unit? h
  unfold sourceUnit at hruns
  split at hruns
  · rename_i hinterface
    obtain ⟨i, _, hi, hpure⟩ := runs_bind.1 hruns
    obtain ⟨rfl, -⟩ := runs_pure.1 hpure
    exact .inl ⟨hinterface, i, rfl, interfaceParts_of_runs hi⟩
  · rename_i hinterface
    obtain ⟨k, _, hk, hpure⟩ := runs_bind.1 hruns
    obtain ⟨rfl, -⟩ := runs_pure.1 hpure
    exact .inr ⟨Bool.eq_false_iff.2 hinterface, k, rfl, classParts_of_runs hk⟩

/-- One function for each method, in order. -/
theorem forall₂_functions (h : unit? env c = some u) :
    List.Forall₂ (GeneratedFor env) (unitMethods env.program c) (functionsOf u) := by
  unfold unitMethods
  obtain ⟨hinterface, i, rfl, hparts⟩ | ⟨hclass, k, rfl, hparts⟩ := unit?_cases h
  · obtain ⟨_, _, hfunctions⟩ := hparts.functions
    rw [if_pos hinterface]
    exact forall₂_methods hfunctions
  · obtain ⟨_, _, hfunctions⟩ := hparts.functions
    rw [if_neg (Bool.eq_false_iff.1 hclass)]
    exact forall₂_methods hfunctions

/-- Every function of the unit is there. -/
theorem map_snd_emitted (h : unit? env c = some u) : (emitted env c).map Prod.snd = functionsOf u := by
  rw [emitted, h]
  exact List.map_snd_zip (Nat.le_of_eq (forall₂_functions h).length_eq.symm)

/-- Every method has its function. -/
theorem exists_mem_emitted (h : (unit? env c).isSome = true) (hmem : (site, m) ∈ unitMethods env.program c) :
    ∃ f, ((site, m), f) ∈ emitted env c := by
  obtain ⟨u, hu⟩ := Option.isSome_iff_exists.1 h
  have hmap : (emitted env c).map Prod.fst = unitMethods env.program c := by
    rw [emitted, hu]
    exact List.map_fst_zip (Nat.le_of_eq (forall₂_functions hu).length_eq)
  rw [← hmap] at hmem
  obtain ⟨⟨x, f⟩, hf, rfl⟩ := List.mem_map.1 hmem
  exact ⟨f, hf⟩

/-- The unit that a function stands in, the method that it is generated for, and its declaration. -/
theorem of_mem_emitted (h : ((site, m), f) ∈ emitted env c) :
    (unit? env c).isSome = true ∧ (site, m) ∈ unitMethods env.program c ∧
      f.signature = signatureOf env.program site m := by
  unfold emitted at h
  split at h
  · rename_i u hu
    have hsignature := (List.forall₂_iff_zip.1 (forall₂_functions hu)).2 h
    exact ⟨by rw [hu]; rfl, (List.of_mem_zip h).1, hsignature.signature_eq⟩
  · cases h

/-- What a unit declares is what its methods say. -/
theorem exists_signature_iff (h : (unit? env c).isSome = true) {P : Target.Signature → Prop} :
    (∃ u f, unit? env c = some u ∧ f ∈ functionsOf u ∧ P f.signature) ↔
      ∃ x ∈ unitMethods env.program c, P (signatureOf env.program x.1 x.2) := by
  constructor
  · rintro ⟨u, f, hu, hf, hP⟩
    rw [← map_snd_emitted hu] at hf
    obtain ⟨⟨x, f⟩, hmem, rfl⟩ := List.mem_map.1 hf
    obtain ⟨-, hx, hsignature⟩ := of_mem_emitted hmem
    rw [hsignature] at hP
    exact ⟨x, hx, hP⟩
  · rintro ⟨x, hx, hP⟩
    obtain ⟨u, hu⟩ := Option.isSome_iff_exists.1 h
    obtain ⟨f, hf⟩ := exists_mem_emitted h hx
    have hsignature := (of_mem_emitted hf).2.2
    refine ⟨u, f, hu, ?_, by rwa [hsignature]⟩
    rw [← map_snd_emitted hu]
    exact List.mem_map_of_mem hf

/-! ### Adapters -/

/-- A method that an adapter copies, at its site. -/
def copiedEntry (p : Program) (c : ClassModel) (e : MethodEntry) : MethodSite × Method :=
  (⟨e.owner, none, .through c.name, p.rootDeclares e.method⟩, e.method)

/-- The function of an adapter for a method: a method without a body is forwarded, any other copied. -/
inductive AdapterFor (env : Env) (c : ClassModel) (e : MethodEntry) : Target.AdapterMethod → Prop
  | forward (hbody : e.method.hasBody = false) :
      AdapterFor env c e (.forward (forwardSignature env.program e (env.program.rootDeclares e.method))
        (!e.method.ret.isVoid))
  | copied {f : Target.Function} (hbody : e.method.hasBody = true)
      (hfor : GeneratedFor env (copiedEntry env.program c e) f) : AdapterFor env c e (.copied f)

private theorem forall₂_adapterMethods {entries : List MethodEntry} {methods : List Target.AdapterMethod}
    {st st' : UnitState} (h : Runs (adapterMethods env c entries) st methods st') :
    List.Forall₂ (AdapterFor env c) entries methods := by
  induction entries generalizing st methods st' with
  | nil =>
    obtain ⟨rfl, -⟩ := runs_pure.1 h
    exact .nil
  | cons e entries ih =>
    obtain ⟨first, mid, hfirst, h⟩ := runs_bind.1 h
    obtain ⟨rest, mid', hrest, h⟩ := runs_bind.1 h
    obtain ⟨rfl, -⟩ := runs_pure.1 h
    refine .cons ?_ (ih hrest)
    unfold adapterMethod at hfirst
    by_cases hbody : e.method.hasBody = true
    · rw [if_pos hbody] at hfirst
      obtain ⟨function, _, hmethod, hpure⟩ := runs_bind.1 hfirst
      obtain ⟨rfl, -⟩ := runs_pure.1 hpure
      exact .copied hbody ⟨_, _, hmethod⟩
    · rw [if_neg hbody] at hfirst
      obtain ⟨rfl, -⟩ := runs_pure.1 hfirst
      exact .forward (Bool.eq_false_iff.2 hbody)

/-- Where the parts of the adapter of an interface come from.  One without an abstract method has no members. -/
structure AdapterParts (env : Env) (c : ClassModel) (a : Target.AdapterClass) : Prop where
  name : a.header.name = Naming.companionSimple c.name .adapter
  members :
    match (env.program.methodsToImplement c.name).find? fun e => !e.method.hasBody with
    | none => a.members = none
    | some e => ∃ methods, a.members = some (Naming.functionType env.program e.method.type, methods) ∧
        List.Forall₂ (AdapterFor env c) (env.program.methodsToImplement c.name) methods

theorem adapterParts_of_gives {a : Target.AdapterClass} (h : Gives (adapterClass env c) a) : AdapterParts env c a := by
  obtain ⟨st, st', h⟩ := h
  unfold adapterClass at h
  cases hfind : (env.program.methodsToImplement c.name).find? fun e => !e.method.hasBody with
  | none =>
    simp only [hfind] at h
    obtain ⟨rfl, -⟩ := runs_pure.1 h
    exact ⟨rfl, by rw [hfind]⟩
  | some e =>
    simp only [hfind] at h
    obtain ⟨methods, _, hmethods, hpure⟩ := runs_bind.1 h
    obtain ⟨rfl, -⟩ := runs_pure.1 hpure
    exact ⟨rfl, by rw [hfind]; exact ⟨methods, rfl, forall₂_adapterMethods hmethods⟩⟩

/-- What objects of an interface are made with. -/
theorem dispatchClass_cases {d : Target.DispatchClass} (h : Gives (dispatchClass env c) d) :
    (env.program.dispatch c = .proxy ∧ d = .proxy (proxyClass env.program c)) ∨
      (env.program.dispatch c = .adapter ∧ ∃ a, d = .adapter a ∧ AdapterParts env c a) := by
  obtain ⟨st, st', h⟩ := h
  unfold dispatchClass at h
  cases hdispatch : env.program.dispatch c with
  | proxy =>
    rw [hdispatch] at h
    obtain ⟨rfl, -⟩ := runs_pure.1 h
    exact .inl ⟨rfl, rfl⟩
  | adapter =>
    rw [hdispatch] at h
    obtain ⟨a, mid, ha, hpure⟩ := runs_bind.1 h
    obtain ⟨rfl, -⟩ := runs_pure.1 hpure
    exact .inr ⟨rfl, a, rfl, adapterParts_of_gives ⟨_, _, ha⟩⟩

/-! ### Declared and copied methods -/

/-- The methods of a class that is no interface are those it declares and the inherited defaults. -/
theorem mem_unitMethods (hc : c.isInterface = false) :
    (site, m) ∈ unitMethods p c ↔
      (m ∈ c.methods ∧ site = ⟨c, some c.name, .own, p.isOverriding c.name m.name m.type⟩) ∨
        ∃ e ∈ inheritedDefaults p c, m = e.method ∧ site = ⟨e.owner, some c.name, .own, false⟩ := by
  rw [unitMethods, hc, if_neg Bool.false_ne_true, classMethods, List.mem_append, List.mem_map, List.mem_map]
  constructor
  · rintro (⟨d, hd, heq⟩ | ⟨e, he, heq⟩)
    · obtain ⟨rfl, rfl⟩ := Prod.mk.inj heq
      exact .inl ⟨hd, rfl⟩
    · obtain ⟨rfl, rfl⟩ := Prod.mk.inj heq
      exact .inr ⟨e, he, rfl, rfl⟩
  · rintro (⟨hm, rfl⟩ | ⟨e, he, rfl, rfl⟩)
    · exact .inl ⟨m, hm, rfl⟩
    · exact .inr ⟨e, he, rfl⟩

/-- The class declares a method of this name and type that can be overridden. -/
def DeclaresOverridable (s : ClassModel) (name : Name) (type : MethodTy) : Prop :=
  ∃ m, s.findMethod? name type = some m ∧ m.isOverridable = true

theorem isOverriding_iff (hacyclic : p.Acyclic) (hc : c ∈ p.classes) :
    p.isOverriding c.name name type = true ↔
      isSpecialName name = false ∧ ∃ s, p.Above c s ∧ DeclaresOverridable s name type := by
  rw [Program.isOverriding, Program.find?_name hc]
  simp only [Bool.and_eq_true, Bool.not_eq_true', List.any_eq_true, Option.any_eq_true,
    Program.mem_superclasses hacyclic]
  rfl

/-- Whether the superclass has to implement a method, which one that is not in the program never has. -/
private theorem provided_iff :
    (((c.superclass.map p.methodsToImplement).getD []).any fun e => e.method.hasSignature name type) = true ↔
      ∃ s, p.superclass? c = some s ∧ p.Mentions s name type := by
  rw [List.any_eq_true]
  unfold Program.superclass?
  cases hsuper : c.superclass with
  | none => simp
  | some sup =>
    show (∃ e ∈ p.methodsToImplement sup, _) ↔ ∃ s, p.find? sup = some s ∧ _
    cases hfind : p.find? sup with
    | none =>
      have hnone : p.methodsToImplement sup = [] := by
        rw [Program.methodsToImplement, Program.ancestors_of_not_mem hfind]
        rfl
      simp [hnone]
    | some s =>
      obtain rfl := (Program.mem_of_find? hfind).2
      simp [Program.Mentions]

/-- A class carries a default method when it does not declare it, no superclass declares it for overriding, and no
superclass has to implement it. -/
theorem mem_inheritedDefaults (hacyclic : p.Acyclic) (hc : c ∈ p.classes) :
    e ∈ inheritedDefaults p c ↔
      e ∈ p.methodsToImplement c.name ∧ e.method.hasBody = true ∧
        c.findMethod? e.method.name e.method.type = none ∧
        (∀ s, p.Above c s → ¬DeclaresOverridable s e.method.name e.method.type) ∧
        ∀ s, p.Above c s → ¬p.Mentions s e.method.name e.method.type := by
  have hprovided : (∃ s, p.superclass? c = some s ∧ p.Mentions s e.method.name e.method.type) ↔
      ∃ s, p.Above c s ∧ p.Mentions s e.method.name e.method.type := by
    constructor
    · rintro ⟨s, hs, hmentions⟩
      exact ⟨s, .single hs, hmentions⟩
    · rintro ⟨s, hs, hmentions⟩
      -- only the next class is asked, but it mentions what any class above it does
      obtain ⟨d, hd, hs⟩ := Relation.TransGen.head'_iff.1 hs
      rcases Relation.reflTransGen_iff_eq_or_transGen.1 hs with rfl | hs
      · exact ⟨s, hd, hmentions⟩
      · exact ⟨d, hd, hmentions.of_above (Program.mem_of_superclass? hd) hs⟩
  unfold inheritedDefaults
  rw [List.mem_filter, Bool.and_eq_true, Bool.and_eq_true, Bool.and_eq_true, Bool.not_eq_true', Bool.not_eq_true',
    Option.isNone_iff_eq_none, ← Bool.not_eq_true, ← Bool.not_eq_true, isOverriding_iff hacyclic hc, provided_iff,
    hprovided]
  constructor
  · rintro ⟨hmem, ⟨⟨hbody, hown⟩, hoverriding⟩, hmentioned⟩
    -- an instance method has no special name, so nothing but the superclasses decides whether it overrides
    obtain ⟨-, -, -, hspecial⟩ := Program.of_mem_methodsToImplement hmem
    exact ⟨hmem, hbody, hown, fun s hs hdeclares => hoverriding ⟨hspecial, s, hs, hdeclares⟩,
      fun s hs hmentions => hmentioned ⟨s, hs, hmentions⟩⟩
  · rintro ⟨hmem, hbody, hown, hoverriding, hmentioned⟩
    exact ⟨hmem, ⟨⟨hbody, hown⟩, fun ⟨_, s, hs, hdeclares⟩ => hoverriding s hs hdeclares⟩,
      fun ⟨s, hs, hmentions⟩ => hmentioned s hs hmentions⟩

/-! ### Small programs -/

/-- A class with nothing but its place in the hierarchy and its methods. -/
def bareClass (name : Name) (kind : ClassKind) (superclass : Option Name) (interfaces : List Name)
    (methods : List Method) : ClassModel where
  name := name
  kind := kind
  superclass := superclass
  interfaces := interfaces
  modifiers := kind.modifiers
  markers := {}
  nativeName := none
  sourceFile := none
  annotations := []
  fields := []
  methods := methods

/-- A method without parameters and without a result. -/
def bareMethod (id : Nat) (name : Name) (modifiers : Modifiers) (body : Option Body) : Method where
  id := id
  name := name
  params := []
  ret := .void
  modifiers := modifiers
  annotations := []
  paramAnnotations := []
  defaultValue := none
  body := body

end HaxeBackend.Generation
