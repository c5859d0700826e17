import HaxeBackend.Generation.Output
import HaxeBackend.Proofs.Generation.Tables
import HaxeBackend.Proofs.Run

/-!
# Generation with a shared table

The classes of a program share the table in which its names have numbers.  Generation looks texts up in it, which finds
what the table shows of the program, and it extends the table: a proxy interns the names of the root class and of the
class of methods, the implementation of an annotation type that of the class of classes.  So each class leaves a table
to the next one that may have more texts.

What is generated for a class does not depend on those texts (`generateClass_order_free`).  Each step, taken from a
table that has the names of the program, does what the step without a table does and only extends the table
(`Simulates`); the numbers that were given out before keep their texts.
-/

namespace HaxeBackend.Generation

namespace Shared

/-! ### Steps -/

/-- A step of generation that may extend the table. -/
abbrev TableM := ExceptT GenError (StateM (UnitState × Interner))

/-- A step that leaves the table as it is. -/
def reading {α : Type} (x : Interner → GenM α) : TableM α :=
  ExceptT.mk fun st =>
    let (result, unit) := (x st.2).run.run st.1
    (result, unit, st.2)

/-- The number of a text, which it gets now if it has none. -/
def intern (text : Name) : TableM Nat :=
  ExceptT.mk fun st =>
    let (n, table) := st.2.intern text
    (.ok n, st.1, table)

/-- What the table shows of the program. -/
def shown (env : Env) (t : Interner) : Env := { env with program := t.through env.program }

/-! ### Companions -/

/-- The type of the method that handlers have, when the root class and the class of methods have these names. -/
def handlerType (object method : Name) : MethodTy := ⟨[.ref object, .ref method, .array (.ref object) 1], .ref object⟩

def proxyClass (env : Env) (c : ClassModel) : TableM Target.ProxyClass := do
  let classTag ← reading fun t => return Naming.qualified (t.through env.program) Target.classClass
  let handlerTag ← reading fun t => return Naming.qualified (t.through env.program) Target.handlerClass
  let object ← intern objectClass
  let method ← intern Target.methodClass
  reading fun t => return {
    Generation.proxyClass (t.through env.program) (t.throughClass c) with
    classTag := classTag
    handlerTag := handlerTag
    invoke := Naming.virtualMethod "invoke" (handlerType (t.lookup object) (t.lookup method)) }

def annotationClass (env : Env) (c : ClassModel) : TableM Target.AnnotationClass := do
  let header ← reading fun t =>
    return companionHeader (t.through env.program) (t.throughClass c) .annotationImpl Target.annotationBase
  let type ← intern Target.classClass
  reading fun t => return {
    Generation.annotationClass (t.through env.program) (t.throughClass c) with
    header := header
    typeMethod := Naming.virtualMethod "annotationType" ⟨[], .ref (t.lookup type)⟩ }

def dispatchClass (env : Env) (c : ClassModel) : TableM Target.DispatchClass := do
  match ← reading fun t => return (t.through env.program).dispatch (t.throughClass c) with
  | .adapter => return .adapter (← reading fun t => adapterClass (shown env t) (t.throughClass c))
  | .proxy => return .proxy (← proxyClass env c)

def annotationImpl (env : Env) (c : ClassModel) : TableM (Option Target.AnnotationClass) := do
  if c.markers.annotationType then return some (← annotationClass env c) else return none

/-! ### Units -/

/-- The static methods of an interface, once all that it extends is there. -/
def interfaceFunctions (env : Env) (c : ClassModel) : GenM (List Target.Function) := do
  requireClasses env.program c.interfaces
  methods env (staticMethods c)

/-- The unit of an interface, from its static methods and companions. -/
def assembleInterface (env : Env) (c : ClassModel) (functions : List Target.Function) (dispatch : Target.DispatchClass)
    (impl : Option Target.AnnotationClass) : GenM Target.InterfaceUnit := do
  let p := env.program
  let info ← classInfo env c
  let header ← unitHeader c
  let statics ← statics p c
  return {
    header := header
    name := Naming.simple c.name
    parents := c.interfaces.map (Naming.qualified p)
    methods := (c.methods.filter Program.isInstanceMethod).map (interfaceMethod p c)
    holder := Naming.companionSimple c.name .staticHolder
    fields := (visibleFields c).map (fieldDecl p c)
    statics := statics
    functions := functions
    info := info
    dispatch := dispatch
    annotationImpl := impl
    library := if c.markers.nativeBound then some (libraryClass p c) else none }

def interfaceUnit (env : Env) (c : ClassModel) : TableM Target.InterfaceUnit := do
  let functions ← reading fun t => interfaceFunctions (shown env t) (t.throughClass c)
  let dispatch ← dispatchClass env c
  let impl ← annotationImpl env c
  reading fun t => assembleInterface (shown env t) (t.throughClass c) functions dispatch impl

def sourceUnit (env : Env) (c : ClassModel) : TableM Target.SourceUnit := do
  if c.isInterface then return .ofInterface (← interfaceUnit env c)
  else return .ofClass (← reading fun t => classUnit (shown env t) (t.throughClass c))

/-! ### Runs -/

/-- The output of a class from what the generation of its unit ends with. -/
def classOutput (env : Env) (c : ClassModel) (result : Except GenError Target.SourceUnit) (last : UnitState) :
    ClassOutput :=
  let dependencies := last.refs.order.filter fun name => name != c.name
  match result with
  | .ok unit =>
    { className := c.name
      unit := some (generatedUnit env c unit)
      dependencies := dependencies
      diagnostics := last.diagnostics }
  | .error e =>
    { className := c.name
      dependencies := dependencies
      diagnostics := last.diagnostics ++ [e.diagnostic ⟨c.name, none⟩] }

/-- Everything generated for one class, and the table that is left to the next one. -/
def generateClass (env : Env) (c : ClassModel) (t : Interner) : ClassOutput × Interner :=
  if c.isNative then ({ className := c.name }, t)
  else
    let (result, unit, table) := (sourceUnit env c).run.run ({}, t)
    (classOutput env c result unit, table)

/-- Classes one after the other. -/
def generateClasses (env : Env) : List ClassModel → Interner → List ClassOutput × Interner
  | [], t => ([], t)
  | c :: rest, t =>
    let (first, middle) := generateClass env c t
    let (others, last) := generateClasses env rest middle
    (first :: others, last)

/-! ### Steps with and without the table -/

/-- From a table of which the condition holds, the step does what the other one does and only extends the table. -/
def Simulates {α : Type} (P : Interner → Prop) (x : TableM α) (y : GenM α) : Prop :=
  ∀ unit t, P t → ∃ t' : Interner, t.Extends t' ∧
    x.run.run (unit, t) = ((y.run.run unit).1, (y.run.run unit).2, t')

/-- A condition that a larger table does not break. -/
def Lasts (P : Interner → Prop) : Prop := ∀ ⦃t t' : Interner⦄, t.Extends t' → P t → P t'

variable {α β : Type} {P : Interner → Prop} {x : TableM α} {y : GenM α}

theorem simulates_reading {x : Interner → GenM α} (h : ∀ t, P t → x t = y) : Simulates P (reading x) y := by
  intro unit t ht
  refine ⟨t, .refl t, ?_⟩
  show (((x t).run.run unit).1, ((x t).run.run unit).2, t) = _
  rw [h t ht]

theorem simulates_pure (a : α) : Simulates P (pure a) (pure a) := fun _ t _ => ⟨t, .refl t, rfl⟩

theorem Simulates.bind {f : α → TableM β} {g : α → GenM β} (hP : Lasts P) (hx : Simulates P x y)
    (hf : ∀ a, Simulates P (f a) (g a)) : Simulates P (x >>= f) (y >>= g) := by
  intro unit t ht
  obtain ⟨middle, hmiddle, hrun⟩ := hx unit t ht
  rw [run_bind, run_bind, hrun]
  cases hy : y.run.run unit with
  | mk result unit' =>
    cases result with
    | error e => exact ⟨middle, hmiddle, rfl⟩
    | ok a =>
      obtain ⟨last, hlast, hrest⟩ := hf a unit' middle (hP hmiddle ht)
      exact ⟨last, hmiddle.trans hlast, hrest⟩

/-- A step that is done without a table in no step at all. -/
theorem Simulates.bind_pure {a : α} {f : α → TableM β} {y : GenM β} (hP : Lasts P) (hx : Simulates P x (pure a))
    (hf : Simulates P (f a) y) : Simulates P (x >>= f) y := by
  intro unit t ht
  obtain ⟨middle, hmiddle, hrun⟩ := hx unit t ht
  obtain ⟨last, hlast, hrest⟩ := hf unit middle (hP hmiddle ht)
  rw [run_bind, hrun]
  exact ⟨last, hmiddle.trans hlast, hrest⟩

/-- The number that a text gets stays the number of the text. -/
theorem simulates_intern_bind {text : Name} {f : Nat → TableM α} (hP : Lasts P)
    (hf : ∀ n, Simulates (fun t => P t ∧ t.get? text = some n) (f n) y) : Simulates P (intern text >>= f) y := by
  intro unit t ht
  have hextends : t.Extends (t.intern text).2 := t.extends_intern text
  obtain ⟨last, hlast, hrest⟩ := hf (t.intern text).1 unit (t.intern text).2 ⟨hP hextends ht, t.get?_intern text⟩
  refine ⟨last, hextends.trans hlast, ?_⟩
  rw [run_bind, ← hrest]
  rfl

/-! ### The steps of generation -/

private theorem lasts_holds {names : List Name} : Lasts fun t => t.Holds names := fun _ _ hextends h =>
  h.of_extends hextends

private theorem Lasts.and_number {text : Name} {n : Nat} (hP : Lasts P) :
    Lasts fun t => P t ∧ t.get? text = some n := fun _ _ hextends h => ⟨hP hextends h.1, hextends.get?_eq h.2⟩

section Class

variable {env : Env} {c : ClassModel}

private theorem shown_eq {t : Interner} (h : t.Holds env.program.keys) : shown env t = env := by
  rw [shown, Interner.through_eq h]

/-- What the table shows of a program and of one of its classes. -/
private theorem shows_class (hc : c ∈ env.program.classes) {t : Interner} (h : t.Holds env.program.keys) :
    t.through env.program = env.program ∧ t.throughClass c = c :=
  ⟨Interner.through_eq h, Interner.throughClass_eq (h.of_flatMap hc)⟩

theorem simulates_proxyClass (hc : c ∈ env.program.classes) :
    Simulates (fun t => t.Holds env.program.keys) (proxyClass env c)
      (pure (Generation.proxyClass env.program c)) := by
  refine .bind_pure lasts_holds (simulates_reading fun t h => by rw [Interner.through_eq h]) ?_
  refine .bind_pure lasts_holds (simulates_reading fun t h => by rw [Interner.through_eq h]) ?_
  refine simulates_intern_bind lasts_holds fun object => ?_
  refine simulates_intern_bind lasts_holds.and_number fun method => ?_
  refine simulates_reading fun t ⟨⟨h, hobject⟩, hmethod⟩ => ?_
  obtain ⟨hprogram, hclass⟩ := shows_class hc h
  rw [hprogram, hclass, Interner.lookup_of_get? hobject, Interner.lookup_of_get? hmethod]
  rfl

theorem simulates_annotationClass (hc : c ∈ env.program.classes) :
    Simulates (fun t => t.Holds env.program.keys) (annotationClass env c)
      (pure (Generation.annotationClass env.program c)) := by
  refine .bind_pure (a := companionHeader env.program c .annotationImpl Target.annotationBase) lasts_holds
    (simulates_reading fun t h => ?_) ?_
  · obtain ⟨hprogram, hclass⟩ := shows_class hc h
    rw [hprogram, hclass]
  · refine simulates_intern_bind lasts_holds fun type => simulates_reading fun t ⟨h, htype⟩ => ?_
    obtain ⟨hprogram, hclass⟩ := shows_class hc h
    rw [hprogram, hclass, Interner.lookup_of_get? htype]
    rfl

/-- A step that only reads does what it does on the program and the class themselves. -/
private theorem simulates_reading_class (hc : c ∈ env.program.classes) (f : Env → ClassModel → GenM α) :
    Simulates (fun t => t.Holds env.program.keys) (reading fun t => f (shown env t) (t.throughClass c)) (f env c) :=
  simulates_reading fun t h => by rw [shown_eq h, (shows_class hc h).2]

theorem simulates_dispatchClass (hc : c ∈ env.program.classes) :
    Simulates (fun t => t.Holds env.program.keys) (dispatchClass env c) (Generation.dispatchClass env c) := by
  refine .bind_pure lasts_holds (simulates_reading_class hc fun env c => pure (env.program.dispatch c)) ?_
  unfold Generation.dispatchClass
  cases env.program.dispatch c with
  | adapter =>
    exact (simulates_reading_class hc adapterClass).bind lasts_holds fun adapter => simulates_pure _
  | proxy => exact .bind_pure lasts_holds (simulates_proxyClass hc) (simulates_pure _)

theorem simulates_annotationImpl (hc : c ∈ env.program.classes) :
    Simulates (fun t => t.Holds env.program.keys) (annotationImpl env c)
      (pure (if c.markers.annotationType then some (Generation.annotationClass env.program c) else none)) := by
  unfold annotationImpl
  split
  · exact .bind_pure lasts_holds (simulates_annotationClass hc) (simulates_pure _)
  · exact simulates_pure _

private theorem interfaceUnit_eq (env : Env) (c : ClassModel) : Generation.interfaceUnit env c =
    interfaceFunctions env c >>= fun functions => Generation.dispatchClass env c >>= fun dispatch =>
      assembleInterface env c functions dispatch
        (if c.markers.annotationType then some (Generation.annotationClass env.program c) else none) := by
  simp only [Generation.interfaceUnit, interfaceFunctions, bind_assoc]
  rfl

theorem simulates_interfaceUnit (hc : c ∈ env.program.classes) :
    Simulates (fun t => t.Holds env.program.keys) (interfaceUnit env c) (Generation.interfaceUnit env c) := by
  rw [interfaceUnit_eq]
  refine (simulates_reading_class hc interfaceFunctions).bind lasts_holds fun functions => ?_
  refine (simulates_dispatchClass hc).bind lasts_holds fun dispatch => ?_
  refine .bind_pure lasts_holds (simulates_annotationImpl hc) ?_
  exact simulates_reading_class hc fun env c => assembleInterface env c functions dispatch _

theorem simulates_sourceUnit (hc : c ∈ env.program.classes) :
    Simulates (fun t => t.Holds env.program.keys) (sourceUnit env c) (Generation.sourceUnit env c) := by
  unfold sourceUnit Generation.sourceUnit
  split
  · exact (simulates_interfaceUnit hc).bind lasts_holds fun unit => simulates_pure _
  · exact (simulates_reading_class hc classUnit).bind lasts_holds fun unit => simulates_pure _

private theorem generateClass_eq (env : Env) (c : ClassModel) : Generation.generateClass env c =
    if c.isNative then { className := c.name }
    else
      let (result, last) := (Generation.sourceUnit env c).run.run {}
      classOutput env c result last := by
  unfold Generation.generateClass classOutput
  split
  · rfl
  · rfl

/-- One class: its output is as without a table, and the table only grows. -/
theorem generateClass_run (hc : c ∈ env.program.classes) {t : Interner} (h : t.Holds env.program.keys) :
    (generateClass env c t).1 = Generation.generateClass env c ∧ t.Extends (generateClass env c t).2 := by
  rw [generateClass_eq]
  unfold generateClass
  split
  · exact ⟨rfl, .refl t⟩
  · obtain ⟨t', hextends, hrun⟩ := simulates_sourceUnit hc {} t h
    rw [hrun]
    exact ⟨rfl, hextends⟩

/-- Any classes in any order. -/
theorem generateClasses_run {order : List ClassModel} (horder : ∀ c ∈ order, c ∈ env.program.classes) {t : Interner}
    (h : t.Holds env.program.keys) :
    (generateClasses env order t).1 = order.map (Generation.generateClass env) ∧
      t.Extends (generateClasses env order t).2 := by
  induction order generalizing t with
  | nil => exact ⟨rfl, .refl t⟩
  | cons c rest ih =>
    obtain ⟨hc, hrest⟩ := List.forall_mem_cons.1 horder
    obtain ⟨hfirst, hmiddle⟩ := generateClass_run hc h
    obtain ⟨hothers, hlast⟩ := ih hrest (h.of_extends hmiddle)
    exact ⟨congr (congrArg List.cons hfirst) hothers, hmiddle.trans hlast⟩

end Class

end Shared

/-- The output of a class does not depend on what is generated before it: from every extension of a table that has the
names of the program, and so after any classes in any order, it is what generation without a table gives.  Generation
only extends the table, and names keep their numbers. -/
theorem generateClass_order_free {env : Env} {t : Interner} (h : t.Holds env.program.keys) :
    (∀ c ∈ env.program.classes, ∀ t', t.Extends t' →
      (Shared.generateClass env c t').1 = generateClass env c ∧ t'.Extends (Shared.generateClass env c t').2) ∧
    (∀ before, (∀ c ∈ before, c ∈ env.program.classes) →
      (Shared.generateClasses env before t).1 = before.map (generateClass env) ∧
      t.Extends (Shared.generateClasses env before t).2 ∧
      ∀ c ∈ env.program.classes,
        (Shared.generateClass env c (Shared.generateClasses env before t).2).1 = (Shared.generateClass env c t).1) ∧
    ∀ t', t.Extends t' → ∀ name n, t.get? name = some n → t'.get? name = some n ∧ t'.lookup n = name := by
  refine ⟨fun c hc t' hextends => Shared.generateClass_run hc (h.of_extends hextends), fun before hbefore => ?_,
    fun t' hextends name n hn => ?_⟩
  · obtain ⟨houtputs, hextends⟩ := Shared.generateClasses_run hbefore h
    refine ⟨houtputs, hextends, fun c hc => ?_⟩
    rw [(Shared.generateClass_run hc (h.of_extends hextends)).1, (Shared.generateClass_run hc h).1]
  · have hlater := hextends.get?_eq hn
    exact ⟨hlater, Interner.lookup_of_get? hlater⟩

/-- An annotation type, whose implementation interns the name of the class of classes. -/
private def markClass : ClassModel where
  name := "app.Mark"
  kind := .interface
  superclass := none
  interfaces := []
  modifiers := ClassKind.interface.modifiers
  markers := { annotationType := true }
  nativeName := none
  sourceFile := none
  annotations := []
  fields := []
  methods := []

private def jobClass : ClassModel where
  name := "app.Job"
  kind := .plain
  superclass := none
  interfaces := []
  modifiers := ClassKind.plain.modifiers
  markers := {}
  nativeName := none
  sourceFile := none
  annotations := [⟨Target.metaMark, [("value", .string "@:final")], true⟩]
  fields := []
  methods := []

private def jobEnv : Env where
  program := ⟨[markClass, jobClass], by decide⟩

private def jobTable : Interner :=
  ["app.Mark", "app.Job", Target.metaMark, "value"].foldl (fun t name => (t.intern name).2) {}

/-- After the annotation type the table is larger, and the other class comes out as it does alone. -/
theorem generateClass_order_free_job :
    jobTable.Holds jobEnv.program.keys ∧ jobTable.get? Target.classClass = none ∧
    ((Shared.generateClass jobEnv markClass jobTable).2.get? Target.classClass).isSome ∧
    (Shared.generateClass jobEnv jobClass (Shared.generateClasses jobEnv [markClass] jobTable).2).1 =
      (Shared.generateClass jobEnv jobClass jobTable).1 := by
  have hholds : jobTable.Holds jobEnv.program.keys := by decide
  refine ⟨hholds, by decide, by decide, ?_⟩
  exact ((generateClass_order_free hholds).2.1 [markClass] (by simp [jobEnv])).2.2 jobClass (by simp [jobEnv])

end HaxeBackend.Generation
