import HaxeBackend.Generation.ClassInfo
import HaxeBackend.Target.SourceUnit

/-!
# Units

One unit for each class.  A class that inherits default methods carries copies of those that neither it nor a
superclass provides.  The methods of a unit are generated first, because the literals they pool are declared in
front of them.
-/

namespace HaxeBackend.Generation

/-! ### Shared parts -/

/-- Methods in a row, each at its site. -/
def methods (env : Env) : List (MethodSite × Method) → GenM (List Target.Function)
  | [] => return []
  | (site, m) :: rest => do
    let first ← method env site m
    return first :: (← methods env rest)

/-- The texts that an annotation holds: one text or a list of texts. -/
def textLines? : AnnotationValue → Option (List String)
  | .array items => items.mapM AnnotationValue.text?
  | value => value.text?.map fun text => [text]

/-- The lines that a steering annotation of a class gives; a malformed one is reported and gives none. -/
def markLines (c : ClassModel) (type : Name) : GenM (List String) := do
  match findUse? c.annotations type with
  | none => return []
  | some use =>
    match (use.get? "value").bind textLines? with
    | some lines => return lines
    | none =>
      report (.ignoredMark ⟨c.name, none⟩ type)
      return []

def unitHeader (c : ClassModel) : GenM Target.UnitHeader := do
  let imports ← markLines c Target.importsMark
  let targets ← markLines c Target.availableOnTargetsMark
  let metadata ← markLines c Target.metaMark
  return ⟨Naming.package c.name, imports, targets, metadata⟩

/-- The text of a constant that can stand in a declaration; strings and classes cannot. -/
def constantText? : Literal → Option String
  | .null => some Target.Expr.null.text
  | .bool value => some (Target.Expr.bool value).text
  | .int value => some (Target.Expr.int value).text
  | .long value => some (Target.Expr.long value).text
  | .float bits => some (Target.Expr.single bits).text
  | .double bits => some (Target.Expr.double bits).text
  | .string _ => none
  | .classRef _ => none

/-- A static field starts with its constant where it can, any other field with the zero value of its type. -/
def fieldDecl (p : Program) (c : ClassModel) (f : Field) : Target.FieldDecl where
  keep := (findUse? f.annotations Target.keepMark).isSome
  isStatic := f.isStatic
  name := Naming.field p c.name f.name
  tag := Naming.typeTag p f.type
  value := ((f.constant.filter fun _ => f.isStatic).bind constantText?).getD (Naming.defaultValue f.type)

/-- The text that a static field is set to by the initialization of its class. -/
def stringConstant? (f : Field) : Option Name :=
  match f.constant with
  | some (.string text) => if f.isStatic then some text else none
  | _ => none

/-- Pools the string constants of fields. -/
def poolConstants (p : Program) (c : ClassModel) : List Field → GenM (List (String × Nat))
  | [] => return []
  | f :: rest =>
    match stringConstant? f with
    | none => poolConstants p c rest
    | some text => do
      let unit ← get
      let (index, literals) := unit.literals.intern text
      set { unit with literals := literals }
      return (Naming.field p c.name f.name, index) :: (← poolConstants p c rest)

def statics (p : Program) (c : ClassModel) : GenM Target.Statics := do
  let constants ← poolConstants p c (visibleFields c)
  let unit ← get
  return {
    literalTag := Naming.qualified p stringClass
    literals := unit.literals.texts
    constants := constants
    initializer := (c.methods.find? fun m => m.name == staticInitName).map (Naming.method c.name) }

def requireClasses (p : Program) : List Name → GenM Unit
  | [] => return
  | name :: rest => do
    requireClass p name
    requireClasses p rest

/-! ### Classes -/

/-- The default methods that a class carries itself: those that neither it nor a superclass declares, and that the
superclass does not already have to provide. -/
def inheritedDefaults (p : Program) (c : ClassModel) : List MethodEntry :=
  let provided := (c.superclass.map p.methodsToImplement).getD []
  (p.methodsToImplement c.name).filter fun e =>
    e.method.hasBody &&
      (c.findMethod? e.method.name e.method.type).isNone &&
      !p.isOverriding c.name e.method.name e.method.type &&
      !provided.any fun e' => e'.method.hasSignature e.method.name e.method.type

/-- The methods of a class unit: those declared, then the inherited defaults. -/
def classMethods (p : Program) (c : ClassModel) : List (MethodSite × Method) :=
  c.methods.map (fun m => (⟨c, some c.name, .own, p.isOverriding c.name m.name m.type⟩, m)) ++
    (inheritedDefaults p c).map fun e => (⟨e.owner, some c.name, .own, false⟩, e.method)

def classUnit (env : Env) (c : ClassModel) : GenM Target.ClassUnit := do
  let p := env.program
  requireClasses p c.superclass.toList
  requireClasses p c.interfaces
  let functions ← methods env (classMethods p c)
  let info ← classInfo env c
  let header ← unitHeader c
  let added ← markLines c Target.addMembersMark
  let statics ← statics p c
  return {
    header := header
    name := Naming.simple c.name
    parent := c.superclass.map (Naming.qualified p)
    interfaces := c.interfaces.map (Naming.qualified p)
    added := added
    fields := (visibleFields c).map (fieldDecl p c)
    statics := statics
    functions := functions
    info := info }

/-! ### Interfaces -/

/-- The static methods of an interface. -/
def staticMethods (c : ClassModel) : List (MethodSite × Method) :=
  (c.methods.filter Method.isStatic).map fun m => (⟨c, some c.name, .own, false⟩, m)

def dispatchClass (env : Env) (c : ClassModel) : GenM Target.DispatchClass := do
  match env.program.dispatch c with
  | .adapter => return .adapter (← adapterClass env c)
  | .proxy => return .proxy (proxyClass env.program c)

def interfaceMethod (p : Program) (c : ClassModel) (m : Method) : Target.Signature where
  name := Naming.method c.name m
  params := tagged p (Lowering.paramNames m)
  ret := Naming.typeTag p m.ret

def interfaceUnit (env : Env) (c : ClassModel) : GenM Target.InterfaceUnit := do
  let p := env.program
  requireClasses p c.interfaces
  let functions ← methods env (staticMethods c)
  let dispatch ← dispatchClass env c
  let info ← classInfo env c
  let header ← unitHeader c
  let statics ← statics p c
  return {
    header := header
    name := Naming.simple c.name
    parents := c.interfaces.map (Naming.qualified p)
    methods := (c.methods.filter Program.isInstanceMethod).map (interfaceMethod p c)
    holder := Naming.companionSimple c.name .staticHolder
    fields := (visibleFields c).map (fieldDecl p c)
    statics := statics
    functions := functions
    info := info
    dispatch := dispatch
    annotationImpl := if c.markers.annotationType then some (annotationClass p c) else none
    library := if c.markers.nativeBound then some (libraryClass p c) else none }

def sourceUnit (env : Env) (c : ClassModel) : GenM Target.SourceUnit := do
  if c.isInterface then return .ofInterface (← interfaceUnit env c)
  else return .ofClass (← classUnit env c)

end HaxeBackend.Generation
