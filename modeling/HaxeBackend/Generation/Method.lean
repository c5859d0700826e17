import HaxeBackend.Generation.Basic
import HaxeBackend.Lowering.Body
import HaxeBackend.Target.Function

/-!
# Methods

The body of a method is the text that annotations give for it, or else its lowered statements, or else a fault for
a missing method.  A body that cannot be lowered becomes a fault too, with a warning, unless a reference in it
leads nowhere: then the whole unit fails.
-/

namespace HaxeBackend.Generation

/-! ### Bodies given by annotations -/

/-- A body for a target; an empty target makes it the default. -/
structure GivenBody where
  target : String
  text : String
  deriving DecidableEq, Repr

/-- A text for each target under conditional compilation, or the default alone. -/
def selectByTarget (bodies : List GivenBody) : String :=
  let default := bodies.find? fun b => b.target.isEmpty
  match bodies.filter fun b => !b.target.isEmpty with
  | [] => (default.map GivenBody.text).getD ""
  | first :: rest =>
    let branches := [s!"#if ({first.target})", first.text] ++
      rest.flatMap fun b => [s!"#elseif ({b.target})", b.text]
    let last := match default with
      | some b => ["#else", b.text]
      | none => []
    "\n".intercalate (branches ++ last ++ ["#end"])

/-- The annotations that give bodies, alone or in a list. -/
def bodyUses (m : Method) (at_ : Location) : GenM (List AnnotationUse) := do
  let single := usesOf m.annotations Target.methodBodyMark
  match findUse? m.annotations Target.methodBodyListMark with
  | none => return single
  | some list =>
    match (list.get? "value").bind AnnotationValue.items? with
    | some items => return single ++ items.filterMap AnnotationUse.ofValue?
    | none =>
      report (.ignoredMark at_ Target.methodBodyListMark)
      return single

/-- The bodies given by annotations; one without a text is reported and left out. -/
def givenBodies (at_ : Location) : List AnnotationUse → GenM (List GivenBody)
  | [] => return []
  | use :: rest => do
    match (use.get? "value").bind AnnotationValue.text? with
    | some text =>
      let target := ((use.get? "target").bind AnnotationValue.text?).getD ""
      return ⟨target, text⟩ :: (← givenBodies at_ rest)
    | none =>
      report (.ignoredMark at_ Target.methodBodyMark)
      givenBodies at_ rest

/-- The text given for a body, between the texts for before and after it. -/
def givenText? (m : Method) (at_ : Location) : GenM (Option String) := do
  let bodies ← givenBodies at_ (← bodyUses m at_)
  if bodies.isEmpty then return none
  let before := (markText? m.annotations Target.methodBodyPreMark "value").toList
  let after := (markText? m.annotations Target.methodBodyPostMark "value").toList
  return some ("\n".intercalate (before ++ [selectByTarget bodies] ++ after))

/-! ### Methods -/

/-- Where a method is written. -/
structure MethodSite where
  /-- The class that declares it. -/
  owner : ClassModel
  /-- The class whose statics need no guard. -/
  own : Option Name
  pool : Lowering.PoolAccess
  isOverride : Bool

/-- Names with their target types. -/
def tagged (p : Program) (params : List (String × Ty)) : List (String × String) :=
  params.map fun (name, type) => (name, Naming.typeTag p type)

/-- Constructors return their object. -/
def signatureOf (p : Program) (site : MethodSite) (m : Method) : Target.Signature where
  isOverride := site.isOverride && !m.isConstructor && !m.isStatic
  isStatic := m.isStatic
  name := Naming.method site.owner.name m
  params := tagged p (Lowering.paramNames m)
  ret := if m.isConstructor then Naming.qualified p site.owner.name else Naming.typeTag p m.ret

/-- A method by its name and descriptor. -/
def memberLocation (owner : ClassModel) (m : Method) : Location :=
  ⟨owner.name, some (m.name ++ m.type.descriptor)⟩

/-- The lowered body of a method, or the fault that stands for it. -/
def lowerMethodBody (env : Env) (site : MethodSite) (m : Method) (body : Body) : GenM Target.FunctionBody := do
  let bodySite : Lowering.BodySite := ⟨Lowering.paramNames m, m.isConstructor, site.own, site.pool⟩
  let (result, unit) := Lowering.lowerBody env.program env.options bodySite body (← get)
  set unit
  match result with
  | .ok lowered => return .lowered lowered (m.isConstructor && !body.endsInExit)
  | .error e =>
    if e.isFatal then throw e
    let at_ := memberLocation site.owner m
    report (.erroredMethod at_ e.message)
    return .errored at_.className (at_.member.getD "") e.message

def methodBody (env : Env) (site : MethodSite) (m : Method) : GenM Target.FunctionBody := do
  match ← givenText? m (memberLocation site.owner m), m.body with
  | some text, _ => return .given text
  | none, some body => lowerMethodBody env site m body
  | none, none => return .missing site.owner.name m.id

/-- A method as a function of the unit. -/
def method (env : Env) (site : MethodSite) (m : Method) : GenM Target.Function := do
  return ⟨signatureOf env.program site m, ← methodBody env site m⟩

end HaxeBackend.Generation
