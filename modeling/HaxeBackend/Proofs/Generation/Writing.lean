import HaxeBackend.Proofs.Generation.Functions
import HaxeBackend.Proofs.Lowering.Writing

/-!
# Units that are written as they are generated

The methods of a unit are written one after another while they are generated, each body on a writer of its own, and the
declarations around them when no method has failed (`writeUnit`).  A body that fails leaves its writer with open blocks,
and so does a method whose failure is fatal, but no writer ever leaves an indentation that it did not enter, and the
writer of a finished unit has left all of them (`blocks_balanced`).
-/

namespace HaxeBackend.Generation

open Target (Step Level IsPaired nestAll? Writer)
open WriteM (put lift aside attempt)

/-! ### Methods -/

/-- Writes code that is known. -/
def write {α : Type} (code : α → Target.Code) (a : α) : WriteM UnitState α := do
  put (code a).steps
  return a

/-- Lowers the body of a method and writes it, or the fault that stands for it. -/
def writeMethodBody (env : Env) (site : MethodSite) (m : Method) (body : Body) :
    WriteM UnitState Target.FunctionBody := do
  let bodySite : Lowering.BodySite := ⟨Lowering.paramNames m, m.isConstructor, site.own, site.pool⟩
  match ← attempt (aside (Lowering.writeBody env.program env.options bodySite body)) with
  | .ok (lowered, steps) =>
    put [.append steps]
    let returnsThis := m.isConstructor && !body.endsInExit
    put (if returnsThis then Target.Code.line "return this;" else .empty).steps
    return .lowered lowered returnsThis
  | .error e =>
    if e.isFatal then throw e
    let at_ := memberLocation site.owner m
    lift (report (.erroredMethod at_ e.message))
    write Target.FunctionBody.code (.errored at_.className (at_.member.getD "") e.message)

def writeFunctionBody (env : Env) (site : MethodSite) (m : Method) : WriteM UnitState Target.FunctionBody := do
  match ← lift (givenText? m (memberLocation site.owner m)), m.body with
  | some text, _ => write Target.FunctionBody.code (.given text)
  | none, some body => writeMethodBody env site m body
  | none, none => write Target.FunctionBody.code (.missing site.owner.name m.id)

/-- Generates a method and writes it. -/
def writeMethod (env : Env) (site : MethodSite) (m : Method) : WriteM UnitState Target.Function := do
  let signature := signatureOf env.program site m
  put [.openBlock signature.text]
  let body ← writeFunctionBody env site m
  put [.closeBlock]
  return ⟨signature, body⟩

def writeMethods (env : Env) : List (MethodSite × Method) → WriteM UnitState (List Target.Function)
  | [] => return []
  | (site, m) :: rest => do
    let first ← writeMethod env site m
    return first :: (← writeMethods env rest)

variable {env : Env} {levels : List Level}

private theorem writes_write {α : Type} {code : α → Target.Code} {a : α} :
    Writes code levels (pure a : GenM α) (write code a) :=
  .code_bind (streams_pure (List.append_nil _))

/-- The body of a method goes on with the outcome of its lowering. -/
private theorem lowerMethodBody_eq (site : MethodSite) (m : Method) (body : Body) :
    lowerMethodBody env site m body =
      (outcome (Lowering.bodyStep env.program env.options
        ⟨Lowering.paramNames m, m.isConstructor, site.own, site.pool⟩ body) >>= fun result =>
        match result with
        | .ok lowered => pure (.lowered lowered (m.isConstructor && !body.endsInExit))
        | .error e => do
          if e.isFatal then throw e
          report (.erroredMethod (memberLocation site.owner m) e.message)
          pure (.errored site.owner.name (m.name ++ m.type.descriptor) e.message)) := rfl

private theorem writes_writeMethodBody (site : MethodSite) (m : Method) (body : Body) :
    Writes Target.FunctionBody.code levels (lowerMethodBody env site m body) (writeMethodBody env site m body) := by
  rw [lowerMethodBody_eq, writeMethodBody]
  refine (Lowering.writes_writeBody _ _ _ _ _).attempt_bind ?_ ?_
  · intro b
    exact .put_bind (Target.nestAll?_steps (.nested b.code) levels) <| .code_bind <|
      streams_pure (by rw [List.append_nil]; rfl)
  · intro e
    dsimp only
    split
    · exact streams_throw_bind
    · exact .lift_bind fun _ => writes_write

private theorem writes_writeFunctionBody (site : MethodSite) (m : Method) :
    Writes Target.FunctionBody.code levels (methodBody env site m) (writeFunctionBody env site m) := by
  refine .lift_bind fun given => ?_
  cases given with
  | some text => exact writes_write
  | none =>
    cases m.body with
    | some body => exact writes_writeMethodBody site m body
    | none => exact writes_write

private theorem writes_writeMethod (site : MethodSite) (m : Method) :
    Writes Target.Function.code levels (method env site m) (writeMethod env site m) :=
  .put_bind rfl <| (writes_writeFunctionBody site m).bind fun _ => .put_bind rfl <| streams_pure rfl

theorem writes_writeMethods (list : List (MethodSite × Method)) :
    Writes (fun functions => .ofList (functions.map Target.Function.code)) levels (methods env list)
      (writeMethods env list) := by
  induction list with
  | nil => exact streams_pure rfl
  | cons x rest ih =>
    rw [methods, writeMethods]
    exact (writes_writeMethod _ _).bind fun first => ih.bind fun functions =>
      streams_pure (by rw [List.append_nil]; rfl)

/-! ### Companions -/

def writeAdapterMethod (env : Env) (c : ClassModel) (entry : MethodEntry) : WriteM UnitState Target.AdapterMethod := do
  let isOverride := env.program.rootDeclares entry.method
  if entry.method.hasBody then
    return .copied (← writeMethod env ⟨entry.owner, none, .through c.name, isOverride⟩ entry.method)
  else
    let signature := forwardSignature env.program entry isOverride
    write Target.AdapterMethod.code (.forward signature (!entry.method.ret.isVoid))

def writeAdapterMethods (env : Env) (c : ClassModel) : List MethodEntry → WriteM UnitState (List Target.AdapterMethod)
  | [] => return []
  | entry :: rest => do
    let first ← writeAdapterMethod env c entry
    return first :: (← writeAdapterMethods env c rest)

/-- The members that every adapter has. -/
def adapterFront (type : String) : Target.Code :=
  .line s!"private var __func:{type};" ++
    .block s!"public function new(func:{type})" (.lines ["super();", "this.__func = func;"])

def writeAdapter (env : Env) (c : ClassModel) : WriteM UnitState Target.AdapterClass := do
  let p := env.program
  let header := companionHeader p c .adapter (Naming.qualified p objectClass)
  let entries := p.methodsToImplement c.name
  put [.openBlock header.text]
  match entries.find? fun entry => !entry.method.hasBody with
  | none =>
    put [.closeBlock]
    return ⟨header, none⟩
  | some entry =>
    put (adapterFront (Naming.functionType p entry.method.type)).steps
    let methods ← writeAdapterMethods env c entries
    put [.closeBlock]
    return ⟨header, some (Naming.functionType p entry.method.type, methods)⟩

def writeDispatch (env : Env) (c : ClassModel) : WriteM UnitState Target.DispatchClass := do
  match env.program.dispatch c with
  | .adapter => return .adapter (← writeAdapter env c)
  | .proxy => write Target.DispatchClass.code (.proxy (proxyClass env.program c))

private theorem writes_writeAdapterMethod (c : ClassModel) (entry : MethodEntry) :
    Writes Target.AdapterMethod.code levels (adapterMethod env c entry) (writeAdapterMethod env c entry) := by
  unfold adapterMethod writeAdapterMethod
  dsimp only
  split
  · exact (writes_writeMethod _ _).bind fun f => streams_pure (List.append_nil _)
  · exact writes_write

private theorem writes_writeAdapterMethods (c : ClassModel) (entries : List MethodEntry) :
    Writes (fun methods => .ofList (methods.map Target.AdapterMethod.code)) levels (adapterMethods env c entries)
      (writeAdapterMethods env c entries) := by
  induction entries with
  | nil => exact streams_pure rfl
  | cons entry rest ih =>
    rw [adapterMethods, writeAdapterMethods]
    exact (writes_writeAdapterMethod c entry).bind fun first => ih.bind fun methods =>
      streams_pure (by rw [List.append_nil]; rfl)

private theorem writes_writeAdapter (c : ClassModel) :
    Writes Target.AdapterClass.code levels (adapterClass env c) (writeAdapter env c) := by
  unfold adapterClass writeAdapter
  dsimp only
  refine .put_bind rfl ?_
  cases (env.program.methodsToImplement c.name).find? fun entry => !entry.method.hasBody with
  | none => exact .put_bind rfl (streams_pure rfl)
  | some entry =>
    exact .code_bind <| (writes_writeAdapterMethods c _).bind fun methods => .put_bind rfl <|
      streams_pure (by simp [Target.AdapterClass.code, Target.Code.steps, adapterFront])

theorem writes_writeDispatch (c : ClassModel) :
    Writes Target.DispatchClass.code levels (dispatchClass env c) (writeDispatch env c) := by
  unfold dispatchClass writeDispatch
  cases env.program.dispatch c with
  | adapter => exact (writes_writeAdapter c).bind fun adapter => streams_pure (List.append_nil _)
  | proxy => exact writes_write

/-! ### Units -/

/-- Generates the registration of a class on a writer of its own, and gives the steps that take it over. -/
def writeInfo (env : Env) (c : ClassModel) : WriteM UnitState (Option Target.ClassInfo × List Step) := do
  match ← lift (classInfo env c) with
  | none => return (none, [])
  | some info =>
    let (info, steps) ← aside (write Target.ClassInfo.code info)
    return (some info, [.append steps])

/-- The members of a class in front of its functions. -/
def membersCode (u : Target.ClassUnit) : Target.Code :=
  .lines u.added ++ .lines (u.fields.map Target.FieldDecl.text) ++ u.statics.code ++
    .block "public function new()"
      ((if u.parent.isSome then .line "super();" else .empty) ++ .line s!"{Target.initRoutine}();")

def writeClassUnit (env : Env) (c : ClassModel) : WriteM UnitState Target.ClassUnit := do
  let p := env.program
  lift (requireClasses p c.superclass.toList)
  lift (requireClasses p c.interfaces)
  let (functions, methods) ← aside (writeMethods env (classMethods p c))
  let (info, registration) ← writeInfo env c
  let header ← lift (unitHeader c)
  let added ← lift (markLines c Target.addMembersMark)
  let statics ← lift (statics p c)
  let unit : Target.ClassUnit := {
    header := header
    name := Naming.simple c.name
    parent := c.superclass.map (Naming.qualified p)
    interfaces := c.interfaces.map (Naming.qualified p)
    added := added
    fields := (visibleFields c).map (fieldDecl p c)
    statics := statics
    functions := functions
    info := info }
  put header.code.steps
  put [.openBlock unit.declaration]
  put (membersCode unit).steps
  put [.append methods]
  put registration
  put [.closeBlock]
  put header.ending.steps
  return unit

private theorem streams_writeInfo_bind {β : Type} {R : β → List Step → Prop} {c : ClassModel}
    {g : Option Target.ClassInfo → GenM β} {f : Option Target.ClassInfo × List Step → WriteM UnitState β}
    (hf : ∀ info, Streams R levels (g info) (f (info, (Target.infoCode info).steps))) :
    Streams R levels (classInfo env c >>= g) (writeInfo env c >>= f) := by
  rw [writeInfo, bind_assoc]
  refine .lift_bind fun info => ?_
  cases info with
  | none => exact hf none
  | some info =>
    have haside : Streams R levels (pure info >>= fun info => g (some info))
        (aside (write Target.ClassInfo.code info) >>= fun p => f (some p.1, [.append p.2])) :=
      writes_write.aside_bind fun info => hf (some info)
    rwa [pure_bind] at haside

private theorem writes_writeClassUnit (c : ClassModel) :
    Writes Target.ClassUnit.code levels (classUnit env c) (writeClassUnit env c) := by
  refine .lift_bind fun _ => .lift_bind fun _ => (writes_writeMethods _).aside_bind fun functions =>
    streams_writeInfo_bind fun info => .lift_bind fun header => .lift_bind fun added => .lift_bind fun statics => ?_
  refine .code_bind <| .put_bind rfl <| .code_bind <|
    .put_bind (Target.nestAll?_steps (Target.functionsCode functions) _) <| .code_bind <| .put_bind rfl <| .code_bind <|
    streams_pure ?_
  simp [Target.ClassUnit.code, Target.functionsCode, membersCode, Target.Code.steps]

/-- The companions that some interfaces have, each behind an empty line. -/
def extrasCode (p : Program) (c : ClassModel) : Target.Code :=
  (if c.markers.annotationType then .blank ++ (annotationClass p c).code else .empty) ++
    if c.markers.nativeBound then .blank ++ (libraryClass p c).code else .empty

/-- Writes the companions of an interface, of which only those with copied methods can fail. -/
def writeCompanions (env : Env) (c : ClassModel) : WriteM UnitState Target.DispatchClass := do
  let dispatch ← writeDispatch env c
  put (extrasCode env.program c).steps
  return dispatch

def writeInterfaceUnit (env : Env) (c : ClassModel) : WriteM UnitState Target.InterfaceUnit := do
  let p := env.program
  lift (requireClasses p c.interfaces)
  let (functions, methods) ← aside (writeMethods env (staticMethods c))
  let (dispatch, companions) ← aside (writeCompanions env c)
  let (info, registration) ← writeInfo env c
  let header ← lift (unitHeader c)
  let statics ← lift (statics p c)
  let unit : Target.InterfaceUnit := {
    header := header
    name := Naming.simple c.name
    parents := c.interfaces.map (Naming.qualified p)
    methods := (c.methods.filter Program.isInstanceMethod).map (interfaceMethod p c)
    holder := Naming.companionSimple c.name .staticHolder
    fields := (visibleFields c).map (fieldDecl p c)
    statics := statics
    functions := functions
    info := info
    dispatch := dispatch
    annotationImpl := if c.markers.annotationType then some (annotationClass p c) else none
    library := if c.markers.nativeBound then some (libraryClass p c) else none }
  put header.code.steps
  put (Target.Code.block unit.declaration (.lines (unit.methods.map Target.InterfaceUnit.methodText)) ++ .blank).steps
  put [.openBlock s!"class {unit.holder}"]
  put (.lines (unit.fields.map Target.FieldDecl.text) ++ statics.code : Target.Code).steps
  put [.append methods]
  put registration
  put [.closeBlock, .blank]
  put [.append companions]
  put header.ending.steps
  return unit

/-- Generates a unit and writes it. -/
def writeUnit (env : Env) (c : ClassModel) : WriteM UnitState Target.SourceUnit := do
  if c.isInterface then return .ofInterface (← writeInterfaceUnit env c)
  else return .ofClass (← writeClassUnit env c)

private theorem writes_writeCompanions (c : ClassModel) :
    Writes (fun dispatch => dispatch.code ++ extrasCode env.program c) levels (dispatchClass env c)
      (writeCompanions env c) := by
  have hbind : Writes (fun dispatch => dispatch.code ++ extrasCode env.program c) levels (dispatchClass env c >>= pure)
      (writeCompanions env c) :=
    (writes_writeDispatch c).bind fun dispatch => .code_bind (streams_pure (by simp))
  rwa [bind_pure] at hbind

/-- What is written beside an interface are its companions. -/
private theorem steps_companionsCode {c : ClassModel} {u : Target.InterfaceUnit}
    (hvalues : u.annotationImpl = if c.markers.annotationType then some (annotationClass env.program c) else none)
    (hlibrary : u.library = if c.markers.nativeBound then some (libraryClass env.program c) else none) :
    u.companionsCode.steps = u.dispatch.code.steps ++ (extrasCode env.program c).steps := by
  unfold Target.InterfaceUnit.companionsCode extrasCode
  rw [hvalues, hlibrary]
  cases c.markers.annotationType <;> cases c.markers.nativeBound <;> simp

private theorem writes_writeInterfaceUnit (c : ClassModel) :
    Writes Target.InterfaceUnit.code levels (interfaceUnit env c) (writeInterfaceUnit env c) := by
  refine .lift_bind fun _ => (writes_writeMethods _).aside_bind fun functions =>
    (writes_writeCompanions c).aside_bind fun dispatch => streams_writeInfo_bind fun info => .lift_bind fun header =>
    .lift_bind fun statics => ?_
  refine .code_bind <| .code_bind <| .put_bind rfl <| .code_bind <|
    .put_bind (Target.nestAll?_steps (Target.functionsCode functions) _) <| .code_bind <| .put_bind rfl <|
    .put_bind (Target.nestAll?_steps (.nested (dispatch.code ++ extrasCode env.program c)) _) <| .code_bind <|
    streams_pure ?_
  simp only [Target.InterfaceUnit.code, Target.functionsCode, Target.Code.steps, Target.Code.steps_append,
    List.append_assoc, List.cons_append, List.nil_append, List.append_nil]
  rw [steps_companionsCode rfl rfl]

/-- A unit that is generated has written its code; one that fails has left only what it entered. -/
theorem writes_writeUnit (c : ClassModel) (levels : List Level) :
    Writes Target.SourceUnit.code levels (sourceUnit env c) (writeUnit env c) := by
  unfold sourceUnit writeUnit
  split
  · exact (writes_writeInterfaceUnit c).bind fun unit => streams_pure (List.append_nil _)
  · exact (writes_writeClassUnit c).bind fun unit => streams_pure (List.append_nil _)

/-! ### Writers of a run -/

/-- What the writers are given while the unit of a class is generated; `current` is that of the unit. -/
def unitLog (env : Env) (c : ClassModel) : WriterLog := ((writeUnit env c).run.run ({}, {})).2.2

/-- While a unit is generated no writer leaves an indentation that it is not in, whether the unit fails or not.  Every
writer that is finished has left each block and indentation that it entered, and ends at the depth at which it started;
so has the writer of the unit, which holds the unit's code. -/
theorem blocks_balanced (env : Env) (c : ClassModel) :
    (writeUnit env c).run.run ({}, {}) =
        (((sourceUnit env c).run.run {}).1, ((sourceUnit env c).run.run {}).2, unitLog env c) ∧
      Writer.run? {} (unitLog env c).current = some (.ofSteps (unitLog env c).current) ∧
      (∀ d ∈ (unitLog env c).drafts, Writer.run? {} d.steps = some (.ofSteps d.steps) ∧
        (d.finished = true → IsPaired d.steps ∧ (Writer.ofSteps d.steps).depth = 0)) ∧
      ∀ unit, ((sourceUnit env c).run.run {}).1 = .ok unit →
        (unitLog env c).current = unit.code.steps ∧ IsPaired unit.code.steps ∧ unit.code.write.depth = 0 := by
  have hwrites : Writes Target.SourceUnit.code [] (sourceUnit env c) (writeUnit env c) := writes_writeUnit c []
  -- the invariant of a whole run, from an empty log and with no level entered
  obtain ⟨steps, drafts, hrun, hnest, hsound, hsteps⟩ := hwrites {} {}
  have hlog : unitLog env c = ⟨steps, drafts⟩ := congrArg (·.2.2) hrun
  obtain ⟨levels, hlevels⟩ := Option.isSome_iff_exists.1 hnest
  refine ⟨?_, ?_, ?_, ?_⟩
  · rw [hlog]
    exact hrun
  · rw [hlog]
    exact (Target.run?_of_nestAll? steps rfl hlevels).1
  · rw [hlog]
    intro d hd
    obtain ⟨levels, hlevels⟩ := Option.isSome_iff_exists.1 (hsound d hd).nests
    exact ⟨(Target.run?_of_nestAll? d.steps rfl hlevels).1, fun hfinished =>
      ⟨(hsound d hd).paired hfinished, ((hsound d hd).paired hfinished).run?.2⟩⟩
  · intro unit hunit
    rw [hlog]
    exact ⟨hsteps unit hunit, unit.code.isPaired_steps, unit.code.isPaired_steps.run?.2⟩

section Spin

/-- Jumps inside a loop, without a target that has jumps. -/
private def spinBody : Body where
  exprs := #[⟨.literal (.bool true), .bool⟩]
  stmts := #[.goto 0, .loop 0 0]
  stmtLists := #[1]
  labelCount := 1
  root := ⟨0, 1⟩

private def spinClass : ClassModel := bareClass "Spin" .plain none [] [bareMethod 1 "spin" ⟨0x0009⟩ (some spinBody)]

private def spinEnv : Env := { program := ⟨[spinClass], by decide⟩, options := { reflection := false } }

/-- The body fails and leaves its writer in the block of the loop, and the unit is finished all the same. -/
theorem blocks_balanced_spin :
    (unitLog spinEnv spinClass).drafts.map (fun d => (d.finished, nestAll? [] d.steps)) =
        [(false, some [.block]), (true, some [])] ∧
      (∀ d ∈ (unitLog spinEnv spinClass).drafts, Writer.run? {} d.steps = some (.ofSteps d.steps)) ∧
      ∃ unit, ((sourceUnit spinEnv spinClass).run.run {}).1 = .ok unit ∧ unit.code.write.depth = 0 := by
  obtain ⟨-, -, hdrafts, hunit⟩ := blocks_balanced spinEnv spinClass
  have hgenerated : ∃ unit, ((sourceUnit spinEnv spinClass).run.run {}).1 = .ok unit := ⟨_, by with_unfolding_all rfl⟩
  refine ⟨by with_unfolding_all rfl, fun d hd => (hdrafts d hd).1, ?_⟩
  obtain ⟨unit, hgenerated⟩ := hgenerated
  exact ⟨unit, hgenerated, (hunit unit hgenerated).2.2⟩

end Spin

end HaxeBackend.Generation
