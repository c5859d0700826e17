import HaxeBackend.Lowering.Error
import HaxeBackend.Lowering.State

/-!
# Where a body is lowered

A scope is what the statements of one body can see and never change.  Lowering may fail, and what was accumulated
until then is kept.
-/

namespace HaxeBackend.Lowering

/-- How string literals are reached. -/
inductive PoolAccess where
  /-- They belong to the class that the body is written into. -/
  | own
  /-- They belong to the static holder of another class, which has to be initialized. -/
  | through (className : Name)
  deriving DecidableEq, Repr

structure Scope where
  program : Program
  options : GenOptions
  pool : PoolAccess := .own
  isConstructor : Bool := false
  /-- The target names of the locals. -/
  locals : List String := []
  labelCount : Nat := 0

structure State where
  literals : LiteralPool := {}
  refs : ReferenceTable := {}
  guards : Guards := {}

/-- A step of lowering. -/
abbrev LowerM := ExceptT GenError (StateM State)

def refer (name : Name) : LowerM Unit :=
  modify fun st => { st with refs := st.refs.add name }

def referType (type : Ty) : LowerM Unit :=
  modify fun st => { st with refs := st.refs.addType type }

def fault {α : Type} (f : BodyFault) : LowerM α := throw (.ofFault f)

namespace Scope

/-- Uses the statics of a class: it has to be initialized, unless it stands for an existing target type. -/
def touch (s : Scope) (name : Name) : LowerM Unit := do
  unless Naming.isNative s.program name do
    modify fun st => { st with guards := st.guards.touch name }
  refer name

/-- Takes the static holders that have to be initialized before the statement at hand. -/
def takeGuards (s : Scope) : LowerM (List String) := do
  let st ← get
  set { st with guards := st.guards.clear }
  return st.guards.holders s.program

def localName (s : Scope) (id : Nat) : LowerM String :=
  match s.locals[id]? with
  | some name => pure name
  | none => fault (.missingLocal id)

def resolveMethod (s : Scope) (r : MethodRef) (special : Bool) : LowerM MethodEntry :=
  match s.program.resolve? r special with
  | some entry => pure entry
  | none => throw (.unresolvedMethod r.owner r.name r.type.descriptor)

def resolveField (s : Scope) (r : FieldRef) : LowerM FieldEntry :=
  match s.program.getField? r.owner r.name r.type with
  | some entry => pure entry
  | none => throw (.unresolvedField r.owner r.name)

def requireClass (s : Scope) (name : Name) : LowerM ClassModel :=
  match s.program.find? name with
  | some c => pure c
  | none => throw (.unresolvedClass name)

/-- A call passes one argument for each parameter. -/
def checkArity (method : Method) (given : Nat) : LowerM Unit :=
  if given = method.params.length then pure () else fault (.arity method.name given method.params.length)

/-- Labels and jumps need a target that has them and a label of the body. -/
def checkJump (s : Scope) (form : JumpForm) (label : Nat) : LowerM Unit :=
  if !s.options.supportsGoto then throw (.unsupportedJump form s.options.subtarget)
  else if s.labelCount ≤ label then fault (.undeclaredLabel label)
  else pure ()

/-- The name a method is called by; existing target types keep their own names. -/
def methodName (s : Scope) (entry : MethodEntry) : String :=
  if Naming.isNative s.program entry.owner.name then Naming.escapeMember entry.method.name
  else Naming.method entry.owner.name entry.method

/-- The name a field is reached by. -/
def fieldName (s : Scope) (entry : FieldEntry) : String :=
  if Naming.isNative s.program entry.owner.name then Naming.escapeMember entry.field.name
  else Naming.field s.program entry.owner.name entry.field.name

end Scope

end HaxeBackend.Lowering
