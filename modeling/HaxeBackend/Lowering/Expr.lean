import HaxeBackend.Lowering.Operator
import HaxeBackend.Lowering.Scope
import HaxeBackend.Model.Body.Tree
import HaxeBackend.Model.Dispatch

/-!
# Lowering of expressions

References are resolved where they are met, operands are lowered from left to right, and the classes whose statics
are used are noted for the guards in front of the statement.
-/

namespace HaxeBackend.Lowering

/-! ### Constants -/

/-- The look-up of a class: by its dotted name, or by the descriptor of a type that is no class. -/
def classLiteral (type : Ty) : Target.Expr :=
  .natives "resolveClass" [.quoted (type.className?.getD type.descriptor)]

def lowerString (s : Scope) (text : Name) : LowerM Target.Expr := do
  let st ← get
  let (index, literals) := st.literals.intern text
  set { st with literals := literals }
  match s.pool with
  | .own => return .pooled index
  | .through className =>
    s.touch className
    return .member (.path (Naming.staticHolder s.program className)) (Target.poolIdent index)

def lowerLiteral (s : Scope) : Literal → LowerM Target.Expr
  | .null => pure .null
  | .bool value => pure (.bool value)
  | .int value => pure (.int value)
  | .long value => pure (.long value)
  | .float bits => pure (.single bits)
  | .double bits => pure (.double bits)
  | .string text => lowerString s text
  | .classRef type => do
    referType type
    return classLiteral type

/-! ### Calls -/

/-- The pattern that a class gives for the conversion of its values to or from the target's own. -/
def conversionPattern? (p : Program) (type : Ty) (element : Name) : Option String := do
  let c ← p.find? (← type.className?)
  let use ← findUse? c.annotations Target.nativeConversionMark
  (← use.get? element).text?

/-- An argument as an existing target type takes it. -/
def toNative (p : Program) (type : Ty) (value : Target.Expr) : Target.Expr :=
  if type.isArray then .natives "unbox" [value]
  else
    match conversionPattern? p type "toNative" with
    | some pattern => .template pattern value
    | none => value

/-- A result as an existing target type gives it. -/
def fromNative (p : Program) (type : Ty) (value : Target.Expr) : Target.Expr :=
  if type.isArray then .castTo (.natives "box" [value]) (Naming.typeTag p type)
  else
    match conversionPattern? p type "fromNative" with
    | some pattern => .template pattern value
    | none => value

/-- The arguments of a call of an existing target type. -/
def nativeArgs (p : Program) (method : Method) (args : List Target.Expr) : List Target.Expr :=
  List.zipWith (fun param value => toNative p param.type value) method.params args

/-- A call of a resolved method. -/
def callOf (s : Scope) (entry : MethodEntry) (base : Target.Expr) (args : List Target.Expr) : Target.Expr :=
  let name := s.methodName entry
  if Naming.isNative s.program entry.owner.name then
    fromNative s.program entry.method.ret (.invoke base name (nativeArgs s.program entry.method args))
  else .invoke base name args

/-! ### Fields, arrays and objects -/

/-- A static field, by the holder of the class that declares it. -/
def lowerStaticField (s : Scope) (r : FieldRef) : LowerM Target.Expr := do
  let entry ← s.resolveField r
  s.touch entry.owner.name
  return .member (.path (Naming.staticHolder s.program entry.owner.name)) (s.fieldName entry)

/-- The type of an expression that exists. -/
def typeOf (e : Expr) : LowerM Ty :=
  match e.type with
  | .ok type => pure type
  | .error id => fault (.missingExpr id)

/-- An array as it is accessed; a value that is not known to be one is cast. -/
def asArray (type : Ty) (value : Target.Expr) : Target.Expr :=
  if type.isArray then value else .castTo value Target.arrayBase

def allocate (s : Scope) (className : Name) : LowerM Target.Expr := do
  let _ ← s.requireClass className
  s.touch className
  return .construct (Naming.qualified s.program className) []

/-- A new array; more than one count makes an array of arrays. -/
def newArray (type : Ty) (counts : List Target.Expr) : LowerM Target.Expr :=
  let descriptor := Target.Expr.quoted type.descriptor
  match counts with
  | [] => fault .arrayWithoutCount
  | [count] =>
    let className := Naming.arrayClass type
    if className = Target.objectArray then pure (.construct className [count, descriptor])
    else pure (.construct className [count])
  | counts => pure (.invoke (.path Target.objectArray) "createMultiSure" [.list counts, descriptor])

/-! ### Method references -/

/-- The parameters of a synthesized function. -/
def positional (types : List Ty) : List (String × Ty) :=
  (List.range types.length).zip types |>.map fun (i, type) => (s!"p{i}", type)

/-- An adapter whose only abstract method forwards to `target`.  The receiver of an instance method is the first
argument. -/
def capture (s : Scope) (interfaceMethod target : MethodRef) : LowerM Target.Expr := do
  let p := s.program
  let interface ← s.requireClass interfaceMethod.owner
  unless p.dispatch interface = .adapter do
    throw (.noAdapter interface.name)
  let entry ← s.resolveMethod target false
  let owner := entry.owner.name
  refer interface.name
  refer owner
  let st ← get
  let params := positional interfaceMethod.type.args
  let initialized := Naming.isNative p owner || st.guards.owns owner
  let guard := if entry.method.isStatic && !initialized then some (Naming.staticHolder p owner) else none
  let (base, supplied) ← match entry.method.isStatic, params with
    | true, params => pure (Target.Expr.path (Naming.staticHolder p owner), params)
    | false, [] => fault (.receiverless target.name)
    | false, (name, type) :: params => pure (convert p type (.ref owner) (.var name), params)
  unless supplied.length = entry.method.params.length do
    fault (.adapterArity target.name supplied.length interfaceMethod.name)
  let args := List.zipWith (fun (name, type) param => convert p type param.type (.var name)) supplied
    entry.method.params
  let call := Target.Expr.invoke base (s.methodName entry) args
  let ret := interfaceMethod.type.ret
  let (value, result) : Target.Expr × Target.AdapterResult :=
    if ret.isVoid then (call, .discard)
    else if entry.method.ret.isVoid then (call, .constant (Naming.defaultValue ret))
    else (convert p entry.method.ret ret call, .value)
  return .adapter (Naming.companion interface.name .adapter)
    (params.map fun (name, type) => (name, Naming.typeTag p type)) (Naming.typeTag p ret) guard value result

/-! ### Expressions -/

mutual

def lowerExpr (s : Scope) : Expr → LowerM Target.Expr
  | .missing id => fault (.missingExpr id)
  | .literal value _ => lowerLiteral s value
  | .readLocal id _ => do return .var (← s.localName id)
  | .this _ => pure .this
  | .caught _ => pure .caught
  | .binary op left right type => do
    let l ← lowerExpr s left
    let r ← lowerExpr s right
    return binary op l r type
  | .unary op operand type => do return unary op (← lowerExpr s operand) type
  | .staticCall method args _ => do
    let entry ← s.resolveMethod method false
    s.touch entry.owner.name
    Scope.checkArity entry.method args.length
    return callOf s entry (.path (Naming.staticHolder s.program entry.owner.name)) (← lowerExprs s args)
  | .call receiver method args special _ => do
    let entry ← s.resolveMethod method special
    let base ← lowerExpr s receiver
    Scope.checkArity entry.method args.length
    return callOf s entry base (← lowerExprs s args)
  | .superCall _ method args _ => do
    let entry ← s.resolveMethod method false
    Scope.checkArity entry.method args.length
    return callOf s entry .super (← lowerExprs s args)
  | .field object r _ => do
    let base ← lowerExpr s object
    let entry ← s.resolveField r
    return .member base (s.fieldName entry)
  | .staticField r _ => lowerStaticField s r
  | .element array index type => do
    let arrayType ← typeOf array
    let base ← lowerExpr s array
    let i ← lowerExpr s index
    return .invoke (asArray arrayType base) (if type = .bool then "getBool" else "get") [i]
  | .arrayLength array _ => do
    let arrayType ← typeOf array
    let base ← lowerExpr s array
    return .member (asArray arrayType base) "length"
  | .allocate className _ => allocate s className
  | .newArray counts type => do
    let values ← lowerExprs s counts
    referType type
    newArray type values
  | .instanceOf operand check _ => do
    let value ← lowerExpr s operand
    referType check
    return .isOfType value (Naming.typeTag s.program check)
  | .cast operand type => do
    let source ← typeOf operand
    let value ← lowerExpr s operand
    referType type
    return convert s.program source type value
  | .capture interfaceMethod target _ => capture s interfaceMethod target

def lowerExprs (s : Scope) : List Expr → LowerM (List Target.Expr)
  | [] => pure []
  | e :: rest => do
    let value ← lowerExpr s e
    let values ← lowerExprs s rest
    return value :: values

end

end HaxeBackend.Lowering
