import HaxeBackend.Lowering.Expr
import HaxeBackend.Target.Stmt

/-!
# Lowering of statements

Each statement lowers its own expressions first; then come the guards they asked for, then the statement.
-/

namespace HaxeBackend.Lowering

/-- A statement behind the guards that its expressions asked for. -/
def guarded (s : Scope) (stmt : Target.Stmt) : LowerM Target.Stmt := do
  return .seq (.ofList ((← s.takeGuards).map .guard)) stmt

/-- An assignment, or nothing when both sides read the same. -/
def assignment (target value : Target.Expr) : Target.Stmt :=
  if target.text = value.text then .skip else .assign target value

/-- Allocates into a local and runs the constructor on it.  An existing target type takes the arguments in its
allocation. -/
def lowerConstruct (s : Scope) (id : Nat) (className : Name) (constructor : MethodRef) (args : List Expr) :
    LowerM Target.Stmt := do
  let p := s.program
  let target := Target.Expr.var (← s.localName id)
  let _ ← s.requireClass className
  let entry ← s.resolveMethod constructor true
  Scope.checkArity entry.method args.length
  let values ← lowerExprs s args
  let qualified := Naming.qualified p className
  if Naming.isNative p className then
    refer className
    guarded s (.assign target (.construct qualified (nativeArgs p entry.method values)))
  else
    s.touch className
    guarded s (.seq (.assign target (.construct qualified [])) (.eval (.invoke target (s.methodName entry) values)))

/-- The type that decides how an element is stored: that of the array, or else that of the value. -/
def elementType (arrayType : Ty) (value : Expr) : LowerM Ty :=
  if arrayType.isArray then pure arrayType.component else typeOf value

def lowerStmt (s : Scope) : Stmt → LowerM Target.Stmt
  | .missing id => fault (.missingStmt id)
  | .skip => pure .skip
  | .seq first rest => do
    let a ← lowerStmt s first
    let b ← lowerStmt s rest
    return .seq a b
  | .line number => pure (.mark number)
  | .label id => do
    s.checkJump .label id
    return .label id
  | .goto label => do
    s.checkJump .goto label
    return .goto label
  | .gotoIf condition label => do
    s.checkJump .conditionalGoto label
    let c ← lowerExpr s condition
    guarded s (.gotoIf c label)
  | .jumpTable subject cases default => do
    cases.forM fun (_, label) => s.checkJump .switchGoto label
    s.checkJump .switchGoto default
    let x ← lowerExpr s subject
    guarded s (.jumpTable x cases default)
  | .setLocal id value => do
    let target ← s.localName id
    let v ← lowerExpr s value
    guarded s (assignment (.var target) v)
  | .setField object r value => do
    let base ← lowerExpr s object
    let entry ← s.resolveField r
    let v ← lowerExpr s value
    guarded s (assignment (.member base (s.fieldName entry)) v)
  | .setStatic r value => do
    let target ← lowerStaticField s r
    let v ← lowerExpr s value
    guarded s (assignment target v)
  | .setElement array index value => do
    let arrayType ← typeOf array
    let element ← elementType arrayType value
    let base ← lowerExpr s array
    let i ← lowerExpr s index
    let v ← lowerExpr s value
    guarded s (.eval (.invoke (asArray arrayType base) (if element = .bool then "setBool" else "set") [i, v]))
  | .construct id className constructor args => lowerConstruct s id className constructor args
  | .eval expr => do
    let x ← lowerExpr s expr
    guarded s (.eval x)
  | .ret none => guarded s (.ret (if s.isConstructor then some .this else none))
  | .ret (some value) => do
    let v ← lowerExpr s value
    guarded s (.ret (some v))
  | .throw value => do
    let v ← lowerExpr s value
    guarded s (.throw v)
  | .tryCatch body handler => do
    let before ← s.takeGuards
    let b ← lowerStmt s body
    let h ← lowerStmt s handler
    return .seq (.ofList (before.map .guard)) (.tryCatch b h)
  | .rethrow => guarded s (.throw .caught)
  | .when condition body => do
    let c ← lowerExpr s condition
    let before ← s.takeGuards
    let b ← lowerStmt s body
    return .seq (.ofList (before.map .guard)) (.when c b)
  | .ite condition thenBranch elseBranch => do
    let c ← lowerExpr s condition
    let before ← s.takeGuards
    let a ← lowerStmt s thenBranch
    let b ← lowerStmt s elseBranch
    return .seq (.ofList (before.map .guard)) (.ite c a b)
  | .loop condition body => do
    let c ← lowerExpr s condition
    let before ← s.takeGuards
    let b ← lowerStmt s body
    return .seq (.ofList (before.map .guard)) (.loop c b)
  | .switch subject arms => do
    let x ← lowerExpr s subject
    let before ← s.takeGuards
    let a ← lowerStmt s arms
    return .seq (.ofList (before.map .guard)) (.switch x a)
  | .arm values body => do
    if values.isEmpty then fault .emptyCase
    let b ← lowerStmt s body
    return .arm values b
  | .otherwise body => do
    let b ← lowerStmt s body
    return .otherwise b
  | .exitLoop => guarded s .exitLoop
  | .nextLoop => guarded s .nextLoop

end HaxeBackend.Lowering
