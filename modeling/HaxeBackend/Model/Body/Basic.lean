import HaxeBackend.Model.Literal
import HaxeBackend.Model.Operator

/-!
# Method bodies

A body keeps its expressions, statements and local variables in arenas, and a node refers to others by position.
Lists of positions (call arguments, block statements) are stored end to end in two shared arrays and referred to by
range.  A position or range that leads nowhere is no error here: looking it up gives nothing.
-/

namespace HaxeBackend

/-- A field as it is referred to. -/
structure FieldRef where
  owner : Name
  name : Name
  type : Ty
  deriving DecidableEq

/-- A method as it is referred to. -/
structure MethodRef where
  owner : Name
  name : Name
  type : MethodTy
  deriving DecidableEq

/-- How a call finds its method; `receiver` is a position. -/
inductive CallKind where
  | static
  | onObject (receiver : Nat)
  | super (receiver : Nat)
  deriving DecidableEq

/-- Expression nodes; `σ` holds lists of positions. -/
inductive ExprKind (σ : Type) where
  | literal (value : Literal)
  | readLocal (id : Nat)
  | this
  /-- The value caught by the innermost catch clause around. -/
  | caught
  | binary (op : BinaryOp) (left right : Nat)
  | unary (op : UnaryOp) (operand : Nat)
  /-- A `special` call was resolved by the front end and is not virtual. -/
  | call (kind : CallKind) (method : MethodRef) (args : σ) (special : Bool)
  | field (object : Nat) (field : FieldRef)
  | staticField (field : FieldRef)
  | element (array index : Nat)
  | arrayLength (array : Nat)
  | allocate (className : Name)
  /-- One count per allocated dimension. -/
  | newArray (counts : σ)
  | instanceOf (operand : Nat) (check : Ty)
  /-- Conversion to the type of the expression. -/
  | cast (operand : Nat)
  /-- An object of an interface whose only abstract method forwards to `target`. -/
  | capture (interfaceMethod target : MethodRef)
  deriving DecidableEq

/-- An expression with its type. -/
structure ExprNode (σ : Type) where
  kind : ExprKind σ
  type : Ty
  deriving DecidableEq

/-- Statement nodes; `σ` holds lists of positions. -/
inductive StmtKind (σ : Type) where
  | nop
  /-- The next line written comes from this source line. -/
  | line (number : Nat)
  | label (id : Nat)
  | goto (label : Nat)
  | gotoIf (condition label : Nat)
  | jumpTable (subject : Nat) (cases : List (Int32 × Nat)) (default : Nat)
  | setLocal (id value : Nat)
  | setField (object : Nat) (field : FieldRef) (value : Nat)
  | setStatic (field : FieldRef) (value : Nat)
  | setElement (array index value : Nat)
  /-- Allocates into a local, then runs the constructor on it. -/
  | construct (id : Nat) (className : Name) (constructor : MethodRef) (args : σ)
  | eval (expr : Nat)
  | ret (value : Option Nat)
  | throw (value : Nat)
  | tryCatch (body handler : Nat)
  /-- Throws the last caught value again. -/
  | rethrow
  | block (stmts : σ)
  | ite (condition thenBranch : Nat) (elseBranch : Option Nat)
  | loop (condition body : Nat)
  | switch (subject : Nat) (cases : List (List Int32 × Nat)) (default : Nat)
  | exitLoop
  | nextLoop
  deriving DecidableEq

namespace ExprKind

/-- Replaces the representation of position lists. -/
def mapList {σ τ : Type} (f : σ → τ) : ExprKind σ → ExprKind τ
  | .literal value => .literal value
  | .readLocal id => .readLocal id
  | .this => .this
  | .caught => .caught
  | .binary op left right => .binary op left right
  | .unary op operand => .unary op operand
  | .call kind method args special => .call kind method (f args) special
  | .field object ref => .field object ref
  | .staticField ref => .staticField ref
  | .element array index => .element array index
  | .arrayLength array => .arrayLength array
  | .allocate className => .allocate className
  | .newArray counts => .newArray (f counts)
  | .instanceOf operand check => .instanceOf operand check
  | .cast operand => .cast operand
  | .capture interfaceMethod target => .capture interfaceMethod target

/-- The position list a node has, if it has one. -/
def list? {σ : Type} : ExprKind σ → Option σ
  | .call _ _ args _ => some args
  | .newArray counts => some counts
  | _ => none

theorem mapList_mapList {σ τ υ : Type} (f : σ → τ) (g : τ → υ) (kind : ExprKind σ) :
    (kind.mapList f).mapList g = kind.mapList fun ids => g (f ids) := by
  cases kind <;> rfl

theorem list?_mapList {σ τ : Type} (f : σ → τ) (kind : ExprKind σ) : (kind.mapList f).list? = kind.list?.map f := by
  cases kind <;> rfl

theorem mapList_eq_self {σ : Type} {f : σ → σ} {kind : ExprKind σ} (h : ∀ ids ∈ kind.list?, f ids = ids) :
    kind.mapList f = kind := by
  cases kind with
  | call kind method args special => exact congrArg (call kind method · special) (h args rfl)
  | newArray counts => exact congrArg newArray (h counts rfl)
  | _ => rfl

end ExprKind

namespace StmtKind

/-- Replaces the representation of position lists; `f` is for expressions, `g` for statements. -/
def mapList {σ τ : Type} (f g : σ → τ) : StmtKind σ → StmtKind τ
  | .nop => .nop
  | .line number => .line number
  | .label id => .label id
  | .goto target => .goto target
  | .gotoIf condition target => .gotoIf condition target
  | .jumpTable subject cases default => .jumpTable subject cases default
  | .setLocal id value => .setLocal id value
  | .setField object ref value => .setField object ref value
  | .setStatic ref value => .setStatic ref value
  | .setElement array index value => .setElement array index value
  | .construct id className constructor args => .construct id className constructor (f args)
  | .eval expr => .eval expr
  | .ret value => .ret value
  | .throw value => .throw value
  | .tryCatch body handler => .tryCatch body handler
  | .rethrow => .rethrow
  | .block stmts => .block (g stmts)
  | .ite condition thenBranch elseBranch => .ite condition thenBranch elseBranch
  | .loop condition body => .loop condition body
  | .switch subject cases default => .switch subject cases default
  | .exitLoop => .exitLoop
  | .nextLoop => .nextLoop

/-- The list of expression positions a node has, if it has one. -/
def exprList? {σ : Type} : StmtKind σ → Option σ
  | .construct _ _ _ args => some args
  | _ => none

/-- The list of statement positions a node has, if it has one. -/
def stmtList? {σ : Type} : StmtKind σ → Option σ
  | .block stmts => some stmts
  | _ => none

theorem mapList_mapList {σ τ υ : Type} (f f' : σ → τ) (g g' : τ → υ) (kind : StmtKind σ) :
    (kind.mapList f f').mapList g g' = kind.mapList (fun ids => g (f ids)) fun ids => g' (f' ids) := by
  cases kind <;> rfl

theorem exprList?_mapList {σ τ : Type} (f g : σ → τ) (kind : StmtKind σ) :
    (kind.mapList f g).exprList? = kind.exprList?.map f := by
  cases kind <;> rfl

theorem stmtList?_mapList {σ τ : Type} (f g : σ → τ) (kind : StmtKind σ) :
    (kind.mapList f g).stmtList? = kind.stmtList?.map g := by
  cases kind <;> rfl

theorem mapList_eq_self {σ : Type} {f g : σ → σ} {kind : StmtKind σ} (hf : ∀ ids ∈ kind.exprList?, f ids = ids)
    (hg : ∀ ids ∈ kind.stmtList?, g ids = ids) : kind.mapList f g = kind := by
  cases kind with
  | construct id className constructor args => exact congrArg (construct id className constructor) (hf args rfl)
  | block stmts => exact congrArg block (hg stmts rfl)
  | _ => rfl

/-- Labels and jumps. -/
def isJump {σ : Type} : StmtKind σ → Bool
  | .label _ | .goto _ | .gotoIf .. | .jumpTable .. => true
  | _ => false

/-- Statements that use the caught value. -/
def isTrap {σ : Type} : StmtKind σ → Bool
  | .tryCatch .. | .rethrow => true
  | _ => false

end StmtKind

/-- A run of positions in one of the shared arrays. -/
structure IdRange where
  start : Nat
  length : Nat
  deriving DecidableEq, Repr

structure LocalVar where
  name : Name
  type : Ty
  deriving DecidableEq

structure Body where
  exprs : Array (ExprNode IdRange) := #[]
  stmts : Array (StmtKind IdRange) := #[]
  exprLists : Array Nat := #[]
  stmtLists : Array Nat := #[]
  locals : Array LocalVar := #[]
  labelCount : Nat := 0
  root : IdRange := ⟨0, 0⟩
  deriving DecidableEq

/-- The positions in a range; a range that reaches past the end has none. -/
def IdRange.slice (r : IdRange) (ids : Array Nat) : List Nat :=
  if r.start + r.length ≤ ids.size then (ids.extract r.start (r.start + r.length)).toList else []

namespace Body

def expr? (b : Body) (id : Nat) : Option (ExprNode IdRange) := b.exprs[id]?

def stmt? (b : Body) (id : Nat) : Option (StmtKind IdRange) := b.stmts[id]?

def local? (b : Body) (id : Nat) : Option LocalVar := b.locals[id]?

def exprList (b : Body) (r : IdRange) : List Nat := r.slice b.exprLists

def stmtList (b : Body) (r : IdRange) : List Nat := r.slice b.stmtLists

/-- The statements of the method, in order. -/
def rootList (b : Body) : List Nat := b.stmtList b.root

def isLabelValid (b : Body) (label : Nat) : Bool := label < b.labelCount

/-- Whether any statement of the arena is a label or a jump. -/
def hasJumps (b : Body) : Bool := b.stmts.any StmtKind.isJump

/-- Whether any statement of the arena uses the caught value. -/
def hasTraps (b : Body) : Bool := b.stmts.any StmtKind.isTrap

/-- Whether control never falls off the end, as far as the last statement tells. -/
def endsInExit (b : Body) : Bool :=
  match b.rootList.getLast?.bind b.stmt? with
  | some (.ret _) | some (.throw _) => true
  | _ => false

end Body

end HaxeBackend
