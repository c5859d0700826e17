import HaxeBackend.Model.Body.Arena
import HaxeBackend.Model.Body.Basic

/-!
# Bodies as trees

The trees that the positions of a body describe.  A position that leads nowhere becomes a `missing` leaf.  Statement
lists are chains of `seq`, and a `switch` holds the chain of its arms.

Where no expression or statement holds itself, a tree says exactly what a walk over the body would meet, in the order in
which it would meet it.  Where one does, at once or through others, a walk that follows the positions never ends.  The
tree is then cut (`Arena.treeAt`), and the cut is a `missing` leaf like a position that leads nowhere: what is said of
such a tree, that the leaf is reported as not there for one, is not what such a walk would do.
-/

namespace HaxeBackend

/-- An expression with its type. -/
inductive Expr where
  | missing (id : Nat)
  | literal (value : Literal) (type : Ty)
  | readLocal (id : Nat) (type : Ty)
  | this (type : Ty)
  | caught (type : Ty)
  | binary (op : BinaryOp) (left right : Expr) (type : Ty)
  | unary (op : UnaryOp) (operand : Expr) (type : Ty)
  | staticCall (method : MethodRef) (args : List Expr) (type : Ty)
  | call (receiver : Expr) (method : MethodRef) (args : List Expr) (special : Bool) (type : Ty)
  | superCall (receiver : Expr) (method : MethodRef) (args : List Expr) (type : Ty)
  | field (object : Expr) (field : FieldRef) (type : Ty)
  | staticField (field : FieldRef) (type : Ty)
  | element (array index : Expr) (type : Ty)
  | arrayLength (array : Expr) (type : Ty)
  | allocate (className : Name) (type : Ty)
  | newArray (counts : List Expr) (type : Ty)
  | instanceOf (operand : Expr) (check : Ty) (type : Ty)
  | cast (operand : Expr) (type : Ty)
  | capture (interfaceMethod target : MethodRef) (type : Ty)

/-- The type of an expression that exists, or else the position that does not. -/
def Expr.type : Expr → Except Nat Ty
  | .missing id => .error id
  | .literal _ t | .readLocal _ t | .this t | .caught t | .binary _ _ _ t | .unary _ _ t | .staticCall _ _ t
  | .call _ _ _ _ t | .superCall _ _ _ t | .field _ _ t | .staticField _ t | .element _ _ t
  | .arrayLength _ t | .allocate _ t | .newArray _ t | .instanceOf _ _ t | .cast _ t | .capture _ _ t => .ok t

inductive Stmt where
  | missing (id : Nat)
  | skip
  | seq (first rest : Stmt)
  | line (number : Nat)
  | label (id : Nat)
  | goto (label : Nat)
  | gotoIf (condition : Expr) (label : Nat)
  | jumpTable (subject : Expr) (cases : List (Int32 × Nat)) (default : Nat)
  | setLocal (id : Nat) (value : Expr)
  | setField (object : Expr) (field : FieldRef) (value : Expr)
  | setStatic (field : FieldRef) (value : Expr)
  | setElement (array index value : Expr)
  | construct (id : Nat) (className : Name) (constructor : MethodRef) (args : List Expr)
  | eval (expr : Expr)
  | ret (value : Option Expr)
  | throw (value : Expr)
  | tryCatch (body handler : Stmt)
  | rethrow
  | when (condition : Expr) (body : Stmt)
  | ite (condition : Expr) (thenBranch elseBranch : Stmt)
  | loop (condition : Expr) (body : Stmt)
  | switch (subject : Expr) (arms : Stmt)
  | arm (values : List Int32) (body : Stmt)
  | otherwise (body : Stmt)
  | exitLoop
  | nextLoop

/-- Statements in a row. -/
def Stmt.ofList : List Stmt → Stmt
  | [] => .skip
  | s :: rest => .seq s (ofList rest)

namespace Body

/-! ### Expressions -/

/-- The expression of a node, where `operand` tells the expressions at its positions. -/
def exprOf (b : Body) (operand : Nat → Expr) (node : ExprNode IdRange) : Expr :=
  match node.kind with
  | .literal value => .literal value node.type
  | .readLocal id => .readLocal id node.type
  | .this => .this node.type
  | .caught => .caught node.type
  | .binary op left right => .binary op (operand left) (operand right) node.type
  | .unary op x => .unary op (operand x) node.type
  | .call .static method args _ => .staticCall method ((b.exprList args).map operand) node.type
  | .call (.onObject receiver) method args special =>
    .call (operand receiver) method ((b.exprList args).map operand) special node.type
  | .call (.super receiver) method args _ =>
    .superCall (operand receiver) method ((b.exprList args).map operand) node.type
  | .field object field => .field (operand object) field node.type
  | .staticField field => .staticField field node.type
  | .element array index => .element (operand array) (operand index) node.type
  | .arrayLength array => .arrayLength (operand array) node.type
  | .allocate className => .allocate className node.type
  | .newArray counts => .newArray ((b.exprList counts).map operand) node.type
  | .instanceOf x check => .instanceOf (operand x) check node.type
  | .cast x => .cast (operand x) node.type
  | .capture interfaceMethod target => .capture interfaceMethod target node.type

/-- The positions of the operands of a node. -/
def exprOperands (b : Body) (node : ExprNode IdRange) : List Nat :=
  match node.kind with
  | .binary _ left right => [left, right]
  | .unary _ x | .field x _ | .arrayLength x | .instanceOf x _ | .cast x => [x]
  | .call .static _ args _ => b.exprList args
  | .call (.onObject receiver) _ args _ | .call (.super receiver) _ args _ => receiver :: b.exprList args
  | .element array index => [array, index]
  | .newArray counts => b.exprList counts
  | .literal _ | .readLocal _ | .this | .caught | .staticField _ | .allocate _ | .capture .. => []

def exprArena (b : Body) : Arena (ExprNode IdRange) Expr where
  nodes := b.exprs
  operands := b.exprOperands
  build := b.exprOf
  missing := .missing

/-! ### Statements -/

/-- The statement of a node, where `expr` and `stmt` tell what stands at its positions. -/
def stmtOf (b : Body) (expr : Nat → Expr) (stmt : Nat → Stmt) (kind : StmtKind IdRange) : Stmt :=
  match kind with
  | .nop => .skip
  | .line number => .line number
  | .label id => .label id
  | .goto label => .goto label
  | .gotoIf condition label => .gotoIf (expr condition) label
  | .jumpTable subject cases default => .jumpTable (expr subject) cases default
  | .setLocal id value => .setLocal id (expr value)
  | .setField object field value => .setField (expr object) field (expr value)
  | .setStatic field value => .setStatic field (expr value)
  | .setElement array index value => .setElement (expr array) (expr index) (expr value)
  | .construct id className constructor args => .construct id className constructor ((b.exprList args).map expr)
  | .eval x => .eval (expr x)
  | .ret value => .ret (value.map expr)
  | .throw value => .throw (expr value)
  | .tryCatch body handler => .tryCatch (stmt body) (stmt handler)
  | .rethrow => .rethrow
  | .block stmts => Stmt.ofList ((b.stmtList stmts).map stmt)
  | .ite condition thenBranch none => .when (expr condition) (stmt thenBranch)
  | .ite condition thenBranch (some elseBranch) => .ite (expr condition) (stmt thenBranch) (stmt elseBranch)
  | .loop condition body => .loop (expr condition) (stmt body)
  | .switch subject cases default =>
    let arms := cases.map fun (values, body) => Stmt.arm values (stmt body)
    .switch (expr subject) (Stmt.ofList (arms ++ [Stmt.otherwise (stmt default)]))
  | .exitLoop => .exitLoop
  | .nextLoop => .nextLoop

/-- The positions of the statements inside a node. -/
def stmtOperands (b : Body) (kind : StmtKind IdRange) : List Nat :=
  match kind with
  | .tryCatch body handler => [body, handler]
  | .block stmts => b.stmtList stmts
  | .ite _ thenBranch elseBranch => thenBranch :: elseBranch.toList
  | .loop _ body => [body]
  | .switch _ cases default => cases.map Prod.snd ++ [default]
  | _ => []

def stmtArena (b : Body) (expr : Nat → Expr) : Arena (StmtKind IdRange) Stmt where
  nodes := b.stmts
  operands := b.stmtOperands
  build := b.stmtOf expr
  missing := .missing

/-! ### Bodies -/

/-- The whole body. -/
def tree (b : Body) : Stmt :=
  let exprs := b.exprArena.trees
  let stmtArena := b.stmtArena (b.exprArena.lookIn exprs)
  let stmts := stmtArena.trees
  Stmt.ofList (b.rootList.map (stmtArena.lookIn stmts))

end Body

end HaxeBackend
