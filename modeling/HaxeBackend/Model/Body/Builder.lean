import HaxeBackend.Model.Body.Basic

/-!
# Building method bodies

Each operation appends one thing and returns its position with the extended body.  A position has 32 bits, so the
positions of things past the greatest one can no longer be told apart.
-/

namespace HaxeBackend.Body

/-- The position of what is appended to as many things. -/
def nextPosition (count : Nat) : Nat := min count (UInt32.size - 1)

theorem nextPosition_eq {count : Nat} (h : count < UInt32.size) : nextPosition count = count :=
  Nat.min_eq_left (Nat.le_sub_one_of_lt h)

/-- The range of positions that are appended to as many others. -/
def nextRange (count added : Nat) : IdRange :=
  ⟨nextPosition count, nextPosition (count + added) - nextPosition count⟩

theorem nextRange_eq {count added : Nat} (h : count + added < UInt32.size) :
    nextRange count added = ⟨count, added⟩ := by
  rw [nextRange, nextPosition_eq h, nextPosition_eq (Nat.lt_of_le_of_lt (Nat.le_add_right count added) h),
    Nat.add_sub_cancel_left]

def addLocal (b : Body) (v : LocalVar) : Nat × Body :=
  (nextPosition b.locals.size, { b with locals := b.locals.push v })

def addLabel (b : Body) : Nat × Body :=
  (b.labelCount, { b with labelCount := b.labelCount + 1 })

def addExpr (b : Body) (node : ExprNode IdRange) : Nat × Body :=
  (nextPosition b.exprs.size, { b with exprs := b.exprs.push node })

def addStmt (b : Body) (kind : StmtKind IdRange) : Nat × Body :=
  (nextPosition b.stmts.size, { b with stmts := b.stmts.push kind })

def addExprList (b : Body) (ids : List Nat) : IdRange × Body :=
  (nextRange b.exprLists.size ids.length, { b with exprLists := b.exprLists ++ ids })

def addStmtList (b : Body) (ids : List Nat) : IdRange × Body :=
  (nextRange b.stmtLists.size ids.length, { b with stmtLists := b.stmtLists ++ ids })

/-- Appends a block of statements, with its list. -/
def addBlock (b : Body) (ids : List Nat) : Nat × Body :=
  let (range, b) := b.addStmtList ids
  b.addStmt (.block range)

/-! ### Leaves -/

def addLiteral (b : Body) (value : Literal) (type : Ty) : Nat × Body := b.addExpr ⟨.literal value, type⟩

def addInt (b : Body) (value : Int32) : Nat × Body := b.addLiteral (.int value) (.prim .int)

def addLong (b : Body) (value : Int64) : Nat × Body := b.addLiteral (.long value) (.prim .long)

def addBool (b : Body) (value : Bool) : Nat × Body := b.addLiteral (.bool value) .bool

def addNull (b : Body) (type : Ty) : Nat × Body := b.addLiteral .null type

def addString (b : Body) (text : Name) (type : Ty) : Nat × Body := b.addLiteral (.string text) type

/-- The type that a variable is read with; one that does not exist has none. -/
def readType (b : Body) (id : Nat) : Ty := ((b.local? id).map LocalVar.type).getD .void

def addReadLocal (b : Body) (id : Nat) : Nat × Body := b.addExpr ⟨.readLocal id, b.readType id⟩

/-! ### Whole bodies -/

/-- Appends a node whose position list is given out in full. -/
def addListedExpr (b : Body) (node : ExprNode (List Nat)) : Body :=
  match node.kind.list? with
  | some ids =>
    let (range, b) := b.addExprList ids
    (b.addExpr ⟨node.kind.mapList fun _ => range, node.type⟩).2
  | none => (b.addExpr ⟨node.kind.mapList fun _ => ⟨0, 0⟩, node.type⟩).2

/-- Appends a statement whose position list is given out in full. -/
def addListedStmt (b : Body) (kind : StmtKind (List Nat)) : Body :=
  match kind.exprList?, kind.stmtList? with
  | some ids, _ =>
    let (range, b) := b.addExprList ids
    (b.addStmt (kind.mapList (fun _ => range) fun _ => ⟨0, 0⟩)).2
  | none, some ids =>
    let (range, b) := b.addStmtList ids
    (b.addStmt (kind.mapList (fun _ => ⟨0, 0⟩) fun _ => range)).2
  | none, none => (b.addStmt (kind.mapList (fun _ => ⟨0, 0⟩) fun _ => ⟨0, 0⟩)).2

/-- Fixes the top-level statements. -/
def finish (b : Body) (root : List Nat) : Body :=
  let (range, b) := b.addStmtList root
  { b with root := range }

/-- The body with these nodes, each at the position it has in its list. -/
def ofLists (locals : List LocalVar) (labelCount : Nat) (exprs : List (ExprNode (List Nat)))
    (stmts : List (StmtKind (List Nat))) (root : List Nat) : Body :=
  let b : Body := { locals := locals.toArray, labelCount := labelCount }
  let b := exprs.foldl addListedExpr b
  let b := stmts.foldl addListedStmt b
  b.finish root

end HaxeBackend.Body
