import HaxeBackend.Target.Stmt

/-!
# Method bodies of generated code

All variables are declared in front of the statements.
-/

namespace HaxeBackend.Target

/-- A variable as it is declared. -/
structure VarDecl where
  name : String
  tag : String
  value : String
  deriving DecidableEq, Repr

structure Body where
  locals : List VarDecl
  /-- Whether the variable for caught values is declared. -/
  catches : Bool
  stmts : Stmt

/-- The variable for caught values. -/
def caughtDecl : VarDecl := ⟨caughtSlot, "Dynamic", "null"⟩

namespace Body

def decls (b : Body) : List VarDecl :=
  b.locals ++ if b.catches then [caughtDecl] else []

def code (b : Body) : Code :=
  .ofList (b.decls.map fun d => (Stmt.declare d.name d.tag d.value).code) ++ b.stmts.code

end Body

end HaxeBackend.Target
