import HaxeBackend.Proofs.Target.Sheets

/-!
# Classes that generated code uses

The classes that expressions, statements and units name in full: those whose members they access, those they guard,
those they make objects of, and the adapters they wrap functions in.  Text that is handed through (bodies given by
annotations, conversion patterns) is not looked into.
-/

namespace HaxeBackend.Target

/-- A class by its full name, and what it is used for. -/
inductive ClassUse where
  /-- A static member is accessed. -/
  | access (name : String)
  /-- The static initializer is run. -/
  | guard (holder : String)
  /-- An object is made. -/
  | construct (name : String)
  /-- A function is wrapped. -/
  | adapter (name : String)
  deriving DecidableEq, Repr

namespace ClassUse

def name : ClassUse → String
  | access name | guard name | construct name | adapter name => name

/-- The holder whose initializer is run. -/
def guard? : ClassUse → Option String
  | guard holder => some holder
  | access _ | construct _ | adapter _ => none

end ClassUse

/-! ### Expressions -/

namespace Expr

mutual

def classUses : Expr → List ClassUse
  | path name => [.access name]
  | construct className args => .construct className :: classUsesList args
  | adapter className _ _ guard call _ => .adapter className :: (guard.toList.map .guard ++ call.classUses)
  | num _ args | natives _ args | list args => classUsesList args
  | binary _ left right => left.classUses ++ right.classUses
  | negate operand | not operand | complement operand | member operand _ | isOfType operand _ | castTo operand _
  | template _ operand => operand.classUses
  | invoke object _ args => object.classUses ++ classUsesList args
  | null | bool _ | int _ | single _ | double _ | quoted _ | var _ | this | super | caught | pooled _ => []

def classUsesList : List Expr → List ClassUse
  | [] => []
  | e :: rest => e.classUses ++ classUsesList rest

end

@[simp]
theorem classUsesList_eq (es : List Expr) : classUsesList es = es.flatMap classUses := by
  induction es with
  | nil => rfl
  | cons e es ih => rw [classUsesList, ih, List.flatMap_cons]

end Expr

/-! ### Statements -/

def Stmt.classUses : Stmt → List ClassUse
  | guard holder => [.guard holder]
  | seq first rest => first.classUses ++ rest.classUses
  | tryCatch body handler => body.classUses ++ handler.classUses
  | gotoIf x _ | jumpTable x _ _ | eval x | throw x => x.classUses
  | assign target value => target.classUses ++ value.classUses
  | ret value => value.toList.flatMap Expr.classUses
  | when condition body | loop condition body | switch condition body => condition.classUses ++ body.classUses
  | ite condition thenBranch elseBranch => condition.classUses ++ (thenBranch.classUses ++ elseBranch.classUses)
  | arm _ body | otherwise body => body.classUses
  | skip | mark _ | label _ | goto _ | declare .. | exitLoop | nextLoop => []

theorem Stmt.classUses_ofList (stmts : List Stmt) : (Stmt.ofList stmts).classUses = stmts.flatMap Stmt.classUses := by
  induction stmts with
  | nil => rfl
  | cons t stmts ih =>
    show t.classUses ++ (ofList stmts).classUses = _
    rw [ih, List.flatMap_cons]

/-! ### Units -/

def FunctionBody.classUses : FunctionBody → List ClassUse
  | lowered body _ => body.stmts.classUses
  | given _ | missing .. | errored .. => []

def MemberEntry.classUses : MemberEntry → List ClassUse
  | field _ _ _ _ _ uses => uses.classUses
  | constructor _ _ _ _ uses paramUses | method _ _ _ _ _ _ uses paramUses => uses.classUses ++ paramUses.classUses

/-- The adapter of an interface is registered by its name. -/
def ClassInfo.classUses (i : ClassInfo) : List ClassUse :=
  i.guards.map .guard ++
    (i.entry.adapter.toList.map .adapter ++ (i.entry.uses.classUses ++ i.members.flatMap MemberEntry.classUses))

def DispatchClass.header : DispatchClass → CompanionHeader
  | proxy c => c.header
  | adapter c => c.header

namespace SourceUnit

def info? : SourceUnit → Option ClassInfo
  | ofClass unit => unit.info
  | ofInterface unit => unit.info

def classUses (u : SourceUnit) : List ClassUse :=
  u.functions.flatMap (fun f => f.body.classUses) ++ u.info?.toList.flatMap ClassInfo.classUses

/-- The holders whose initializers are run somewhere in the unit. -/
def guards (u : SourceUnit) : List String := u.classUses.filterMap ClassUse.guard?

/-- The names of the types that the unit declares. -/
def declared : SourceUnit → List String
  | ofClass unit => [unit.name]
  | ofInterface unit =>
    [unit.name, unit.holder, unit.dispatch.header.name] ++
      (unit.annotationImpl.toList.map (fun c => c.header.name) ++ unit.library.toList.map fun c => c.header.name)

end SourceUnit

end HaxeBackend.Target
