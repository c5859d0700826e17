import HaxeBackend.Target.Code
import HaxeBackend.Target.Expr

/-!
# Statements of generated code

Structured statements are laid out in blocks.  Labels and jumps only exist as text that is handed through to C++.
-/

namespace HaxeBackend.Target

inductive Stmt where
  | skip
  | seq (first rest : Stmt)
  /-- The next line comes from this source line. -/
  | mark (source : Nat)
  /-- Runs the static initializer of the class that has its statics in `holder`. -/
  | guard (holder : String)
  | label (id : Nat)
  | goto (label : Nat)
  | gotoIf (condition : Expr) (label : Nat)
  | jumpTable (subject : Expr) (cases : List (Int32 × Nat)) (default : Nat)
  | declare (name tag value : String)
  | assign (target value : Expr)
  | eval (expr : Expr)
  | ret (value : Option Expr)
  | throw (value : Expr)
  /-- The handler starts by storing what was caught. -/
  | tryCatch (body handler : Stmt)
  | when (condition : Expr) (body : Stmt)
  | ite (condition : Expr) (thenBranch elseBranch : Stmt)
  | loop (condition : Expr) (body : Stmt)
  /-- The arms are a sequence of `arm` and `otherwise`. -/
  | switch (subject : Expr) (arms : Stmt)
  | arm (values : List Int32) (body : Stmt)
  | otherwise (body : Stmt)
  | exitLoop
  | nextLoop

/-- Text that is handed through to C++. -/
def passThrough (text : String) : String := s!"untyped __cpp__('{text}');"

def labelText (id : Nat) : String := passThrough s!"L{id}:;"

def gotoText (label : Nat) : String := passThrough s!"goto L{label};"

namespace Stmt

def ofList : List Stmt → Stmt
  | [] => skip
  | s :: rest => seq s (ofList rest)

def code : Stmt → Code
  | skip => .empty
  | seq first rest => first.code ++ rest.code
  | mark source => .mark source
  | guard holder => .line (guardText holder)
  | label id => .line (labelText id)
  | goto id => .line (gotoText id)
  | gotoIf condition id => .line s!"if ({condition.text}) \x7b {gotoText id} \x7d"
  | jumpTable subject cases default =>
    .block s!"switch ({subject.text})"
      (.lines (cases.map fun (value, id) => s!"case {intText value}: {gotoText id}") ++
        .line s!"default: {gotoText default}")
  | declare name tag value => .line s!"var {name}:{tag} = {value};"
  | assign target value => .line s!"{target.text} = {value.text};"
  | eval expr => .line s!"{expr.text};"
  | ret none => .line "return;"
  | ret (some value) => .line s!"return {value.text};"
  | throw value => .line s!"throw {value.text};"
  | tryCatch body handler =>
    .chain "try" body.code s!"catch ({catchBinding}:Dynamic)"
      (.line s!"{caughtSlot} = {catchBinding};" ++ handler.code)
  | when condition body => .block s!"if ({condition.text})" body.code
  | ite condition thenBranch elseBranch =>
    .chain s!"if ({condition.text})" thenBranch.code "else" elseBranch.code
  | loop condition body => .block s!"while ({condition.text})" body.code
  | switch subject arms => .block s!"switch ({subject.text})" arms.code
  | arm values body =>
    .line s!"case {argumentList (values.map intText)}:" ++ .indented body.code
  | otherwise body => .line "default:" ++ .indented body.code
  | exitLoop => .line "break;"
  | nextLoop => .line "continue;"

end Stmt

end HaxeBackend.Target
