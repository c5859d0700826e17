import HaxeBackend.Diagnostic.Basic
import HaxeBackend.Options

/-!
# Why code cannot be generated

References that lead nowhere fail the whole class.  The other errors arise inside one method body and are recovered
by replacing that body with a stub that fails when it is called.
-/

namespace HaxeBackend

/-- Ways in which a method body can be malformed. -/
inductive BodyFault where
  | missingExpr (id : Nat)
  | missingStmt (id : Nat)
  | missingLocal (id : Nat)
  | arity (method : String) (given expected : Nat)
  | arrayWithoutCount
  | receiverless (method : String)
  | adapterArity (method : String) (given : Nat) (interfaceMethod : String)
  | undeclaredLabel (id : Nat)
  | emptyCase
  deriving DecidableEq, Repr

def BodyFault.message : BodyFault → String
  | missingExpr id => s!"expression {id} does not exist"
  | missingStmt id => s!"statement {id} does not exist"
  | missingLocal id => s!"local {id} does not exist"
  | arity method given expected => s!"call to `{method}` passes {given} argument(s), expected {expected}"
  | arrayWithoutCount => "array allocation without a count"
  | receiverless method => s!"reference to instance method `{method}` has no receiver argument"
  | adapterArity method given interfaceMethod =>
    s!"`{method}` cannot take the {given} argument(s) of `{interfaceMethod}`"
  | undeclaredLabel id => s!"jump to undeclared label L{id}"
  | emptyCase => "switch case without values"

/-- Statements that need labels and jumps in the target. -/
inductive JumpForm where
  | label
  | goto
  | conditionalGoto
  | switchGoto
  deriving DecidableEq, Repr

def JumpForm.text : JumpForm → String
  | label => "label"
  | goto => "goto"
  | conditionalGoto => "conditional goto"
  | switchGoto => "switch-goto"

inductive GenError where
  | unresolvedClass (className : String)
  | unresolvedMethod (className method descriptor : String)
  | unresolvedField (className field : String)
  | unsupportedJump (form : JumpForm) (subtarget : Subtarget)
  | malformedBody (reason : String)
  | noAdapter (interface : String)
  | unwritable (path reason : String)
  deriving DecidableEq, Repr

namespace GenError

def ofFault (fault : BodyFault) : GenError := .malformedBody fault.message

def message : GenError → String
  | unresolvedClass className => s!"unresolved class `{className}`"
  | unresolvedMethod className method descriptor => s!"unresolved method `{className}.{method}{descriptor}`"
  | unresolvedField className field => s!"unresolved field `{className}.{field}`"
  | unsupportedJump form subtarget =>
    s!"{form.text} needs native goto support, which `{subtarget.name}` does not provide"
  | malformedBody reason => s!"malformed method body: {reason}"
  | noAdapter interface => s!"`{interface}` has no functional adapter to bind a method reference to"
  | unwritable path reason => s!"cannot write `{path}`: {reason}"

/-- Whether the error fails the whole class. -/
def isFatal : GenError → Bool
  | unresolvedClass .. | unresolvedMethod .. | unresolvedField .. | unwritable .. => true
  | unsupportedJump .. | malformedBody .. | noAdapter .. => false

def code : GenError → DiagnosticCode
  | unresolvedClass .. => .e1001
  | unresolvedMethod .. => .e1002
  | unresolvedField .. => .e1003
  | unsupportedJump .. => .e2001
  | malformedBody .. => .e2002
  | noAdapter .. => .e2003
  | unwritable .. => .e3001

def jumpSuggestion : String :=
  "lower label/goto bodies before generation, or enable `--goto` on a C++ subtarget"

/-- The error as it is reported at a location. -/
def diagnostic (e : GenError) (at_ : Location) : Diagnostic :=
  match e with
  | unresolvedClass className => Diagnostic.unresolvedClass at_ className
  | unresolvedMethod className method descriptor =>
    Diagnostic.unresolvedMethod at_ className (method ++ descriptor)
  | unresolvedField className field => Diagnostic.unresolvedField at_ className field
  | unsupportedJump .. =>
    { code := e.code, severity := .error, message := e.message, location := some at_,
      suggestions := [jumpSuggestion] }
  | _ => { code := e.code, severity := .error, message := e.message, location := some at_ }

end GenError

end HaxeBackend
