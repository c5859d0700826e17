import HaxeBackend.Diagnostic.Code

/-!
# Why a program model cannot be loaded
-/

namespace HaxeBackend

inductive ModelError where
  /-- The file cannot be read. -/
  | unreadable (path reason : String)
  /-- The text is not a document of the expected shape. -/
  | malformed
  /-- The shape is right, but a type descriptor, an operator or a receiver is not. -/
  | descriptor (text : String)
  | duplicateClass (name : String)
  deriving DecidableEq, Repr

namespace ModelError

def message : ModelError → String
  | .unreadable path reason => s!"cannot read `{path}`: {reason}"
  | .malformed => "malformed program model"
  | .descriptor text => s!"bad type descriptor `{text}`"
  | .duplicateClass name => s!"class `{name}` is declared twice"

def code : ModelError → DiagnosticCode
  | .unreadable .. => .e3002
  | _ => .e1004

end ModelError

end HaxeBackend
