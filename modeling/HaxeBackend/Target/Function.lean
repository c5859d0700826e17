import HaxeBackend.Model.Ty
import HaxeBackend.Target.Body

/-!
# Functions of generated classes
-/

namespace HaxeBackend.Target

/-- The declaration line of a function. -/
structure Signature where
  isOverride : Bool := false
  isStatic : Bool := false
  name : String
  /-- Names with their types. -/
  params : List (String × String)
  ret : String
  deriving DecidableEq, Repr

def Signature.text (s : Signature) : String :=
  (if s.isOverride then "override " else "") ++ "public " ++ (if s.isStatic then "static " else "") ++
    s!"function {s.name}({parameterList s.params}):{s.ret}"

/-- Where the body of a function comes from. -/
inductive FunctionBody where
  /-- Text given by annotations. -/
  | given (text : String)
  /-- A lowered body; a constructor whose last statement does not leave it returns its object. -/
  | lowered (body : Body) (returnsThis : Bool)
  /-- There is no body, and a call fails with the number of the method. -/
  | missing (className : Name) (id : Nat)
  /-- The body could not be generated, and a call fails with the cause. -/
  | errored (className member cause : String)

structure Function where
  signature : Signature
  body : FunctionBody

def FunctionBody.code : FunctionBody → Code
  | given text => .line text
  | lowered body returnsThis =>
    .nested body.code ++ if returnsThis then .line "return this;" else .empty
  | missing className id => .line s!"throw {reflectClass}.n({quote className}, {id});"
  | errored className member cause =>
    let report := s!"Errored method: {className}.{member} :: {cause}"
    .line s!"throw {reflectClass}.erroredMethod({quote report});"

def Function.code (f : Function) : Code := .block f.signature.text f.body.code

end HaxeBackend.Target
