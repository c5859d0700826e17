import HaxeBackend.Lowering.Stmt
import HaxeBackend.Target.Body

/-!
# Lowering of method bodies

All locals are declared in front, with the zero value of their type, so that no jump passes a declaration.  A local
with the name and type of a parameter is that parameter, and locals that share a name but not a type are numbered.
-/

namespace HaxeBackend.Lowering

/-! ### Names of variables -/

/-- The target names of parameters: a name that came before gets the position behind it. -/
def paramNamesFrom (i : Nat) (seen : List (String × Ty)) : List Param → List (String × Ty)
  | [] => seen
  | param :: rest =>
    let base := Naming.escapeMember param.name
    let name := if seen.any fun (n, _) => n == base then s!"{base}_{i}" else base
    paramNamesFrom (i + 1) (seen ++ [(name, param.type)]) rest

/-- The target names and types of the parameters of a method. -/
def paramNames (m : Method) : List (String × Ty) := paramNamesFrom 0 [] m.params

/-- The names a local may get: its own, then numbered ones.  One more than there are variables, so that one is
free. -/
def candidates (base : String) (taken : Nat) : List String :=
  base :: (List.range taken).map fun n => s!"{base}_{n + 1}"

/-- The first name that is free or belongs to a variable of the same type, and whether it is free. -/
def chooseName (declared : List (String × Ty)) (v : LocalVar) : String × Bool :=
  let base := Naming.escapeMember v.name
  let choice := (candidates base declared.length).findSome? fun name =>
    match declared.lookup name with
    | none => some (name, true)
    | some type => if type = v.type then some (name, false) else none
  choice.getD (base, false)

/-- The target names of locals, and the declarations of those that are new.  `declared` has the latest variable in
front. -/
def declareLocals (p : Program) (declared : List (String × Ty)) :
    List LocalVar → List String × List Target.VarDecl
  | [] => ([], [])
  | v :: rest =>
    let (name, isNew) := chooseName declared v
    if isNew then
      let (names, decls) := declareLocals p ((name, v.type) :: declared) rest
      (name :: names, ⟨name, Naming.typeTag p v.type, Naming.defaultValue v.type⟩ :: decls)
    else
      let (names, decls) := declareLocals p declared rest
      (name :: names, decls)

/-! ### Bodies -/

/-- What a body is lowered for. -/
structure BodySite where
  params : List (String × Ty)
  isConstructor : Bool
  /-- The class whose statics need no guard. -/
  own : Option Name
  pool : PoolAccess

def bodyScope (p : Program) (options : GenOptions) (site : BodySite) (names : List String) (body : Body) : Scope where
  program := p
  options := options
  pool := site.pool
  isConstructor := site.isConstructor
  locals := names
  labelCount := body.labelCount

/-- Lowers a body; the literals and references it met are kept even when it fails. -/
def lowerBody (p : Program) (options : GenOptions) (site : BodySite) (body : Body) (unit : UnitState) :
    Except GenError Target.Body × UnitState :=
  let (names, decls) := declareLocals p site.params.reverse body.locals.toList
  let start : State := ⟨unit.literals, unit.refs, { own := site.own }⟩
  let (result, last) := (lowerStmt (bodyScope p options site names body) body.tree).run.run start
  (result.map fun stmts => ⟨decls, body.hasTraps, stmts⟩,
    { unit with literals := last.literals, refs := last.refs })

end HaxeBackend.Lowering
