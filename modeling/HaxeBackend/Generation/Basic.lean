import HaxeBackend.Lowering.Error
import HaxeBackend.Lowering.State

/-!
# Generating a unit

A step of generation reads the program and the options, adds to what the unit accumulates, and may fail.
-/

namespace HaxeBackend.Generation

structure Env where
  program : Program
  options : GenOptions := {}

/-- A step of generation. -/
abbrev GenM := ExceptT GenError (StateM UnitState)

def refer (name : Name) : GenM Unit :=
  modify fun st => { st with refs := st.refs.add name }

def report (d : Diagnostic) : GenM Unit :=
  modify fun st => { st with diagnostics := st.diagnostics ++ [d] }

/-- Adds a class to the references if the program has it. -/
def requireClass (p : Program) (name : Name) : GenM Unit := do
  unless (p.find? name).isSome do
    throw (.unresolvedClass name)
  refer name

/-- The annotations of a type. -/
def usesOf (uses : List AnnotationUse) (type : Name) : List AnnotationUse :=
  uses.filter fun use => use.type == type

/-- An element of the first annotation of a type, when it is a text. -/
def markText? (uses : List AnnotationUse) (type element : Name) : Option String :=
  ((findUse? uses type).bind fun use => use.get? element).bind AnnotationValue.text?

end HaxeBackend.Generation
