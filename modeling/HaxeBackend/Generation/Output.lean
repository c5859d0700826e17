import HaxeBackend.Generation.Expansion
import HaxeBackend.Generation.SourceUnit
import HaxeBackend.Target.SourceMap

/-!
# Output of a run

Classes are generated one by one and do not depend on each other.  A class that stands for an existing target type
has no unit, and neither has one whose generation failed: that is reported as its last diagnostic.

Where a class registers an annotation whose literal has no end, the run has none either (`generateProgram?`).  This is
the only kind of run without end that is told apart.  A special call whose method has no body anywhere in a superclass
chain that is a cycle never ends either, and neither does a body that holds an expression or a statement inside itself.
These are generated here as if the cycle were cut (`Program.resolveSpecial?`, `Arena.treeAt`): an output says nothing
about them.
-/

namespace HaxeBackend.Generation

/-- A generated file. -/
structure GeneratedUnit where
  path : String
  text : String
  sourceMap : Option Target.SourceMap
  deriving DecidableEq, Repr

structure ClassOutput where
  className : Name
  unit : Option GeneratedUnit := none
  /-- The other classes that the unit refers to, in the order of first reference. -/
  dependencies : List Name := []
  diagnostics : List Diagnostic := []
  deriving DecidableEq, Repr

def ClassOutput.hasErrors (o : ClassOutput) : Bool := o.diagnostics.any Diagnostic.isError

/-- The last component of a path. -/
def fileName (path : String) : String := String.ofList (Text.splitLast '/' path.toList).2

/-- The map of a unit whose class has a source file. -/
def sourceMap? (c : ClassModel) (path : String) (mappings : List Target.LineMapping) : Option Target.SourceMap :=
  c.sourceFile.map fun source =>
    mappings.foldl (fun map m => map.record ⟨m.generated, 0, m.source⟩)
      { file := fileName path, sources := [source] }

def generatedUnit (env : Env) (c : ClassModel) (unit : Target.SourceUnit) : GeneratedUnit :=
  let path := Naming.filePath c.name
  let written := unit.code.write
  { path := path
    text := written.text
    sourceMap := if env.options.sourceMaps then sourceMap? c path written.mappings else none }

/-- Everything generated for one class. -/
def generateClass (env : Env) (c : ClassModel) : ClassOutput :=
  if c.isNative then { className := c.name }
  else
    let (result, last) := (sourceUnit env c).run.run {}
    let dependencies := last.refs.order.filter fun name => name != c.name
    match result with
    | .ok unit =>
      { className := c.name
        unit := some (generatedUnit env c unit)
        dependencies := dependencies
        diagnostics := last.diagnostics }
    | .error e =>
      { className := c.name
        dependencies := dependencies
        diagnostics := last.diagnostics ++ [e.diagnostic ⟨c.name, none⟩] }

/-- The output of every class, in the order of the program. -/
structure ProgramOutput where
  classes : List ClassOutput

def generateProgram (env : Env) : ProgramOutput := ⟨env.program.classes.map (generateClass env)⟩

/-- Whether the generation of a class ends, as far as registered annotations are concerned.  Nothing fails behind the
registration, so only a class that has a unit came as far as that. -/
def classEnds (env : Env) (c : ClassModel) : Bool :=
  !env.options.reflection || registrationEnds env.program c || (generateClass env c).unit.isNone

/-- The output of a run, unless a registration in it does not end. -/
def generateProgram? (env : Env) : Option ProgramOutput :=
  if env.program.classes.all (classEnds env) then some (generateProgram env) else none

namespace ProgramOutput

def units (o : ProgramOutput) : List GeneratedUnit := o.classes.filterMap ClassOutput.unit

def diagnostics (o : ProgramOutput) : List Diagnostic := o.classes.flatMap ClassOutput.diagnostics

def errorCount (o : ProgramOutput) : Nat := o.diagnostics.countP Diagnostic.isError

def warningCount (o : ProgramOutput) : Nat := o.diagnostics.countP Diagnostic.isWarning

/-- Fails when a class failed; methods that were replaced by a fault are no failure. -/
def result (o : ProgramOutput) : Except ErrorsReported Unit :=
  match ErrorsReported.ofCount? o.errorCount with
  | some reported => .error reported
  | none => .ok ()

end ProgramOutput

/-! ### Files -/

/-- A path with the output directory of the options in front. -/
def outputPath (options : GenOptions) (path : String) : String :=
  let directory := String.ofList (options.outPrefix.toList.reverse.dropWhile (· = '/')).reverse
  if directory.isEmpty then path else directory ++ "/" ++ path

/-- The files of a unit: its text, and its map when it maps anything. -/
def GeneratedUnit.files (options : GenOptions) (u : GeneratedUnit) : List (String × String) :=
  let path := outputPath options u.path
  (path, u.text) :: ((u.sourceMap.filter fun map => !map.isEmpty).toList.map fun map => (path ++ ".map", map.json))

/-- All files, in the order in which they are written. -/
def ProgramOutput.files (options : GenOptions) (o : ProgramOutput) : List (String × String) :=
  o.units.flatMap (GeneratedUnit.files options)

end HaxeBackend.Generation
