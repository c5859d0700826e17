import HaxeBackend.Target.ClassInfo
import HaxeBackend.Target.Companion

/-!
# Generated source units

A unit holds a class, or an interface with the class that has its statics and its companions.
-/

namespace HaxeBackend.Target

/-! ### Headers -/

/-- What stands in front of the declarations of a unit. -/
structure UnitHeader where
  package : String
  imports : List String
  /-- The targets that have the unit; every target when there are none. -/
  targets : List String
  metadata : List String
  deriving DecidableEq, Repr

def UnitHeader.code (h : UnitHeader) : Code :=
  .line (if h.package.isEmpty then "package;" else s!"package {h.package};") ++
  .blank ++
  .lines h.imports ++
  (if h.imports.isEmpty then .empty else .blank) ++
  (if h.targets.isEmpty then .empty else .line ("#if (" ++ " || ".intercalate h.targets ++ ")")) ++
  .lines h.metadata

/-- What stands behind the declarations. -/
def UnitHeader.ending (h : UnitHeader) : Code :=
  if h.targets.isEmpty then .empty else .line "#end"

/-! ### Fields and static initialization -/

structure FieldDecl where
  /-- Kept even when nothing uses it. -/
  keep : Bool
  isStatic : Bool
  name : String
  tag : String
  value : String
  deriving DecidableEq, Repr

def FieldDecl.text (f : FieldDecl) : String :=
  (if f.keep then "@:keep " else "") ++ (if f.isStatic then "static public var " else "public var ") ++
    s!"{f.name}:{f.tag} = {f.value};"

/-- The pooled literals of a class and its static initialization. -/
structure Statics where
  literalTag : String
  /-- The texts of the literals, by number. -/
  literals : List Name
  /-- Fields that are set to a literal. -/
  constants : List (String × Nat)
  /-- The method that initializes the class. -/
  initializer : Option String
  deriving DecidableEq, Repr

namespace Statics

/-- Numbers and texts of the literals. -/
def pool (s : Statics) : List (Nat × Name) := (List.range s.literals.length).zip s.literals

/-- What the routine does once: literals first, then constants, then the initializer. -/
def assignments (s : Statics) : List String :=
  s.pool.map (fun (index, text) => poolIdent index ++ " = " ++ numCall "str" [quote text] ++ ";") ++
    s.constants.map (fun (field, index) => s!"{field} = {poolIdent index};") ++
    s.initializer.toList.map fun name => s!"{name}();"

/-- The flag is set before anything else, so that a class in a cycle is initialized once. -/
def code (s : Statics) : Code :=
  .lines (s.pool.map fun (index, _) => s!"static public var {poolIdent index}:{s.literalTag};") ++
  .line s!"static public var {initFlag}:Bool = false;" ++
  .block s!"static public function {initRoutine}():Void"
    (.lines ([s!"if ({initFlag}) return;", s!"{initFlag} = true;"] ++ s.assignments))

end Statics

/-! ### Units -/

structure ClassUnit where
  header : UnitHeader
  name : String
  parent : Option String
  interfaces : List String
  /-- Members given by annotations. -/
  added : List String
  fields : List FieldDecl
  statics : Statics
  functions : List Function
  info : Option ClassInfo

/-- The class that objects of an interface can be made with on the fly. -/
inductive DispatchClass where
  | proxy (c : ProxyClass)
  | adapter (c : AdapterClass)

structure InterfaceUnit where
  header : UnitHeader
  name : String
  parents : List String
  methods : List Signature
  /-- The class that has the statics. -/
  holder : String
  fields : List FieldDecl
  statics : Statics
  functions : List Function
  info : Option ClassInfo
  dispatch : DispatchClass
  annotationImpl : Option AnnotationClass
  library : Option LibraryClass

inductive SourceUnit where
  | ofClass (unit : ClassUnit)
  | ofInterface (unit : InterfaceUnit)

def functionsCode (functions : List Function) : Code := .nested (.ofList (functions.map Function.code))

def infoCode : Option ClassInfo → Code
  | some info => .nested info.code
  | none => .empty

def DispatchClass.code : DispatchClass → Code
  | proxy c => c.code
  | adapter c => c.code

namespace ClassUnit

def declaration (u : ClassUnit) : String :=
  let extend := (u.parent.map fun name => s!" extends {name}").getD ""
  s!"class {u.name}" ++ extend ++ String.join (u.interfaces.map fun name => s!" implements {name}")

def code (u : ClassUnit) : Code :=
  u.header.code ++
  .block u.declaration
    (.lines u.added ++
      .lines (u.fields.map FieldDecl.text) ++
      u.statics.code ++
      .block "public function new()"
        ((if u.parent.isSome then .line "super();" else .empty) ++ .line s!"{initRoutine}();") ++
      functionsCode u.functions ++
      infoCode u.info) ++
  u.header.ending

end ClassUnit

namespace InterfaceUnit

def declaration (u : InterfaceUnit) : String :=
  s!"interface {u.name}" ++ String.join (u.parents.map fun name => s!" extends {name}")

def methodText (s : Signature) : String := s!"function {s.name}({parameterList s.params}):{s.ret};"

def companionsCode (u : InterfaceUnit) : Code :=
  u.dispatch.code ++
  (match u.annotationImpl with
    | some c => .blank ++ c.code
    | none => .empty) ++
  (match u.library with
    | some c => .blank ++ c.code
    | none => .empty)

def code (u : InterfaceUnit) : Code :=
  u.header.code ++
  .block u.declaration (.lines (u.methods.map methodText)) ++
  .blank ++
  .block s!"class {u.holder}"
    (.lines (u.fields.map FieldDecl.text) ++ u.statics.code ++ functionsCode u.functions ++ infoCode u.info) ++
  .blank ++
  .nested u.companionsCode ++
  u.header.ending

end InterfaceUnit

def SourceUnit.code : SourceUnit → Code
  | ofClass unit => unit.code
  | ofInterface unit => unit.code

end HaxeBackend.Target
