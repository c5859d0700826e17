import HaxeBackend.Json.Reader
import HaxeBackend.Model.Document.Body
import HaxeBackend.Model.Program

/-!
# Programs in documents

`Program.ofText` loads a program model from its JSON text.  Classes are taken in order, and a class whose name is
taken already is refused once its own contents have been read.
-/

namespace HaxeBackend

namespace Reading

def kind (j : Json) : Reading ClassKind :=
  oneOf [("class", .plain), ("interface", .interface), ("abstract", .abstract)] (name j)

/-- One marker, as a change of the markers so far. -/
def marker (j : Json) : Reading (Markers → Markers) :=
  oneOf
    [("native_bound", fun m => { m with nativeBound := true }),
      ("has_static_init", fun m => { m with hasStaticInit := true }),
      ("functional_interface", fun m => { m with functionalInterface := true }),
      ("annotation_type", fun m => { m with annotationType := true })]
    (name j)

def markers (j : Json) : Reading Markers :=
  (fun changes => changes.foldl (fun m change => change m) {}) <$> items marker j

def modifiers (j : Json) : Reading Modifiers := Modifiers.ofBits <$> bits j

def field (j : Json) : Reading Field :=
  withMembers (j.onlyMembers? ["name", "type", "modifiers", "constant", "annotations"]) fun members =>
    Field.mk <$> required members "name" text
      <*> required members "type" type
      <*> optional members "modifiers" Modifiers.standard modifiers
      <*> nullable members "constant" (literal name)
      <*> optional members "annotations" [] (annotationUses 121)

def param (j : Json) : Reading Param :=
  withMembers (j.onlyMembers? ["name", "type"]) fun members =>
    Param.mk <$> required members "name" text <*> required members "type" type

def methodKeys : List String :=
  ["id", "name", "params", "ret", "modifiers", "annotations", "param_annotations", "default_value", "body"]

def method (j : Json) : Reading Method :=
  withMembers (j.onlyMembers? methodKeys) fun members =>
    Method.mk <$> required members "id" natural
      <*> required members "name" text
      <*> optional members "params" [] (items param)
      <*> required members "ret" type
      <*> optional members "modifiers" Modifiers.standard modifiers
      <*> optional members "annotations" [] (annotationUses 121)
      <*> optional members "param_annotations" [] (items (annotationUses 120))
      <*> nullable members "default_value" (value 122)
      <*> nullable members "body" body

def classKeys : List String :=
  ["name", "kind", "superclass", "interfaces", "modifiers", "markers", "native_name", "source_file", "annotations",
    "fields", "methods"]

def classModel (j : Json) : Reading ClassModel :=
  withMembers (j.onlyMembers? classKeys) fun members =>
    let build name (kind : ClassKind) superclass interfaces (given : Option Modifiers) markers nativeName sourceFile
        annotations fields methods : ClassModel :=
      { name, kind, superclass, interfaces, modifiers := given.getD kind.modifiers, markers, nativeName, sourceFile,
        annotations, fields, methods }
    build <$> required members "name" text
      <*> optional members "kind" .plain kind
      <*> nullable members "superclass" text
      <*> optional members "interfaces" [] (items text)
      <*> nullable members "modifiers" modifiers
      <*> optional members "markers" {} markers
      <*> nullable members "native_name" text
      <*> nullable members "source_file" text
      <*> optional members "annotations" [] (annotationUses 123)
      <*> optional members "fields" [] (items field)
      <*> optional members "methods" [] (items method)

/-- The classes of a document, each with the outcome of its own second pass. -/
def classes (j : Json) : Option (List (Except ModelError ClassModel)) := do
  let members ← j.onlyMembers? ["classes"]
  let items ← (members.lookup "classes").bind Json.items?
  items.mapM classModel

end Reading

namespace Program

/-- Adds the classes one after the other, up to the first that cannot be added. -/
def addAll (p : Program) : List (Except ModelError ClassModel) → Except ModelError Program
  | [] => .ok p
  | .error e :: _ => .error e
  | .ok c :: rest =>
    if h : c.name ∈ p.classes.map ClassModel.name then .error (.duplicateClass c.name)
    else (p.add c h).addAll rest

def ofDocument (j : Json) : Except ModelError Program :=
  match Reading.classes j with
  | none => .error .malformed
  | some classes => empty.addAll classes

/-- Loads a program model. -/
def ofText (text : String) : Except ModelError Program :=
  match Json.parse? text with
  | none => .error .malformed
  | some j => ofDocument j

end Program

end HaxeBackend
