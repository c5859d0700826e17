import HaxeBackend.Generation.ClassInfo

/-!
# Which literals end

The literal of an annotation holds those of the defaults that it takes, and these hold the literals of further
defaults.  A default that comes back to itself this way has no literal: its expansion never ends, and neither does the
registration of a class that has such an annotation.
-/

namespace HaxeBackend.Generation

/-- The accessors whose defaults an annotation of the type takes, from those that its elements do. -/
def annotationDefaults (p : Program) (type : Name) (elements : List (Name × List Method)) : List Method :=
  match p.find? type with
  | none => []
  | some c => (accessors c).flatMap fun m => (elements.lookup m.name).getD [m]

mutual

/-- The accessors whose defaults a value takes. -/
def valueDefaults (p : Program) : AnnotationValue → List Method
  | .nested type elements _ => annotationDefaults p type (elementDefaults p elements)
  | .array items => itemDefaults p items
  | .bool _ | .byte _ | .short _ | .char _ | .int _ | .long _ | .float _ | .double _ | .string _ | .enum .. |
    .classRef _ => []

def elementDefaults (p : Program) : List (Name × AnnotationValue) → List (Name × List Method)
  | [] => []
  | (name, value) :: rest => (name, valueDefaults p value) :: elementDefaults p rest

def itemDefaults (p : Program) : List AnnotationValue → List Method
  | [] => []
  | value :: rest => valueDefaults p value ++ itemDefaults p rest

end

/-- The accessors whose defaults the default of an accessor takes. -/
def furtherDefaults (p : Program) (m : Method) : List Method := m.defaultValue.toList.flatMap (valueDefaults p)

/-- Whether the default of an accessor expands to the end when no more than `depth` defaults are inside each other. -/
def endsWithin (p : Program) : Nat → Method → Bool
  | 0, _ => false
  | depth + 1, m => (furtherDefaults p m).all (endsWithin p depth)

/-- An annotation as a value. -/
def useValue (use : AnnotationUse) : AnnotationValue := .nested use.type use.elements use.visible

/-- Whether the literal of an annotation ends. -/
def useEnds (p : Program) (use : AnnotationUse) : Bool :=
  (valueDefaults p (useValue use)).all (endsWithin p (defaultDepth p))

def methodUses (m : Method) : List AnnotationUse :=
  m.annotations ++ (List.range m.params.length).flatMap fun i => m.paramAnnotations.getD i []

/-- The annotations that the registration of a class holds: its own, those of its fields, and those of its methods and
their parameters. -/
def registeredUses (c : ClassModel) : List AnnotationUse :=
  (c.annotations ++ ((visibleFields c).flatMap Field.annotations ++ c.methods.flatMap methodUses)).filter isRegistered

/-- Whether the registration of a class ends. -/
def registrationEnds (p : Program) (c : ClassModel) : Bool := (registeredUses c).all (useEnds p)

end HaxeBackend.Generation
