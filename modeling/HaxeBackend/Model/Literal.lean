import HaxeBackend.Model.Ty

/-!
# Constants

Constants of method bodies and static fields, and the values of annotation elements.  Floating-point numbers are
held by their bits.
-/

namespace HaxeBackend

/-- A constant; `int` covers all int-like kinds, and the type beside it says which. -/
inductive Literal where
  | null
  | bool (value : Bool)
  | int (value : Int32)
  | long (value : Int64)
  | float (bits : UInt32)
  | double (bits : UInt64)
  | string (text : Name)
  | classRef (type : Ty)
  deriving DecidableEq

/-- The value of an annotation element. -/
inductive AnnotationValue where
  | bool (value : Bool)
  | byte (value : Int8)
  | short (value : Int16)
  | char (value : UInt16)
  | int (value : Int32)
  | long (value : Int64)
  | float (bits : UInt32)
  | double (bits : UInt64)
  | string (text : Name)
  /-- An enum constant: a static field of a class. -/
  | enum (className fieldName : Name)
  | classRef (type : Ty)
  | nested (type : Name) (elements : List (Name × AnnotationValue)) (visible : Bool)
  | array (items : List AnnotationValue)

namespace AnnotationValue

def text? : AnnotationValue → Option Name
  | .string text => some text
  | _ => none

def items? : AnnotationValue → Option (List AnnotationValue)
  | .array items => some items
  | _ => none

end AnnotationValue

/-- One annotation on a class, a member or a parameter; elements left out take their declared default. -/
structure AnnotationUse where
  type : Name
  elements : List (Name × AnnotationValue)
  /-- Kept for reflection. -/
  visible : Bool

namespace AnnotationUse

def get? (a : AnnotationUse) (key : Name) : Option AnnotationValue :=
  a.elements.lookup key

def ofValue? : AnnotationValue → Option AnnotationUse
  | .nested type elements visible => some ⟨type, elements, visible⟩
  | _ => none

end AnnotationUse

/-- The first annotation of a type. -/
def findUse? (uses : List AnnotationUse) (type : Name) : Option AnnotationUse :=
  uses.find? fun use => use.type == type

end HaxeBackend
