import HaxeBackend.Model.Body.Basic
import HaxeBackend.Model.Modifiers

/-!
# Classes and their members
-/

namespace HaxeBackend

/-- The name of instance constructors. -/
def constructorName : Name := "<init>"

/-- The name of the static initializer. -/
def staticInitName : Name := "<clinit>"

/-- Constructors and static initializers have names that start with `<`. -/
def isSpecialName (name : Name) : Bool := name.toList.head? == some '<'

inductive ClassKind where
  | plain
  | interface
  | abstract
  deriving DecidableEq, Repr

/-- The modifiers a class of this kind has when none are given. -/
def ClassKind.modifiers : ClassKind → Modifiers
  | .plain => ⟨0x0001⟩
  | .interface => ⟨0x0601⟩
  | .abstract => ⟨0x0401⟩

/-- A field; its identity is its class, its name and its type. -/
structure Field where
  name : Name
  type : Ty
  modifiers : Modifiers
  constant : Option Literal
  annotations : List AnnotationUse

structure Param where
  name : Name
  type : Ty
  deriving DecidableEq

structure Method where
  /-- A number that stands for the method in reflective calls. -/
  id : Nat
  name : Name
  params : List Param
  ret : Ty
  modifiers : Modifiers
  annotations : List AnnotationUse
  /-- One list for each parameter. -/
  paramAnnotations : List (List AnnotationUse)
  /-- What an annotation element is when it is left out. -/
  defaultValue : Option AnnotationValue
  /-- Abstract and native methods have none. -/
  body : Option Body

structure ClassModel where
  /-- The dotted name. -/
  name : Name
  kind : ClassKind
  superclass : Option Name
  interfaces : List Name
  modifiers : Modifiers
  markers : Markers
  /-- The existing target type that the class stands for; such a class is not generated. -/
  nativeName : Option Name
  sourceFile : Option Name
  annotations : List AnnotationUse
  fields : List Field
  methods : List Method

def Field.isStatic (f : Field) : Bool := f.modifiers.isStatic

namespace Method

def type (m : Method) : MethodTy := ⟨m.params.map Param.type, m.ret⟩

def isStatic (m : Method) : Bool := m.modifiers.isStatic

def hasBody (m : Method) : Bool := m.body.isSome

def isConstructor (m : Method) : Bool := m.name == constructorName

/-- Whether a method of a subclass replaces this one. -/
def isOverridable (m : Method) : Bool := !m.isStatic && !m.modifiers.isPrivate

/-- Whether the method has this name and type. -/
def hasSignature (m : Method) (name : Name) (type : MethodTy) : Bool := m.name == name && m.type == type

end Method

namespace ClassModel

def isInterface (c : ClassModel) : Bool := c.kind == .interface

def isNative (c : ClassModel) : Bool := c.nativeName.isSome

def findMethod? (c : ClassModel) (name : Name) (type : MethodTy) : Option Method :=
  c.methods.find? fun m => m.hasSignature name type

def findField? (c : ClassModel) (name : Name) (type : Ty) : Option Field :=
  c.fields.find? fun f => f.name == name && f.type == type

def hasStaticMembers (c : ClassModel) : Bool :=
  c.fields.any Field.isStatic || c.methods.any Method.isStatic

end ClassModel

end HaxeBackend
