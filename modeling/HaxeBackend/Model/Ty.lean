/-!
# Types of the source language

Every expression, field and method signature carries one `Ty`.  A type has a descriptor, a compact form in which
classes are written with slashes (`Ljava/lang/String;`, `[[J`), and a display form (`java.lang.String`, `long[][]`).
-/

namespace HaxeBackend

/-- Class, member and variable names, and the texts of string constants. -/
abbrev Name := String

/-- Primitive kinds. -/
inductive Prim where
  | bool
  | byte
  | short
  | char
  | int
  | long
  | float
  | double
  deriving DecidableEq, Repr

namespace Prim

/-- The letter of the kind in descriptors. -/
def code : Prim → Char
  | bool => 'Z'
  | byte => 'B'
  | short => 'S'
  | char => 'C'
  | int => 'I'
  | long => 'J'
  | float => 'F'
  | double => 'D'

def ofCode? : Char → Option Prim
  | 'Z' => some bool
  | 'B' => some byte
  | 'S' => some short
  | 'C' => some char
  | 'I' => some int
  | 'J' => some long
  | 'F' => some float
  | 'D' => some double
  | _ => none

def sourceName : Prim → String
  | bool => "boolean"
  | byte => "byte"
  | short => "short"
  | char => "char"
  | int => "int"
  | long => "long"
  | float => "float"
  | double => "double"

/-- Kinds that are computed in 32-bit integer registers. -/
def isIntLike : Prim → Bool
  | byte | short | char | int => true
  | _ => false

def isFloating : Prim → Bool
  | float | double => true
  | _ => false

@[simp]
theorem ofCode?_code (k : Prim) : ofCode? k.code = some k := by
  cases k <;> rfl

end Prim

/-- A type; `array element dims` has `dims` dimensions over `element`. -/
inductive Ty where
  | void
  | prim (kind : Prim)
  | ref (name : Name)
  | array (element : Ty) (dims : Nat)
  deriving DecidableEq, Repr

namespace Ty

abbrev bool : Ty := .prim .bool

/-- An array type; dimensions of an array element are added up. -/
def arrayOf (element : Ty) (dims : Nat) : Ty :=
  match element with
  | .array inner inners => .array inner (inners + dims)
  | other => .array other dims

def isVoid : Ty → Bool
  | .void => true
  | _ => false

def isPrimitive : Ty → Bool
  | .prim _ => true
  | _ => false

def isArray : Ty → Bool
  | .array .. => true
  | _ => false

def prim? : Ty → Option Prim
  | .prim kind => some kind
  | _ => none

def className? : Ty → Option Name
  | .ref name => some name
  | _ => none

/-- The type of one element; a type that is no array is its own component. -/
def component : Ty → Ty
  | .array element dims => if 1 < dims then .array element (dims - 1) else element
  | other => other

/-- The class a type mentions, which for arrays is that of the element. -/
def mentioned? : Ty → Option Name
  | .ref name => some name
  | .array element _ => element.mentioned?
  | _ => none

/-- Dots become slashes in descriptors. -/
def slashed (c : Char) : Char := if c = '.' then '/' else c

/-- The characters of the descriptor. -/
def signature : Ty → List Char
  | .void => ['V']
  | .prim kind => [kind.code]
  | .ref name => 'L' :: (name.toList.map slashed ++ [';'])
  | .array element dims => List.replicate dims '[' ++ element.signature

def descriptor (t : Ty) : String := String.ofList t.signature

/-- The source spelling. -/
def display : Ty → String
  | .void => "void"
  | .prim kind => kind.sourceName
  | .ref name => name
  | .array element dims => element.display ++ String.join (List.replicate dims "[]")

end Ty

/-- A method signature. -/
structure MethodTy where
  args : List Ty
  ret : Ty
  deriving DecidableEq, Repr

namespace MethodTy

def signature (t : MethodTy) : List Char :=
  '(' :: (t.args.flatMap Ty.signature ++ ')' :: t.ret.signature)

def descriptor (t : MethodTy) : String := String.ofList t.signature

end MethodTy

end HaxeBackend
