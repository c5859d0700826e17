import HaxeBackend.Model.Program
import HaxeBackend.Naming.Encoding
import HaxeBackend.Naming.Reserved
import HaxeBackend.Text.Lines

/-!
# Target names

Every class, method and field has a target name that encodes its source name, so that different members never
share one.

* Packages: each segment is encoded; one that does not start with a lower-case letter gets `p_l` in front, and one
  that is a keyword or a standard package gets `_` behind.
* Classes: encoded; a name that does not start with an upper-case letter gets `C_l` in front, and one that is a
  standard type or a type of the support library gets `_` behind.
* Methods: the name and the mangled descriptor, so overloads differ and overriding methods agree.  Constructors and
  private instance methods also carry their class.
* Fields: the encoded name; a field that shadows one of a superclass also carries its class.
* Locals and parameters are only made valid here, and told apart where they are declared.
-/

namespace HaxeBackend

/-- Classes generated beside a source class. -/
inductive Companion where
  /-- Holds the static fields and methods of an interface. -/
  | staticHolder
  /-- Forwards every call to an invocation handler. -/
  | proxy
  /-- Wraps a function value. -/
  | adapter
  /-- Holds the values of an annotation. -/
  | annotationImpl
  /-- Binds a native library. -/
  | library
  deriving DecidableEq, Repr

def Companion.suffix : Companion → String
  | staticHolder => "_IFields_"
  | proxy => "_Proxy"
  | adapter => "_Lambda"
  | annotationImpl => "_Impl"
  | library => "_FFI"

namespace Naming

/-! ### Classes -/

/-- Puts `stem` in front unless the first character is as wanted, and `_` behind a word that is taken. -/
def adjust (stem : String) (wanted : Char → Bool) (taken : List String) (encoded : List Char) : String :=
  let word := if encoded.head?.any wanted then encoded else stem.toList ++ encoded
  if taken.contains (String.ofList word) then String.ofList (word ++ ['_']) else String.ofList word

def packageSegment (segment : List Char) : String :=
  adjust "p_l" isAsciiLower (keywords ++ standardPackages) (encodeIdent segment)

/-- The package of a source class; the default package is empty. -/
def package (source : Name) : String :=
  match (Text.splitLast '.' source.toList).1 with
  | none => ""
  | some segments => ".".intercalate ((Text.splitAt '.' segments).map packageSegment)

/-- The name of a source class without its package. -/
def simple (source : Name) : String :=
  adjust "C_l" isAsciiUpper (standardTypes ++ supportTypes) (encodeIdent (Text.splitLast '.' source.toList).2)

def qualify (package simple : String) : String :=
  if package.isEmpty then simple else package ++ "." ++ simple

/-- The name a generated class has. -/
def generated (source : Name) : String := qualify (package source) (simple source)

/-- Whether a class stands for an existing target type. -/
def isNative (p : Program) (source : Name) : Bool :=
  (p.find? source).any ClassModel.isNative

/-- The full name of a class: that of the target type it stands for, or the generated one. -/
def qualified (p : Program) (source : Name) : String :=
  ((p.find? source).bind ClassModel.nativeName).getD (generated source)

/-- The path of the unit of a class. -/
def filePath (source : Name) : String :=
  if (package source).isEmpty then simple source ++ ".hx"
  else (package source).map (fun c => if c = '.' then '/' else c) ++ "/" ++ simple source ++ ".hx"

def companionSimple (source : Name) (kind : Companion) : String := simple source ++ kind.suffix

/-- Companions stand in the module of their class and are addressed through it. -/
def companion (source : Name) (kind : Companion) : String :=
  generated source ++ "." ++ companionSimple source kind

/-- The class that has the statics and the initialization guard of a class. -/
def staticHolder (p : Program) (source : Name) : String :=
  if (p.find? source).any ClassModel.isInterface then companion source .staticHolder else qualified p source

/-- The statement that initializes a class. -/
def guardCall (p : Program) (source : Name) : String :=
  s!"{staticHolder p source}.{Target.initRoutine}();"

/-! ### Members -/

/-- The encoding of a field name, with `_` behind a reserved word. -/
def encodeMember (text : List Char) : List Char :=
  let word := encodeIdent text
  if isReserved word then word ++ ['_'] else word

/-- A valid name for a local, a parameter or a member of a target type. -/
def escapeMember (text : Name) : String :=
  let word := sanitize text.toList
  if isReserved word then String.ofList (word ++ ['_']) else String.ofList word

/-- The name of a method that can be overridden, whichever class declares it. -/
def virtualMethod (name : Name) (type : MethodTy) : String :=
  String.ofList (encodeIdent name.toList ++ mangle false type.signature)

/-- The name of a declared method. -/
def method (owner : Name) (m : Method) : String :=
  let descriptor := mangle false m.type.signature
  if m.isConstructor then
    String.ofList ("_init".toList ++ descriptor ++ '_' :: encodePath owner.toList)
  else if m.modifiers.isPrivate && !m.isStatic then
    String.ofList (encodeIdent m.name.toList ++ descriptor ++ '_' :: encodePath owner.toList)
  else virtualMethod m.name m.type

/-- Whether a superclass declares a field of this name too. -/
def shadows (p : Program) (c : ClassModel) (name : Name) : Bool :=
  (p.superclasses c).any fun s => s.fields.any fun f => f.name == name

/-- The name of a field of a class. -/
def field (p : Program) (owner name : Name) : String :=
  let base := encodeMember name.toList
  match p.find? owner with
  | some c =>
    if (c.fields.any fun f => f.name == name) && shadows p c name then
      String.ofList (base ++ '_' :: 'o' :: encodePath owner.toList)
    else String.ofList base
  | none => String.ofList base

/-! ### Types -/

def primTag : Prim → String
  | .bool => "Bool"
  | .byte | .short | .char | .int => "Int"
  | .long => "haxe.Int64"
  | .float | .double => "Float"

def typedArray : Prim → String
  | .bool => "BoolArray"
  | .byte => "ByteArray"
  | .short => "ShortArray"
  | .char => "CharArray"
  | .int => "IntArray"
  | .long => "LongArray"
  | .float => "FloatArray"
  | .double => "DoubleArray"

/-- The class of arrays of a type: one-dimensional arrays of primitives have their own. -/
def arrayClass : Ty → String
  | .array (.prim kind) 1 => typedArray kind
  | _ => Target.objectArray

/-- A type as it is written behind a colon. -/
def typeTag (p : Program) : Ty → String
  | .void => "Void"
  | .prim kind => primTag kind
  | .ref name => qualified p name
  | .array element dims => arrayClass (.array element dims)

/-- The function type of a method signature. -/
def functionType (p : Program) (type : MethodTy) : String :=
  let args := if type.args.isEmpty then ["Void"] else type.args.map (typeTag p)
  "->".intercalate (args ++ [typeTag p type.ret])

/-- What a variable of the type holds before it is assigned. -/
def defaultValue (t : Ty) : String :=
  match t with
  | .prim .bool => "false"
  | .prim .long => "N.lnew(0, 0)"
  | .prim .float | .prim .double => "0.0"
  | .prim _ => "0"
  | _ => "null"

end Naming

end HaxeBackend
