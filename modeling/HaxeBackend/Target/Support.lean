import HaxeBackend.Text.Hex

/-!
# The support library, as generated code sees it

Names of the classes and members that generated code refers to, of the annotations that steer generation, and the
quoting of string literals.
-/

namespace HaxeBackend.Target

/-! ### Classes of the support library -/

/-- Numeric helpers. -/
def numClass : String := "N"

/-- Boxing and class look-up. -/
def nativesClass : String := "HxNatives"

/-- Registration for reflection, and faults of missing methods. -/
def reflectClass : String := "R"

def arrayBase : String := "ArrayBase"

/-- Arrays of references and of arrays. -/
def objectArray : String := "ObjectArray"

def annotationBase : String := "AnnotationBase"

def libraryMarker : String := "HxFfiLibrary"

def dynamicLoad : String := "HxDynamicLoad"

/-! ### Members that every class may have -/

def initFlag : String := "SII"

def initRoutine : String := "SI"

def classInfo : String := "__classInfo__"

/-- The variable that holds the last caught value of a method. -/
def caughtSlot : String := "__exc"

def catchBinding : String := "__e"

/-- What the names of pooled string literals start with. -/
def poolStem : String := "__str"

/-! ### Classes that generated code refers to by source name -/

def classClass : String := "java.lang.Class"

def handlerClass : String := "java.lang.reflect.InvocationHandler"

def methodClass : String := "java.lang.reflect.Method"

/-! ### Annotations that steer generation -/

/-- Annotations of this package are never registered for reflection. -/
def steeringPackage : String := "hx.annotation."

def methodBodyMark : String := "hx.annotation.MethodBody"

def methodBodyListMark : String := "hx.annotation.MethodBodyList"

def methodBodyPreMark : String := "hx.annotation.MethodBodyPre"

def methodBodyPostMark : String := "hx.annotation.MethodBodyPost"

def metaMark : String := "hx.annotation.Meta"

def addMembersMark : String := "hx.annotation.AddMembers"

def keepMark : String := "hx.annotation.Keep"

def removeFieldMark : String := "hx.annotation.RemoveField"

def availableOnTargetsMark : String := "hx.annotation.AvailableOnTargets"

def importsMark : String := "hx.annotation.Imports"

def nativeConversionMark : String := "hx.annotation.NativeConversion"

def stdCallMark : String := "hx.annotation.StdCall"

/-! ### Quoting -/

/-- The characters that stand for one character inside a double-quoted literal.  A dollar sign stands for itself,
since only single-quoted literals interpolate. -/
def quoteChar (c : Char) : List Char :=
  match c with
  | '"' => ['\\', '"']
  | '\\' => ['\\', '\\']
  | '\n' => ['\\', 'n']
  | '\r' => ['\\', 'r']
  | '\t' => ['\\', 't']
  | c =>
    if c.toNat < 32 ∨ c.toNat = 127 then
      '\\' :: 'x' :: Text.hexDigits Text.hexDigitUpper 2 c.toNat
    else if 127 < c.toNat then
      '\\' :: 'u' :: '\x7b' :: (Text.hexUpper c.toNat ++ ['\x7d'])
    else [c]

/-- The characters of a double-quoted literal. -/
def quoteChars (text : List Char) : List Char :=
  '"' :: (text.flatMap quoteChar ++ ['"'])

/-- A double-quoted literal, in ASCII. -/
def quote (text : String) : String := String.ofList (quoteChars text.toList)

/-- Arguments between parentheses. -/
def argumentList (args : List String) : String := ", ".intercalate args

/-- A call of a numeric helper. -/
def numCall (name : String) (args : List String) : String :=
  s!"{numClass}.{name}({argumentList args})"

/-- A call of a boxing or look-up helper. -/
def nativesCall (name : String) (args : List String) : String :=
  s!"{nativesClass}.{name}({argumentList args})"

end HaxeBackend.Target
