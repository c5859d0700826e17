import HaxeBackend.Target.Support

/-!
# Reserved names

Words that a generated identifier must not be: keywords, standard packages and types of the target, types of the
support library, and the members that every generated class may have itself.
-/

namespace HaxeBackend.Naming

def keywords : List String :=
  ["abstract", "break", "case", "cast", "catch", "class", "continue", "default", "do", "dynamic", "else", "enum",
    "extends", "extern", "false", "final", "for", "function", "if", "implements", "import", "in", "inline",
    "interface", "macro", "new", "null", "operator", "overload", "override", "package", "private", "public",
    "return", "static", "super", "switch", "this", "throw", "true", "try", "typedef", "untyped", "using", "var",
    "while"]

def standardPackages : List String :=
  ["haxe", "sys", "js", "cpp", "java", "cs", "neko", "php", "python", "lua", "flash", "hl", "eval", "jvm"]

def standardTypes : List String :=
  ["Any", "Array", "Bool", "Class", "Date", "Dynamic", "EReg", "Enum", "EnumValue", "Float", "Int", "IntIterator",
    "Iterable", "Iterator", "Lambda", "List", "Map", "Math", "Null", "Reflect", "Std", "String", "StringBuf",
    "StringTools", "Sys", "Type", "UInt", "Void", "Xml"]

/-- Arrays of primitives, one class for each kind. -/
def typedArrays : List String :=
  ["BoolArray", "ByteArray", "ShortArray", "CharArray", "IntArray", "LongArray", "FloatArray", "DoubleArray"]

def supportTypes : List String :=
  [Target.numClass, Target.nativesClass, Target.reflectClass, Target.arrayBase, Target.objectArray,
    Target.annotationBase, Target.libraryMarker, Target.dynamicLoad] ++ typedArrays

/-- Members that generated classes declare themselves. -/
def ownMembers : List String :=
  [Target.initFlag, Target.initRoutine, Target.classInfo, Target.caughtSlot, Target.catchBinding, "__func", "__data",
    "__handler", "__clazz", "__invoke"]

/-- Whether a member or variable must not have this name. -/
def isReserved (ident : List Char) : Bool :=
  let word := String.ofList ident
  keywords.contains word || ownMembers.contains word || Target.poolStem.toList.isPrefixOf ident

end HaxeBackend.Naming
