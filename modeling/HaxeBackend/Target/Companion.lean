import HaxeBackend.Target.Function

/-!
# Companion classes

The classes that are generated beside an interface: a proxy, an adapter, an annotation implementation and a binding
of a native library.  Each keeps its functions apart from the members that every such class has.
-/

namespace HaxeBackend.Target

/-- The declaration line of a companion: its name, the class it extends and the interface it implements. -/
structure CompanionHeader where
  name : String
  parent : String
  interface : String
  deriving DecidableEq, Repr

def CompanionHeader.text (h : CompanionHeader) : String :=
  s!"class {h.name} extends {h.parent} implements {h.interface}"

/-- The look-up of a class by its source name. -/
def resolveClass (sourceName : Name) : String := nativesCall "resolveClass" [quote sourceName]

/-! ### Proxies -/

/-- How a value of any type is returned. -/
inductive DynamicReturn where
  | nothing
  /-- Through a helper that unboxes it. -/
  | unboxed (helper : String)
  | castTo (tag : String)
  deriving DecidableEq, Repr

def DynamicReturn.text (call : String) : DynamicReturn → String
  | nothing => s!"{call};"
  | unboxed helper => s!"return {nativesCall helper [call]};"
  | castTo tag => s!"return cast({call}, {tag});"

/-- A function that hands its arguments to the handler, with the number of its method. -/
structure ProxyMethod where
  signature : Signature
  id : Nat
  args : List Expr
  ret : DynamicReturn

structure ProxyClass where
  header : CompanionHeader
  /-- The source name of the interface. -/
  sourceName : Name
  classTag : String
  handlerTag : String
  /-- The handler's method. -/
  invoke : String
  methods : List ProxyMethod

def ProxyMethod.code (m : ProxyMethod) : Code :=
  let call := s!"this.__invoke({m.id}, {(Expr.list m.args).text})"
  .block m.signature.text (.line (m.ret.text call))

def ProxyClass.code (c : ProxyClass) : Code :=
  let descriptor := quote "[Ljava.lang.Object;"
  let array := s!"{objectArray}.fromArray(args, {descriptor})"
  .block c.header.text <|
    .line s!"private var __clazz:{c.classTag};" ++
    .line s!"private var __handler:{c.handlerTag};" ++
    .block s!"public function new(handler:{c.handlerTag})"
      (.lines ["super();", s!"this.__clazz = {resolveClass c.sourceName};", "this.__handler = handler;"]) ++
    .block "private function __invoke(methodId:Int, args:Array<Dynamic>):Dynamic"
      (.lines ["var method = this.__clazz.locateMethodById(methodId);",
        s!"return this.__handler.{c.invoke}(this, method, {array});"]) ++
    .ofList (c.methods.map ProxyMethod.code)

/-! ### Adapters -/

inductive AdapterMethod where
  /-- Hands its arguments to the wrapped function. -/
  | forward (signature : Signature) (returnsValue : Bool)
  /-- A copy of a method with a body. -/
  | copied (function : Function)

structure AdapterClass where
  header : CompanionHeader
  /-- The type of the wrapped function and the methods; an interface without an abstract method has none. -/
  members : Option (String × List AdapterMethod)

def AdapterMethod.code : AdapterMethod → Code
  | forward signature returnsValue =>
    let call := s!"__func({argumentList (signature.params.map Prod.fst)})"
    .block signature.text (.line (if returnsValue then s!"return {call};" else s!"{call};"))
  | copied function => function.code

def AdapterClass.code (c : AdapterClass) : Code :=
  .block c.header.text <|
    match c.members with
    | none => .empty
    | some (type, methods) =>
      .line s!"private var __func:{type};" ++
      .block s!"public function new(func:{type})" (.lines ["super();", "this.__func = func;"]) ++
      .ofList (methods.map AdapterMethod.code)

/-! ### Annotation implementations -/

structure AnnotationClass where
  header : CompanionHeader
  sourceName : Name
  classTag : String
  /-- The method that tells the annotation type. -/
  typeMethod : String
  /-- One for each element, which returns the value at its position. -/
  accessors : List Signature

def accessorCode (slot : Nat) (signature : Signature) : Code :=
  .block signature.text (.line s!"return this.__data[{slot}];")

def AnnotationClass.code (c : AnnotationClass) : Code :=
  .block c.header.text <|
    .line "private var __data:Array<Dynamic>;" ++
    .block "public function new(data:Array<Dynamic> = null)" (.lines ["super();", "this.__data = data;"]) ++
    .block s!"public function {c.typeMethod}():{c.classTag}" (.line s!"return {resolveClass c.sourceName};") ++
    .ofList (List.zipWith accessorCode (List.range c.accessors.length) c.accessors)

/-! ### Library bindings -/

/-- A function of a native library, reached by a pointer that is kept in a slot. -/
structure LibraryMethod where
  signature : Signature
  slot : String
  symbol : Name
  /-- The line that makes the call. -/
  call : String
  /-- What is returned where there is no native code. -/
  fallback : Option String

structure LibraryClass where
  header : CompanionHeader
  methods : List LibraryMethod

/-- Looks the symbol up and reports when it is missing. -/
def LibraryMethod.loadLines (m : LibraryMethod) : List String :=
  let report := s!"Can't find symbol {m.symbol}"
  [s!"{m.slot} = {dynamicLoad}.dlsym(__ffi_lib, {quote m.symbol});",
    s!"if ({m.slot} == 0) trace({quote report});"]

def LibraryMethod.code (m : LibraryMethod) : Code :=
  .block s!"@:noStack {m.signature.text}" <|
    .lines ["#if cpp", m.call, "#end"] ++
    match m.fallback with
    | some value => .line s!"return {value};"
    | none => .empty

def LibraryClass.code (c : LibraryClass) : Code :=
  let report := quote "Cannot open library "
  .block s!"{c.header.text} implements {libraryMarker}" <|
    .line "private var __ffi_lib:haxe.Int64 = 0;" ++
    .lines (c.methods.map fun m => s!"private var {m.slot}:haxe.Int64 = 0;") ++
    .block "public function new()" (.line "super();") ++
    .block "@:noStack public function _ffi__load(library:String):Void"
      (.lines (["#if cpp", s!"__ffi_lib = {dynamicLoad}.dlopen(library);",
          s!"if (__ffi_lib == 0) trace({report} + library);"] ++
        c.methods.flatMap LibraryMethod.loadLines ++ ["#end"])) ++
    .block "@:noStack public function _ffi__close():Void"
      (.lines ["#if cpp", s!"{dynamicLoad}.dlclose(__ffi_lib);", "#end", "__ffi_lib = 0;"]) ++
    .ofList (c.methods.map LibraryMethod.code)

end HaxeBackend.Target
