import HaxeBackend.Generation.Method
import HaxeBackend.Model.Dispatch
import HaxeBackend.Target.Companion

/-!
# Companions of an interface

Every interface has a proxy or an adapter, whichever its abstract methods allow.  Annotation types also have an
implementation that holds their values, and interfaces bound to a native library a class that calls it.
-/

namespace HaxeBackend.Generation

open Target (Signature)

/-- The parameters of a synthesized function. -/
def positionalParams (m : Method) : List (String × Ty) := Lowering.positional m.type.args

/-- A function that stands for a method of an interface, with parameters by position. -/
def forwardSignature (p : Program) (entry : MethodEntry) (isOverride : Bool) : Signature where
  isOverride := isOverride
  name := Naming.method entry.owner.name entry.method
  params := tagged p (positionalParams entry.method)
  ret := Naming.typeTag p entry.method.ret

def companionHeader (p : Program) (c : ClassModel) (kind : Companion) (parent : String) :
    Target.CompanionHeader where
  name := Naming.companionSimple c.name kind
  parent := parent
  interface := Naming.qualified p c.name

/-! ### Proxies -/

def dynamicReturn (p : Program) (type : Ty) : Target.DynamicReturn :=
  if type.isVoid then .nothing
  else
    match type.prim? with
    | some kind => .unboxed ("unbox" ++ Lowering.boxKind kind)
    | none => .castTo (Naming.typeTag p type)

/-- An argument as the handler takes it: primitives are boxed. -/
def boxedParam (param : String × Ty) : Target.Expr :=
  match param.2.prim? with
  | some kind => Lowering.box kind (.var param.1)
  | none => .var param.1

def proxyMethod (p : Program) (entry : MethodEntry) : Target.ProxyMethod where
  signature := forwardSignature p entry (p.rootDeclares entry.method)
  id := entry.method.id
  args := (positionalParams entry.method).map boxedParam
  ret := dynamicReturn p entry.method.ret

/-- The type of the method that handlers have. -/
def invokeType : MethodTy :=
  let object := Ty.ref objectClass
  ⟨[object, .ref Target.methodClass, .array object 1], object⟩

def proxyClass (p : Program) (c : ClassModel) : Target.ProxyClass where
  header := companionHeader p c .proxy (Naming.qualified p objectClass)
  sourceName := c.name
  classTag := Naming.qualified p Target.classClass
  handlerTag := Naming.qualified p Target.handlerClass
  invoke := Naming.virtualMethod "invoke" invokeType
  methods := (p.methodsToImplement c.name).map (proxyMethod p)

/-! ### Adapters -/

/-- A method without a body forwards to the wrapped function, any other is copied. -/
def adapterMethod (env : Env) (c : ClassModel) (entry : MethodEntry) : GenM Target.AdapterMethod := do
  let isOverride := env.program.rootDeclares entry.method
  if entry.method.hasBody then
    let site : MethodSite := ⟨entry.owner, none, .through c.name, isOverride⟩
    return .copied (← method env site entry.method)
  else
    return .forward (forwardSignature env.program entry isOverride) (!entry.method.ret.isVoid)

def adapterMethods (env : Env) (c : ClassModel) : List MethodEntry → GenM (List Target.AdapterMethod)
  | [] => return []
  | entry :: rest => do
    let first ← adapterMethod env c entry
    return first :: (← adapterMethods env c rest)

def adapterClass (env : Env) (c : ClassModel) : GenM Target.AdapterClass := do
  let p := env.program
  let header := companionHeader p c .adapter (Naming.qualified p objectClass)
  let entries := p.methodsToImplement c.name
  match entries.find? fun entry => !entry.method.hasBody with
  | none => return ⟨header, none⟩
  | some entry =>
    return ⟨header, some (Naming.functionType p entry.method.type, ← adapterMethods env c entries)⟩

/-! ### Annotation implementations -/

/-- The methods that stand for the elements of an annotation type. -/
def accessors (c : ClassModel) : List Method := c.methods.filter Program.isInstanceMethod

def annotationClass (p : Program) (c : ClassModel) : Target.AnnotationClass where
  header := companionHeader p c .annotationImpl Target.annotationBase
  sourceName := c.name
  classTag := Naming.qualified p Target.classClass
  typeMethod := Naming.virtualMethod "annotationType" ⟨[], .ref Target.classClass⟩
  accessors := (accessors c).map fun m =>
    { name := Naming.method c.name m, params := [], ret := Naming.typeTag p m.ret }

/-! ### Library bindings -/

def isStringType (type : Ty) : Bool := type == .ref stringClass

/-- The native type that values are passed as. -/
def nativeType (type : Ty) : String :=
  match type with
  | .void => "void"
  | .prim .bool => "bool"
  | .prim .byte | .prim .short | .prim .char | .prim .int => "int"
  | .prim .long => "int64_t"
  | .prim .float => "float"
  | .prim .double => "double"
  | type => if isStringType type then "char*" else "void*"

/-- Strings are passed as pointers to their characters. -/
def nativeArg (param : String × Ty) : String :=
  let text := Target.nativesCall "toNativeString" [param.1]
  if isStringType param.2 then s!"cpp.NativeString.c_str({text})" else param.1

/-- Native code with the values that its placeholders stand for. -/
def nativeCode (code : String) (values : List String) : String :=
  let literal := s!"'{code}'"
  s!"untyped __cpp__({Target.argumentList (literal :: values)})"

/-- The line that calls a function by its pointer; a string result is boxed like a literal. -/
def nativeCall (m : Method) (slot : String) : String :=
  let ret := nativeType m.ret
  let types := m.params.map fun param => nativeType param.type
  let convention := if (findUse? m.annotations Target.stdCallMark).isSome then "(__stdcall *)" else "(*)"
  let casts := (List.range types.length).zip types |>.map fun (i, type) => s!"({type})\x7b{i + 1}\x7d"
  let call := s!"(({ret} {convention}({Target.argumentList types}))(void *)(size_t)\x7b0\x7d)"
    ++ s!"({Target.argumentList casts})"
  let values := slot :: (positionalParams m).map nativeArg
  if m.ret.isVoid then nativeCode s!"{call};" values ++ ";"
  else if isStringType m.ret then
    let text := nativeCode s!"::String((const char *)({call}))" values
    "return " ++ Target.numCall "str" [text] ++ ";"
  else nativeCode s!"return ({ret})({call});" values ++ ";"

def libraryMethod (p : Program) (entry : MethodEntry) : Target.LibraryMethod :=
  let m := entry.method
  let slot := "__ffi_" ++ Naming.method entry.owner.name m
  { signature := forwardSignature p entry false
    slot := slot
    symbol := m.name
    call := nativeCall m slot
    fallback := if m.ret.isVoid then none else some (Naming.defaultValue m.ret) }

def libraryClass (p : Program) (c : ClassModel) : Target.LibraryClass where
  header := companionHeader p c .library (Naming.qualified p objectClass)
  methods := (p.methodsToImplement c.name).map (libraryMethod p)

end HaxeBackend.Generation
