import HaxeBackend.Support.Value

/-!
# Objects of companions

What the companions of an interface do when they are called: a proxy looks a method up by its number and hands the
call to its handler, an adapter calls a function, an annotation gives its values by position, and a library binding
looks up its symbols.
-/

namespace HaxeBackend.Support

/-- A method as it is registered. -/
structure MethodInfo where
  id : Int32
  name : String
  descriptor : String
  deriving DecidableEq, Repr

/-- A class as it is registered, with its methods in the order of registration. -/
structure ClassDescriptor where
  name : String
  methods : List MethodInfo := []
  deriving DecidableEq, Repr

namespace ClassDescriptor

def register (c : ClassDescriptor) (m : MethodInfo) : ClassDescriptor := { c with methods := c.methods ++ [m] }

/-- The first method with a number. -/
def locate (c : ClassDescriptor) (id : Int32) : Except Fault MethodInfo :=
  match c.methods.find? fun m => m.id == id with
  | some m => .ok m
  | none => .error (.noSuchMethod id)

end ClassDescriptor

/-- What a handler does with a call, with effects in `m`. -/
abbrev Handler (m : Type → Type := Id) := MethodInfo → List Value → m (Except Fault Value)

structure Proxy (m : Type → Type := Id) where
  descriptor : ClassDescriptor
  handler : Handler m

/-- Hands a call to the handler; a number that no method has does not get so far. -/
def Proxy.invoke {m : Type → Type} [Monad m] (p : Proxy m) (id : Int32) (args : List Value) :
    m (Except Fault Value) :=
  match p.descriptor.locate id with
  | .ok method => p.handler method args
  | .error fault => pure (.error fault)

structure Adapter where
  function : List Value → Except Fault Value

/-- The only abstract method of the interface. -/
def Adapter.call (a : Adapter) (args : List Value) : Except Fault Value := a.function args

structure AnnotationObject where
  typeName : String
  data : List Value
  deriving DecidableEq, Repr

/-- A position as a method number; past the largest int there is only the largest. -/
def slotNumber (slot : Nat) : Int32 := if slot < 2147483648 then Int32.ofNat slot else Int32.maxValue

/-- The value of the element at a position. -/
def AnnotationObject.get (a : AnnotationObject) (slot : Nat) : Except Fault Value :=
  match a.data[slot]? with
  | some v => .ok v
  | none => .error (.noSuchMethod (slotNumber slot))

/-! ### Symbols of a library -/

/-- An address for each symbol that was asked for. -/
structure LoadReport where
  entries : List (String × Option Nat)
  deriving DecidableEq, Repr

/-- Looks symbols up; a missing one leaves its function without an address. -/
def loadSymbols (library : List (String × Nat)) (symbols : List String) : LoadReport :=
  ⟨symbols.map fun s => (s, library.lookup s)⟩

namespace LoadReport

def addresses (r : LoadReport) : List (Option Nat) := r.entries.map Prod.snd

def missing (r : LoadReport) : List String :=
  (r.entries.filter fun e => e.2.isNone).map Prod.fst

def isComplete (r : LoadReport) : Bool := r.missing.isEmpty

def text (r : LoadReport) : String :=
  String.join (r.missing.map fun s => s!"Can't find symbol {s}\n")

end LoadReport

end HaxeBackend.Support
