import HaxeBackend.Model.Program

/-!
# How objects of an interface can be made on the fly

An interface with a single abstract method that extends nothing can be implemented by a function value.  Any other
is implemented by a proxy that hands every call to a handler.
-/

namespace HaxeBackend

inductive Dispatch where
  /-- A reflective proxy. -/
  | proxy
  /-- A functional adapter. -/
  | adapter
  deriving DecidableEq, Repr

namespace Program

def dispatch (p : Program) (c : ClassModel) : Dispatch :=
  if c.interfaces.isEmpty && (p.abstractMethods c.name).length == 1 then .adapter else .proxy

/-- Whether the root class declares a method that this one replaces. -/
def rootDeclares (p : Program) (m : Method) : Bool :=
  ((p.find? objectClass).bind fun c => c.findMethod? m.name m.type).any Method.isOverridable

end Program

end HaxeBackend
