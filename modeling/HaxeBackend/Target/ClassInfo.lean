import HaxeBackend.Model.Ty
import HaxeBackend.Target.Code
import HaxeBackend.Target.Expr

/-!
# Registration for reflection

The routine of a class that registers it with the support library: the class itself, then each field, constructor
and method with its modifiers, its descriptor and its annotations.
-/

namespace HaxeBackend.Target

/-- The class, the companions it has, and its place in the hierarchy. -/
structure ClassEntry where
  className : String
  proxy : Option String
  adapter : Option String
  library : Option String
  superclass : Option Name
  interfaces : List Name
  modifiers : UInt32
  /-- The list of annotations. -/
  uses : Expr

/-- A member; `slot` counts the members of its kind. -/
inductive MemberEntry where
  | field (target : String) (slot : Nat) (name : Name) (descriptor : String) (modifiers : UInt32) (uses : Expr)
  | constructor (target : String) (slot : Nat) (modifiers : UInt32) (descriptor : String) (uses paramUses : Expr)
  | method (id : Nat) (target : String) (slot : Nat) (name : Name) (modifiers : UInt32) (descriptor : String)
      (uses paramUses : Expr)

structure ClassInfo where
  /-- The static holders that the annotations need. -/
  guards : List String
  entry : ClassEntry
  members : List MemberEntry

def ClassEntry.text (e : ClassEntry) : String :=
  let args :=
    [e.className, e.proxy.getD "null", e.adapter.getD "null", e.library.getD "null",
      (e.superclass.map quote).getD "null", s!"[{argumentList (e.interfaces.map quote)}]", toString e.modifiers,
      e.uses.text]
  s!"var c = {reflectClass}.i({argumentList args});"

def MemberEntry.text : MemberEntry → String
  | field target slot name descriptor modifiers uses =>
    let args := ["c", quote target, toString slot, quote name, quote descriptor, toString modifiers, uses.text]
    s!"{reflectClass}.f({argumentList args});"
  | constructor target slot modifiers descriptor uses paramUses =>
    let args := ["c", quote target, toString slot, toString modifiers, quote descriptor, uses.text, paramUses.text]
    s!"{reflectClass}.c({argumentList args});"
  | method id target slot name modifiers descriptor uses paramUses =>
    let args := ["c", toString id, quote target, toString slot, quote name, toString modifiers, quote descriptor,
      uses.text, paramUses.text]
    s!"{reflectClass}.m({argumentList args});"

def ClassInfo.code (i : ClassInfo) : Code :=
  .block s!"static public function {classInfo}():Void" <|
    .lines (i.guards.map guardText) ++ .line i.entry.text ++ .lines (i.members.map MemberEntry.text)

end HaxeBackend.Target
