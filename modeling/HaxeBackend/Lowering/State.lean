import HaxeBackend.Diagnostic.Basic
import HaxeBackend.Naming.Basic
import HaxeBackend.Target.Expr

/-!
# What a unit accumulates

String literals are pooled: each text has one number in the order of first use.  The classes that a unit refers to
are kept in the order of first reference.  Guards are the classes whose static initializer has to run before the
statement at hand; the class whose own initializer has already run needs none.
-/

namespace HaxeBackend

/-- The texts of the pooled literals, in the order of their numbers. -/
structure LiteralPool where
  texts : List Name := []
  deriving DecidableEq, Repr

namespace LiteralPool

def size (t : LiteralPool) : Nat := t.texts.length

/-- The number of a text, the next free one if it is new. -/
def intern (t : LiteralPool) (text : Name) : Nat × LiteralPool :=
  match t.texts.idxOf? text with
  | some n => (n, t)
  | none => (t.size, ⟨t.texts ++ [text]⟩)

/-- Numbers and texts. -/
def entries (t : LiteralPool) : List (Nat × Name) := (List.range t.size).zip t.texts

end LiteralPool

/-- The classes referred to, in the order of first reference. -/
structure ReferenceTable where
  order : List Name := []
  deriving DecidableEq, Repr

namespace ReferenceTable

def contains (t : ReferenceTable) (name : Name) : Bool := t.order.contains name

def add (t : ReferenceTable) (name : Name) : ReferenceTable :=
  if t.contains name then t else ⟨t.order ++ [name]⟩

/-- Adds the class that a type mentions. -/
def addType (t : ReferenceTable) (type : Ty) : ReferenceTable :=
  match type.mentioned? with
  | some name => t.add name
  | none => t

end ReferenceTable

structure Guards where
  /-- The class that needs no guard. -/
  own : Option Name := none
  /-- The classes touched since the guards were last written, in the order of first touch. -/
  pending : List Name := []
  deriving DecidableEq, Repr

namespace Guards

def owns (g : Guards) (name : Name) : Bool := g.own == some name

def touch (g : Guards) (name : Name) : Guards :=
  if g.owns name || g.pending.contains name then g else { g with pending := g.pending ++ [name] }

/-- The guards without what is pending. -/
def clear (g : Guards) : Guards := { g with pending := [] }

/-- The static holders of the pending classes. -/
def holders (g : Guards) (p : Program) : List String := g.pending.map (Naming.staticHolder p)

end Guards

/-- What one unit accumulates. -/
structure UnitState where
  literals : LiteralPool := {}
  refs : ReferenceTable := {}
  diagnostics : List Diagnostic := []

end HaxeBackend
