import HaxeBackend.Diagnostic.Code

/-!
# Diagnostics

A diagnostic tells what went wrong, while which class or member was being generated, and what to do about it.
Locations are ordered by class and then by member, a class as a whole before its members.
-/

namespace HaxeBackend

inductive Severity where
  | error
  | warning
  | note
  | help
  deriving DecidableEq, Repr

def Severity.text : Severity → String
  | error => "error"
  | warning => "warning"
  | note => "note"
  | help => "help"

/-- A class, or a member of it by name and descriptor. -/
structure Location where
  className : String
  member : Option String := none
  deriving DecidableEq, Repr

namespace Location

def text (l : Location) : String :=
  match l.member with
  | some member => s!"{l.className}::{member}"
  | none => l.className

/-- Nothing comes before something. -/
def memberLe : Option String → Option String → Bool
  | none, _ => true
  | some _, none => false
  | some a, some b => decide (a ≤ b)

def le (a b : Location) : Bool :=
  decide (a.className < b.className) || (a.className == b.className && memberLe a.member b.member)

end Location

structure Diagnostic where
  code : DiagnosticCode
  severity : Severity
  message : String
  location : Option Location := none
  notes : List String := []
  suggestions : List String := []
  deriving DecidableEq, Repr

namespace Diagnostic

def isError (d : Diagnostic) : Bool := d.severity == .error

def isWarning (d : Diagnostic) : Bool := d.severity == .warning

/-- The diagnostic in one line. -/
def display (d : Diagnostic) : String :=
  let place := match d.location with
    | some location => s!" (in {location.text})"
    | none => ""
  s!"{d.severity.text}[{d.code.text}]: {d.message}{place}"

def unresolvedClass (at_ : Location) (className : String) : Diagnostic where
  code := .e1001
  severity := .error
  message := s!"unresolved class `{className}`"
  location := some at_
  notes := ["the program model is incomplete; generation cannot continue for this class"]

def unresolvedMethod (at_ : Location) (className method : String) : Diagnostic where
  code := .e1002
  severity := .error
  message := s!"unresolved method `{className}.{method}`"
  location := some at_

def unresolvedField (at_ : Location) (className field : String) : Diagnostic where
  code := .e1003
  severity := .error
  message := s!"unresolved field `{className}.{field}`"
  location := some at_

/-- A method whose body was replaced by a stub that fails when it is called. -/
def erroredMethod (at_ : Location) (cause : String) : Diagnostic where
  code := .w1001
  severity := .warning
  message := "method body could not be generated; it will fail when called"
  location := some at_
  notes := [cause]

/-- A generator annotation that has no effect because an element is missing or of the wrong kind. -/
def ignoredMark (at_ : Location) (type : String) : Diagnostic where
  code := .w1002
  severity := .warning
  message := s!"ignoring malformed `{type}` annotation"
  location := some at_

def droppedUse (at_ : Location) (type : String) : Diagnostic where
  code := .w1002
  severity := .warning
  message := s!"annotation type `{type}` is not in the program; annotation dropped"
  location := some at_

/-- The summary of the errors past a limit. -/
def tooManyErrors (limit dropped : Nat) : Diagnostic where
  code := .e9002
  severity := .error
  message := s!"error limit of {limit} reached; {dropped} further error(s) not shown"

end Diagnostic

/-- Given out for errors that were reported, so that whoever fails can show that a report was made. -/
structure ErrorsReported where
  deriving DecidableEq, Repr

namespace ErrorsReported

/-- What is said in place of the errors. -/
def message (_ : ErrorsReported) : String := "error(s) emitted"

/-- Given out when errors were counted. -/
def ofCount? (errors : Nat) : Option ErrorsReported := if 0 < errors then some {} else none

end ErrorsReported

end HaxeBackend
