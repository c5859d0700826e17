/-!
# Diagnostic codes

Each kind of problem has a code.  The first digit of an error code tells the area: 1 the program model, 2 code
generation, 3 files, 9 the generator itself.
-/

namespace HaxeBackend

inductive DiagnosticCode where
  | e1001
  | e1002
  | e1003
  | e1004
  | e2001
  | e2002
  | e2003
  | e3001
  | e3002
  | e9001
  | e9002
  | w1001
  | w1002
  deriving DecidableEq, Repr

namespace DiagnosticCode

/-- All codes, in definition order. -/
def all : List DiagnosticCode :=
  [e1001, e1002, e1003, e1004, e2001, e2002, e2003, e3001, e3002, e9001, e9002, w1001, w1002]

def text : DiagnosticCode → String
  | e1001 => "E1001"
  | e1002 => "E1002"
  | e1003 => "E1003"
  | e1004 => "E1004"
  | e2001 => "E2001"
  | e2002 => "E2002"
  | e2003 => "E2003"
  | e3001 => "E3001"
  | e3002 => "E3002"
  | e9001 => "E9001"
  | e9002 => "E9002"
  | w1001 => "W1001"
  | w1002 => "W1002"

def isModel : DiagnosticCode → Bool
  | e1001 | e1002 | e1003 | e1004 => true
  | _ => false

def isGeneration : DiagnosticCode → Bool
  | e2001 | e2002 | e2003 => true
  | _ => false

def isFile : DiagnosticCode → Bool
  | e3001 | e3002 => true
  | _ => false

def isInternal : DiagnosticCode → Bool
  | e9001 | e9002 => true
  | _ => false

def isWarning : DiagnosticCode → Bool
  | w1001 | w1002 => true
  | _ => false

/-- The code with this text, in either case.  Only ASCII letters have a code's letters as their upper case, so the
others need no table. -/
def ofText? (s : String) : Option DiagnosticCode :=
  all.find? fun code => code.text == s.map Char.toUpper

theorem mem_all (code : DiagnosticCode) : code ∈ all := by
  cases code <;> decide

end DiagnosticCode

end HaxeBackend
