import HaxeBackend.Diagnostic.Basic

/-!
# Diagnostics on a terminal
-/

namespace HaxeBackend

/-- When texts are colored. -/
inductive ColorMode where
  /-- On a terminal only. -/
  | auto
  | always
  | never
  deriving DecidableEq, Repr

def ColorMode.usesColors (isTerminal : Bool) : ColorMode → Bool
  | auto => isTerminal
  | always => true
  | never => false

namespace Terminal

def errorColor : String := "\x1b[1;31m"

def warningColor : String := "\x1b[1;33m"

def noteColor : String := "\x1b[1;36m"

def helpColor : String := "\x1b[1;32m"

def boldStyle : String := "\x1b[1m"

def locationColor : String := "\x1b[1;34m"

def resetStyle : String := "\x1b[0m"

def severityColor : Severity → String
  | .error => errorColor
  | .warning => warningColor
  | .note => noteColor
  | .help => helpColor

/-- A text in a color, where colors are used. -/
def paint (colors : Bool) (color text : String) : String :=
  if colors then color ++ text ++ resetStyle else text

/-- A diagnostic: its headline, its location, its notes and suggestions, and an empty line. -/
def render (colors : Bool) (d : Diagnostic) : String :=
  let headline := paint colors (severityColor d.severity) d.severity.text ++
    paint colors boldStyle s!"[{d.code.text}]" ++ s!": {d.message}\n"
  let place := match d.location with
    | some location => "  --> " ++ paint colors locationColor location.text ++ "\n"
    | none => ""
  let notes := d.notes.map fun note => "  = " ++ paint colors boldStyle "note" ++ s!": {note}\n"
  let helps := d.suggestions.map fun help => "  = " ++ paint colors helpColor "help" ++ s!": {help}\n"
  headline ++ place ++ String.join notes ++ String.join helps ++ "\n"

/-- A number of warnings. -/
def warningsText (count : Nat) : String :=
  if count = 1 then "1 warning emitted" else s!"{count} warnings emitted"

def errorsText (count : Nat) : String :=
  if count = 1 then "previous error" else s!"{count} previous errors"

/-- The last line of a report; nothing is said when there is nothing to say. -/
def summary (colors : Bool) (errors warnings : Nat) : String :=
  if 0 < errors then
    let rest := if 0 < warnings then s!"; {warningsText warnings}" else ""
    paint colors errorColor "error" ++ s!": aborting due to {errorsText errors}{rest}\n"
  else if 0 < warnings then paint colors warningColor "warning" ++ s!": {warningsText warnings}\n"
  else ""

end Terminal

end HaxeBackend
