import HaxeBackend.Text.Lines

/-!
# Indented text with marked lines

A writer collects rows of text, each indented by the current depth in tabs.  A mark names the source line that the
next row comes from; blank rows do not take it.  Writers are driven by steps, and one step appends everything that
other steps write on a fresh writer: its lines are indented again and its marked rows move along with them.

Rows are counted without bound here.  The numbers are those of a counter of 32 bits as long as fewer than `2 ^ 32` rows
are written; what such a counter does behind that is not modelled.
-/

namespace HaxeBackend.Target

/-- A generated row, counted from zero, and the source line it comes from.  The row is below `2 ^ 32` in a text of fewer
rows than that, which is as far as 32 bits can tell rows apart. -/
structure LineMapping where
  generated : Nat
  source : Nat
  deriving DecidableEq, Repr

structure Writer where
  /-- What was written, a row for each line. -/
  rows : Array String := #[]
  depth : Nat := 0
  /-- The mark that the next row takes. -/
  pending : Option Nat := none
  mappings : List LineMapping := []
  deriving DecidableEq, Repr

namespace Writer

/-- The number of rows, whatever it is: not reduced to 32 bits. -/
def lineCount (w : Writer) : Nat := w.rows.size

/-- Every row ends in a line feed. -/
def text (w : Writer) : String :=
  w.rows.foldl (fun text row => text ++ row ++ "\n") ""

def tabs (n : Nat) : String := String.ofList (List.replicate n '\t')

/-- The mapping that the next row gives rise to. -/
def taken (w : Writer) : List LineMapping :=
  match w.pending with
  | some source => [⟨w.lineCount, source⟩]
  | none => []

/-- Writes one row, which takes the pending mark; an empty row is not indented. -/
def row (w : Writer) (text : String) : Writer where
  rows := w.rows.push (if text.isEmpty then "" else tabs w.depth ++ text)
  depth := w.depth
  pending := none
  mappings := w.mappings ++ w.taken

/-- Writes a row for each line of the text, none for an empty text. -/
def line (w : Writer) (text : String) : Writer :=
  (Text.lines text).foldl row w

/-- An empty row, which takes no mark. -/
def blank (w : Writer) : Writer := { w with rows := w.rows.push "" }

def indent (w : Writer) : Writer := { w with depth := w.depth + 1 }

def dedent (w : Writer) : Writer := { w with depth := w.depth - 1 }

/-- Starts a block. -/
def openBlock (w : Writer) (header : String) : Writer :=
  (w.row (header ++ " \x7b")).indent

/-- Ends a block. -/
def closeBlock (w : Writer) : Writer :=
  w.dedent.row "\x7d"

/-- Ends a block and starts the next on the same row. -/
def reopenBlock (w : Writer) (header : String) : Writer :=
  (w.dedent.row ("\x7d " ++ header ++ " \x7b")).indent

/-- The next row comes from this source line. -/
def mark (w : Writer) (source : Nat) : Writer := { w with pending := some source }

/-- Copies one line of another writer. -/
def copyLine (w : Writer) (text : String) : Writer :=
  if text.isEmpty then w.blank else w.row text

/-- Appends what another writer holds, at the current depth.  A mark that is pending there is dropped. -/
def append (w inner : Writer) : Writer :=
  let copied := (Text.lines inner.text).foldl copyLine w
  let moved := inner.mappings.map fun m => ⟨m.generated + w.lineCount, m.source⟩
  { copied with mappings := copied.mappings ++ moved }

end Writer

/-- What can be done to a writer. -/
inductive Step where
  | line (text : String)
  | openBlock (header : String)
  | reopenBlock (header : String)
  | closeBlock
  | blank
  | indent
  | dedent
  | mark (source : Nat)
  /-- Appends what the steps write on a fresh writer. -/
  | append (steps : List Step)

mutual

def Writer.step (w : Writer) : Step → Writer
  | .line text => w.line text
  | .openBlock header => w.openBlock header
  | .reopenBlock header => w.reopenBlock header
  | .closeBlock => w.closeBlock
  | .blank => w.blank
  | .indent => w.indent
  | .dedent => w.dedent
  | .mark source => w.mark source
  | .append steps => w.append (Writer.run {} steps)

/-- Runs steps in order. -/
def Writer.run (w : Writer) : List Step → Writer
  | [] => w
  | s :: steps => (w.step s).run steps

end

/-- What steps write on a fresh writer. -/
def Writer.ofSteps (steps : List Step) : Writer := Writer.run {} steps

end HaxeBackend.Target
