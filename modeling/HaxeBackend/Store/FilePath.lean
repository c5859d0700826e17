import HaxeBackend.Text.Lines

/-!
# Paths of files

A path is kept as it is written, by the pieces between its slashes.  An empty piece or a dot leads nowhere new and
two dots lead up, but where a path ends is not decided by its text alone: that is for a tree of files to say.
-/

namespace HaxeBackend

/-- A path by the pieces between its slashes. -/
structure FilePath where
  pieces : List String
  deriving DecidableEq, Repr

namespace FilePath

def ofText (text : String) : FilePath := ⟨(Text.splitAt '/' text.toList).map String.ofList⟩

def text (p : FilePath) : String := "/".intercalate p.pieces

/-- Whether a piece leads nowhere new. -/
def isIdle (piece : String) : Bool := piece.isEmpty || piece = "."

/-- Whether the path starts at the root. -/
def isAbsolute (p : FilePath) : Bool := p.pieces.head? = some "" && 1 < p.pieces.length

/-- The path with one more name; a slash that stands at the end already is not doubled. -/
def push (p : FilePath) (name : String) : FilePath :=
  ⟨(if p.pieces.getLast? = some "" then p.pieces.dropLast else p.pieces) ++ [name]⟩

/-- The path and those above it, the longest first: each ends at a piece that leads somewhere. -/
def ancestors (p : FilePath) : List FilePath :=
  ((List.range p.pieces.length).filter fun n => !isIdle (p.pieces.getD n "")).reverse.map fun n =>
    ⟨p.pieces.take (n + 1)⟩

end FilePath

end HaxeBackend
