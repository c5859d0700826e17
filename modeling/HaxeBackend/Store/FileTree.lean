import HaxeBackend.Store.Basic
import HaxeBackend.Store.FilePath

/-!
# Files and directories

A tree holds files and directories by their places: the names on the way from the root.  A path is followed piece by
piece, and what stands before another piece must be a directory.  Written files never leave their output directory:
a component that is a dot or two dots is refused.  The directories above a file are created first, and they stay when
the file itself is refused.
-/

namespace HaxeBackend

/-- Why a file cannot be read or written. -/
inductive FileError where
  /-- A component of the path, given as it was, is relative. -/
  | relativeComponent (path : String)
  /-- The path has a character of code zero. -/
  | zeroCharacter
  | notFound
  /-- A directory is wanted where there is a file. -/
  | alreadyExists
  /-- A path goes on below a file. -/
  | notDirectory
  /-- A file is wanted where there is a directory. -/
  | isDirectory
  /-- A name, or the path as a whole, has too many bytes. -/
  | nameTooLong
  deriving DecidableEq, Repr

def FileError.message : FileError → String
  | relativeComponent path => s!"relative component in `{path}`"
  | zeroCharacter => "file name contained an unexpected NUL byte"
  | notFound => "No such file or directory (os error 2)"
  | alreadyExists => "File exists (os error 17)"
  | notDirectory => "Not a directory (os error 20)"
  | isDirectory => "Is a directory (os error 21)"
  | nameTooLong => "File name too long (os error 36)"

structure FileTree where
  /-- Places of the files, and their texts. -/
  files : List (List String × String) := []
  /-- Places of the directories besides the root. -/
  directories : List (List String) := []
  /-- Where paths begin that do not start at the root. -/
  workingDirectory : List String := []
  deriving DecidableEq, Repr

namespace FileTree

/-- A tree with nothing but a working directory. -/
def startingAt (workingDirectory : List String) : FileTree where
  directories := (List.range workingDirectory.length).map fun n => workingDirectory.take (n + 1)
  workingDirectory := workingDirectory

def get? (t : FileTree) (place : List String) : Option String := t.files.lookup place

def isFile (t : FileTree) (place : List String) : Bool := (t.get? place).isSome

def isDirectory (t : FileTree) (place : List String) : Bool := place.isEmpty || t.directories.contains place

/-- Puts a file over one of the same place. -/
def put (t : FileTree) (place : List String) (text : String) : FileTree :=
  { t with files := (t.files.filter fun file => file.1 != place) ++ [(place, text)] }

/-- The files below a place, by the rest of the way to them. -/
def filesBelow (t : FileTree) (place : List String) : List (List String × String) :=
  t.files.filterMap fun (other, text) =>
    if place.isPrefixOf other && place != other then some (other.drop place.length, text) else none

/-! ### Following paths -/

/-- The most bytes of a name. -/
def longestName : Nat := 255

/-- The most bytes of a path. -/
def longestPath : Nat := 4095

/-- The place that one piece of a path leads to. -/
def enter (place : List String) (piece : String) : List String :=
  if FilePath.isIdle piece then place else if piece = ".." then place.dropLast else place ++ [piece]

/-- Follows pieces of a path from a place. -/
def follow (t : FileTree) (place : List String) : List String → Except FileError (List String)
  | [] => .ok place
  | piece :: rest =>
    if t.isFile place then .error .notDirectory
    else if !t.isDirectory place then .error .notFound
    else if longestName < piece.utf8ByteSize then .error .nameTooLong
    else t.follow (enter place piece) rest

/-- The place that a path leads to, where there may be nothing yet; the empty path leads nowhere. -/
def locate (t : FileTree) (path : FilePath) : Except FileError (List String) :=
  if path.text.contains '\x00' then .error .zeroCharacter
  else if longestPath < path.text.utf8ByteSize then .error .nameTooLong
  else if path.text.isEmpty then .error .notFound
  else t.follow (if path.isAbsolute then [] else t.workingDirectory) path.pieces

/-! ### Reading and writing -/

/-- Reads the file that a path leads to. -/
def read (t : FileTree) (path : FilePath) : Except FileError String := do
  let place ← t.locate path
  if t.isDirectory place then throw .isDirectory
  match t.get? place with
  | some text => return text
  | none => throw .notFound

/-- Creates the directory that a path leads to, unless it is there already. -/
def makeDirectory (t : FileTree) (path : FilePath) : Except FileError FileTree := do
  let place ← t.locate path
  if t.isDirectory place then return t
  else if t.isFile place then throw .alreadyExists
  else return { t with directories := t.directories ++ [place] }

/-- Writes the file that a path leads to. -/
def overwrite (t : FileTree) (path : FilePath) (text : String) : Except FileError FileTree := do
  let place ← t.locate path
  if t.isDirectory place then throw .isDirectory
  return t.put place text

/-- The outcome of a step and the tree after it, which is the same one when the step fails. -/
def attempt (t : FileTree) (step : FileTree → Except FileError FileTree) : Except FileError Unit × FileTree :=
  match step t with
  | .ok next => (.ok (), next)
  | .error e => (.error e, t)

/-- Creates the first of some directories; where it has no place yet, the others are created before. -/
def makeDirectories (t : FileTree) : List FilePath → Except FileError Unit × FileTree
  | [] => (.ok (), t)
  | path :: above =>
    match t.makeDirectory path with
    | .error .notFound =>
      match t.makeDirectories above with
      | (.ok (), next) => next.attempt (·.makeDirectory path)
      | failed => failed
    | _ => t.attempt (·.makeDirectory path)

end FileTree

/-! ### Output directories -/

/-- The components of a path that are not empty. -/
def pathComponents (path : String) : List String :=
  (FilePath.ofText path).pieces.filter fun piece => !piece.isEmpty

/-- The components below an output directory, unless one of them is relative. -/
def outputComponents (path : String) : Except FileError (List String) :=
  let parts := pathComponents path
  if parts.any fun part => part = "." || part = ".." then .error (.relativeComponent path) else .ok parts

namespace FileTree

/-- Writes a file below the output directory `root`. -/
def writeBelow (root : FilePath) (t : FileTree) (path text : String) : Except FileError Unit × FileTree :=
  match outputComponents path with
  | .error e => (.error e, t)
  | .ok parts =>
    let whole := parts.foldl FilePath.push root
    match t.makeDirectories (whole.ancestors.drop 1) with
    | (.ok (), next) => next.attempt (·.overwrite whole text)
    | failed => failed

/-- Writes files below the output directory `root`. -/
def writer (root : String) : FileWriter FileTree := fun t path text =>
  let (outcome, last) := t.writeBelow (.ofText root) path text
  (outcome.mapError FileError.message, last)

end FileTree

end HaxeBackend
