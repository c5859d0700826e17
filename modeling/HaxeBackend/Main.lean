import HaxeBackend.Command.Run

/-!
# The command-line tool

Reads the input of a `gen` request, writes its files, prints the report and ends with its status.
-/

namespace HaxeBackend

/-- The cause of a failed file operation. -/
def FileError.ofFailure : IO.Error → FileError
  | .noFileOrDirectory .. => .notFound
  | .alreadyExists .. => .alreadyExists
  | .inappropriateType .. => .notDirectory
  | .invalidArgument .. => .nameTooLong
  | _ => .isDirectory

/-- Reads a text file. -/
def readText (path : String) : IO (Except FileError String) := do
  try
    return .ok (← IO.FS.readFile path)
  catch e =>
    return .error (.ofFailure e)

/-- Writes a file below a directory and creates the directories above it. -/
def writeText (root path text : String) : IO (Except String Unit) := do
  match outputComponents path with
  | .error e => return .error e.message
  | .ok parts =>
    let base := if root.isEmpty then [] else [root]
    try
      let parent := "/".intercalate (base ++ parts.dropLast)
      unless parent.isEmpty do
        IO.FS.createDirAll parent
      IO.FS.writeFile ("/".intercalate (base ++ parts)) text
      return .ok ()
    catch e =>
      return .error (FileError.ofFailure e).message

/-- Writes files in order, up to the first that is refused, and counts them. -/
def writeTexts (root : String) : List (String × String) → IO (Except GenError Nat)
  | [] => return .ok 0
  | (path, text) :: rest => do
    match ← writeText root path text with
    | .error reason => return .error (.unwritable path reason)
    | .ok () => return (← writeTexts root rest).map (· + 1)

/-- Runs a request on the file system. -/
def runRequest : Command.Request → IO Command.Report
  | .gen input args => do
    match Command.generate input args (← readText input) with
    | .error report => return report
    | .ok none => throw (.userError "the expansion of an annotation does not end")
    | .ok (some output) =>
      return Command.conclude args output (← writeTexts args.out (output.files args.options))
  | request => return Command.report request

end HaxeBackend

/-- Runs the request that the arguments spell and ends with its status. -/
def main (args : List String) : IO UInt32 := do
  let report ← HaxeBackend.runRequest (HaxeBackend.Command.Request.parse args)
  (← IO.getStdout).putStr report.stdout
  (← IO.getStderr).putStr report.stderr
  return UInt32.ofNat report.exitCode
