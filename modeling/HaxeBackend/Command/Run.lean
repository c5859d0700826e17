import HaxeBackend.Command.Arguments
import HaxeBackend.Diagnostic.Explanation
import HaxeBackend.Diagnostic.Terminal
import HaxeBackend.Generation.Output
import HaxeBackend.Model.Document.Program
import HaxeBackend.Store.FileTree

/-!
# Running the tool

What each request prints, and with which status it ends.  Only `gen` reads and writes files: it loads a program
model, generates every class, and writes the units of those that did not fail.
-/

namespace HaxeBackend.Command

/-- How a run ends. -/
structure Report where
  exitCode : Nat := 0
  stdout : String := ""
  stderr : String := ""
  deriving DecidableEq, Repr

/-! ### Texts -/

def toolVersion : String := "0.1.0-alpha.3"

def linesText (lines : List String) : String := String.join (lines.map (· ++ "\n"))

def usage : String :=
  linesText
    ["hxc - Haxe backend for class-based programs",
      "",
      "Usage: hxc <command> [options]",
      "",
      "Commands:",
      "  gen <program.json>   Generate Haxe units from a program model",
      "  explain <code>       Explain an error code",
      "  help                 Show this help message",
      "  version              Show version information",
      "",
      "Environment:",
      "  HXC_LOG=<filter>     Enable tracing output (falls back to RUST_LOG)",
      "  HXC_LOG_TREE=1       Print spans as an indented tree"]

def genUsage : String :=
  linesText
    ["Usage: hxc gen <program.json> [options]",
      "",
      "Options:",
      "  --out=<dir>          Output directory (default: out)",
      "  --subtarget=<name>   cpp, windows, linux, mac, android, js, neko, php,",
      "                       python, cs, java, hl, lua (default: cpp)",
      "  --no-parallel        Generate classes on one thread",
      "  --no-source-maps     Skip the .map files",
      "  --no-reflection      Skip the reflection registration routines",
      "  --goto               Emit label/goto bodies natively (C++ family only)"]

def explainUsage : String :=
  linesText ["Usage: hxc explain <error-code>", "Example: hxc explain E1001"]

def unknownCode (code : String) : String :=
  linesText
    [s!"Unknown error code: {code}",
      "",
      "Codes have the format EXXXX (errors) or WXXXX (warnings) where X is a digit.",
      "Examples: E1001, E2001, W1001"]

/-! ### Generation -/

/-- The only diagnostic of a run that came to nothing. -/
def failure (d : Diagnostic) : Report where
  exitCode := 1
  stderr := Terminal.render false d ++ Terminal.summary false 1 0

def loadFailure (e : ModelError) : Report :=
  failure { code := e.code, severity := .error, message := e.message }

/-- Where errors of writing are reported. -/
def outputLocation : Location := ⟨"<output>", none⟩

/-- Generates the classes of a model, or reports why it cannot be loaded; there is no output where the registration of a
class does not end.  `content` is the text of the input or the reason why it cannot be read. -/
def generate (input : String) (args : GenArgs) (content : Except FileError String) :
    Except Report (Option Generation.ProgramOutput) := do
  let text ← content.mapError fun e => loadFailure (.unreadable input e.message)
  let program ← (Program.ofText text).mapError loadFailure
  return Generation.generateProgram? ⟨program, args.options⟩

/-- What is said after the files were written, or after one was refused. -/
def conclude (args : GenArgs) (output : Generation.ProgramOutput) : Except GenError Nat → Report
  | .error e => failure (e.diagnostic outputLocation)
  | .ok count =>
    let stderr := String.join (output.diagnostics.map (Terminal.render false)) ++
      Terminal.summary false output.errorCount output.warningCount
    match output.result with
    | .ok () => { stdout := s!"wrote {count} file(s) to {args.out}\n", stderr := stderr }
    | .error _ => { exitCode := 1, stderr := stderr }

/-! ### Requests -/

/-- The report of a request that needs no files. -/
def report : Request → Report
  | .gen .. => {}
  | .genUsage none => { exitCode := 1, stderr := genUsage }
  | .genUsage (some e) => { exitCode := 1, stderr := s!"error: {e.message}\n\n" ++ genUsage }
  | .explain code =>
    match DiagnosticCode.ofText? code with
    | some c => { stdout := c.explanation ++ "\n" }
    | none => { exitCode := 1, stderr := unknownCode code }
  | .explainUsage => { exitCode := 1, stderr := explainUsage }
  | .help => { stdout := usage }
  | .version => { stdout := s!"hxc {toolVersion}\n" }
  | .unknown command => { exitCode := 1, stdout := usage, stderr := s!"Unknown command: {command}\n\n" }

/-- Runs a request on a tree of files, unless the registration of a class does not end. -/
def run (request : Request) (t : FileTree) : Option (Report × FileTree) :=
  match request with
  | .gen input args =>
    match generate input args (t.read (.ofText input)) with
    | .error r => some (r, t)
    | .ok none => none
    | .ok (some output) =>
      let (written, last) := writeFiles (FileTree.writer args.out) t (output.files args.options)
      some (conclude args output written, last)
  | request => some (report request, t)

end HaxeBackend.Command
