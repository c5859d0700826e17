import HaxeBackend.Options

/-!
# Command-line arguments
-/

namespace HaxeBackend.Command

/-- What `gen` is asked to do, beside its input. -/
structure GenArgs where
  /-- The output directory. -/
  out : String := "out"
  options : GenOptions := {}
  deriving DecidableEq, Repr

/-- Why an option is refused. -/
inductive OptionError where
  | unknownSubtarget (name : String)
  | unknownOption (text : String)
  deriving DecidableEq, Repr

def OptionError.message : OptionError → String
  | unknownSubtarget name => Subtarget.unknownMessage name
  | unknownOption text => s!"unknown option `{text}`"

/-- What stands behind a stem, when the text starts with it. -/
def behind? (stem text : String) : Option String :=
  if stem.toList.isPrefixOf text.toList then some (String.ofList (text.toList.drop stem.toList.length)) else none

/-- Applies one option. -/
def GenArgs.apply (args : GenArgs) (arg : String) : Except OptionError GenArgs :=
  match behind? "--out=" arg, behind? "--subtarget=" arg with
  | some out, _ => .ok { args with out := out }
  | none, some name =>
    match Subtarget.ofName? name with
    | some subtarget => .ok { args with options := { args.options with subtarget := subtarget } }
    | none => .error (.unknownSubtarget name)
  | none, none =>
    match arg with
    | "--no-parallel" => .ok { args with options := { args.options with parallel := false } }
    | "--no-source-maps" => .ok { args with options := { args.options with sourceMaps := false } }
    | "--no-reflection" => .ok { args with options := { args.options with reflection := false } }
    | "--goto" => .ok { args with options := { args.options with nativeGoto := true } }
    | other => .error (.unknownOption other)

/-- Applies options in order, up to the first that is refused. -/
def GenArgs.parse (args : List String) : Except OptionError GenArgs :=
  args.foldlM GenArgs.apply {}

/-- What the tool is asked to do. -/
inductive Request where
  | gen (input : String) (args : GenArgs)
  /-- `gen` without an input, or with an option that is refused. -/
  | genUsage (error : Option OptionError)
  | explain (code : String)
  | explainUsage
  | help
  | version
  | unknown (command : String)
  deriving DecidableEq, Repr

/-- Reads the arguments behind the name of the tool. -/
def Request.parse : List String → Request
  | [] => .help
  | command :: args =>
    match command, args with
    | "gen", [] => .genUsage none
    | "gen", input :: options =>
      match GenArgs.parse options with
      | .ok parsed => .gen input parsed
      | .error e => .genUsage (some e)
    | "explain", [] | "--explain", [] => .explainUsage
    | "explain", code :: _ | "--explain", code :: _ => .explain code
    | "help", _ | "--help", _ | "-h", _ => .help
    | "version", _ | "--version", _ | "-V", _ => .version
    | command, _ => .unknown command

end HaxeBackend.Command
