import HaxeBackend.Diagnostic.Code

/-!
# Explanations of diagnostic codes
-/

namespace HaxeBackend.DiagnosticCode

/-- The lines that say what a code means and what to do about it. -/
def explanationLines : DiagnosticCode → List String
  | e1001 =>
    ["# E1001: unresolved class",
      "",
      "A statement, expression or signature names a class that is not part of the",
      "program model. The enclosing class cannot be generated: emitting a reference",
      "to a class that does not exist would only move the failure to the Haxe",
      "compiler.",
      "",
      "Make sure every class reachable from the entry point was given to the",
      "generator (including library classes)."]
  | e1002 =>
    ["# E1002: unresolved method",
      "",
      "A call site refers to a method that neither the named class nor any of its",
      "ancestors declares with the given name and signature. The enclosing class",
      "cannot be generated.",
      "",
      "This usually means the program model was built against a different version of",
      "a library than the one supplied."]
  | e1003 =>
    ["# E1003: unresolved field",
      "",
      "A field access refers to a field that neither the named class nor any of its",
      "ancestors declares with the given name and type. The enclosing class cannot be",
      "generated."]
  | e1004 =>
    ["# E1004: malformed program model",
      "",
      "The program model file could not be decoded. The message shows the position",
      "of the first problem. The file must be the JSON document produced by the",
      "front end."]
  | e2001 =>
    ["# E2001: unstructured control flow on a target without jumps",
      "",
      "A method body contains a label, goto, conditional goto or switch-goto, but the",
      "selected subtarget has no native jump support (or `--goto` was not given).",
      "The front end should have restructured this body.",
      "",
      "The method is replaced by a stub that throws when called; the rest of the",
      "class is still generated (see W1001)."]
  | e2002 =>
    ["# E2002: malformed method body",
      "",
      "A method body refers to an expression, statement, local or label that does",
      "not exist in the body. The method is replaced by a stub that throws when",
      "called (see W1001)."]
  | e2003 =>
    ["# E2003: method reference without a functional adapter",
      "",
      "A method reference (or lambda capture) produces an instance of an interface",
      "that has no single-method functional adapter: it declares more than one",
      "abstract method, or extends other interfaces. The method is replaced by a",
      "stub that throws when called (see W1001)."]
  | e3001 =>
    ["# E3001: could not write output",
      "",
      "A generated unit or source map could not be written. Check that the output",
      "directory exists and is writable."]
  | e3002 =>
    ["# E3002: could not read input",
      "",
      "The program model file could not be read."]
  | e9001 =>
    ["# E9001: internal generator error",
      "",
      "The generator reached a state it does not expect. Please report this with",
      "the program model that triggers it."]
  | e9002 =>
    ["# E9002: too many errors",
      "",
      "Reporting stopped after the configured number of errors. Fix the reported",
      "errors first; later ones are often consequences of earlier ones."]
  | w1001 =>
    ["# W1001: method replaced by an errored stub",
      "",
      "Generating this method's body failed. Instead of stopping, the generator",
      "emitted a body that throws a runtime fault naming the original failure, and",
      "continued with the remaining methods and classes. The build succeeds; calling",
      "the method fails."]
  | w1002 =>
    ["# W1002: generator annotation ignored",
      "",
      "An `hx.annotation.*` annotation is missing a required element or has an",
      "element of the wrong kind. It has no effect on the generated code."]

/-- What a code means and what to do about it. -/
def explanation (code : DiagnosticCode) : String :=
  String.join (code.explanationLines.map (· ++ "\n"))

end HaxeBackend.DiagnosticCode
