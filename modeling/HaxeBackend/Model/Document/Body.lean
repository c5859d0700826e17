import HaxeBackend.Json.Number
import HaxeBackend.Model.Body.Builder
import HaxeBackend.Model.Document.Constant

/-!
# Method bodies in documents

Expressions, statements and locals are listed by position.  A node is an object whose `kind` tells what other
members it has; members that its kind does not ask for are passed over, but everything in a node must be sound.
A statement may also be an array of its kind and its members in their order.
-/

namespace HaxeBackend.Reading

/-- The levels of containers left for a node of a body. -/
def nodeRoom : Nat := 120

/-- A method type by its descriptor. -/
def methodType (j : Json) : Reading MethodTy :=
  match j.text? with
  | none => malformed
  | some descriptor => meaning (MethodTy.ofDescriptor descriptor)

def methodRef (j : Json) : Reading MethodRef :=
  withMembers (j.knownMembers? ["class", "name", "descriptor"]) fun members =>
    MethodRef.mk <$> required members "class" text
      <*> required members "name" text
      <*> required members "descriptor" methodType

def fieldRef (j : Json) : Reading FieldRef :=
  withMembers (j.knownMembers? ["class", "name", "type"]) fun members =>
    FieldRef.mk <$> required members "class" text
      <*> required members "name" text
      <*> required members "type" type

def positions : Json → Reading (List Nat) := items natural

def binaryOp (j : Json) : Reading BinaryOp :=
  match j.text? with
  | none => malformed
  | some s =>
    match BinaryOp.ofName? s with
    | some op => pure op
    | none => reject (.descriptor s!"binary operator `{s}`")

def unaryOp (j : Json) : Reading UnaryOp :=
  match j.text? with
  | none => malformed
  | some s =>
    match UnaryOp.ofName? s with
    | some op => pure op
    | none => reject (.descriptor s!"unary operator `{s}`")

/-! ### Expressions -/

/-- The kinds of expressions; a kind may also be given by its place in this list. -/
def exprKinds : List String :=
  ["literal", "local", "this", "caught_exception", "binary", "unary", "call", "field_instance", "field_static",
    "array_access", "array_length", "new", "new_array", "instance_of", "cast", "method_class"]

def exprKindName? : Json → Option String
  | .string s => s
  | j => (j.natural? UInt64.size).bind fun n => exprKinds[n]?

inductive CallForm where
  | static
  | onObject
  | super

/-- A call on an object needs a receiver; what is missing is reported with the name of the method. -/
def callKind (form : CallForm) (receiver : Option Nat) (method : Members) : Reading CallKind :=
  let needed (build : Nat → CallKind) : Reading CallKind :=
    match receiver with
    | some id => pure (build id)
    | none =>
      match (method.lookup "name").bind Json.text? with
      | some name => reject (.descriptor s!"{name} needs `obj`")
      | none => malformed
  match form with
  | .static => pure .static
  | .onObject => needed .onObject
  | .super => needed .super

def callExpr (m : Members) : Reading (ExprKind (List Nat)) :=
  let form : Reading CallForm :=
    required m "call" fun j => oneOf [("static", .static), ("instance", .onObject), ("super", .super)] (nodeName j)
  let receiver : Reading (Option Nat) := nullable m "obj" natural
  let kind : Reading CallKind :=
    match form, receiver, (m.lookup "method").bind (·.knownMembers? ["class", "name", "descriptor"]) with
    | some (.ok form), some (.ok receiver), some method => callKind form receiver method
    | _, _, _ => malformed
  ExprKind.call <$> kind
    <*> required m "method" methodRef
    <*> optional m "args" [] positions
    <*> optional m "special" false flag

/-- The members that each kind of expression reads. -/
def exprMembers : String → List String
  | "literal" => ["value"]
  | "local" => ["local"]
  | "binary" => ["op", "left", "right"]
  | "unary" => ["op", "operand"]
  | "call" => ["call", "obj", "method", "args", "special"]
  | "field_instance" => ["obj", "field"]
  | "field_static" => ["field"]
  | "array_access" => ["array", "index"]
  | "array_length" => ["array"]
  | "new" => ["class"]
  | "new_array" => ["counts"]
  | "instance_of" => ["expr", "check"]
  | "cast" => ["expr"]
  | "method_class" => ["interface_method", "target"]
  | _ => []

def exprKind (kind : String) (m : Members) : Reading (ExprKind (List Nat)) :=
  match kind with
  | "literal" => .literal <$> required m "value" (literal nodeName)
  | "local" => .readLocal <$> required m "local" natural
  | "this" => pure .this
  | "caught_exception" => pure .caught
  | "binary" => .binary <$> required m "op" binaryOp <*> required m "left" natural <*> required m "right" natural
  | "unary" => .unary <$> required m "op" unaryOp <*> required m "operand" natural
  | "call" => callExpr m
  | "field_instance" => .field <$> required m "obj" natural <*> required m "field" fieldRef
  | "field_static" => .staticField <$> required m "field" fieldRef
  | "array_access" => .element <$> required m "array" natural <*> required m "index" natural
  | "array_length" => .arrayLength <$> required m "array" natural
  | "new" => .allocate <$> required m "class" text
  | "new_array" => .newArray <$> required m "counts" positions
  | "instance_of" => .instanceOf <$> required m "expr" natural <*> required m "check" type
  | "cast" => .cast <$> required m "expr" natural
  | "method_class" =>
    .capture <$> required m "interface_method" methodRef <*> required m "target" methodRef
  | _ => malformed

def exprNode (j : Json) : Reading (ExprNode (List Nat)) :=
  if j.sound nodeRoom then
    withMembers (j.pickMembers? ["kind", "type"]) fun head =>
      match (head.lookup "kind").bind exprKindName? with
      | none => malformed
      | some kind =>
        withMembers (j.pickMembers? (exprMembers kind)) fun m =>
          ExprNode.mk <$> exprKind kind m <*> required head "type" type
  else malformed

/-! ### Statements -/

/-- The members that each kind of statement reads, in their order. -/
def stmtMembers : String → List String
  | "line" => ["line"]
  | "label" | "goto" => ["label"]
  | "if_goto" => ["cond", "label"]
  | "switch_goto" | "switch" => ["subject", "cases", "default"]
  | "set_local" => ["local", "expr"]
  | "set_field" => ["obj", "field", "expr"]
  | "set_static_field" => ["field", "expr"]
  | "set_array" => ["array", "index", "expr"]
  | "set_new_with_constructor" => ["local", "class", "constructor", "args"]
  | "expr" | "return" | "throw" => ["expr"]
  | "try_catch" => ["body", "catch"]
  | "block" => ["stmts"]
  | "if" => ["cond", "then", "else"]
  | "while" => ["cond", "body"]
  | _ => []

def stmtKind (kind : String) (m : Members) : Reading (StmtKind (List Nat)) :=
  match kind with
  | "nop" => pure .nop
  | "line" => .line <$> required m "line" natural
  | "label" => .label <$> required m "label" natural
  | "goto" => .goto <$> required m "label" natural
  | "if_goto" => .gotoIf <$> required m "cond" natural <*> required m "label" natural
  | "switch_goto" =>
    .jumpTable <$> required m "subject" natural
      <*> required m "cases" (items (pair int32 natural))
      <*> required m "default" natural
  | "set_local" => .setLocal <$> required m "local" natural <*> required m "expr" natural
  | "set_field" =>
    .setField <$> required m "obj" natural <*> required m "field" fieldRef <*> required m "expr" natural
  | "set_static_field" => .setStatic <$> required m "field" fieldRef <*> required m "expr" natural
  | "set_array" =>
    .setElement <$> required m "array" natural <*> required m "index" natural <*> required m "expr" natural
  | "set_new_with_constructor" =>
    .construct <$> required m "local" natural
      <*> required m "class" text
      <*> required m "constructor" methodRef
      <*> optional m "args" [] positions
  | "expr" => .eval <$> required m "expr" natural
  | "return" => .ret <$> nullable m "expr" natural
  | "throw" => .throw <$> required m "expr" natural
  | "try_catch" => .tryCatch <$> required m "body" natural <*> required m "catch" natural
  | "rethrow" => pure .rethrow
  | "block" => .block <$> required m "stmts" positions
  | "if" => .ite <$> required m "cond" natural <*> required m "then" natural <*> nullable m "else" natural
  | "while" => .loop <$> required m "cond" natural <*> required m "body" natural
  | "switch" =>
    .switch <$> required m "subject" natural
      <*> required m "cases" (items (pair (items int32) natural))
      <*> required m "default" natural
  | "break" => pure .exitLoop
  | "continue" => pure .nextLoop
  | _ => malformed

/-- The kind of a statement, and what remains to be read of it. -/
def stmtHead? : Json → Option (String × Json)
  | .array (kind :: rest) => kind.text?.map fun kind => (kind, .array rest)
  | j => do
    let head ← j.pickMembers? ["kind"]
    let kind ← (head.lookup "kind").bind Json.text?
    return (kind, j)

def stmtNode (j : Json) : Reading (StmtKind (List Nat)) :=
  if j.sound nodeRoom then
    match stmtHead? j with
    | none => malformed
    | some (kind, rest) => withMembers (rest.knownMembers? (stmtMembers kind)) (stmtKind kind)
  else malformed

/-! ### Bodies -/

def localVar (j : Json) : Reading LocalVar :=
  withMembers (j.onlyMembers? ["name", "type"]) fun members =>
    LocalVar.mk <$> required members "name" text <*> required members "type" type

def bodyKeys : List String := ["locals", "labels", "exprs", "stmts", "root"]

def body (j : Json) : Reading Body :=
  withMembers (j.onlyMembers? bodyKeys) fun members =>
    Body.ofLists <$> optional members "locals" [] (items localVar)
      <*> optional members "labels" 0 natural
      <*> optional members "exprs" [] (items exprNode)
      <*> optional members "stmts" [] (items stmtNode)
      <*> required members "root" positions

end HaxeBackend.Reading
