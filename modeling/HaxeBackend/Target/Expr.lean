import HaxeBackend.Decimal.Text
import HaxeBackend.Model.Operator
import HaxeBackend.Target.Support

/-!
# Expressions of generated code

The forms that generated expressions take, and the text of each.  Operators are always in parentheses, so a text
has one reading.
-/

namespace HaxeBackend.Target

/-- What the function of an adapter does with the value of its call. -/
inductive AdapterResult where
  /-- Nothing is returned. -/
  | discard
  /-- The call has no value, and this text is returned instead. -/
  | constant (text : String)
  | value
  deriving DecidableEq, Repr

inductive Expr where
  | null
  | bool (value : Bool)
  | int (value : Int32)
  | single (bits : UInt32)
  | double (bits : UInt64)
  | quoted (text : String)
  /-- A parameter or a local variable. -/
  | var (name : String)
  | this
  | super
  /-- The last caught value of the method. -/
  | caught
  /-- A class by its full name. -/
  | path (name : String)
  /-- A pooled string literal of the surrounding class. -/
  | pooled (index : Nat)
  /-- A call of a numeric helper. -/
  | num (helper : String) (args : List Expr)
  /-- A call of a boxing or look-up helper. -/
  | natives (helper : String) (args : List Expr)
  | binary (op : BinaryOp) (left right : Expr)
  | negate (operand : Expr)
  | not (operand : Expr)
  | complement (operand : Expr)
  | member (object : Expr) (name : String)
  | invoke (object : Expr) (name : String) (args : List Expr)
  | isOfType (operand : Expr) (tag : String)
  | castTo (operand : Expr) (tag : String)
  | construct (className : String) (args : List Expr)
  | list (items : List Expr)
  /-- A pattern with the operand in the place of each `@self`. -/
  | template (pattern : String) (operand : Expr)
  /-- An adapter object over a function with these parameters, each with its type, that initializes the class held
  by `guard` and then makes one call. -/
  | adapter (className : String) (params : List (String × String)) (ret : String) (guard : Option String)
      (call : Expr) (result : AdapterResult)

/-- The smallest number has no positive counterpart, so it is written as a difference. -/
def intText (value : Int32) : String :=
  if value = Int32.minValue then "(-2147483647 - 1)" else toString value.toInt

/-- Positional from `10 ^ -4` to below `10 ^ 16`; numbers without digits are constants of the math class. -/
def floatSpelling : Decimal.Spelling where
  leastPositional := -4
  firstExponential := 16
  nan := "Math.NaN"
  infinite := "Math.POSITIVE_INFINITY"
  negativeInfinite := "Math.NEGATIVE_INFINITY"

def singleText (bits : UInt32) : String :=
  floatSpelling.text Binary.single (Binary.single.decode bits.toNat)

def doubleText (bits : UInt64) : String :=
  floatSpelling.text Binary.double (Binary.double.decode bits.toNat)

/-- The name of a pooled literal. -/
def poolIdent (index : Nat) : String := s!"{poolStem}{index}"

/-- Names with their types. -/
def parameterList (params : List (String × String)) : String :=
  argumentList (params.map fun (name, tag) => s!"{name}:{tag}")

/-- The statement that runs the static initializer of a class that has its statics in `holder`. -/
def guardText (holder : String) : String := s!"{holder}.{initRoutine}();"

/-- Puts `value` in the place of each `@self`. -/
def fillSelf (value : List Char) : List Char → List Char
  | [] => []
  | '@' :: 's' :: 'e' :: 'l' :: 'f' :: cs => value ++ fillSelf value cs
  | c :: cs => c :: fillSelf value cs

namespace Expr

mutual

def text : Expr → String
  | null => "null"
  | bool value => if value then "true" else "false"
  | int value => intText value
  | single bits => singleText bits
  | double bits => doubleText bits
  | quoted text => quote text
  | var name => name
  | this => "this"
  | super => "super"
  | caught => caughtSlot
  | path name => name
  | pooled index => poolIdent index
  | num helper args => numCall helper (texts args)
  | natives helper args => nativesCall helper (texts args)
  | binary op left right => s!"({left.text} {op.symbol} {right.text})"
  | negate operand => s!"-({operand.text})"
  | not operand => s!"!({operand.text})"
  | complement operand => s!"~({operand.text})"
  | member object name => s!"{object.text}.{name}"
  | invoke object name args => s!"{object.text}.{name}({argumentList (texts args)})"
  | isOfType operand tag => s!"Std.isOfType({operand.text}, {tag})"
  | castTo operand tag => s!"cast({operand.text}, {tag})"
  | construct className args => s!"new {className}({argumentList (texts args)})"
  | list items => s!"[{argumentList (texts items)}]"
  | template pattern operand => String.ofList (fillSelf operand.text.toList pattern.toList)
  | adapter className params ret guard call result =>
    let before := match guard with
      | some holder => guardText holder ++ " "
      | none => ""
    let body := match result with
      | .discard => s!"{call.text};"
      | .constant value => s!"{call.text}; return {value};"
      | .value => s!"return {call.text};"
    s!"new {className}(function({parameterList params}):{ret} \x7b {before}{body} \x7d)"

def texts : List Expr → List String
  | [] => []
  | e :: rest => e.text :: texts rest

end

/-- A 64-bit constant, built from its two halves. -/
def long (value : Int64) : Expr :=
  num "lnew" [int (value >>> 32).toInt32, int value.toInt32]

end Expr

end HaxeBackend.Target
