import HaxeBackend.Target.Writer

/-!
# Layout of generated code

Code is a tree of lines and blocks, so every block that is opened is closed.  Its steps write it.
-/

namespace HaxeBackend.Target

inductive Code where
  | empty
  | seq (first rest : Code)
  /-- A text, a line for each of its lines. -/
  | line (text : String)
  | blank
  /-- The next line comes from this source line. -/
  | mark (source : Nat)
  /-- A header and its body between braces. -/
  | block (header : String) (body : Code)
  /-- Two blocks, the second starting on the line where the first ends. -/
  | chain (header : String) (body : Code) (nextHeader : String) (nextBody : Code)
  /-- A body that is indented without braces. -/
  | indented (body : Code)
  /-- Code laid out on its own and then copied. -/
  | nested (body : Code)

namespace Code

instance : Append Code := ⟨seq⟩

def ofList : List Code → Code
  | [] => empty
  | c :: rest => c ++ ofList rest

/-- A line for each text. -/
def lines (texts : List String) : Code := ofList (texts.map line)

/-- The steps that write the code. -/
def steps : Code → List Step
  | empty => []
  | seq first rest => first.steps ++ rest.steps
  | line text => [.line text]
  | blank => [.blank]
  | mark source => [.mark source]
  | block header body => .openBlock header :: (body.steps ++ [.closeBlock])
  | chain header body nextHeader nextBody =>
    .openBlock header :: (body.steps ++ .reopenBlock nextHeader :: (nextBody.steps ++ [.closeBlock]))
  | indented body => .indent :: (body.steps ++ [.dedent])
  | nested body => [.append body.steps]

/-- The writer after the code was written. -/
def write (c : Code) : Writer := Writer.ofSteps c.steps

def text (c : Code) : String := c.write.text

end Code

end HaxeBackend.Target
