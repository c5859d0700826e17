import HaxeBackend.Model.Document.Reading
import HaxeBackend.Model.Literal

/-!
# Constants and annotations in documents

A constant is an object of one member, whose key tells the kind.  Annotation elements are an object of such
values; a key that is repeated counts with its last value, and the elements are kept in the order of their keys.
-/

namespace HaxeBackend.Reading

/-- A constant of a field or of an expression; `nullName` reads the form without a value. -/
def literal (nullName : Json → Reading String) (j : Json) : Reading Literal :=
  match j with
  | .object [(some "bool", v)] => .bool <$> flag v
  | .object [(some "int", v)] => .int <$> int32 v
  | .object [(some "long", v)] => .long <$> int64 v
  | .object [(some "float", v)] => .float <$> single v
  | .object [(some "double", v)] => .double <$> double v
  | .object [(some "string", v)] => .string <$> text v
  | .object [(some "class", v)] => .classRef <$> type v
  | j => oneOf [("null", .null)] (nullName j)

/-- Replaces the value of a key, or adds the key where the order puts it. -/
def insertSorted {α : Type} (key : String) (value : α) : List (String × α) → List (String × α)
  | [] => [(key, value)]
  | (k, v) :: rest =>
    if key = k then (key, value) :: rest
    else if key < k then (key, value) :: (k, v) :: rest
    else (k, v) :: insertSorted key value rest

/-- The second-pass results of named values, sorted by name, the last of each name counting. -/
def sortedElements {α : Type} (elements : List (String × Except ModelError α)) :
    Except ModelError (List (String × α)) :=
  (elements.foldl (fun sorted (key, value) => insertSorted key value sorted) []).mapM fun (key, value) =>
    value.map fun v => (key, v)

mutual

/-- The value of an annotation element, inside at most `room` levels of containers. -/
def value (room : Nat) (j : Json) : Reading AnnotationValue :=
  if room = 0 then malformed
  else
    match j with
    | .object [(some "bool", v)] => .bool <$> flag v
    | .object [(some "byte", v)] => (.byte ∘ Int8.ofInt) <$> shape (v.integer? (-128) 127)
    | .object [(some "short", v)] => (.short ∘ Int16.ofInt) <$> shape (v.integer? (-32768) 32767)
    | .object [(some "char", v)] => (.char ∘ UInt16.ofNat) <$> shape (v.natural? UInt16.size)
    | .object [(some "int", v)] => .int <$> int32 v
    | .object [(some "long", v)] => .long <$> int64 v
    | .object [(some "float", v)] => .float <$> single v
    | .object [(some "double", v)] => .double <$> double v
    | .object [(some "string", v)] => .string <$> text v
    | .object [(some "enum", v)] =>
      if room = 1 then malformed
      else
        withMembers (v.knownMembers? ["class", "field"]) fun members =>
          .enum <$> required members "class" text <*> required members "field" text
    | .object [(some "class", v)] => .classRef <$> type v
    | .object [(some "annotation", v)] =>
      (fun use => AnnotationValue.nested use.type use.elements use.visible) <$> annotationUse (room - 1) v
    | .object [(some "array", .array items)] =>
      if room = 1 then malformed else .array <$> each (value (room - 2)) items
    | _ => malformed
termination_by room
decreasing_by all_goals omega

/-- An annotation, inside at most `room` levels of containers. -/
def annotationUse (room : Nat) (j : Json) : Reading AnnotationUse :=
  if room = 0 then malformed
  else
    withMembers (j.onlyMembers? ["type", "elements", "runtime_visible"]) fun members =>
      let elements : Reading (List (String × AnnotationValue)) :=
        optional members "elements" [] fun j =>
          match j.members? with
          | none => malformed
          | some elements =>
            if room = 1 then malformed
            else
              match elements.mapM fun (key, v) => (value (room - 2) v).map fun r => (key, r) with
              | none => malformed
              | some results => meaning (sortedElements results)
      AnnotationUse.mk <$> required members "type" text
        <*> elements
        <*> optional members "runtime_visible" true flag
termination_by room
decreasing_by all_goals omega

end

/-- A list of annotations whose items stand in at most `room` levels of containers. -/
def annotationUses (room : Nat) : Json → Reading (List AnnotationUse) :=
  items (annotationUse room)

end HaxeBackend.Reading
