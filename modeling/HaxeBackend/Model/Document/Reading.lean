import HaxeBackend.Json.Number
import HaxeBackend.Model.Descriptor

/-!
# Reading documents in two passes

A document is first checked for its shape as a whole, and only then for what it says.  A `Reading` carries both
passes: it is `none` when the shape is wrong anywhere, and otherwise holds the result or the first error of the
second pass.  Readings are combined side by side, never one after looking at another, so a wrong shape always wins.
-/

namespace HaxeBackend

/-- `none` for a wrong shape, `some (.error e)` for a right shape that says something wrong. -/
def Reading (α : Type) : Type := Option (Except ModelError α)

namespace Reading

def malformed {α : Type} : Reading α := none

def reject {α : Type} (e : ModelError) : Reading α := some (.error e)

/-- A check of the shape alone. -/
def shape {α : Type} (value : Option α) : Reading α := value.map .ok

/-- A check of what is said. -/
def meaning {α : Type} (result : Except ModelError α) : Reading α := some result

instance : Functor Reading where
  map f x := Option.map (Except.map f) x

instance : Pure Reading where
  pure a := some (.ok a)

/-- Both shapes must be right; the first error counts. -/
def both {α β : Type} (f : Reading (α → β)) (x : Reading α) : Reading β :=
  match f, x with
  | some f, some x => some (f.bind fun f => x.map f)
  | _, _ => none

instance : Seq Reading where
  seq f x := both f (x ())

/-- Reads every item. -/
def each {α β : Type} (read : α → Reading β) : List α → Reading (List β)
  | [] => pure []
  | a :: as => both ((· :: ·) <$> read a) (each read as)

/-- The outcome of both passes. -/
def result {α : Type} : Reading α → Except ModelError α
  | none => .error .malformed
  | some r => r

end Reading

/-! ### Records -/

/-- Named values, no name twice. -/
abbrev Members := List (String × Json)

/-- The keys and values of an object whose keys all denote texts. -/
def Json.members? : Json → Option Members
  | .object members => members.mapM fun (key, value) => key.map fun k => (k, value)
  | _ => none

/-- The known members of an object, none of them twice; others are left out. -/
def Json.pickMembers? (known : List String) (j : Json) : Option Members :=
  (j.members?.map fun members => members.filter fun (key, _) => known.contains key).filter fun members =>
    (members.map Prod.fst).Nodup

/-- The members that an array gives without their names: the known ones in their order, where the last may be left
out. -/
def Json.positionalMembers? (known : List String) (items : List Json) : Option Members :=
  if items.length ≤ known.length then some (known.zip items) else none

/-- The known members of a record; those of an object are picked, those of an array go by their positions. -/
def Json.knownMembers? (known : List String) : Json → Option Members
  | .array items => positionalMembers? known items
  | j => j.pickMembers? known

/-- The members of a record that has no others than the known ones, and none twice. -/
def Json.onlyMembers? (known : List String) : Json → Option Members
  | .array items => positionalMembers? known items
  | j => j.members?.filter fun members =>
    members.all (fun (key, _) => known.contains key) && (members.map Prod.fst).Nodup

namespace Reading

variable {α β : Type}

/-- Goes on with the members of a record, if it has the right ones. -/
def withMembers (members : Option Members) (read : Members → Reading β) : Reading β :=
  match members with
  | none => malformed
  | some members => read members

def required (members : Members) (key : String) (read : Json → Reading α) : Reading α :=
  match members.lookup key with
  | none => malformed
  | some j => read j

/-- A member that may be left out, but is not null. -/
def optional (members : Members) (key : String) (default : α) (read : Json → Reading α) : Reading α :=
  match members.lookup key with
  | none => pure default
  | some j => read j

/-- A member that may be left out or null. -/
def nullable (members : Members) (key : String) (read : Json → Reading α) : Reading (Option α) :=
  match members.lookup key with
  | none => pure none
  | some .null => pure none
  | some j => some <$> read j

/-! ### Values -/

def text (j : Json) : Reading String := shape j.text?

def flag (j : Json) : Reading Bool := shape j.bool?

/-- A natural number of 32 bits. -/
def natural (j : Json) : Reading Nat := shape (j.natural? UInt32.size)

def bits (j : Json) : Reading UInt32 := shape ((j.natural? UInt32.size).map UInt32.ofNat)

def int32 (j : Json) : Reading Int32 := shape ((j.integer? (-2147483648) 2147483647).map Int32.ofInt)

def int64 (j : Json) : Reading Int64 :=
  shape ((j.integer? (-9223372036854775808) 9223372036854775807).map Int64.ofInt)

/-- The bits of the single-precision number nearest to a number. -/
def single : Json → Reading UInt32
  | .number n => shape ((n.rounded? Binary.single).map fun x => UInt32.ofNat (Binary.single.encode x))
  | _ => malformed

/-- The bits of the double-precision number nearest to a number. -/
def double : Json → Reading UInt64
  | .number n => shape ((n.rounded? Binary.double).map fun x => UInt64.ofNat (Binary.double.encode x))
  | _ => malformed

/-- A type by its descriptor. -/
def type (j : Json) : Reading Ty :=
  match j.text? with
  | none => malformed
  | some descriptor => meaning (Ty.ofDescriptor descriptor)

def items (read : Json → Reading α) : Json → Reading (List α)
  | .array items => each read items
  | _ => malformed

/-- Two items in an array. -/
def pair (first : Json → Reading α) (second : Json → Reading β) : Json → Reading (α × β)
  | .array [a, b] => both (Prod.mk <$> first a) (second b)
  | _ => malformed

/-- A plain name: a text, or an object of that one member whose value is `null`. -/
def name : Json → Reading String
  | .string s => shape s
  | .object [(some key, .null)] => pure key
  | _ => malformed

/-- A plain name inside a node of a body, where the value may also be an empty object. -/
def nodeName : Json → Reading String
  | .object [(some key, .object [])] => pure key
  | j => name j

/-- The value that a name stands for. -/
def oneOf (table : List (String × α)) (name : Reading String) : Reading α :=
  match name with
  | some (.ok key) => shape (table.lookup key)
  | some (.error e) => reject e
  | none => malformed

end Reading

end HaxeBackend
