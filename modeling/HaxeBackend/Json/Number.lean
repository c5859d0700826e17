import HaxeBackend.Binary.Format
import HaxeBackend.Json.Basic

/-!
# Values of JSON numbers

A number written as digits alone is a whole number when it fits 64 bits, signed or unsigned, and is not `-0`.  Any
other number is a double, computed in two roundings: the leading digits that fit an unsigned 64-bit word are
rounded once, and that is multiplied or divided by a rounded power of ten.  A number too large for a double has
no value.
-/

namespace HaxeBackend.Json

open HaxeBackend.Binary (Format Number)

/-- Digits gathered into a 64-bit word, and how far the decimal point moved. -/
structure Gathered where
  word : Nat
  point : Int

/-- Appends digits while the word holds them; the first that does not fit ends the gathering. -/
def gather (word : Nat) : List Nat → Nat × List Nat
  | [] => (word, [])
  | d :: ds => if word * 10 + d < UInt64.size then gather (word * 10 + d) ds else (word, d :: ds)

/-- The digits before the point that do not fit count as zeros, those after it are dropped. -/
def Numeral.gathered (n : Json.Numeral) : Gathered :=
  let (word, overflow) := gather 0 n.whole
  match n.fraction with
  | none => ⟨word, overflow.length⟩
  | some digits =>
    let (word', rest) := gather word digits
    ⟨word', (overflow.length : Int) - ((digits.length : Int) - (rest.length : Int))⟩

/-- Multiplies by `10 ^ scale` for a scale from 0 to 308, or divides when it is negative. -/
def scaleOnce (significand : Nat) (exponent scale : Int) : Number :=
  let power := Binary.double.round false (Binary.tenPow scale.natAbs) 0
  match power with
  | .finite _ m e =>
    if 0 ≤ scale then
      Binary.double.round false (significand * m) (exponent + e)
    else
      let (n, d) := Binary.Number.ratio significand exponent
      let (n', d') := Binary.Number.ratio m e
      Binary.double.roundRatio false (n * d') (d * n')
  | other => other

/-- Scales by any power of ten; a scale below -308 is taken in steps of 308 until the number vanishes. -/
def scaleBy : Nat → Number → Int → Option Number
  | _, .nan, _ => none
  | _, .infinite _, _ => none
  | 0, .finite _ _ _, _ => some (.finite false 0 Binary.double.minExponent)
  | fuel + 1, .finite _ m e, scale =>
    if scale.natAbs ≤ 308 then
      match scaleOnce m e scale with
      | .infinite _ => none
      | x => some x
    else if m = 0 then some (.finite false 0 e)
    else if 0 ≤ scale then none
    else scaleBy fuel (scaleOnce m e (-308)) (scale + 308)

/-- The double a number denotes, or nothing when it is out of range. -/
def Numeral.double? (n : Json.Numeral) : Option Number :=
  let g := n.gathered
  let signed (x : Number) : Number := if n.negative then x.negate else x
  let zero : Number := .finite false 0 Binary.double.minExponent
  match n.exponent with
  | some e =>
    -- An exponent past 32 bits only leaves zero or nothing.
    if 2147483648 ≤ e then (if g.word = 0 then some (signed zero) else none)
    else if e ≤ -2147483648 then some (signed zero)
    else (scaleBy 4 (Binary.double.round false g.word 0) (g.point + e)).map signed
  | none => (scaleBy 4 (Binary.double.round false g.word 0) g.point).map signed

/-- The whole number written by digits. -/
def Numeral.magnitude (n : Json.Numeral) : Nat :=
  n.whole.foldl (fun value d => value * 10 + d) 0

/-- The value of a number written as a whole number of 64 bits. -/
def Numeral.integer? (n : Json.Numeral) : Option Int :=
  match n.fraction, n.exponent with
  | none, none =>
    let value : Int := n.magnitude
    if n.negative then (if 0 < value ∧ value ≤ 9223372036854775808 then some (-value) else none)
    else (if value < UInt64.size then some value else none)
  | _, _ => none

/-- The number nearest to what is written, in a format; a whole number is rounded once, any other through the
double it denotes. -/
def Numeral.rounded? (f : Format) (n : Json.Numeral) : Option Number :=
  match n.integer? with
  | some value => some (f.ofInt value)
  | none => n.double?.map (·.convert f)

/-- Whether the number has a value at all. -/
def Numeral.inRange (n : Json.Numeral) : Bool :=
  n.integer?.isSome || n.double?.isSome

/-- The whole number a document is, within bounds. -/
def integer? (least greatest : Int) : Json → Option Int
  | .number n => n.integer?.filter fun value => least ≤ value && value ≤ greatest
  | _ => none

/-- A natural number below a limit. -/
def natural? (limit : Nat) (j : Json) : Option Nat :=
  (j.integer? 0 ((limit : Int) - 1)).map Int.toNat

mutual

/-- Whether a value stands in at most `room` levels of containers, all its strings denote texts and all its
numbers are in range. -/
def sound (room : Nat) : Json → Bool
  | .null => true
  | .bool _ => true
  | .number n => n.inRange
  | .string s => s.isSome
  | .array items => 0 < room && soundItems (room - 1) items
  | .object members => 0 < room && soundMembers (room - 1) members

def soundItems (room : Nat) : List Json → Bool
  | [] => true
  | item :: items => item.sound room && soundItems room items

def soundMembers (room : Nat) : List (Option String × Json) → Bool
  | [] => true
  | (key, value) :: members => key.isSome && value.sound room && soundMembers room members

end

end HaxeBackend.Json
