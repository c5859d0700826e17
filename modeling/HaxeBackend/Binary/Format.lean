/-!
# Binary floating-point numbers

A `Format` is a binary interchange format: a sign bit, a biased exponent and the fraction of the significand.  A
`Number` is what a bit pattern of a format denotes.  `Format.round` takes any magnitude `m · 2 ^ e` to the nearest
number of the format, a tie going to the even significand; every operation here computes exactly and rounds once.
-/

namespace HaxeBackend.Binary

/-- The powers of two. -/
def twoPow (n : Nat) : Nat := Nat.pow 2 n

/-- The powers of ten. -/
def tenPow (n : Nat) : Nat := Nat.pow 10 n

/-- The widths of the two fields beside the sign bit. -/
structure Format where
  fractionBits : Nat
  exponentBits : Nat
  deriving DecidableEq, Repr

/-- The 32-bit format. -/
def single : Format := ⟨23, 8⟩

/-- The 64-bit format. -/
def double : Format := ⟨52, 11⟩

/-- A floating-point number; `finite s m e` is `m · 2 ^ e`, negated when `s` is set. -/
inductive Number where
  | nan
  | infinite (negative : Bool)
  | finite (negative : Bool) (significand : Nat) (exponent : Int)
  deriving DecidableEq, Repr

namespace Format

/-- Significant bits of a normal number. -/
def precision (f : Format) : Nat := f.fractionBits + 1

def bias (f : Format) : Nat := twoPow (f.exponentBits - 1) - 1

/-- Exponent of the last place of the smallest numbers. -/
def minExponent (f : Format) : Int := 1 - f.bias - f.fractionBits

/-- Exponent of the last place of the largest finite numbers. -/
def maxExponent (f : Format) : Int := f.bias - f.fractionBits

/-- The number a bit pattern denotes. -/
def decode (f : Format) (bits : Nat) : Number :=
  let fraction := bits % twoPow f.fractionBits
  let biased := bits / twoPow f.fractionBits % twoPow f.exponentBits
  let negative := bits / twoPow (f.fractionBits + f.exponentBits) % 2 == 1
  if biased = twoPow f.exponentBits - 1 then
    if fraction = 0 then .infinite negative else .nan
  else if biased = 0 then
    .finite negative fraction f.minExponent
  else
    .finite negative (twoPow f.fractionBits + fraction) (f.minExponent + (biased - 1 : Nat))

/-- The bit pattern of a number whose significand and exponent fit the format. -/
def encode (f : Format) (x : Number) : Nat :=
  let signed (negative : Bool) (magnitude : Nat) : Nat :=
    if negative then twoPow (f.fractionBits + f.exponentBits) + magnitude else magnitude
  match x with
  | .nan => (twoPow f.exponentBits - 1) * twoPow f.fractionBits + twoPow (f.fractionBits - 1)
  | .infinite negative => signed negative ((twoPow f.exponentBits - 1) * twoPow f.fractionBits)
  | .finite negative m e =>
    if m < twoPow f.fractionBits then signed negative m
    else signed negative ((e - f.minExponent + 1).toNat * twoPow f.fractionBits + (m - twoPow f.fractionBits))

end Format

/-- `m / 2 ^ shift`, rounded to the nearest whole number and on a tie to the even one. -/
def halfEven (m shift : Nat) : Nat :=
  let quotient := m / twoPow shift
  let remainder := m % twoPow shift
  if 2 * remainder > twoPow shift ∨ 2 * remainder = twoPow shift ∧ quotient % 2 = 1 then quotient + 1 else quotient

namespace Format

/-- The number of the format nearest to `m · 2 ^ e`, ties to even; magnitudes past the largest become infinite. -/
def round (f : Format) (negative : Bool) (m : Nat) (e : Int) : Number :=
  if m = 0 then
    .finite negative 0 f.minExponent
  else
    let wanted := e + (m.log2 + 1 : Nat) - f.precision
    let place := if wanted < f.minExponent then f.minExponent else wanted
    let rounded := if place ≤ e then m * twoPow (e - place).toNat else halfEven m (place - e).toNat
    let carried := rounded == twoPow f.precision
    let significand := if carried then twoPow f.fractionBits else rounded
    let exponent := if carried then place + 1 else place
    if exponent > f.maxExponent then .infinite negative else .finite negative significand exponent

/-- The number of the format nearest to `n / d`, for a positive `d`. -/
def roundRatio (f : Format) (negative : Bool) (n d : Nat) : Number :=
  -- Enough quotient bits that the last one can stand for whatever the division leaves over.
  let scale := d.log2 + f.precision + 3
  let quotient := n * twoPow scale / d
  let rest := if n * twoPow scale % d = 0 then 0 else 1
  f.round negative (2 * quotient + rest) (-(scale : Int) - 1)

end Format

namespace Number

/-- Reads a magnitude as `numerator / denominator`. -/
def ratio (significand : Nat) (exponent : Int) : Nat × Nat :=
  (significand * twoPow exponent.toNat, twoPow (-exponent).toNat)

def isNan : Number → Bool
  | .nan => true
  | _ => false

def negate : Number → Number
  | .nan => .nan
  | .infinite negative => .infinite !negative
  | .finite negative m e => .finite (!negative) m e

/-- The same number in another format, rounded if it has to be. -/
def convert (f : Format) : Number → Number
  | .nan => .nan
  | .infinite negative => .infinite negative
  | .finite negative m e => f.round negative m e

/-- Drops the fraction; infinities and numbers past the bounds stop at the bound, and no number is zero. -/
def truncate (least greatest : Int) : Number → Int
  | .nan => 0
  | .infinite negative => if negative then least else greatest
  | .finite negative m e =>
    let (n, d) := ratio m e
    let magnitude : Int := (n / d : Nat)
    let value := if negative then -magnitude else magnitude
    if value < least then least else if greatest < value then greatest else value

/-- The order of two magnitudes. -/
def compareMagnitude (m₁ : Nat) (e₁ : Int) (m₂ : Nat) (e₂ : Int) : Ordering :=
  let (n₁, d₁) := ratio m₁ e₁
  let (n₂, d₂) := ratio m₂ e₂
  compare (n₁ * d₂) (n₂ * d₁)

/-- The order of two numbers; a `nan` is in no order, and the two zeros are equal. -/
def compare? : Number → Number → Option Ordering
  | .nan, _ => none
  | _, .nan => none
  | .infinite a, .infinite b => some (compare b.toNat a.toNat)
  | .infinite a, .finite .. => some (if a then .lt else .gt)
  | .finite .., .infinite b => some (if b then .gt else .lt)
  | .finite a m₁ e₁, .finite b m₂ e₂ =>
    if m₁ = 0 ∧ m₂ = 0 then some .eq
    else if m₁ = 0 then some (if b then .gt else .lt)
    else if m₂ = 0 then some (if a then .lt else .gt)
    else
      match a, b with
      | false, false => some (compareMagnitude m₁ e₁ m₂ e₂)
      | true, true => some (compareMagnitude m₂ e₂ m₁ e₁)
      | true, false => some .lt
      | false, true => some .gt

end Number

/-- The number of the format nearest to a whole number. -/
def Format.ofInt (f : Format) (value : Int) : Number :=
  f.round (value < 0) value.natAbs 0

end HaxeBackend.Binary
