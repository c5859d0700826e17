import HaxeBackend.Binary.Format

/-!
# Shortest decimals

The decimal with the fewest digits that reads back as a given binary number.  The numbers that round to
`m · 2 ^ e` form an interval, whose ends belong to it when `m` is even.  For one digit, two digits and so on, the
two neighbours of the value on that decimal grid are tried; the first grid with a neighbour inside the interval
wins, and of two such neighbours the nearer one, the upper one on a tie.
-/

namespace HaxeBackend.Decimal

open HaxeBackend.Binary (Format twoPow tenPow)

/-- The decimal `digits · 10 ^ exponent`. -/
structure Digits where
  digits : Nat
  exponent : Int
  deriving DecidableEq, Repr

/-- The value `m · 2 ^ e` and the ends of its rounding interval, all in quarters of the last place. -/
structure Quarters where
  low : Nat
  value : Nat
  high : Nat
  closed : Bool

/-- Below a power of two the spacing halves, so the lower end is nearer there. -/
def Quarters.ofNumber (f : Format) (m : Nat) (e : Int) : Quarters :=
  let below := if m = twoPow f.fractionBits ∧ f.minExponent < e then 1 else 2
  { low := 4 * m - below, value := 4 * m, high := 4 * m + 2, closed := m % 2 == 0 }

/-- The largest `t` near the estimate with `10 ^ t ≤ m · 2 ^ e`. -/
def topExponent (m : Nat) (e : Int) : Int :=
  let estimate := (e + m.log2) * 30103 / 100000
  let atMost (t : Int) : Bool :=
    tenPow t.toNat * twoPow (-e).toNat ≤ m * twoPow e.toNat * tenPow (-t).toNat
  if atMost (estimate + 1) then estimate + 1 else if atMost estimate then estimate else estimate - 1

/-- A point of the grid `10 ^ k` inside the rounding interval, next to the value. -/
def neighbour? (q : Quarters) (e k : Int) : Option Nat :=
  let grow := twoPow (e - 2).toNat * tenPow (-k).toNat
  let unit := twoPow (2 - e).toNat * tenPow k.toNat
  let lower := q.value * grow / unit
  let lowerFits := if q.closed then q.low * grow ≤ lower * unit else q.low * grow < lower * unit
  let upperFits :=
    if q.closed then (lower + 1) * unit ≤ q.high * grow else (lower + 1) * unit < q.high * grow
  if lowerFits ∧ upperFits then
    some (if 2 * (q.value * grow % unit) ≥ unit then lower + 1 else lower)
  else if lowerFits then some lower
  else if upperFits then some (lower + 1)
  else none

/-- Removes trailing zeros; a number below `10 ^ fuel` has fewer than `fuel` of them. -/
def dropZeros : Nat → Digits → Digits
  | 0, d => d
  | fuel + 1, d =>
    if d.digits ≠ 0 ∧ d.digits % 10 = 0 then dropZeros fuel ⟨d.digits / 10, d.exponent + 1⟩ else d

/-- The shortest decimal of the positive number `m · 2 ^ e` of the format. -/
def shortest (f : Format) (m : Nat) (e : Int) : Digits :=
  let q := Quarters.ofNumber f m e
  let top := topExponent m e
  let found := (List.range 17).findSome? fun (n : Nat) =>
    let k := top - (n : Int)
    (neighbour? q e k).map fun digits => dropZeros 20 ⟨digits, k⟩
  found.getD ⟨m, 0⟩

end HaxeBackend.Decimal
