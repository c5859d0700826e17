/-!
# Hexadecimal digits

Numbers written in base sixteen, either with a fixed number of digits or with as many as the number needs.
-/

namespace HaxeBackend.Text

/-- The digit `n` (below sixteen), in lower case. -/
def hexDigit (n : Nat) : Char :=
  if n < 10 then Char.ofNat ('0'.toNat + n) else Char.ofNat ('a'.toNat + (n - 10))

/-- The digit `n` (below sixteen), in upper case. -/
def hexDigitUpper (n : Nat) : Char :=
  if n < 10 then Char.ofNat ('0'.toNat + n) else Char.ofNat ('A'.toNat + (n - 10))

/-- The last `width` hexadecimal digits of `n`, most significant first, each written by `digit`. -/
def hexDigits (digit : Nat → Char) : Nat → Nat → List Char
  | 0, _ => []
  | width + 1, n => hexDigits digit width (n / 16) ++ [digit (n % 16)]

/-- How many hexadecimal digits `n` needs; zero needs one. -/
def hexWidth (n : Nat) : Nat :=
  n.log2 / 4 + 1

/-- `n` in lower case, with exactly `width` digits. -/
def hexPadded (width n : Nat) : String :=
  String.ofList (hexDigits hexDigit width n)

/-- `n` in upper case, without leading zeros. -/
def hexUpper (n : Nat) : List Char :=
  hexDigits hexDigitUpper (hexWidth n) n

/-- The value of a hexadecimal digit of either case. -/
def hexValue? (c : Char) : Option Nat :=
  if '0' ≤ c ∧ c ≤ '9' then some (c.toNat - '0'.toNat)
  else if 'a' ≤ c ∧ c ≤ 'f' then some (c.toNat - 'a'.toNat + 10)
  else if 'A' ≤ c ∧ c ≤ 'F' then some (c.toNat - 'A'.toNat + 10)
  else none

@[simp]
theorem length_hexDigits (digit : Nat → Char) (width n : Nat) : (hexDigits digit width n).length = width := by
  induction width generalizing n with
  | zero => rfl
  | succ width ih => simp [hexDigits, ih]

end HaxeBackend.Text
