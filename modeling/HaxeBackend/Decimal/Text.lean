import HaxeBackend.Decimal.Shortest

/-!
# Decimal texts of binary numbers

Shortest digits, written positionally with at least one fraction digit for magnitudes from `10 ^ -4` to below
`10 ^ 16` and for zero, and with an exponent otherwise.  The spellings of infinities and of `nan` are the
caller's.
-/

namespace HaxeBackend.Decimal

open HaxeBackend.Binary (Format Number)

/-- Where positional writing starts and ends, and how the numbers without digits are spelled. -/
structure Spelling where
  leastPositional : Int
  firstExponential : Int
  nan : String
  infinite : String
  negativeInfinite : String

/-- A natural number is written with digits, at least one, that give it back. -/
theorem digits_toString (n : Nat) :
    (toString n).toList.all Char.isDigit = true ∧ (toString n).toList ≠ [] ∧
      Nat.ofDigitChars 10 (toString n).toList 0 = n := by
  rw [show toString n = n.repr from rfl, Nat.repr_eq_ofList_toDigits, String.toList_ofList]
  refine ⟨?_, Nat.toDigits_ne_nil, Nat.ofDigitChars_ten_toDigits⟩
  rw [List.all_eq_true]
  exact fun c hc => Nat.isDigit_of_mem_toDigits (by decide) (by decide) hc

/-- `d.ddde±x`: one digit before the point, no point when that is all. -/
def exponential (digits : List Char) (scientific : Int) : String :=
  let mantissa :=
    match digits with
    | [] => "0"
    | [d] => String.ofList [d]
    | d :: rest => String.ofList (d :: '.' :: rest)
  s!"{mantissa}e{scientific}"

/-- Positional writing of `digits · 10 ^ exponent`. -/
def positional (digits : List Char) (exponent : Int) : String :=
  let zeros (n : Nat) : List Char := List.replicate n '0'
  if 0 ≤ exponent then
    String.ofList (digits ++ zeros exponent.toNat ++ ['.', '0'])
  else
    let places := (-exponent).toNat
    if places < digits.length then
      String.ofList (digits.take (digits.length - places) ++ '.' :: digits.drop (digits.length - places))
    else
      String.ofList ('0' :: '.' :: zeros (places - digits.length) ++ digits)

/-- The text of a number of the format. -/
def Spelling.text (s : Spelling) (f : Format) : Number → String
  | .nan => s.nan
  | .infinite false => s.infinite
  | .infinite true => s.negativeInfinite
  | .finite negative m e =>
    let sign := if negative then "-" else ""
    if m = 0 then
      sign ++ "0.0"
    else
      let d := shortest f m e
      let digits := (toString d.digits).toList
      let scientific := d.exponent + (digits.length : Int) - 1
      if s.leastPositional ≤ scientific ∧ scientific < s.firstExponential then
        sign ++ positional digits d.exponent
      else
        sign ++ exponential digits scientific

end HaxeBackend.Decimal
