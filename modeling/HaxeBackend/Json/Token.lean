import HaxeBackend.Json.Basic
import HaxeBackend.Text.Hex

/-!
# Tokens of JSON texts

`Token.scan` splits a text into tokens, or fails where no token starts.  Blanks between tokens are spaces, tabs,
line feeds and carriage returns.  Each scanner returns what is left of the text, which is shorter than what it was
given (`length_scanString`, `length_scanNumber`).
-/

namespace HaxeBackend.Json

inductive Token where
  | openObject
  | closeObject
  | openArray
  | closeArray
  | colon
  | comma
  | null
  | bool (value : Bool)
  | number (value : Json.Numeral)
  | string (text : Option String)
  deriving DecidableEq, Repr

namespace Token

/-! ### Strings -/

/-- The code point an escape of one letter stands for. -/
def escape? : Char → Option Nat
  | '"' => some '"'.toNat
  | '\\' => some '\\'.toNat
  | '/' => some '/'.toNat
  | 'b' => some 8
  | 'f' => some 12
  | 'n' => some 10
  | 'r' => some 13
  | 't' => some 9
  | _ => none

/-- The code unit of a four-digit escape. -/
def unit? (a b c d : Char) : Option Nat := do
  let a ← Text.hexValue? a
  let b ← Text.hexValue? b
  let c ← Text.hexValue? c
  let d ← Text.hexValue? d
  return ((a * 16 + b) * 16 + c) * 16 + d

/-- The code points and code units up to the closing quote, and the text after it. -/
def scanString : List Char → Option (List Nat × List Char)
  | [] => none
  | '"' :: cs => some ([], cs)
  | '\\' :: 'u' :: a :: b :: c :: d :: cs => do
    let unit ← unit? a b c d
    let (units, rest) ← scanString cs
    return (unit :: units, rest)
  | '\\' :: c :: cs => do
    let unit ← escape? c
    let (units, rest) ← scanString cs
    return (unit :: units, rest)
  | c :: cs =>
    if c < ' ' then none
    else do
      let (units, rest) ← scanString cs
      return (c.toNat :: units, rest)

/-- Joins surrogate pairs; an unpaired surrogate has no text. -/
def joinUnits : List Nat → Option (List Char)
  | [] => some []
  | high :: low :: units =>
    if 0xD800 ≤ high ∧ high < 0xDC00 ∧ 0xDC00 ≤ low ∧ low < 0xE000 then
      (joinUnits units).map (Char.ofNat (0x10000 + (high - 0xD800) * 0x400 + (low - 0xDC00)) :: ·)
    else if 0xD800 ≤ high ∧ high < 0xE000 then none
    else (joinUnits (low :: units)).map (Char.ofNat high :: ·)
  | [unit] => if 0xD800 ≤ unit ∧ unit < 0xE000 then none else some [Char.ofNat unit]

theorem length_scanString {cs rest : List Char} {units : List Nat} (h : scanString cs = some (units, rest)) :
    rest.length < cs.length := by
  fun_induction scanString cs generalizing units rest with
  | case1 => simp at h
  | case2 cs =>
    simp only [Option.some.injEq, Prod.mk.injEq] at h
    simp [← h.2]
  | case3 a b c d cs ih =>
    simp only [Option.bind_eq_bind, Option.bind_eq_some_iff, Option.pure_def, Option.some.injEq] at h
    obtain ⟨_, _, ⟨_, r⟩, hr, heq⟩ := h
    simp only [Prod.mk.injEq] at heq
    have := ih hr
    simp only [List.length_cons, ← heq.2]
    omega
  | case4 c cs _ ih =>
    simp only [Option.bind_eq_bind, Option.bind_eq_some_iff, Option.pure_def, Option.some.injEq] at h
    obtain ⟨_, _, ⟨_, r⟩, hr, heq⟩ := h
    simp only [Prod.mk.injEq] at heq
    have := ih hr
    simp only [List.length_cons, ← heq.2]
    omega
  | case5 => simp at h
  | case6 c cs _ _ _ _ ih =>
    simp only [Option.bind_eq_bind, Option.bind_eq_some_iff, Option.pure_def, Option.some.injEq] at h
    obtain ⟨⟨_, r⟩, hr, heq⟩ := h
    simp only [Prod.mk.injEq] at heq
    have := ih hr
    simp only [List.length_cons, ← heq.2]
    omega

/-! ### Numbers -/

/-- The leading digits, by value, and the text after them. -/
def scanDigits : List Char → List Nat × List Char
  | [] => ([], [])
  | c :: cs =>
    if c.isDigit then
      let (digits, rest) := scanDigits cs
      ((c.toNat - '0'.toNat) :: digits, rest)
    else ([], c :: cs)

theorem length_scanDigits (cs : List Char) :
    (scanDigits cs).1.length + (scanDigits cs).2.length = cs.length := by
  induction cs with
  | nil => rfl
  | cons c cs ih =>
    unfold scanDigits
    split
    · simp only [List.length_cons]
      omega
    · simp

/-- A zero stands alone; any other digit starts as many as there are. -/
def scanWhole : List Char → Option (List Nat × List Char)
  | '0' :: cs => some ([0], cs)
  | cs =>
    match scanDigits cs with
    | ([], _) => none
    | found => some found

/-- A point and at least one digit, or nothing. -/
def scanFraction : List Char → Option (Option (List Nat) × List Char)
  | '.' :: cs =>
    match scanDigits cs with
    | ([], _) => none
    | (digits, rest) => some (some digits, rest)
  | cs => some (none, cs)

/-- The digits of an exponent, of which there must be one. -/
def scanPower (negative : Bool) (cs : List Char) : Option (Option Int × List Char) :=
  match scanDigits cs with
  | ([], _) => none
  | (digits, rest) =>
    let magnitude : Int := (digits.foldl (fun value d => value * 10 + d) 0 : Nat)
    some (some (if negative then -magnitude else magnitude), rest)

/-- An exponent mark, a sign and at least one digit, or nothing. -/
def scanExponent : List Char → Option (Option Int × List Char)
  | c :: cs =>
    if c = 'e' ∨ c = 'E' then
      match cs with
      | '+' :: ds => scanPower false ds
      | '-' :: ds => scanPower true ds
      | ds => scanPower false ds
    else some (none, c :: cs)
  | [] => some (none, [])

/-- A number from its first character on. -/
def scanNumber (cs : List Char) : Option (Json.Numeral × List Char) :=
  let (negative, unsigned) :=
    match cs with
    | '-' :: rest => (true, rest)
    | rest => (false, rest)
  do
    let (whole, afterWhole) ← scanWhole unsigned
    let (fraction, afterFraction) ← scanFraction afterWhole
    let (exponent, rest) ← scanExponent afterFraction
    return (⟨negative, whole, fraction, exponent⟩, rest)

private theorem length_scanWhole {cs rest : List Char} {digits : List Nat}
    (h : scanWhole cs = some (digits, rest)) : rest.length < cs.length := by
  unfold scanWhole at h
  split at h
  · simp only [Option.some.injEq, Prod.mk.injEq] at h
    simp [← h.2]
  · have hlen := length_scanDigits cs
    split at h
    · simp at h
    · rename_i hne
      simp only [Option.some.injEq] at h
      rw [h] at hlen hne
      have : digits ≠ [] := fun hd => hne rest (by rw [hd])
      have := List.length_pos_iff.mpr this
      simp only at hlen
      omega

private theorem length_scanFraction {cs rest : List Char} {digits : Option (List Nat)}
    (h : scanFraction cs = some (digits, rest)) : rest.length ≤ cs.length := by
  unfold scanFraction at h
  split at h
  · rename_i ds
    have hlen := length_scanDigits ds
    split at h
    · simp at h
    · rename_i heq
      rw [heq] at hlen
      simp only [Option.some.injEq, Prod.mk.injEq] at h
      simp only [List.length_cons, ← h.2]
      simp only at hlen
      omega
  · simp only [Option.some.injEq, Prod.mk.injEq] at h
    simp [← h.2]

private theorem length_scanPower {negative : Bool} {cs rest : List Char} {power : Option Int}
    (h : scanPower negative cs = some (power, rest)) : rest.length ≤ cs.length := by
  unfold scanPower at h
  have hlen := length_scanDigits cs
  split at h
  · simp at h
  · rename_i heq
    rw [heq] at hlen
    simp only [Option.some.injEq, Prod.mk.injEq] at h
    simp only [← h.2]
    simp only at hlen
    omega

private theorem length_scanExponent {cs rest : List Char} {power : Option Int}
    (h : scanExponent cs = some (power, rest)) : rest.length ≤ cs.length := by
  unfold scanExponent at h
  split at h
  · split at h
    · split at h <;> have := length_scanPower h <;> simp only [List.length_cons] at * <;> omega
    · simp only [Option.some.injEq, Prod.mk.injEq] at h
      simp [← h.2]
  · simp only [Option.some.injEq, Prod.mk.injEq] at h
    simp [← h.2]

theorem length_scanNumber {cs rest : List Char} {n : Json.Numeral} (h : scanNumber cs = some (n, rest)) :
    rest.length < cs.length := by
  simp only [scanNumber, Option.bind_eq_bind, Option.bind_eq_some_iff, Option.pure_def,
    Option.some.injEq] at h
  obtain ⟨⟨_, _⟩, hw, ⟨_, _⟩, hf, ⟨_, _⟩, he, heq⟩ := h
  simp only [Prod.mk.injEq] at heq
  have hw := length_scanWhole hw
  have hf := length_scanFraction hf
  have he := length_scanExponent he
  rw [← heq.2]
  simp only at hw hf he
  split at hw <;> simp only [List.length_cons] at * <;> omega

/-! ### Whole texts -/

def isBlank (c : Char) : Bool :=
  c = ' ' || c = '\t' || c = '\n' || c = '\r'

/-- The tokens of a text. -/
def scan : List Char → Option (List Token)
  | [] => some []
  | '{' :: cs => (scan cs).map (openObject :: ·)
  | '}' :: cs => (scan cs).map (closeObject :: ·)
  | '[' :: cs => (scan cs).map (openArray :: ·)
  | ']' :: cs => (scan cs).map (closeArray :: ·)
  | ':' :: cs => (scan cs).map (colon :: ·)
  | ',' :: cs => (scan cs).map (comma :: ·)
  | 'n' :: 'u' :: 'l' :: 'l' :: cs => (scan cs).map (null :: ·)
  | 't' :: 'r' :: 'u' :: 'e' :: cs => (scan cs).map (bool true :: ·)
  | 'f' :: 'a' :: 'l' :: 's' :: 'e' :: cs => (scan cs).map (bool false :: ·)
  | '"' :: cs =>
    match h : scanString cs with
    | none => none
    | some (units, rest) =>
      have := length_scanString h
      (scan rest).map (string ((joinUnits units).map String.ofList) :: ·)
  | c :: cs =>
    if isBlank c then scan cs
    else
      match h : scanNumber (c :: cs) with
      | none => none
      | some (n, rest) =>
        have := length_scanNumber h
        (scan rest).map (number n :: ·)
termination_by cs => cs.length
decreasing_by all_goals (simp only [List.length_cons] at *; omega)

end Token

end HaxeBackend.Json
