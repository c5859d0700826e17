import HaxeBackend.Decimal.Text
import HaxeBackend.Proofs.Decimal.Shortest

/-!
# Reading decimal texts

A decimal text is digits with at most one point and an exponent behind `e`; it denotes the number of a format that is
nearest to its value.  The positional text of a decimal and the one with an exponent both have its value, so the text
of a number is read as that number (`read?_text`).
-/

namespace HaxeBackend.Decimal

open HaxeBackend.Binary (Format Number Contains twoPow tenPow)

variable {f : Format} {m n : Nat} {e : Int} {negative : Bool} {digits cs : List Char}

/-! ### The reader -/

/-- The exponent at the end of a text, when that is all that is left. -/
def readExponent? : List Char → Option Int
  | [] => some 0
  | 'e' :: '-' :: cs => if !cs.isEmpty && cs.all Char.isDigit then some (-(Nat.ofDigitChars 10 cs 0 : Nat)) else none
  | 'e' :: cs => if !cs.isEmpty && cs.all Char.isDigit then some (Nat.ofDigitChars 10 cs 0 : Nat) else none
  | _ => none

/-- The digits behind a point, and what is left. -/
def readFraction : List Char → List Char × List Char
  | '.' :: cs => (cs.takeWhile Char.isDigit, cs.dropWhile Char.isDigit)
  | cs => ([], cs)

def readDigits? (cs : List Char) : Option Digits :=
  let whole := cs.takeWhile Char.isDigit
  let (fraction, rest) := readFraction (cs.dropWhile Char.isDigit)
  if whole.isEmpty then none
  else (readExponent? rest).map fun exponent =>
    ⟨Nat.ofDigitChars 10 (whole ++ fraction) 0, exponent - fraction.length⟩

/-- The number of the format that a text denotes. -/
def read? (f : Format) (text : String) : Option Number :=
  match text.toList with
  | '-' :: cs => (readDigits? cs).map (Digits.nearest f true)
  | cs => (readDigits? cs).map (Digits.nearest f false)

/-! ### Parts of a text -/

private theorem span_digits (cs : List Char) (hdigits : digits.all Char.isDigit = true)
    (hcs : cs.head?.any Char.isDigit = false) :
    (digits ++ cs).takeWhile Char.isDigit = digits ∧ (digits ++ cs).dropWhile Char.isDigit = cs := by
  have hdigits := List.all_eq_true.1 hdigits
  rw [List.takeWhile_append_of_pos hdigits, List.dropWhile_append_of_pos hdigits]
  cases cs with
  | nil => simp
  | cons c cs => simp_all

/-- Digits, a point, digits and an exponent. -/
private theorem readDigits?_pointed (digits fraction rest : List Char) {exponent : Int}
    (hdigits : digits.all Char.isDigit = true) (hne : digits ≠ []) (hfraction : fraction.all Char.isDigit = true)
    (hrest : rest.head?.any Char.isDigit = false) (hexponent : readExponent? rest = some exponent) :
    readDigits? (digits ++ '.' :: (fraction ++ rest)) =
      some ⟨Nat.ofDigitChars 10 (digits ++ fraction) 0, exponent - fraction.length⟩ := by
  obtain ⟨htake, hdrop⟩ := span_digits ('.' :: (fraction ++ rest)) hdigits rfl
  obtain ⟨htake', hdrop'⟩ := span_digits rest hfraction hrest
  unfold readDigits?
  rw [htake, hdrop, readFraction, htake', hdrop']
  simp [hne, hexponent]

/-- Digits and an exponent. -/
private theorem readDigits?_plain (digits cs : List Char) {exponent : Int}
    (hdigits : digits.all Char.isDigit = true) (hne : digits ≠ []) (hcs : ∀ c, cs.head? = some c → c = 'e')
    (hexponent : readExponent? cs = some exponent) :
    readDigits? (digits ++ cs) = some ⟨Nat.ofDigitChars 10 digits 0, exponent⟩ := by
  have hhead : cs.head?.any Char.isDigit = false ∧ readFraction cs = ([], cs) := by
    cases cs with
    | nil => exact ⟨rfl, rfl⟩
    | cons c cs =>
      obtain rfl := hcs c rfl
      exact ⟨rfl, rfl⟩
  obtain ⟨htake, hdrop⟩ := span_digits cs hdigits hhead.1
  unfold readDigits?
  rw [htake, hdrop, hhead.2]
  simp [hne, hexponent]

private theorem readExponent?_toString (exponent : Int) :
    readExponent? ('e' :: (toString exponent).toList) = some exponent := by
  cases exponent with
  | ofNat n =>
    obtain ⟨hdigits, hne, hvalue⟩ := digits_toString n
    show readExponent? ('e' :: (toString n).toList) = _
    generalize (toString n).toList = cs at *
    cases cs with
    | nil => exact absurd rfl hne
    | cons c cs =>
      have hminus : c ≠ '-' := by
        rintro rfl
        simp [Char.isDigit] at hdigits
      unfold readExponent?
      simp [hminus, hdigits, hvalue]
  | negSucc n =>
    obtain ⟨hdigits, hne, hvalue⟩ := digits_toString (n + 1)
    have htext : (toString (Int.negSucc n)).toList = '-' :: (toString (n + 1)).toList := by
      show ("-" ++ toString (n + 1)).toList = _
      rw [String.toList_append]
      rfl
    rw [htext]
    generalize (toString (n + 1)).toList = cs at *
    have hcheck : (!cs.isEmpty && cs.all Char.isDigit) = true := by simp [hne, hdigits]
    rw [readExponent?, if_pos hcheck, hvalue]
    rfl

/-! ### Texts of decimals -/

/-- The text with a sign in front of the magnitude. -/
private theorem read?_signed {text : String} {d : Digits} (h : readDigits? text.toList = some d) :
    read? f ((if negative then "-" else "") ++ text) = some (d.nearest f negative) := by
  cases negative with
  | true =>
    have htext : ((if true = true then "-" else "") ++ text).toList = '-' :: text.toList := by
      rw [if_pos rfl, String.toList_append]
      rfl
    rw [read?, htext]
    simp [h]
  | false =>
    have htext : ((if false = true then "-" else "") ++ text).toList = text.toList := by
      rw [if_neg Bool.false_ne_true, String.toList_append]
      rfl
    have hminus : ∀ cs, text.toList ≠ '-' :: cs := by
      intro cs heq
      rw [heq] at h
      cases h
    rw [read?, htext]
    split
    · rename_i cs heq
      exact absurd heq (hminus cs)
    · simp [h]

/-- A positional text has the value of its decimal. -/
private theorem readDigits?_positional (n : Nat) (exponent : Int) :
    ∃ d, readDigits? (positional (toString n).toList exponent).toList = some d ∧
      d.value = Digits.value ⟨n, exponent⟩ := by
  obtain ⟨hdigits, hne, hvalue⟩ := digits_toString n
  unfold positional
  dsimp only
  generalize (toString n).toList = digits at *
  split
  · -- all digits are in front of the point and zeros fill up to it
    obtain ⟨k, rfl⟩ := Int.eq_ofNat_of_zero_le ‹0 ≤ exponent›
    have hwhole : (digits ++ List.replicate k '0').all Char.isDigit = true := by
      simp_all
    have hread := readDigits?_pointed _ ['0'] [] hwhole (by simp [hne]) (by decide) rfl rfl
    rw [String.toList_ofList]
    refine ⟨_, hread, ?_⟩
    rw [Nat.ofDigitChars_append, Nat.ofDigitChars_append, hvalue, Nat.ofDigitChars_replicate_zero]
    unfold Digits.value
    simp [Nat.ofDigitChars_cons]
    field_simp
  · split
    · rename_i hnegative hplaces
      -- the point stands among the digits
      set places := (-exponent).toNat with hp
      have hdigits := List.all_eq_true.1 hdigits
      have hwhole : (digits.take (digits.length - places)).all Char.isDigit = true :=
        List.all_eq_true.2 fun c hc => hdigits c (List.mem_of_mem_take hc)
      have hfraction : (digits.drop (digits.length - places)).all Char.isDigit = true :=
        List.all_eq_true.2 fun c hc => hdigits c (List.mem_of_mem_drop hc)
      have hread := readDigits?_pointed _ _ [] hwhole (by simp [hne]; omega) hfraction rfl rfl
      rw [List.append_nil] at hread
      rw [String.toList_ofList]
      refine ⟨_, hread, ?_⟩
      rw [List.take_append_drop, hvalue, List.length_drop]
      congr 2
      omega
    · rename_i hnegative hplaces
      -- zeros stand between the point and the digits
      set places := (-exponent).toNat with hp
      have hfraction : (List.replicate (places - digits.length) '0' ++ digits).all Char.isDigit = true := by
        simp_all
      have hread := readDigits?_pointed ['0'] _ [] (by decide) (by decide) hfraction rfl rfl
      rw [List.append_nil] at hread
      rw [String.toList_ofList]
      refine ⟨_, hread, ?_⟩
      rw [Nat.ofDigitChars_append, Nat.ofDigitChars_append, Nat.ofDigitChars_replicate_zero, List.length_append,
        List.length_replicate]
      simp only [Nat.ofDigitChars_cons, Nat.ofDigitChars_nil, Nat.sub_self, Nat.mul_zero, Nat.add_zero, hvalue]
      congr 2
      omega

/-- A text with an exponent has the value of its decimal. -/
private theorem readDigits?_exponential (n : Nat) (exponent : Int) :
    readDigits? (exponential (toString n).toList (exponent + (toString n).toList.length - 1)).toList =
      some ⟨n, exponent⟩ := by
  obtain ⟨hdigits, hne, hvalue⟩ := digits_toString n
  have htext : ∀ (mantissa : String) (scientific : Int),
      (s!"{mantissa}e{scientific}").toList = mantissa.toList ++ 'e' :: (toString scientific).toList := by
    intro mantissa scientific
    simp [toString]
  unfold exponential
  rw [htext]
  generalize (toString n).toList = digits at *
  match digits with
  | [] => exact absurd rfl hne
  | [d] =>
    have hread := readDigits?_plain _ ('e' :: (toString exponent).toList) hdigits hne (by simp)
      (readExponent?_toString exponent)
    rw [hvalue] at hread
    simpa using hread
  | d :: d' :: rest =>
    have hwhole : [d].all Char.isDigit = true := by simp_all
    have hfraction : (d' :: rest).all Char.isDigit = true := by simp_all
    have hread := readDigits?_pointed _ _ _ hwhole (List.cons_ne_nil _ _) hfraction rfl
      (readExponent?_toString (exponent + (d :: d' :: rest).length - 1))
    rw [show [d] ++ d' :: rest = d :: d' :: rest from rfl, hvalue] at hread
    -- the point moves behind the first digit, and the exponent makes up for the others
    have hexponent : exponent + (d :: d' :: rest).length - 1 - (d' :: rest).length = exponent := by
      simp only [List.length_cons]
      omega
    rw [hexponent] at hread
    dsimp only
    rw [String.toList_ofList]
    exact hread

/-! ### Texts of numbers -/

/-- The text of a number other than zero denotes its shortest decimal.  Another format than that of the number reads
what is nearest to this decimal there. -/
theorem read?_text_shortest (s : Spelling) (f g : Format) (negative : Bool) (e : Int) (hm : 0 < m) :
    ∃ d : Digits, d.value = (shortest f m e).value ∧
      read? g (s.text f (.finite negative m e)) = some (d.nearest g negative) := by
  unfold Spelling.text
  dsimp only
  rw [if_neg hm.ne']
  generalize shortest f m e = d
  split
  · obtain ⟨d', hread, hvalue⟩ := readDigits?_positional d.digits d.exponent
    exact ⟨d', hvalue, read?_signed hread⟩
  · exact ⟨d, rfl, read?_signed (readDigits?_exponential d.digits d.exponent)⟩

/-- The text of a number is read as the number. -/
theorem read?_text (s : Spelling) (hnarrow : IsNarrow f) (hcanonical : f.IsCanonical m e) :
    read? f (s.text f (.finite negative m e)) = some (.finite negative m e) := by
  obtain rfl | hm := Nat.eq_zero_or_pos m
  · have hexponent : e = f.minExponent := by
      by_contra hne
      have hleast := hcanonical.least
      have hpos := hcanonical.normal (by omega)
      exact absurd hpos (Nat.not_le.2 (Nat.two_pow_pos _))
    unfold Spelling.text
    dsimp only
    rw [if_pos rfl, read?_signed (d := ⟨0, -1⟩) (by decide), nearest_zero _ rfl, hexponent]
  · obtain ⟨d, hvalue, hread⟩ := read?_text_shortest s f f negative e hm
    rw [hread, Digits.nearest_eq hcanonical hm]
    rw [hvalue]
    exact contains_shortest hnarrow hcanonical hm

/-- The nearest single to a tenth. -/
example : read? Binary.single "0.1" = some (Binary.single.decode 0x3dcccccd) := by decide +kernel

/-- In double precision its text is read as the nearest double to a tenth, which is not that single. -/
example : read? Binary.double "0.1" = some (Binary.double.decode 0x3fb999999999999a) := by decide +kernel

end HaxeBackend.Decimal
