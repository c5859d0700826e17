import HaxeBackend.Naming.Encoding
import HaxeBackend.Proofs.Target.Text

/-!
# Reading integer expressions

How the text of an integer expression is read.  Every operator between two operands has parentheses of its own, so
no rule of precedence is needed: an operand is a number, a truth value, a variable, a call of a numeric helper, an
expression in parentheses, or one of these behind a sign.  The key fact: the text of an integer expression reads
back as the term that `term?` describes (`read_text`).  A negative number is a sign and a number, and the smallest
one is a difference.
-/

namespace HaxeBackend.Arithmetic

open Target.Expr (argChars argChars_singleton argChars_cons toList_binary toList_negate toList_not toList_complement
  toList_num)

/-- An integer expression as it is read. -/
inductive Term where
  | number (value : Nat)
  | truth (value : Bool)
  | var (name : String)
  | helper (name : String) (args : List Term)
  | negate (operand : Term)
  | not (operand : Term)
  | complement (operand : Term)
  | binary (op : BinaryOp) (left right : Term)

/-! ### The reader -/

def isWordChar (c : Char) : Bool := Naming.isAsciiAlnum c || c = '_'

/-- The operators that are written between their operands. -/
def infixOps : List BinaryOp :=
  [.add, .sub, .mul, .div, .rem, .and, .or, .xor, .shl, .shr, .ushr, .eq, .ne, .lt, .le, .gt, .ge]

def ofSymbol? (symbol : List Char) : Option BinaryOp :=
  infixOps.find? fun op => op.symbol.toList == symbol

/-- What a word stands for when it is not the class of the numeric helpers. -/
def ofWord? (word : List Char) : Option Term :=
  if word = "true".toList then some (.truth true)
  else if word = "false".toList then some (.truth false)
  else if word.all Char.isDigit then some (.number (Nat.ofDigitChars 10 word 0))
  else if word.head?.any Char.isDigit then none
  else some (.var (String.ofList word))

/-- The helper that is called, when a member of the class of numeric helpers is: its name and what stands behind the
opening parenthesis. -/
def helperCall? (word rest : List Char) : Option (List Char × List Char) :=
  match rest with
  | '.' :: cs =>
    match cs.dropWhile isWordChar with
    | '(' :: after => if word = Target.numClass.toList then some (cs.takeWhile isWordChar, after) else none
    | _ => none
  | _ => none

mutual

/-- An operand at the front of a text, and what follows it.  The number bounds the depth of the recursion. -/
def readOperand : Nat → List Char → Option (Term × List Char)
  | 0, _ => none
  | _ + 1, [] => none
  | n + 1, c :: cs =>
    if c = '(' then
      match readExpr n cs with
      | some (t, ')' :: rest) => some (t, rest)
      | _ => none
    else if c = '-' then (readOperand n cs).map fun (t, rest) => (.negate t, rest)
    else if c = '!' then (readOperand n cs).map fun (t, rest) => (.not t, rest)
    else if c = '~' then (readOperand n cs).map fun (t, rest) => (.complement t, rest)
    else if isWordChar c then
      let word := (c :: cs).takeWhile isWordChar
      let rest := (c :: cs).dropWhile isWordChar
      match helperCall? word rest with
      | some (name, after) => (readArgs n after).map fun (ts, rest) => (.helper (String.ofList name) ts, rest)
      | none => (ofWord? word).map fun t => (t, rest)
    else none

/-- An operand, or two operands with an operator between them. -/
def readExpr : Nat → List Char → Option (Term × List Char)
  | 0, _ => none
  | n + 1, cs =>
    match readOperand n cs with
    | some (left, ' ' :: rest) =>
      match ofSymbol? (rest.takeWhile (· ≠ ' ')), rest.dropWhile (· ≠ ' ') with
      | some op, ' ' :: rest => (readOperand n rest).map fun (right, rest) => (.binary op left right, rest)
      | _, _ => none
    | result => result

/-- The arguments of a call, up to the closing parenthesis. -/
def readArgs : Nat → List Char → Option (List Term × List Char)
  | 0, _ => none
  | n + 1, cs =>
    match readExpr n cs with
    | some (t, ')' :: rest) => some ([t], rest)
    | some (t, ',' :: ' ' :: rest) => (readArgs n rest).map fun (ts, rest) => (t :: ts, rest)
    | _ => none

end

/-- The term that a whole text is.  Each level of the recursion uses up characters, so their number bounds it. -/
def read (text : String) : Option Term :=
  match readExpr (2 * text.toList.length + 2) text.toList with
  | some (t, []) => some t
  | _ => none

/-! ### The terms of integer expressions -/

/-- A word that can name a variable or a helper. -/
def isName (word : List Char) : Bool :=
  word.all isWordChar && !word.isEmpty && !word.head?.any Char.isDigit

def isVariable (name : String) : Bool :=
  isName name.toList && name != "true" && name != "false"

/-- The term of an int constant. -/
def intTerm (value : Int32) : Term :=
  if value = Int32.minValue then .binary .sub (.negate (.number 2147483647)) (.number 1)
  else if 0 ≤ value.toInt then .number value.toInt.toNat
  else .negate (.number (-value.toInt).toNat)

mutual

/-- The term of an integer expression; other expressions have none. -/
def term? : Target.Expr → Option Term
  | .bool value => some (.truth value)
  | .int value => some (intTerm value)
  | .var name => if isVariable name then some (.var name) else none
  | .num helper args =>
    match terms? args with
    | some ts => if isName helper.toList && !args.isEmpty then some (.helper helper ts) else none
    | none => none
  | .binary op left right =>
    match term? left, term? right with
    | some l, some r => if op ∈ infixOps then some (.binary op l r) else none
    | _, _ => none
  | .negate operand => (term? operand).map .negate
  | .not operand => (term? operand).map .not
  | .complement operand => (term? operand).map .complement
  | _ => none

def terms? : List Target.Expr → Option (List Term)
  | [] => some []
  | e :: rest =>
    match term? e, terms? rest with
    | some t, some ts => some (t :: ts)
    | _, _ => none

end

attribute [local simp] readOperand readExpr readArgs term? terms?

/-! ### Words -/

/-- Whether an operand ends where this text starts. -/
private def Ends (rest : List Char) : Prop := ∀ c ∈ rest.head?, isWordChar c = false ∧ c ≠ '.'

theorem isAsciiDigit_of_isDigit {c : Char} (h : c.isDigit) : Naming.isAsciiDigit c := by
  simp only [Char.isDigit, Bool.and_eq_true, decide_eq_true_eq] at h
  simp only [Naming.isAsciiDigit, Char.le_def, Bool.and_eq_true, decide_eq_true_eq]
  exact h

theorem isWordChar_of_isDigit {c : Char} (h : c.isDigit) : isWordChar c := by
  simp [isWordChar, Naming.isAsciiAlnum, isAsciiDigit_of_isDigit h]

/-- The signs and brackets that start an operand are no word characters. -/
private theorem ne_sign {c : Char} (h : isWordChar c) : c ≠ '(' ∧ c ≠ '-' ∧ c ≠ '!' ∧ c ≠ '~' := by
  refine ⟨?_, ?_, ?_, ?_⟩ <;> (rintro rfl; revert h; decide)

private theorem readOperand_word (word : List Char) {rest : List Char} {t : Term} (n : Nat)
    (hw : word.all isWordChar) (hne : word ≠ []) (ht : ofWord? word = some t) (hr : Ends rest) :
    readOperand (n + 1) (word ++ rest) = some (t, rest) := by
  obtain ⟨c, cs, rfl⟩ := List.exists_cons_of_ne_nil hne
  have hc : isWordChar c := by simp only [List.all_cons, Bool.and_eq_true] at hw; exact hw.1
  obtain ⟨h1, h2, h3, h4⟩ := ne_sign hc
  obtain ⟨htake, hdrop⟩ := Target.span_word hw fun c hc => (hr c hc).1
  have hcall : helperCall? (c :: cs) rest = none := by
    unfold helperCall?
    split
    · exact absurd rfl (hr '.' (by simp)).2
    · rfl
  rw [List.cons_append] at htake hdrop ⊢
  simp only [readOperand, h1, h2, h3, h4, hc, htake, hdrop, hcall, ht, ↓reduceIte, Option.map_some]

/-! ### Numbers -/

private theorem ofWord?_digits {word : List Char} (h : word.all Char.isDigit) :
    ofWord? word = some (.number (Nat.ofDigitChars 10 word 0)) := by
  have ht : word ≠ "true".toList := by rintro rfl; revert h; decide
  have hf : word ≠ "false".toList := by rintro rfl; revert h; decide
  rw [ofWord?, if_neg ht, if_neg hf, if_pos h]

private theorem readOperand_repr (k n : Nat) {rest : List Char} (hr : Ends rest) :
    readOperand (n + 1) ((Nat.repr k).toList ++ rest) = some (.number k, rest) := by
  obtain ⟨hd, hne, hk⟩ := Decimal.digits_toString k
  have hw : (toString k).toList.all isWordChar :=
    List.all_eq_true.2 fun c hc => isWordChar_of_isDigit (List.all_eq_true.1 hd c hc)
  show readOperand (n + 1) ((toString k).toList ++ rest) = _
  refine readOperand_word _ n hw hne ?_ hr
  rw [ofWord?_digits hd, hk]

/-- The symbols of operators have no blanks and tell the operators apart. -/
private theorem ofSymbol?_symbol : ∀ op ∈ infixOps,
    op.symbol.toList.all (fun c => c ≠ ' ') = true ∧ ofSymbol? op.symbol.toList = some op := by
  decide

/-- Two operands with an operator between them. -/
private theorem readExpr_binary {n : Nat} {op : BinaryOp} {l r : List Char} {tl tr : Term} {rest : List Char}
    (hop : op ∈ infixOps) (hl : ∀ rest, Ends rest → readOperand n (l ++ rest) = some (tl, rest))
    (hr : readOperand n (r ++ rest) = some (tr, rest)) :
    readExpr (n + 1) (l ++ ' ' :: (op.symbol.toList ++ ' ' :: (r ++ rest))) = some (.binary op tl tr, rest) := by
  obtain ⟨hs, hsym⟩ := ofSymbol?_symbol op hop
  have hl' := hl (' ' :: (op.symbol.toList ++ ' ' :: (r ++ rest))) (by intro c hc; simp at hc; subst hc; decide)
  have htake : (op.symbol.toList ++ ' ' :: (r ++ rest)).takeWhile (· ≠ ' ') = op.symbol.toList := by
    rw [List.takeWhile_append_of_pos (by simpa using hs)]; simp
  have hdrop : (op.symbol.toList ++ ' ' :: (r ++ rest)).dropWhile (· ≠ ' ') = ' ' :: (r ++ rest) := by
    rw [List.dropWhile_append_of_pos (by simpa using hs)]; simp
  simp only [readExpr, hl', htake, hdrop, hsym, hr, Option.map_some]

/-- An operand that nothing follows inside its brackets. -/
private theorem readExpr_operand {n : Nat} {cs rest : List Char} {t : Term} (hr : rest.head? ≠ some ' ')
    (h : readOperand n cs = some (t, rest)) : readExpr (n + 1) cs = some (t, rest) := by
  simp only [readExpr, h]
  split
  · rename_i heq; cases heq; exact absurd rfl hr
  · rfl

private theorem readOperand_paren {n : Nat} {cs rest : List Char} {t : Term}
    (h : readExpr n cs = some (t, ')' :: rest)) : readOperand (n + 1) ('(' :: cs) = some (t, rest) := by
  simp only [readOperand, h, ↓reduceIte]

private theorem ends_close (rest : List Char) : Ends (')' :: rest) := by
  intro c hc; simp at hc; subst hc; decide

private theorem ends_comma (rest : List Char) : Ends (',' :: rest) := by
  intro c hc; simp at hc; subst hc; decide

/-! ### Reading back -/

/-- The text of an expression reads back as its term, whatever follows it. -/
private def Reads (e : Target.Expr) : Prop :=
  ∀ u, term? e = some u → ∀ n rest, 2 * e.text.toList.length ≤ n → Ends rest →
    readOperand n (e.text.toList ++ rest) = some (u, rest)

private def ReadsArgs (args : List Target.Expr) : Prop :=
  ∀ us, terms? args = some us → args ≠ [] → ∀ n rest, 2 * (argChars args).length + 2 ≤ n →
    readArgs n (argChars args ++ ')' :: rest) = some (us, rest)

/-- An expression in parentheses. -/
private theorem Reads.paren {e : Target.Expr} (he : Reads e) {u : Term} (hu : term? e = some u) {n : Nat}
    (rest : List Char) (hn : 2 * e.text.toList.length ≤ n) :
    readOperand (n + 2) ('(' :: (e.text.toList ++ ')' :: rest)) = some (u, rest) :=
  readOperand_paren (readExpr_operand (by simp) (he u hu n _ hn (ends_close rest)))

private theorem reads_bool (value : Bool) : Reads (.bool value) := by
  intro u hu n rest hn hr
  simp only [term?, Option.some.injEq] at hu
  subst hu
  cases value with
  | false =>
    change 2 * "false".toList.length ≤ n at hn
    obtain ⟨m, rfl⟩ : ∃ m, n = m + 1 := ⟨n - 1, by simp at hn; omega⟩
    exact readOperand_word "false".toList m (by decide) (by decide) rfl hr
  | true =>
    change 2 * "true".toList.length ≤ n at hn
    obtain ⟨m, rfl⟩ : ∃ m, n = m + 1 := ⟨n - 1, by simp at hn; omega⟩
    exact readOperand_word "true".toList m (by decide) (by decide) rfl hr

private theorem readOperand_minus (n : Nat) (cs : List Char) :
    readOperand (n + 1) ('-' :: cs) = (readOperand n cs).map fun (t, rest) => (.negate t, rest) := by
  simp [readOperand]

private theorem readOperand_bang (n : Nat) (cs : List Char) :
    readOperand (n + 1) ('!' :: cs) = (readOperand n cs).map fun (t, rest) => (.not t, rest) := by
  simp [readOperand]

private theorem readOperand_tilde (n : Nat) (cs : List Char) :
    readOperand (n + 1) ('~' :: cs) = (readOperand n cs).map fun (t, rest) => (.complement t, rest) := by
  simp [readOperand]

/-- The difference that stands for the smallest int. -/
private theorem readOperand_smallest (n : Nat) (rest : List Char) :
    readOperand (n + 4) ("(-2147483647 - 1)".toList ++ rest) =
      some (.binary .sub (.negate (.number 2147483647)) (.number 1), rest) := by
  have hdigits : ofWord? "2147483647".toList = some (.number 2147483647) := by
    rw [ofWord?_digits (by decide), show Nat.ofDigitChars 10 "2147483647".toList 0 = 2147483647 by decide]
  have hl : ∀ rest, Ends rest → readOperand (n + 2) ('-' :: "2147483647".toList ++ rest) =
      some (.negate (.number 2147483647), rest) := by
    intro rest hr
    rw [List.cons_append, readOperand_minus, readOperand_word _ n (by decide) (by decide) hdigits hr]
    rfl
  have hr : readOperand (n + 2) ("1".toList ++ ')' :: rest) = some (.number 1, ')' :: rest) :=
    readOperand_word _ (n + 1) (by decide) (by decide) rfl (ends_close rest)
  have hsplit : "(-2147483647 - 1)".toList ++ rest =
      '(' :: ('-' :: "2147483647".toList ++ ' ' :: (BinaryOp.sub.symbol.toList ++ ' ' :: ("1".toList ++ ')' :: rest))) := by
    simp [BinaryOp.symbol]
  rw [hsplit]
  exact readOperand_paren (readExpr_binary (by decide) hl hr)

private theorem reads_int (value : Int32) : Reads (.int value) := by
  intro u hu n rest hn hr
  simp only [term?, Option.some.injEq] at hu
  subst hu
  unfold intTerm
  by_cases hmin : value = Int32.minValue
  · have htext : (Target.Expr.int value).text.toList = "(-2147483647 - 1)".toList := by
      show (Target.intText value).toList = _
      rw [Target.intText, if_pos hmin]
    rw [htext] at hn ⊢
    -- the smallest number has no literal and is written as a difference
    obtain ⟨m, rfl⟩ : ∃ m, n = m + 4 := ⟨n - 4, by simp at hn; omega⟩
    rw [if_pos hmin]
    exact readOperand_smallest m rest
  · have htext : (Target.Expr.int value).text.toList = (Int.repr value.toInt).toList := by
      show (Target.intText value).toList = _
      rw [Target.intText, if_neg hmin, Int.toString_eq_repr]
    rw [htext] at hn ⊢
    rw [if_neg hmin]
    rw [Int.repr_eq_if] at hn ⊢
    by_cases hpos : 0 ≤ value.toInt
    · rw [if_pos hpos] at hn ⊢
      obtain ⟨m, rfl⟩ : ∃ m, n = m + 1 := by
        have hlength : 0 < (Nat.repr value.toInt.toNat).toList.length :=
          List.length_pos_iff.2 (Decimal.digits_toString value.toInt.toNat).2.1
        exact ⟨n - 1, by omega⟩
      rw [if_pos hpos]
      exact readOperand_repr _ m hr
    · rw [if_neg hpos] at hn ⊢
      obtain ⟨m, rfl⟩ : ∃ m, n = m + 2 := ⟨n - 2, by simp at hn; omega⟩
      have hminus : ("-" ++ (-value.toInt).toNat.repr).toList ++ rest =
          '-' :: ((-value.toInt).toNat.repr.toList ++ rest) := by
        simp
      rw [if_neg hpos, hminus, readOperand_minus, readOperand_repr _ m hr]
      rfl

private theorem reads_var (name : String) : Reads (.var name) := by
  intro u hu n rest hn hr
  simp only [term?] at hu
  split at hu
  · rename_i hv
    cases hu
    simp only [isVariable, isName, Bool.and_eq_true, Bool.not_eq_true', bne_iff_ne, ne_eq] at hv
    obtain ⟨⟨⟨⟨hw, hne⟩, hd⟩, ht⟩, hf⟩ := hv
    have hne' : name.toList ≠ [] := by simpa using hne
    obtain ⟨m, rfl⟩ : ∃ m, n = m + 1 := by
      have := List.length_pos_iff.2 hne'
      change 2 * name.toList.length ≤ n at hn
      exact ⟨n - 1, by omega⟩
    have hall : name.toList.all Char.isDigit = false := by
      obtain ⟨c, cs, hc⟩ := List.exists_cons_of_ne_nil hne'
      rw [hc] at hd ⊢
      simp only [List.head?_cons, Option.any_some] at hd
      simp [hd]
    have ht' : name.toList ≠ "true".toList := fun h => ht (String.toList_inj.1 h)
    have hf' : name.toList ≠ "false".toList := fun h => hf (String.toList_inj.1 h)
    have hword : ofWord? name.toList = some (.var name) := by
      rw [ofWord?, if_neg ht', if_neg hf', hall, hd, String.ofList_toList]
      rfl
    exact readOperand_word _ m hw hne' hword hr
  · cases hu

private theorem reads_binary (op : BinaryOp) {left right : Target.Expr} (hl : Reads left) (hr : Reads right) :
    Reads (.binary op left right) := by
  intro u hu n rest hn _
  simp only [term?] at hu
  split at hu
  · rename_i l r hl' hr'
    split at hu
    · rename_i hop
      cases hu
      rw [toList_binary] at hn ⊢
      simp only [List.length_cons, List.length_append] at hn
      obtain ⟨m, rfl⟩ : ∃ m, n = m + 2 := ⟨n - 2, by omega⟩
      have hleft : ∀ rest, Ends rest → readOperand m (left.text.toList ++ rest) = some (l, rest) :=
        fun rest he => hl l hl' m rest (by omega) he
      have hright := hr r hr' m (')' :: rest) (by omega) (ends_close rest)
      have hread := readOperand_paren (readExpr_binary hop hleft hright)
      simpa only [List.cons_append, List.append_assoc, List.nil_append] using hread
    · cases hu
  · cases hu

/-- An expression in parentheses behind a sign. -/
private theorem reads_signed {e whole : Target.Expr} {sign : Char} {wrap : Term → Term} (he : Reads e)
    (htext : whole.text.toList = sign :: '(' :: (e.text.toList ++ [')'])) (hterm : term? whole = (term? e).map wrap)
    (hsign : ∀ n cs, readOperand (n + 1) (sign :: cs) = (readOperand n cs).map fun (t, rest) => (wrap t, rest)) :
    Reads whole := by
  intro u hu n rest hn _
  rw [hterm, Option.map_eq_some_iff] at hu
  obtain ⟨t, ht, rfl⟩ := hu
  rw [htext] at hn ⊢
  simp only [List.length_cons, List.length_append] at hn
  obtain ⟨m, rfl⟩ : ∃ m, n = m + 3 := ⟨n - 3, by omega⟩
  have hread := he.paren ht rest (show 2 * e.text.toList.length ≤ m by omega)
  simp only [List.cons_append, List.append_assoc, List.nil_append]
  rw [hsign, hread]
  rfl

private theorem helperCall?_num {helper rest : List Char} (h : isName helper) :
    helperCall? ['N'] ('.' :: (helper ++ '(' :: rest)) = some (helper, rest) := by
  simp only [isName, Bool.and_eq_true] at h
  have hparen : ∀ c ∈ ('(' :: rest).head?, isWordChar c = false := by
    intro c hc; simp at hc; subst hc; decide
  obtain ⟨htake, hdrop⟩ := Target.span_word h.1.1 hparen
  simp only [helperCall?, htake, hdrop]
  rfl

private theorem reads_num (helper : String) {args : List Target.Expr} (hargs : ReadsArgs args) :
    Reads (.num helper args) := by
  intro u hu n rest hn _
  simp only [term?] at hu
  split at hu
  · rename_i ts hts
    split at hu
    · rename_i h
      cases hu
      simp only [Bool.and_eq_true, Bool.not_eq_true', List.isEmpty_eq_false_iff] at h
      rw [toList_num] at hn ⊢
      simp only [List.length_cons, List.length_append] at hn
      obtain ⟨m, rfl⟩ : ∃ m, n = m + 1 := ⟨n - 1, by omega⟩
      have hread := hargs ts hts h.2 m rest (by omega)
      simp only [List.cons_append, List.append_assoc, List.nil_append]
      have htake : ('N' :: '.' :: (helper.toList ++ '(' :: (argChars args ++ ')' :: rest))).takeWhile isWordChar =
          ['N'] := by
        rfl
      have hdrop : ('N' :: '.' :: (helper.toList ++ '(' :: (argChars args ++ ')' :: rest))).dropWhile isWordChar =
          '.' :: (helper.toList ++ '(' :: (argChars args ++ ')' :: rest)) := by
        rfl
      have hword : isWordChar 'N' := by decide
      simp only [readOperand, htake, hdrop, hword, helperCall?_num h.1, hread, ↓reduceIte,
        Char.reduceEq, Option.map_some, String.ofList_toList]
    · cases hu
  · cases hu

private theorem readsArgs_cons {e : Target.Expr} {rest : List Target.Expr} (he : Reads e) (hrest : ReadsArgs rest) :
    ReadsArgs (e :: rest) := by
  intro us hus _ n after hn
  simp only [terms?] at hus
  split at hus
  · rename_i t ts ht hts
    cases hus
    cases rest with
    | nil =>
      cases hts
      rw [argChars_singleton] at hn ⊢
      obtain ⟨m, rfl⟩ : ∃ m, n = m + 2 := ⟨n - 2, by omega⟩
      have hread := readExpr_operand (by simp) (he t ht m (')' :: after) (by omega) (ends_close after))
      simp only [readArgs, hread]
    | cons e' rest =>
      rw [argChars_cons] at hn ⊢
      simp only [List.length_append, List.length_cons] at hn
      obtain ⟨m, rfl⟩ : ∃ m, n = m + 2 := ⟨n - 2, by omega⟩
      have htail := hrest ts hts (by simp) (m + 1) after (by omega)
      have hread := readExpr_operand (by simp)
        (he t ht m (',' :: ' ' :: (argChars (e' :: rest) ++ ')' :: after)) (by omega) (ends_comma _))
      simp only [List.append_assoc, List.cons_append]
      rw [readArgs, hread]
      simp only [htail, Option.map_some]
  · cases hus

mutual

private theorem reads : (e : Target.Expr) → Reads e
  | .bool value => reads_bool value
  | .int value => reads_int value
  | .var name => reads_var name
  | .num helper args => reads_num helper (readsArgs args)
  | .binary op left right => reads_binary op (reads left) (reads right)
  | .negate operand => reads_signed (reads operand) (toList_negate operand) (by simp only [term?]) readOperand_minus
  | .not operand => reads_signed (reads operand) (toList_not operand) (by simp only [term?]) readOperand_bang
  | .complement operand =>
    reads_signed (reads operand) (toList_complement operand) (by simp only [term?]) readOperand_tilde
  | .null | .single _ | .double _ | .quoted _ | .this | .super | .caught | .path _ | .pooled _ | .natives .. | .member ..
  | .invoke .. | .isOfType .. | .castTo .. | .construct .. | .list _ | .template .. | .adapter .. => by
    intro u hu
    simp [term?] at hu

private theorem readsArgs : (args : List Target.Expr) → ReadsArgs args
  | [] => fun _ _ h => absurd rfl h
  | e :: rest => readsArgs_cons (reads e) (readsArgs rest)

end

/-- The text of an integer expression reads back as its term. -/
theorem read_text {e : Target.Expr} {t : Term} (h : term? e = some t) : read e.text = some t := by
  have hread := reads e t h (2 * e.text.toList.length + 1) [] (by omega) (by intro c hc; simp at hc)
  rw [List.append_nil] at hread
  have hexpr := readExpr_operand (by simp) hread
  simp only [read, hexpr]

end HaxeBackend.Arithmetic
