import HaxeBackend.Proofs.Target.Text

/-!
# Shapes of expressions

How the text of an expression is read without regard to what its words mean: a word, the call of what stands in front
of a parenthesis, or two operands with a symbol between them.  Operators between operands have parentheses of their
own, so no rule of precedence is needed, and a sign in front of a parenthesis is called like a function.  The shape of
each form of an expression (`HasShape`) is put together from the shapes of its parts, and the text is read as it
(`HasShape.shapeOf?`).
-/

namespace HaxeBackend.Target

open HaxeBackend.Target.Expr (argChars argChars_singleton argChars_cons toList_num toList_binary toList_negate
  toList_not toList_complement)

/-- An expression as it is read. -/
inductive Shape where
  | word (text : String)
  | call (head : String) (args : List Shape)
  | operation (symbol : String) (left right : Shape)

/-! ### Values -/

/-- What words, calls and operators stand for. -/
structure Interpretation (V : Type) where
  word : String → V
  call : String → List V → V
  operation : String → V → V → V

namespace Shape

variable {V : Type}

mutual

/-- The value of an expression. -/
def eval (m : Interpretation V) : Shape → V
  | .word text => m.word text
  | .call head args => m.call head (evalAll m args)
  | .operation symbol left right => m.operation symbol (left.eval m) (right.eval m)

def evalAll (m : Interpretation V) : List Shape → List V
  | [] => []
  | u :: us => u.eval m :: evalAll m us

end

end Shape

/-! ### The reader -/

/-- What words, signs and symbols are made of. -/
def isTokenChar (c : Char) : Bool := c ≠ ' ' && c ≠ '(' && c ≠ ')' && c ≠ ','

mutual

/-- An expression at the front of a text, and what follows it.  The number bounds the depth of the recursion. -/
def readShape : Nat → List Char → Option (Shape × List Char)
  | 0, _ => none
  | n + 1, cs =>
    let token := cs.takeWhile isTokenChar
    match cs.dropWhile isTokenChar with
    | '(' :: rest =>
      if token.isEmpty then readOperation n rest
      else (readShapes n rest).map fun (us, rest) => (.call (String.ofList token) us, rest)
    | rest => if token.isEmpty then none else some (.word (String.ofList token), rest)

/-- Two operands with a symbol between them, up to the closing parenthesis. -/
def readOperation : Nat → List Char → Option (Shape × List Char)
  | 0, _ => none
  | n + 1, cs =>
    match readShape n cs with
    | some (left, ' ' :: cs) =>
      match cs.dropWhile isTokenChar with
      | ' ' :: rest =>
        match readShape n rest with
        | some (right, ')' :: rest) => some (.operation (String.ofList (cs.takeWhile isTokenChar)) left right, rest)
        | _ => none
      | _ => none
    | _ => none

/-- The arguments of a call, up to the closing parenthesis. -/
def readShapes : Nat → List Char → Option (List Shape × List Char)
  | 0, _ => none
  | n + 1, cs =>
    match readShape n cs with
    | some (u, ')' :: rest) => some ([u], rest)
    | some (u, ',' :: ' ' :: rest) => (readShapes n rest).map fun (us, rest) => (u :: us, rest)
    | _ => none

end

/-- The shape that a whole text has.  Each level of the recursion uses up characters, so their number bounds it. -/
def shapeOf? (text : String) : Option Shape :=
  match readShape text.toList.length text.toList with
  | some (u, []) => some u
  | _ => none

/-! ### Tokens -/

/-- A word, a sign or a symbol. -/
def IsToken (cs : List Char) : Prop := cs ≠ [] ∧ cs.all isTokenChar

instance : DecidablePred IsToken := fun _ => inferInstanceAs (Decidable (_ ∧ _))

/-- Whether an expression ends where this text starts. -/
def EndsToken (rest : List Char) : Prop := ∀ c ∈ rest.head?, isTokenChar c = false ∧ c ≠ '('

private theorem endsToken_nil : EndsToken [] := by
  intro c hc
  cases hc

private theorem endsToken_cons {c : Char} (hc : isTokenChar c = false) (hparen : c ≠ '(') (rest : List Char) :
    EndsToken (c :: rest) := by
  intro d hd
  cases hd
  exact ⟨hc, hparen⟩

private theorem IsToken.isEmpty {cs : List Char} (h : IsToken cs) : cs.isEmpty = false := by
  simpa using h.1

private theorem readShape_token {token rest : List Char} (h : IsToken token) (hrest : EndsToken rest) (n : Nat) :
    readShape (n + 1) (token ++ rest) = some (.word (String.ofList token), rest) := by
  obtain ⟨htake, hdrop⟩ := span_word h.2 fun c hc => (hrest c hc).1
  simp only [readShape, htake, hdrop]
  split
  · exact absurd rfl (hrest '(' rfl).2
  · simp [h.isEmpty]

private theorem readShape_call {token rest : List Char} (h : IsToken token) (n : Nat) :
    readShape (n + 1) (token ++ '(' :: rest) =
      (readShapes n rest).map fun (us, rest) => (.call (String.ofList token) us, rest) := by
  have hparen : ∀ c ∈ ('(' :: rest).head?, isTokenChar c = false := by simp [isTokenChar]
  obtain ⟨htake, hdrop⟩ := span_word h.2 hparen
  simp [readShape, htake, hdrop, h.isEmpty]

private theorem readShape_paren (n : Nat) (rest : List Char) :
    readShape (n + 1) ('(' :: rest) = readOperation n rest := by
  simp [readShape, isTokenChar]

/-! ### Shapes of texts -/

/-- The text of the expression is read as the shape, whatever follows it. -/
def HasShape (e : Expr) (u : Shape) : Prop :=
  ∀ n rest, e.text.toList.length ≤ n → EndsToken rest → readShape n (e.text.toList ++ rest) = some (u, rest)

/-- The same for the arguments of a call. -/
def HaveShapes (args : List Expr) (us : List Shape) : Prop :=
  ∀ n rest, (argChars args).length < n → readShapes n (argChars args ++ ')' :: rest) = some (us, rest)

variable {e e' l r : Expr} {u v : Shape} {es : List Expr} {us : List Shape}

theorem HasShape.shapeOf? (h : HasShape e u) : shapeOf? e.text = some u := by
  have hread := h _ [] (Nat.le_refl _) endsToken_nil
  rw [List.append_nil] at hread
  simp only [Target.shapeOf?, hread]

theorem hasShape_token (h : IsToken e.text.toList) : HasShape e (.word e.text) := by
  intro n rest hn hrest
  obtain ⟨m, rfl⟩ : ∃ m, n = m + 1 := ⟨n - 1, by have := List.length_pos_iff.2 h.1; omega⟩
  rw [readShape_token h hrest, String.ofList_toList]

theorem HasShape.arg (h : HasShape e u) : HaveShapes [e] [u] := by
  intro n rest hn
  rw [argChars_singleton] at hn ⊢
  obtain ⟨m, rfl⟩ : ∃ m, n = m + 1 := ⟨n - 1, by omega⟩
  have hread := h m (')' :: rest) (by omega) (endsToken_cons rfl (by decide) _)
  simp only [readShapes, hread]

theorem HasShape.args (h : HasShape e u) (hrest : HaveShapes (e' :: es) us) : HaveShapes (e :: e' :: es) (u :: us) := by
  intro n rest hn
  rw [argChars_cons] at hn ⊢
  simp only [List.length_append, List.length_cons] at hn
  obtain ⟨m, rfl⟩ : ∃ m, n = m + 1 := ⟨n - 1, by omega⟩
  have hread := h m (',' :: ' ' :: (argChars (e' :: es) ++ ')' :: rest)) (by omega) (endsToken_cons rfl (by decide) _)
  simp only [List.append_assoc, List.cons_append]
  simp only [readShapes, hread, hrest m rest (by omega), Option.map_some]

/-- What stands in front of arguments in parentheses is called. -/
private theorem hasShape_call {head : List Char} (hhead : IsToken head)
    (htext : e.text.toList = head ++ '(' :: (argChars es ++ [')'])) (h : HaveShapes es us) :
    HasShape e (.call (String.ofList head) us) := by
  intro n rest hn _
  rw [htext] at hn ⊢
  simp only [List.length_append, List.length_cons] at hn
  obtain ⟨m, rfl⟩ : ∃ m, n = m + 1 := ⟨n - 1, by omega⟩
  simp only [List.append_assoc, List.cons_append, List.nil_append]
  rw [readShape_call hhead, h m rest (by omega)]
  rfl

theorem hasShape_num {helper : String} (hhelper : helper.toList.all isTokenChar) (h : HaveShapes es us) :
    HasShape (.num helper es) (.call ("N." ++ helper) us) := by
  have htoken : IsToken ('N' :: '.' :: helper.toList) := by
    refine ⟨by simp, ?_⟩
    rw [List.all_cons, List.all_cons, hhelper]
    rfl
  have hhead : "N." ++ helper = String.ofList ('N' :: '.' :: helper.toList) := by
    rw [← String.toList_inj]
    simp
  rw [hhead]
  exact hasShape_call htoken (toList_num helper es) h

theorem HasShape.negate (h : HasShape e u) : HasShape (.negate e) (.call "-" [u]) :=
  hasShape_call (show IsToken ['-'] by decide) (by rw [toList_negate, argChars_singleton]; rfl) h.arg

theorem HasShape.not (h : HasShape e u) : HasShape (.not e) (.call "!" [u]) :=
  hasShape_call (show IsToken ['!'] by decide) (by rw [toList_not, argChars_singleton]; rfl) h.arg

theorem HasShape.complement (h : HasShape e u) : HasShape (.complement e) (.call "~" [u]) :=
  hasShape_call (show IsToken ['~'] by decide) (by rw [toList_complement, argChars_singleton]; rfl) h.arg

/-- Two operands with a symbol between them. -/
private theorem readOperation_eq {left symbol right rest : List Char} {n : Nat} (hsymbol : symbol.all isTokenChar)
    (hl : ∀ rest, EndsToken rest → readShape n (left ++ rest) = some (u, rest))
    (hr : ∀ rest, EndsToken rest → readShape n (right ++ rest) = some (v, rest)) :
    readOperation (n + 1) (left ++ ' ' :: (symbol ++ ' ' :: (right ++ ')' :: rest))) =
      some (.operation (String.ofList symbol) u v, rest) := by
  have hblank : ∀ c ∈ (' ' :: (right ++ ')' :: rest)).head?, isTokenChar c = false := by simp [isTokenChar]
  obtain ⟨htake, hdrop⟩ := span_word hsymbol hblank
  have hleft := hl (' ' :: (symbol ++ ' ' :: (right ++ ')' :: rest))) (endsToken_cons rfl (by decide) _)
  have hright := hr (')' :: rest) (endsToken_cons rfl (by decide) _)
  simp only [readOperation, hleft, htake, hdrop, hright]

theorem HasShape.binary (op : BinaryOp) (hl : HasShape l u) (hr : HasShape r v) :
    HasShape (.binary op l r) (.operation op.symbol u v) := by
  intro n rest hn _
  have hsymbol : op.symbol.toList.all isTokenChar := by cases op <;> decide
  rw [toList_binary] at hn ⊢
  simp only [List.length_cons, List.length_append] at hn
  obtain ⟨m, rfl⟩ : ∃ m, n = m + 2 := ⟨n - 2, by omega⟩
  simp only [List.append_assoc, List.cons_append, List.nil_append]
  rw [readShape_paren, readOperation_eq hsymbol (fun rest h => hl m rest (by omega) h)
    (fun rest h => hr m rest (by omega) h), String.ofList_toList]

/-! ### Literals -/

private theorem isTokenChar_of_isDigit (c : Char) (h : c.isDigit) : isTokenChar c := by
  simp only [isTokenChar, Bool.and_eq_true, decide_eq_true_eq]
  refine ⟨⟨⟨?_, ?_⟩, ?_⟩, ?_⟩ <;> (rintro rfl; revert h; decide)

private theorem isToken_int (value : Int) : IsToken (toString value).toList := by
  refine ⟨?_, List.all_eq_true.2 (forall_mem_int isTokenChar_of_isDigit (by decide) value)⟩
  cases value with
  | ofNat n => exact (Decimal.digits_toString n).2.1
  | negSucc n =>
    show (Int.repr (.negSucc n)).toList ≠ []
    simp [Int.repr]

/-- The difference that stands for the smallest int is read as one. -/
theorem exists_hasShape_int (value : Int32) : ∃ u, HasShape (.int value) u := by
  by_cases hmin : value = Int32.minValue
  · have htext : (Expr.int value).text = (Expr.binary .sub (.var "-2147483647") (.var "1")).text := by
      show intText value = _
      rw [intText, if_pos hmin]
      rfl
    have hl : HasShape (.var "-2147483647") (.word "-2147483647") := hasShape_token (by decide)
    have hr : HasShape (.var "1") (.word "1") := hasShape_token (by decide)
    have hdifference := hl.binary .sub hr
    rw [HasShape, ← htext] at hdifference
    exact ⟨_, hdifference⟩
  · have htext : (Expr.int value).text = toString value.toInt := by
      show intText value = _
      rw [intText, if_neg hmin]
    refine ⟨_, hasShape_token ?_⟩
    rw [htext]
    exact isToken_int value.toInt

theorem isToken_float (f : Binary.Format) (number : Binary.Number) : IsToken (floatSpelling.text f number).toList := by
  refine ⟨spelling_ne_nil (by decide) f number, List.all_eq_true.2 ?_⟩
  exact forall_mem_spelling isTokenChar_of_isDigit (by decide) (by decide) f number

end HaxeBackend.Target
