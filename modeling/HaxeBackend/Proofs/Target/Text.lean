import HaxeBackend.Target.Expr

/-!
# Texts of expressions as characters

The text of each form of an expression, put together from the characters of its parts, and the characters that numbers
are written with.
-/

namespace HaxeBackend.Target

/-- A reader that takes characters of one kind takes a word of them and stops where another one follows. -/
theorem span_word {p : Char → Bool} {word rest : List Char} (h : word.all p) (hrest : ∀ c ∈ rest.head?, p c = false) :
    (word ++ rest).takeWhile p = word ∧ (word ++ rest).dropWhile p = rest := by
  have hword : ∀ c ∈ word, p c = true := List.all_eq_true.1 h
  rw [List.takeWhile_append_of_pos hword, List.dropWhile_append_of_pos hword]
  cases rest with
  | nil => simp
  | cons c rest => simp [hrest c (by simp)]

/-! ### Numbers -/

section Numbers

variable {P : Char → Prop}

theorem forall_mem_repr (hdigit : ∀ c, c.isDigit → P c) (n : Nat) : ∀ c ∈ (Nat.repr n).toList, P c :=
  fun c hc => hdigit c (List.all_eq_true.1 (Decimal.digits_toString n).1 c hc)

theorem forall_mem_int (hdigit : ∀ c, c.isDigit → P c) (hminus : P '-') (value : Int) :
    ∀ c ∈ (toString value).toList, P c := by
  cases value with
  | ofNat n => exact forall_mem_repr hdigit n
  | negSucc n =>
    show ∀ c ∈ (Int.repr (.negSucc n)).toList, P c
    simpa [Int.repr, hminus] using forall_mem_repr hdigit (n + 1)

variable {digits : List Char}

private theorem forall_mem_positional (hdigit : ∀ c, c.isDigit → P c) (hpoint : P '.') (h : ∀ c ∈ digits, P c)
    (exponent : Int) : ∀ c ∈ (Decimal.positional digits exponent).toList, P c := by
  have hzero : P '0' := hdigit '0' (by decide)
  have hzeros : ∀ n, ∀ c ∈ List.replicate n '0', P c := by
    intro n c hc
    rw [List.eq_of_mem_replicate hc]
    exact hzero
  have htake : ∀ n, ∀ c ∈ digits.take n, P c := fun n c hc => h c (List.mem_of_mem_take hc)
  have hdrop : ∀ n, ∀ c ∈ digits.drop n, P c := fun n c hc => h c (List.mem_of_mem_drop hc)
  unfold Decimal.positional
  dsimp only
  split
  · rw [String.toList_ofList, List.forall_mem_append, List.forall_mem_append]
    exact ⟨⟨h, hzeros _⟩, by simp [hpoint, hzero]⟩
  · split
    · rw [String.toList_ofList, List.forall_mem_append, List.forall_mem_cons]
      exact ⟨htake _, hpoint, hdrop _⟩
    · rw [String.toList_ofList, List.forall_mem_append, List.forall_mem_cons, List.forall_mem_cons]
      exact ⟨⟨hzero, hpoint, hzeros _⟩, h⟩

private theorem forall_mem_exponential (hdigit : ∀ c, c.isDigit → P c) (hmarks : ∀ c ∈ ['.', '-', 'e'], P c)
    (h : ∀ c ∈ digits, P c) (scientific : Int) : ∀ c ∈ (Decimal.exponential digits scientific).toList, P c := by
  have hmantissa : ∀ text : List Char, (∀ c ∈ text, P c) →
      ∀ c ∈ s!"{String.ofList text}e{scientific}".toList, P c := by
    intro text htext
    have hexponent := forall_mem_int hdigit (hmarks '-' (by decide)) scientific
    have hlist : s!"{String.ofList text}e{scientific}".toList = text ++ 'e' :: (toString scientific).toList := by
      simp [toString]
    rw [hlist, List.forall_mem_append, List.forall_mem_cons]
    exact ⟨htext, hmarks 'e' (by decide), hexponent⟩
  unfold Decimal.exponential
  dsimp only
  split
  · exact hmantissa ['0'] (by simpa using hdigit '0' (by decide))
  · exact hmantissa [_] h
  · rw [List.forall_mem_cons] at h
    refine hmantissa (_ :: '.' :: _) ?_
    rw [List.forall_mem_cons, List.forall_mem_cons]
    exact ⟨h.1, hmarks '.' (by decide), h.2⟩

/-- A floating-point number is a name or digits, a point, signs and a mark in front of the exponent. -/
theorem forall_mem_spelling {s : Decimal.Spelling} {keep : Char → Bool} (hdigit : ∀ c, c.isDigit → keep c)
    (hmarks : ['.', '-', 'e'].all keep)
    (hnames : [s.nan, s.infinite, s.negativeInfinite].all fun name => name.toList.all keep) (f : Binary.Format)
    (number : Binary.Number) : ∀ c ∈ (s.text f number).toList, keep c := by
  rw [List.all_eq_true] at hmarks
  have hnames : ∀ name ∈ [s.nan, s.infinite, s.negativeInfinite], ∀ c ∈ name.toList, keep c :=
    fun name hname => List.all_eq_true.1 (List.all_eq_true.1 hnames name hname)
  have hsign : ∀ negative : Bool, ∀ c ∈ (if negative = true then "-" else "").toList, keep c := by
    intro negative
    cases negative with
    | false => simp
    | true => simpa using hmarks '-' (by decide)
  unfold Decimal.Spelling.text
  split
  · exact hnames _ (by simp)
  · exact hnames _ (by simp)
  · exact hnames _ (by simp)
  · rename_i negative m e
    -- a finite number: its sign, and its shortest digits in one of the two forms
    have hdigits := forall_mem_repr hdigit (Decimal.shortest f m e).digits
    dsimp only
    split
    · rw [String.toList_append, List.forall_mem_append]
      have hzero : keep '0' := hdigit '0' (by decide)
      have hpoint : keep '.' := hmarks '.' (by decide)
      exact ⟨hsign negative, by simp [hzero, hpoint]⟩
    · split
      · rw [String.toList_append, List.forall_mem_append]
        exact ⟨hsign negative, forall_mem_positional hdigit (hmarks '.' (by decide)) hdigits _⟩
      · rw [String.toList_append, List.forall_mem_append]
        exact ⟨hsign negative, forall_mem_exponential hdigit hmarks hdigits _⟩

private theorem positional_ne_nil (exponent : Int) : (Decimal.positional digits exponent).toList ≠ [] := by
  unfold Decimal.positional
  dsimp only
  split
  · simp
  · split <;> simp

private theorem exponential_ne_nil (scientific : Int) : (Decimal.exponential digits scientific).toList ≠ [] := by
  unfold Decimal.exponential
  simp [toString]

theorem spelling_ne_nil {s : Decimal.Spelling}
    (hnames : ∀ name ∈ [s.nan, s.infinite, s.negativeInfinite], name.toList ≠ []) (f : Binary.Format)
    (number : Binary.Number) : (s.text f number).toList ≠ [] := by
  unfold Decimal.Spelling.text
  split
  · exact hnames _ (by simp)
  · exact hnames _ (by simp)
  · exact hnames _ (by simp)
  · dsimp only
    split
    · simp
    · split
      · rw [String.toList_append]
        exact List.append_ne_nil_of_right_ne_nil _ (positional_ne_nil _)
      · rw [String.toList_append]
        exact List.append_ne_nil_of_right_ne_nil _ (exponential_ne_nil _)

end Numbers

/-! ### Expressions -/

namespace Expr

/-- The characters of the arguments of a call. -/
def argChars (args : List Expr) : List Char := (argumentList (texts args)).toList

theorem argChars_singleton (e : Expr) : argChars [e] = e.text.toList := by
  show (argumentList [e.text]).toList = _
  simp [argumentList]

theorem argChars_cons (e e' : Expr) (rest : List Expr) :
    argChars (e :: e' :: rest) = e.text.toList ++ ',' :: ' ' :: argChars (e' :: rest) := by
  show (argumentList (e.text :: e'.text :: texts rest)).toList =
    e.text.toList ++ ',' :: ' ' :: (argumentList (e'.text :: texts rest)).toList
  simp [argumentList]

theorem toList_num (helper : String) (args : List Expr) :
    (num helper args).text.toList = 'N' :: '.' :: (helper.toList ++ '(' :: (argChars args ++ [')'])) := by
  show (numCall helper (texts args)).toList = _
  simp [numCall, numClass, argChars, toString]

theorem toList_natives (helper : String) (args : List Expr) :
    (natives helper args).text.toList =
      nativesClass.toList ++ '.' :: (helper.toList ++ '(' :: (argChars args ++ [')'])) := by
  show (nativesCall helper (texts args)).toList = _
  simp [nativesCall, argChars, toString]

theorem toList_binary (op : BinaryOp) (left right : Expr) :
    (binary op left right).text.toList =
      '(' :: (left.text.toList ++ ' ' :: (op.symbol.toList ++ ' ' :: (right.text.toList ++ [')']))) := by
  show (s!"({left.text} {op.symbol} {right.text})").toList = _
  simp [toString]

theorem toList_negate (e : Expr) : (negate e).text.toList = '-' :: '(' :: (e.text.toList ++ [')']) := by
  show (s!"-({e.text})").toList = _
  simp [toString]

theorem toList_not (e : Expr) : (Expr.not e).text.toList = '!' :: '(' :: (e.text.toList ++ [')']) := by
  show (s!"!({e.text})").toList = _
  simp [toString]

theorem toList_complement (e : Expr) : (complement e).text.toList = '~' :: '(' :: (e.text.toList ++ [')']) := by
  show (s!"~({e.text})").toList = _
  simp [toString]

theorem toList_member (object : Expr) (name : String) :
    (member object name).text.toList = object.text.toList ++ '.' :: name.toList := by
  show (s!"{object.text}.{name}").toList = _
  simp [toString]

theorem toList_invoke (object : Expr) (name : String) (args : List Expr) :
    (invoke object name args).text.toList =
      object.text.toList ++ '.' :: (name.toList ++ '(' :: (argChars args ++ [')'])) := by
  show (s!"{object.text}.{name}({argumentList (texts args)})").toList = _
  simp [argChars, toString]

theorem toList_isOfType (operand : Expr) (tag : String) :
    (isOfType operand tag).text.toList =
      "Std.isOfType".toList ++ '(' :: (operand.text.toList ++ ',' :: ' ' :: (tag.toList ++ [')'])) := by
  show (s!"Std.isOfType({operand.text}, {tag})").toList = _
  simp [toString]

theorem toList_castTo (operand : Expr) (tag : String) :
    (castTo operand tag).text.toList =
      "cast".toList ++ '(' :: (operand.text.toList ++ ',' :: ' ' :: (tag.toList ++ [')'])) := by
  show (s!"cast({operand.text}, {tag})").toList = _
  simp [toString]

theorem toList_construct (className : String) (args : List Expr) :
    (construct className args).text.toList =
      "new".toList ++ ' ' :: (className.toList ++ '(' :: (argChars args ++ [')'])) := by
  show (s!"new {className}({argumentList (texts args)})").toList = _
  simp [argChars, toString]

theorem toList_list (items : List Expr) : (list items).text.toList = '[' :: (argChars items ++ [']']) := by
  show (s!"[{argumentList (texts items)}]").toList = _
  simp [argChars, toString]

end Expr

end HaxeBackend.Target
