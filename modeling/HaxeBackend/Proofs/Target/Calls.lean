import HaxeBackend.Proofs.Target.Scan
import HaxeBackend.Proofs.Target.Text

/-!
# Calls in generated expressions

For each form of an expression, when its text shows a call (`Expr.Reveals`): operators and helpers show one when an
operand does, calls of the program and allocations always do, and literals never.
-/

namespace HaxeBackend.Target

namespace Expr

variable {calls calls' : Bool} {operand left right : Expr}

/-- The text of the expression has a call, or none. -/
def Reveals (calls : Bool) (e : Expr) : Prop := Target.Reveals calls e.text.toList

theorem Reveals.isBalanced (h : Reveals calls operand) : IsBalanced operand.text.toList := Target.Reveals.isBalanced h

/-- A name or a number alone calls nothing. -/
theorem reveals_of_plain (h : IsPlain operand.text.toList) : Reveals false operand := h.reveals

theorem Reveals.arg (h : Reveals calls operand) : Target.Reveals calls (argChars [operand]) := by
  rw [argChars_singleton]
  exact h

private theorem separates_comma : Separates [',', ' '] :=
  IsPlain.separates_of_nil (by decide) fun _ => rfl

theorem Reveals.args (h : Reveals calls left) (h' : Reveals calls' right) :
    Target.Reveals (calls || calls') (argChars [left, right]) := by
  rw [argChars_cons, argChars_singleton]
  exact h.join separates_comma h'

private theorem isPlain_close : IsPlain [')'] := by decide

theorem reveals_num {helper : String} (hhelper : helper ∈ helperNames) {args : List Expr}
    (h : Target.Reveals calls (argChars args)) : Reveals calls (num helper args) := by
  have hcall := (separates_helper (show IsPlain ['N'] by decide) hhelper).behind (h.append_plain isPlain_close)
  rw [Reveals, toList_num]
  simpa using hcall

theorem reveals_natives {helper : String} (hhelper : helper ∈ helperNames) {args : List Expr}
    (h : Target.Reveals calls (argChars args)) : Reveals calls (natives helper args) := by
  have hcall := (separates_helper (show IsPlain nativesClass.toList by decide) hhelper).behind
    (h.append_plain isPlain_close)
  rw [Reveals, toList_natives]
  simpa using hcall

theorem reveals_binary (op : BinaryOp) (h : Reveals calls left) (h' : Reveals calls' right) :
    Reveals (calls || calls') (binary op left right) := by
  have hop : Separates (' ' :: (op.symbol.toList ++ [' '])) :=
    IsPlain.separates_of_nil (by cases op <;> decide) fun word => by
      rw [← List.cons_append]
      exact foldl_nextWord_behind rfl word
  rw [Reveals, toList_binary]
  simpa using (h.join hop h').paren

theorem reveals_signed {sign : Char} (hsign : endsWord sign = true ∧ IsPlain [sign]) {text : List Char}
    (h : Target.Reveals calls text) : Target.Reveals calls (sign :: '(' :: (text ++ [')'])) := by
  have hopen : Separates [sign] := hsign.2.separates_of_nil fun word => by
    rw [← List.nil_append [sign], foldl_nextWord_behind hsign.1]
    rfl
  exact hopen.behind h.paren

theorem reveals_negate (h : Reveals calls operand) : Reveals calls (negate operand) := by
  rw [Reveals, toList_negate]
  exact reveals_signed (by decide) h

theorem reveals_not (h : Reveals calls operand) : Reveals calls (Expr.not operand) := by
  rw [Reveals, toList_not]
  exact reveals_signed (by decide) h

theorem reveals_complement (h : Reveals calls operand) : Reveals calls (complement operand) := by
  rw [Reveals, toList_complement]
  exact reveals_signed (by decide) h

theorem reveals_member (h : Reveals calls operand) {name : String} (hname : IsPlain name.toList) :
    Reveals calls (member operand name) := by
  rw [Reveals, toList_member]
  refine h.append_plain ?_
  simpa [IsPlain] using hname

/-- The element of an array. -/
theorem reveals_get (h : Reveals calls left) {name : String} (hname : name ∈ helperNames)
    (h' : Reveals calls' right) : Reveals (calls || calls') (invoke left name [right]) := by
  have hcall := h.join (separates_helper isPlain_nil hname) (h'.arg.append_plain isPlain_close)
  rw [Reveals, toList_invoke]
  simpa using hcall

/-- A tag behind a comma. -/
private theorem isPlain_tag {tag : String} (h : IsPlain tag.toList) : IsPlain (',' :: ' ' :: (tag.toList ++ [')'])) := by
  simpa [IsPlain] using h

theorem reveals_isOfType (h : Reveals calls operand) {tag : String} (htag : IsPlain tag.toList) :
    Reveals calls (isOfType operand tag) := by
  have hcall := (separates_helper (show IsPlain "Std".toList by decide)
    (show "isOfType" ∈ helperNames by decide)).behind (h.append_plain (isPlain_tag htag))
  rw [Reveals, toList_isOfType]
  simpa using hcall

theorem reveals_castTo (h : Reveals calls operand) {tag : String} (htag : IsPlain tag.toList) :
    Reveals calls (castTo operand tag) := by
  have hopening := fun s : Scan => read_helper (s := s) (show "cast" ∈ helperNames by decide)
  have hcast := Reveals.behind_opening (by decide) hopening (h.append_plain (isPlain_tag htag))
  rw [Reveals, toList_castTo]
  simpa using hcast

/-! ### Literals -/

/-- Neither character is one of a number. -/
private theorem isPlain_of_forall {text : List Char} (h : ∀ c ∈ text, c ≠ '"' ∧ c ≠ '(') : IsPlain text :=
  ⟨fun hmem => (h _ hmem).1 rfl, fun hmem => (h _ hmem).2 rfl⟩

private theorem ne_of_isDigit (c : Char) (h : c.isDigit) : c ≠ '"' ∧ c ≠ '(' := by
  constructor <;> (rintro rfl; revert h; decide)

theorem isPlain_digits (n : Nat) : IsPlain (Nat.repr n).toList := isPlain_of_forall (forall_mem_repr ne_of_isDigit n)

theorem reveals_int (value : Int32) : Reveals false (.int value) := by
  show Target.Reveals false (intText value).toList
  unfold intText
  split
  · exact (show IsPlain "-2147483647 - 1".toList by decide).reveals.paren
  · exact (isPlain_of_forall (forall_mem_int ne_of_isDigit (by decide) value.toInt)).reveals

theorem isPlain_float (f : Binary.Format) (number : Binary.Number) : IsPlain (floatSpelling.text f number).toList := by
  have hdigit : ∀ c : Char, c.isDigit → decide (c ≠ '"' ∧ c ≠ '(') := fun c hc => decide_eq_true (ne_of_isDigit c hc)
  refine isPlain_of_forall fun c hc => ?_
  exact of_decide_eq_true (forall_mem_spelling hdigit (by decide) (by decide) f number c hc)

theorem reveals_quoted (text : String) : Reveals false (quoted text) := reveals_quote text

/-! ### Calls of the program -/

private theorem isBalanced_argumentList {args : List String} (h : ∀ arg ∈ args, IsBalanced arg.toList) :
    IsBalanced (argumentList args).toList := by
  induction args with
  | nil => rfl
  | cons arg args ih =>
    obtain ⟨harg, hargs⟩ := List.forall_mem_cons.1 h
    cases args with
    | nil => simpa [argumentList] using harg
    | cons arg' rest =>
      have hcomma : IsBalanced [',', ' '] := by decide
      simpa [argumentList] using harg.append (hcomma.append (ih hargs))

private theorem texts_eq (es : List Expr) : texts es = es.map Expr.text := by
  induction es with
  | nil => rfl
  | cons e es ih => rw [texts, ih, List.map_cons]

theorem isBalanced_args {args : List Expr} (h : ∀ e ∈ args, IsBalanced e.text.toList) : IsBalanced (argChars args) := by
  refine isBalanced_argumentList fun text htext => ?_
  rw [texts_eq] at htext
  obtain ⟨e, he, rfl⟩ := List.mem_map.1 htext
  exact h e he

theorem isBalanced_list {items : List Expr} (h : ∀ e ∈ items, IsBalanced e.text.toList) :
    IsBalanced (list items).text.toList := by
  rw [toList_list]
  exact ((isBalanced_args h).append (by decide)).cons (by decide)

private theorem isBalanced_close {cs : List Char} (h : IsBalanced cs) : IsBalanced (cs ++ [')']) := h.append (by decide)

theorem reveals_invoke {object : Expr} (h : IsBalanced object.text.toList) {name : String}
    (hname : IsCalled name.toList) {args : List Expr} (hargs : ∀ e ∈ args, IsBalanced e.text.toList) :
    Reveals true (invoke object name args) := by
  obtain ⟨hplain, hword, hhelper⟩ := hname
  have hdot : IsPlain ('.' :: name.toList) := isPlain_cons.2 ⟨by decide, hplain⟩
  have hcalled : ∀ word, isHelper (('.' :: name.toList).foldl nextWord word) = false := by
    intro word
    rw [← List.nil_append (_ :: _), foldl_nextWord_behind rfl, lastWord_of_word hword]
    exact hhelper
  have hcall := reveals_call h hdot hcalled (isBalanced_close (isBalanced_args hargs))
  rw [Reveals, toList_invoke]
  simpa using hcall

private theorem reveals_new {name rest : List Char} (hname : IsAllocated name) (hrest : IsBalanced rest) :
    Target.Reveals true ("new".toList ++ (' ' :: name ++ '(' :: rest)) := by
  refine reveals_call (by decide) (isPlain_cons.2 ⟨by decide, hname.1⟩) (fun word => ?_) hrest
  rw [← List.nil_append (_ :: _), foldl_nextWord_behind rfl]
  exact hname.2

theorem reveals_construct {name : String} (hname : IsAllocated name.toList) {args : List Expr}
    (hargs : ∀ e ∈ args, IsBalanced e.text.toList) : Reveals true (construct name args) := by
  have hnew := reveals_new hname (isBalanced_close (isBalanced_args hargs))
  rw [Reveals, toList_construct]
  simpa using hnew

/-- A function in a call that allocates. -/
private theorem reveals_function {className params ret before body : String} (hname : IsAllocated className.toList)
    (hparams : IsBalanced params.toList) (hret : IsBalanced ret.toList) (hbefore : IsBalanced before.toList)
    (hbody : IsBalanced body.toList) :
    Target.Reveals true (s!"new {className}(function({params}):{ret} \x7b {before}{body} \x7d)").toList := by
  have hend := hbefore.append (hbody.append (show IsBalanced " \x7d)".toList by decide))
  have hopen := hret.append ((show IsBalanced " \x7b ".toList by decide).append hend)
  have hsignature := hparams.append ((show IsBalanced "):".toList by decide).append hopen)
  have hnew := reveals_new hname ((show IsBalanced "function(".toList by decide).append hsignature)
  simpa [toString] using hnew

/-- The function of an adapter is written inside of the call that makes the adapter. -/
theorem reveals_adapter {className ret : String} {params : List (String × String)} {guard : Option String} {call : Expr}
    {result : AdapterResult} (hname : IsAllocated className.toList)
    (hparams : ∀ x ∈ params, IsPlain x.1.toList ∧ IsPlain x.2.toList) (hret : IsPlain ret.toList)
    (hguard : ∀ holder ∈ guard, IsPlain holder.toList) (hcall : IsBalanced call.text.toList)
    (hresult : ∀ constant, result = .constant constant → '"' ∉ constant.toList) :
    Reveals true (adapter className params ret guard call result) := by
  have hlist : IsBalanced (parameterList params).toList := by
    refine isBalanced_argumentList fun text htext => ?_
    obtain ⟨⟨name, tag⟩, hmem, rfl⟩ := List.mem_map.1 htext
    obtain ⟨hname, htag⟩ := hparams _ hmem
    refine IsPlain.isBalanced ?_
    simpa [toString] using ⟨hname, htag⟩
  have hend : IsBalanced [';'] := by decide
  refine reveals_function hname hlist hret.isBalanced ?_ ?_
  · cases guard with
    | none => rfl
    | some holder =>
      have hholder := (hguard holder rfl).isBalanced.append (show IsBalanced ".SI(); ".toList by decide)
      simpa [guardText, initRoutine, toString] using hholder
  · -- the value that stands for a result is text of its own and must not open a literal
    cases result with
    | discard => simpa [toString] using hcall.append hend
    | constant value =>
      have hvalue : IsBalanced value.toList := isBalanced_of_not_mem (hresult value rfl)
      have hline := hcall.append ((show IsBalanced "; return ".toList by decide).append (hvalue.append hend))
      simpa [toString] using hline
    | value =>
      have hline := (show IsBalanced "return ".toList by decide).append (hcall.append hend)
      simpa [toString] using hline

/-! ### Patterns -/

theorem isBalanced_template {pattern : String} (h : IsBalanced operand.text.toList) (hquote : '"' ∉ pattern.toList) :
    IsBalanced (template pattern operand).text.toList := by
  show IsBalanced (String.ofList (fillSelf operand.text.toList pattern.toList)).toList
  rw [String.toList_ofList]
  exact isBalanced_fillSelf h hquote

theorem reveals_template {pattern : String} (h : Reveals true operand) (hquote : '"' ∉ pattern.toList)
    (hself : mentionsSelf pattern.toList = true) : Reveals true (template pattern operand) := by
  show Target.Reveals true (String.ofList (fillSelf operand.text.toList pattern.toList)).toList
  rw [String.toList_ofList]
  exact reveals_fillSelf h hquote hself

end Expr

end HaxeBackend.Target
