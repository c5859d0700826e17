import HaxeBackend.Proofs.Arithmetic.Reading
import HaxeBackend.Proofs.Lowering.Scope
import HaxeBackend.Proofs.Lowering.Variables

/-!
# Names of locals in expressions

Every local of a body has a target name, and the text of that name reads back as a variable (`named_scopeOf`): it is a
word that is neither a number nor a truth value.
-/

namespace HaxeBackend.Arithmetic

open Lowering (declareLocals scopeOf BodySite)
open Naming (sanitize escapeMember needsMark isReserved)

/-! ### Words -/

/-- A word that needs no mark in front is a name. -/
private theorem isName_of_needsMark {word : List Char} (hw : word.all isWordChar) (hmark : needsMark word = false) :
    isName word := by
  cases word with
  | nil => cases hmark
  | cons c cs =>
    have hdigit : c.isDigit = false := by
      cases hc : c.isDigit with
      | false => rfl
      | true =>
        rw [needsMark, isAsciiDigit_of_isDigit hc] at hmark
        cases hmark
    simp only [isName, hw, List.isEmpty_cons, List.head?_cons, Option.any_some, hdigit]
    rfl

private theorem isName_append {word : List Char} (h : isName word) {more : List Char} (hmore : more.all isWordChar) :
    isName (word ++ more) := by
  cases word with
  | nil => cases h
  | cons c cs =>
    simp only [isName, Bool.and_eq_true] at h ⊢
    refine ⟨⟨?_, rfl⟩, h.2⟩
    rw [List.all_append, h.1.1, hmore]
    rfl

private theorem isName_sanitize (text : List Char) : isName (sanitize text) := by
  have hkept : (text.map fun c => if Naming.isAsciiAlnum c || c = '_' then c else '_').all isWordChar := by
    rw [List.all_eq_true]
    intro c hc
    obtain ⟨d, -, rfl⟩ := List.mem_map.1 hc
    by_cases hd : (Naming.isAsciiAlnum d || d = '_') = true
    · rw [if_pos hd]
      exact hd
    · rw [if_neg hd]
      rfl
  unfold sanitize
  by_cases hmark : needsMark (text.map fun c => if Naming.isAsciiAlnum c || c = '_' then c else '_') = true
  · rw [if_pos hmark]
    exact isName_append (show isName ['_'] by decide) hkept
  · rw [if_neg hmark]
    exact isName_of_needsMark hkept (by simpa using hmark)

/-- Truth values have no underscore. -/
private theorem isVariable_of_underscore {word : List Char} (h : isName word) (hmem : '_' ∈ word) :
    isVariable (String.ofList word) := by
  have htrue : String.ofList word ≠ "true" := by
    rintro heq
    rw [← String.toList_inj, String.toList_ofList] at heq
    rw [heq] at hmem
    revert hmem
    decide
  have hfalse : String.ofList word ≠ "false" := by
    rintro heq
    rw [← String.toList_inj, String.toList_ofList] at heq
    rw [heq] at hmem
    revert hmem
    decide
  simp only [isVariable, String.toList_ofList, h, bne_iff_ne.2 htrue, bne_iff_ne.2 hfalse]
  rfl

/-! ### Locals -/

private theorem isVariable_escapeMember (text : Name) : isVariable (escapeMember text) := by
  have hname := isName_sanitize text.toList
  unfold escapeMember
  by_cases hreserved : isReserved (sanitize text.toList) = true
  · rw [if_pos hreserved]
    exact isVariable_of_underscore (isName_append hname (by decide)) (by simp)
  · rw [if_neg hreserved]
    have hword : ∀ word, word ∈ Naming.keywords → String.ofList (sanitize text.toList) ≠ word := by
      rintro word hmem rfl
      apply hreserved
      simp [isReserved, hmem]
    simp only [isVariable, String.toList_ofList, hname, bne_iff_ne.2 (hword "true" (by decide)),
      bne_iff_ne.2 (hword "false" (by decide))]
    rfl

private theorem isVariable_numbered {base : String} (h : isVariable base) (n : Nat) : isVariable s!"{base}_{n}" := by
  have hlist : s!"{base}_{n}" = String.ofList (base.toList ++ '_' :: (Nat.repr n).toList) := by
    rw [← String.toList_inj]
    simp [toString]
  have hbase : isName base.toList := by
    simp only [isVariable, Bool.and_eq_true] at h
    exact h.1.1
  have hdigits : (Nat.repr n).toList.all isWordChar := by
    rw [List.all_eq_true]
    intro c hc
    rw [Nat.repr_eq_ofList_toDigits, String.toList_ofList] at hc
    exact isWordChar_of_isDigit (Nat.isDigit_of_mem_toDigits (by decide) (by decide) hc)
  rw [hlist]
  refine isVariable_of_underscore (isName_append hbase ?_) (by simp)
  rw [List.all_cons, hdigits]
  rfl

/-- The name of a local reads back as a variable. -/
private theorem isVariable_of_mem_declareLocals (p : Program) {declared : List (String × Ty)} {vars : List LocalVar}
    {name : String} (h : name ∈ (declareLocals p declared vars).1) : isVariable name := by
  obtain ⟨v, -, rfl | ⟨n, rfl⟩⟩ := Lowering.exists_of_mem_declareLocals h
  · exact isVariable_escapeMember v.name
  · exact isVariable_numbered (isVariable_escapeMember v.name) n

private theorem length_declareLocals (p : Program) (declared : List (String × Ty)) (vars : List LocalVar) :
    (declareLocals p declared vars).1.length = vars.length := by
  induction vars generalizing declared with
  | nil => rfl
  | cons v rest ih => rw [Lowering.declareLocals_cons, List.length_cons, List.length_cons, ih]

/-- Each of these locals has a target name, which reads back as a variable. -/
def Named (types : List Ty) (names : List String) : Prop :=
  ∀ (id : Nat) (type : Ty), types[id]? = some type → ∃ name, names[id]? = some name ∧ isVariable name

theorem named_scopeOf (p : Program) (options : GenOptions) (site : BodySite) (body : Body) :
    Named (body.locals.toList.map LocalVar.type) (scopeOf p options site body).locals := by
  intro id type h
  have hlength : (scopeOf p options site body).locals.length = body.locals.toList.length :=
    length_declareLocals p site.params.reverse body.locals.toList
  have hid : id < (scopeOf p options site body).locals.length := by
    have hbound := (List.getElem?_eq_some_iff.1 h).1
    rwa [List.length_map, ← hlength] at hbound
  exact ⟨_, List.getElem?_eq_getElem hid, isVariable_of_mem_declareLocals p (List.getElem_mem hid)⟩

end HaxeBackend.Arithmetic
