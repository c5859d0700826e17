import HaxeBackend.Proofs.Hierarchy.Ancestors
import HaxeBackend.Proofs.Hierarchy.Implementation
import HaxeBackend.Proofs.Lowering.Parameters
import HaxeBackend.Proofs.Lowering.Scope
import HaxeBackend.Proofs.Naming.Words
import HaxeBackend.Proofs.Target.Calls

/-!
# Names of a program and names of helpers

Generated names are never those of helpers, so a call of the program shows in the text of an expression.  Names of
existing target types and conversion patterns are handed through as they are given; they are no obstacle when they can
be told from the support library, too (`Discernible`).
-/

namespace HaxeBackend.Lowering

open Naming (IsWord isAsciiAlnum isAsciiUpper)
open Target (IsPlain IsBalanced IsCalled IsAllocated endsWord isHelper lastWord helperNames)

/-! ### Words -/

section Words

variable {word : List Char}

theorem isPlain_of_isWord (h : IsWord word) : IsPlain word :=
  ⟨h.not_mem (by decide) (by decide), h.not_mem (by decide) (by decide)⟩

theorem endsWord_of_isWord (h : IsWord word) : ∀ c ∈ word, endsWord c = false := by
  intro c hc
  by_contra hends
  rw [Bool.not_eq_false] at hends
  simp only [endsWord, Bool.or_eq_true, decide_eq_true_eq] at hends
  rcases hends with (((((rfl | rfl) | rfl) | rfl) | rfl) | rfl)
  iterate 6 exact h.not_mem (by decide) (by decide) hc

theorem isHelper_eq_false (hne : word ≠ []) (h : ∀ name ∈ helperNames, name.toList ≠ word) :
    isHelper word = false := by
  rw [isHelper, List.isEmpty_eq_false_iff.2 hne, Bool.false_or, List.any_eq_false]
  intro name hname
  rw [decide_eq_true_eq]
  exact h name hname

theorem isHelper_of_underscore (h : '_' ∈ word) : isHelper word = false := by
  refine isHelper_eq_false (List.ne_nil_of_mem h) ?_
  rintro name hname rfl
  exact (Target.helperNames_lower name hname).2 h

theorem isHelper_of_upper (h : word.head?.any isAsciiUpper = true) : isHelper word = false := by
  refine isHelper_eq_false ?_ ?_
  · rintro rfl
    cases h
  · rintro name hname rfl
    exact Bool.false_ne_true ((Target.helperNames_lower name hname).1.symm.trans h)

theorem isCalled_of_underscore (h : IsWord word) (hmem : '_' ∈ word) : IsCalled word :=
  ⟨isPlain_of_isWord h, endsWord_of_isWord h, isHelper_of_underscore hmem⟩

end Words

/-! ### Names of generated classes -/

theorem isPlain_intercalate {parts : List (List Char)} (h : ∀ part ∈ parts, IsPlain part) :
    IsPlain (['.'].intercalate parts) := by
  induction parts with
  | nil => decide
  | cons part parts ih =>
    obtain ⟨hpart, hparts⟩ := List.forall_mem_cons.1 h
    cases parts with
    | nil => rwa [List.intercalate_singleton]
    | cons part' rest =>
      rw [List.intercalate_cons_cons, Target.isPlain_append, Target.isPlain_append]
      exact ⟨⟨hpart, by decide⟩, ih hparts⟩

theorem isPlain_generated (source : Name) : IsPlain (Naming.generated source).toList := by
  rw [Naming.toList_generated]
  refine isPlain_intercalate (List.forall_mem_append.2 ⟨fun part hpart => ?_, List.forall_mem_singleton.2 ?_⟩)
  · obtain ⟨segment, -, rfl⟩ := List.mem_map.1 hpart
    exact isPlain_of_isWord (Naming.isWord_packageSegment segment)
  · exact isPlain_of_isWord (Naming.isWord_simple source)

/-- The word that a qualified name ends in. -/
theorem lastWord_qualify (package : String) {name : String} (h : IsWord name.toList) :
    lastWord (Naming.qualify package name).toList = name.toList := by
  have hname := Target.lastWord_of_word (endsWord_of_isWord h)
  unfold Naming.qualify
  split
  · exact hname
  · rw [String.append_assoc, String.toList_append, String.toList_append]
    exact (Target.foldl_nextWord_behind (c := '.') (by decide) []).trans hname

/-- Generated classes start with an upper-case letter. -/
theorem head?_simple (source : Name) : (Naming.simple source).toList.head?.any isAsciiUpper = true := by
  rw [Naming.simple]
  obtain ⟨isTaken, htext⟩ := Naming.toList_adjust "C_l" isAsciiUpper (Naming.standardTypes ++ Naming.supportTypes)
    (Naming.encodeIdent (Text.splitLast '.' source.toList).2)
  rw [htext, List.append_assoc]
  split
  · rename_i hhead
    obtain ⟨c, hc, hupper⟩ := (Option.any_eq_true _ _).1 hhead
    rw [List.nil_append, List.head?_append, hc]
    exact hupper
  · rfl

theorem isAllocated_generated (source : Name) : IsAllocated (Naming.generated source).toList := by
  refine ⟨isPlain_generated source, ?_⟩
  rw [Naming.generated, lastWord_qualify _ (Naming.isWord_simple source)]
  exact isHelper_of_upper (head?_simple source)

theorem isWord_companionSimple (source : Name) (kind : Companion) :
    IsWord (Naming.companionSimple source kind).toList := by
  rw [Naming.companionSimple, String.toList_append]
  have hsuffix : kind.suffix.toList.all (fun c => isAsciiAlnum c || c == '_') = true := by cases kind <;> decide
  refine (Naming.isWord_simple source).append fun c hc => ?_
  simpa using List.all_eq_true.1 hsuffix c hc

theorem isAllocated_companion (source : Name) (kind : Companion) : IsAllocated (Naming.companion source kind).toList := by
  have hword := isWord_companionSimple source kind
  have htext : (Naming.companion source kind).toList =
      (Naming.generated source).toList ++ '.' :: (Naming.companionSimple source kind).toList := by
    rw [Naming.companion, String.toList_append, String.toList_append, List.append_assoc]
    rfl
  rw [htext]
  constructor
  · rw [Target.isPlain_append, Target.isPlain_cons]
    exact ⟨isPlain_generated source, by decide, isPlain_of_isWord hword⟩
  · rw [lastWord, Target.foldl_nextWord_behind (by decide), Target.lastWord_of_word (endsWord_of_isWord hword)]
    refine isHelper_of_underscore ?_
    rw [Naming.companionSimple, String.toList_append]
    refine List.mem_append_right _ ?_
    cases kind <;> decide

theorem isAllocated_arrayClass (type : Ty) : IsAllocated (Naming.arrayClass type).toList := by
  unfold Naming.arrayClass
  split
  · rename_i kind
    cases kind <;> decide
  · decide

/-- The name of a method has its mangled descriptor. -/
theorem underscore_mem_method (owner : Name) (m : Method) : '_' ∈ (Naming.method owner m).toList := by
  unfold Naming.method
  dsimp only
  split
  · simp
  · split
    · simp
    · have hopen : '_' ∈ Naming.mangle false m.type.signature := by
        rw [MethodTy.signature, Naming.mangle]
        simp [Naming.encodeSignatureChar]
      rw [Naming.virtualMethod, String.toList_ofList]
      exact List.mem_append_right _ hopen

/-! ### Names of a program -/

/-- The pattern of a class for one direction of conversion. -/
def patternOf? (c : ClassModel) (element : Name) : Option String := do
  let use ← findUse? c.annotations Target.nativeConversionMark
  (← use.get? element).text?

/-- What is handed through as it is given can be told from the support library: the names of existing target types and
of their methods are not those of helpers, conversion patterns have no quotation marks, and a converted result still has
the call that gave it. -/
structure Discernible (p : Program) : Prop where
  name : ∀ c ∈ p.classes, ∀ name ∈ c.nativeName, IsAllocated name.toList
  method : ∀ c ∈ p.classes, c.isNative = true → ∀ m ∈ c.methods, Naming.escapeMember m.name ∉ helperNames
  toNative : ∀ c ∈ p.classes, ∀ pattern ∈ patternOf? c "toNative", '"' ∉ pattern.toList
  fromNative : ∀ c ∈ p.classes, ∀ pattern ∈ patternOf? c "fromNative",
    '"' ∉ pattern.toList ∧ Target.mentionsSelf pattern.toList = true

section Names

variable {p : Program} (hp : Discernible p)

theorem exists_patternOf? {type : Ty} {element : Name} {pattern : String}
    (h : conversionPattern? p type element = some pattern) : ∃ c ∈ p.classes, pattern ∈ patternOf? c element := by
  unfold conversionPattern? at h
  obtain ⟨name, -, h⟩ := Option.bind_eq_some_iff.1 h
  obtain ⟨c, hc, h⟩ := Option.bind_eq_some_iff.1 h
  exact ⟨c, (Program.mem_of_find? hc).1, h⟩

include hp

theorem Discernible.isAllocated_qualified (source : Name) : IsAllocated (Naming.qualified p source).toList := by
  unfold Naming.qualified
  cases hname : (p.find? source).bind ClassModel.nativeName with
  | none => exact isAllocated_generated source
  | some name =>
    obtain ⟨c, hc, hname⟩ := Option.bind_eq_some_iff.1 hname
    exact hp.name c (Program.mem_of_find? hc).1 name hname

theorem Discernible.isPlain_staticHolder (source : Name) : IsPlain (Naming.staticHolder p source).toList := by
  unfold Naming.staticHolder
  split
  · exact (isAllocated_companion source .staticHolder).1
  · exact (hp.isAllocated_qualified source).1

theorem Discernible.isPlain_typeTag (type : Ty) : IsPlain (Naming.typeTag p type).toList := by
  cases type with
  | void => exact show IsPlain "Void".toList by decide
  | prim kind => exact show IsPlain (Naming.primTag kind).toList by cases kind <;> decide
  | ref name => exact (hp.isAllocated_qualified name).1
  | array element dims => exact (isAllocated_arrayClass _).1

theorem Discernible.isCalled_methodName {s : Scope} (hs : s.program = p) {entry : MethodEntry}
    (howner : entry.owner ∈ p.classes) (hmethod : entry.method ∈ entry.owner.methods) :
    IsCalled (s.methodName entry).toList := by
  unfold Scope.methodName
  split
  · rename_i hnative
    have hown : entry.owner.isNative = true := by
      rwa [hs, Naming.isNative, Program.find?_name howner] at hnative
    have hword := (isIdentifier_escapeMember entry.method.name).word
    refine ⟨isPlain_of_isWord hword, endsWord_of_isWord hword, isHelper_eq_false hword.1 ?_⟩
    intro name hname heq
    rw [String.toList_inj] at heq
    exact hp.method entry.owner howner hown entry.method hmethod (heq ▸ hname)
  · exact isCalled_of_underscore (Naming.isWord_method _ _) (underscore_mem_method _ _)

end Names

theorem isPlain_fieldName (s : Scope) (entry : FieldEntry) : IsPlain (s.fieldName entry).toList := by
  unfold Scope.fieldName
  split
  · exact isPlain_of_isWord (isIdentifier_escapeMember entry.field.name).word
  · exact isPlain_of_isWord Naming.isWord_field

/-- The locals of a body are words. -/
theorem isWord_of_mem_locals {p : Program} {options : GenOptions} {site : BodySite} {body : Body} {name : String}
    (h : name ∈ (scopeOf p options site body).locals) : IsWord name.toList := by
  obtain ⟨v, -, rfl | ⟨n, rfl⟩⟩ := exists_of_mem_declareLocals h
  · exact (isIdentifier_escapeMember v.name).word
  · exact ((isIdentifier_escapeMember v.name).numbered n).word

theorem isWord_of_mem_positional {types : List Ty} {param : String × Ty} (h : param ∈ positional types) :
    IsWord param.1.toList := by
  obtain ⟨⟨i, type⟩, -, rfl⟩ := List.mem_map.1 h
  have htext : (s!"p{i}").toList = 'p' :: Nat.toDigits 10 i := by
    simp [toString, Nat.repr_eq_ofList_toDigits]
  refine ⟨by simp, fun c hc => .inl ?_⟩
  rw [htext] at hc
  rcases List.mem_cons.1 hc with rfl | hc
  · decide
  · have hdigit := Nat.isDigit_of_mem_toDigits (by decide) (by decide) hc
    have hascii : Naming.isAsciiDigit c = true := by simpa [Char.isDigit, Naming.isAsciiDigit, Char.le_def] using hdigit
    simp [isAsciiAlnum, hascii]

end HaxeBackend.Lowering
