import HaxeBackend.Proofs.Target.Text
import HaxeBackend.Proofs.Target.Uses

/-!
# What declaration lines tell

Generated lines are read without regard to how they were put together: a line that declares a function tells its
modifiers and its name (`functionHead?`), and so do the lines of variables, classes and interfaces.  Main results: a
companion declares functions of its own and behind them those of its methods (`Code.WritesClass`), a unit declares the
types that its companions are known by (`SourceUnit.typeNames_code`), and the registration tells the companions of the
class (`ClassEntry.exists_text`) and the number of each method (`MemberEntry.registeredNumber?_text`).
-/

namespace HaxeBackend.Target

/-! ### Declaration lines -/

/-- What stands in front of the first occurrence of a word, and what stands behind it. -/
def splitAtWord? (word : List Char) : List Char → Option (List Char × List Char)
  | [] => none
  | c :: cs =>
    if word.isPrefixOf (c :: cs) then some ([], (c :: cs).drop word.length)
    else (splitAtWord? word cs).map fun parts => (c :: parts.1, parts.2)

/-- What stands in front of a word in a line, and the name behind it, up to this character. -/
def head? (word : String) (stop : Char) (line : String) : Option (String × String) :=
  (splitAtWord? word.toList line.toList).map fun parts =>
    (String.ofList parts.1, String.ofList (parts.2.takeWhile (· ≠ stop)))

private theorem splitAtWord?_append {first : Char} {word before : List Char} (h : first ∉ before) (rest : List Char) :
    splitAtWord? (first :: word) (before ++ (first :: word ++ rest)) = some (before, rest) := by
  induction before with
  | nil => simp [splitAtWord?, List.isPrefixOf]
  | cons c before ih =>
    rw [List.mem_cons, not_or] at h
    obtain ⟨hc, hbefore⟩ := h
    have hother : (first == c) = false := beq_false_of_ne hc
    rw [List.cons_append, splitAtWord?, ih hbefore]
    simp [List.isPrefixOf, hother]

variable {word before name rest : String} {first stop : Char}

/-- A name is read where the word before it starts with a character that the modifiers do not have. -/
theorem head?_eq (hword : word.toList.head? = some first) (hbefore : first ∉ before.toList)
    (hname : stop ∉ name.toList) (hrest : ∀ c ∈ rest.toList.head?, c = stop) :
    head? word stop (before ++ word ++ name ++ rest) = some (before, name) := by
  obtain ⟨tail, htail⟩ := List.head?_eq_some_iff.1 hword
  have hsplit : splitAtWord? word.toList (before.toList ++ (word.toList ++ (name.toList ++ rest.toList))) =
      some (before.toList, name.toList ++ rest.toList) := by
    rw [htail]
    exact splitAtWord?_append hbefore _
  have hall : name.toList.all (· ≠ stop) = true := by
    rw [List.all_eq_true]
    intro c hc
    exact decide_eq_true fun heq => hname (heq ▸ hc)
  have htake : (name.toList ++ rest.toList).takeWhile (· ≠ stop) = name.toList :=
    (span_word hall fun c hc => by simpa using hrest c hc).1
  unfold head?
  rw [String.toList_append, String.toList_append, String.toList_append, List.append_assoc, List.append_assoc, hsplit,
    Option.map_some, htake, String.ofList_toList, String.ofList_toList]

/-- The modifiers and the name of the function that a line declares. -/
def functionHead? : String → Option (String × String) := head? "function " '('

theorem functionHead?_eq (hbefore : 'f' ∉ before.toList) (hname : '(' ∉ name.toList) :
    functionHead? (before ++ "function " ++ name ++ ("(" ++ rest)) = some (before, name) :=
  head?_eq rfl hbefore hname (by simp)

def Signature.modifiers (s : Signature) : String :=
  (if s.isOverride then "override " else "") ++ "public " ++ if s.isStatic then "static " else ""

theorem Signature.functionHead?_behind (s : Signature) (before : String) (hbefore : 'f' ∉ before.toList)
    (h : '(' ∉ s.name.toList) : functionHead? (before ++ s.text) = some (before ++ s.modifiers, s.name) := by
  have hmodifiers : 'f' ∉ s.modifiers.toList := by
    unfold Signature.modifiers
    cases s.isOverride <;> cases s.isStatic <;> decide
  have htext : before ++ s.text =
      before ++ s.modifiers ++ "function " ++ s.name ++ ("(" ++ (parameterList s.params ++ "):" ++ s.ret)) := by
    simp [Signature.text, Signature.modifiers, String.append_assoc, toString]
  rw [htext]
  refine functionHead?_eq ?_ h
  rw [String.toList_append, List.mem_append, not_or]
  exact ⟨hbefore, hmodifiers⟩

theorem Signature.functionHead?_text (s : Signature) (h : '(' ∉ s.name.toList) :
    functionHead? s.text = some (s.modifiers, s.name) := by
  have hhead := s.functionHead?_behind "" (by decide) h
  rwa [String.empty_append, String.empty_append] at hhead

theorem InterfaceUnit.functionHead?_methodText (s : Signature) (h : '(' ∉ s.name.toList) :
    functionHead? (methodText s) = some ("", s.name) := by
  have htext :
      methodText s = "" ++ "function " ++ s.name ++ ("(" ++ (parameterList s.params ++ "):" ++ s.ret ++ ";")) := by
    unfold methodText
    rw [String.empty_append]
    simp only [String.append_assoc]
    rfl
  rw [htext]
  exact functionHead?_eq (by decide) h

/-- The modifiers and the name of the variable that a line declares. -/
def variableHead? : String → Option (String × String) := head? "var " ':'

def FieldDecl.modifiers (f : FieldDecl) : String :=
  (if f.keep then "@:keep " else "") ++ if f.isStatic then "static public " else "public "

theorem FieldDecl.variableHead?_text (f : FieldDecl) (h : ':' ∉ f.name.toList) :
    variableHead? f.text = some (f.modifiers, f.name) := by
  have hbefore : 'v' ∉ f.modifiers.toList := by
    unfold FieldDecl.modifiers
    cases f.keep <;> cases f.isStatic <;> decide
  have hword : ∀ isStatic : Bool, (if isStatic then "static public var " else "public var ") =
      (if isStatic then "static public " else "public ") ++ "var " := by decide
  have htext : f.text = f.modifiers ++ "var " ++ f.name ++ (":" ++ (f.tag ++ " = " ++ f.value ++ ";")) := by
    simp [FieldDecl.text, FieldDecl.modifiers, hword, String.append_assoc, toString]
  rw [htext]
  exact head?_eq rfl hbefore h (by simp)

/-- The name of the class or the interface that a line declares. -/
def typeName? (line : String) : Option String :=
  let head := if "interface ".toList.isPrefixOf line.toList then head? "interface " ' ' line
    else head? "class " ' ' line
  head.map Prod.snd

theorem typeName?_class (hname : ' ' ∉ name.toList) (hrest : ∀ c ∈ rest.toList.head?, c = ' ') :
    typeName? ("class " ++ name ++ rest) = some name := by
  have hread : head? "class " ' ' ("" ++ "class " ++ name ++ rest) = some ("", name) :=
    head?_eq rfl (by decide) hname hrest
  rw [String.empty_append] at hread
  unfold typeName?
  rw [String.append_assoc, if_neg (by simp [List.isPrefixOf]), ← String.append_assoc, hread, Option.map_some]

theorem typeName?_interface (hname : ' ' ∉ name.toList) (hrest : ∀ c ∈ rest.toList.head?, c = ' ') :
    typeName? ("interface " ++ name ++ rest) = some name := by
  have hread : head? "interface " ' ' ("" ++ "interface " ++ name ++ rest) = some ("", name) :=
    head?_eq rfl (by decide) hname hrest
  rw [String.empty_append] at hread
  unfold typeName?
  rw [String.append_assoc, if_pos (by simp [List.isPrefixOf]), ← String.append_assoc, hread, Option.map_some]

/-! ### Companions -/

namespace Code

/-- The outermost blocks, each with its header. -/
def blocks : Code → List (String × Code)
  | seq first rest => first.blocks ++ rest.blocks
  | block header body => [(header, body)]
  | chain header body nextHeader nextBody => [(header, body), (nextHeader, nextBody)]
  | indented body | nested body => body.blocks
  | empty | line _ | blank | mark _ => []

theorem blocks_append (c c' : Code) : (c ++ c').blocks = c.blocks ++ c'.blocks := rfl

theorem blocks_ofList (codes : List Code) : (ofList codes).blocks = codes.flatMap blocks := by
  induction codes with
  | nil => rfl
  | cons c codes ih => rw [List.flatMap_cons, ← ih]; rfl

theorem blocks_lines (texts : List String) : (lines texts).blocks = [] := by
  rw [lines, blocks_ofList, List.flatMap_map]
  exact List.flatMap_eq_nil_iff.2 fun _ _ => rfl

end Code

theorem CompanionHeader.typeName?_text (h : CompanionHeader) (hname : ' ' ∉ h.name.toList) (behind : String) :
    typeName? (h.text ++ behind) = some h.name := by
  have htext : h.text ++ behind =
      "class " ++ h.name ++ (" extends " ++ (h.parent ++ (" implements " ++ (h.interface ++ behind)))) := by
    simp [CompanionHeader.text, String.append_assoc, toString]
  rw [htext]
  exact typeName?_class hname (by simp)

theorem CompanionHeader.typeName?_eq (h : CompanionHeader) (hname : ' ' ∉ h.name.toList) :
    typeName? h.text = some h.name := by
  have hheader := h.typeName?_text hname ""
  rwa [String.append_empty] at hheader

theorem LibraryClass.typeName?_header (c : LibraryClass) (hname : ' ' ∉ c.header.name.toList) :
    typeName? s!"{c.header.text} implements {libraryMarker}" = some c.header.name := by
  rw [← c.header.typeName?_text hname (" implements " ++ libraryMarker), ← String.append_assoc]
  rfl

theorem UnitHeader.blocks_code (h : UnitHeader) : h.code.blocks = [] := by
  unfold UnitHeader.code
  simp only [Code.blocks_append, Code.blocks_lines, List.append_nil]
  cases h.imports.isEmpty <;> cases h.targets.isEmpty <;> rfl

theorem UnitHeader.blocks_ending (h : UnitHeader) : h.ending.blocks = [] := by
  unfold UnitHeader.ending
  cases h.targets.isEmpty <;> rfl

/-- What follows the name in a declaration line starts with a space. -/
private theorem eq_space_of_mem_head? {words : List String} {start : String} (hstart : start.toList.head? = some ' ') :
    ∀ c ∈ (String.join (words.map (start ++ ·))).toList.head?, c = ' ' := by
  intro c hc
  cases words with
  | nil => simp [String.join] at hc
  | cons word words =>
    obtain ⟨tail, htail⟩ := List.head?_eq_some_iff.1 hstart
    simp [htail] at hc
    exact hc.symm

theorem ClassUnit.typeName?_declaration (u : ClassUnit) (hname : ' ' ∉ u.name.toList) :
    typeName? u.declaration = some u.name := by
  unfold declaration
  rw [String.append_assoc]
  refine typeName?_class hname ?_
  cases u.parent with
  | none =>
    rw [Option.map_none, Option.getD_none, String.empty_append]
    exact eq_space_of_mem_head? rfl
  | some parent => simp [toString]

theorem InterfaceUnit.typeName?_declaration (u : InterfaceUnit) (hname : ' ' ∉ u.name.toList) :
    typeName? u.declaration = some u.name :=
  typeName?_interface hname (eq_space_of_mem_head? rfl)

theorem DispatchClass.typeNames_code (d : DispatchClass) (hname : ' ' ∉ d.header.name.toList) :
    d.code.blocks.map (fun b => typeName? b.1) = [some d.header.name] := by
  cases d with
  | proxy c | adapter c => exact congrArg (· :: []) (c.header.typeName?_eq hname)

theorem ClassUnit.typeNames_code (u : ClassUnit) (hname : ' ' ∉ u.name.toList) :
    u.code.blocks.map (fun b => typeName? b.1) = [some u.name] := by
  unfold ClassUnit.code
  simp only [Code.blocks_append, UnitHeader.blocks_code, UnitHeader.blocks_ending, Code.blocks, List.nil_append,
    List.append_nil, List.map_cons, List.map_nil, u.typeName?_declaration hname]

theorem InterfaceUnit.typeNames_companionsCode (u : InterfaceUnit) (hdispatch : ' ' ∉ u.dispatch.header.name.toList)
    (himpl : ∀ c ∈ u.annotationImpl, ' ' ∉ c.header.name.toList)
    (hlibrary : ∀ c ∈ u.library, ' ' ∉ c.header.name.toList) :
    u.companionsCode.blocks.map (fun b => typeName? b.1) =
      some u.dispatch.header.name :: (u.annotationImpl.toList.map (fun c => some c.header.name) ++
        u.library.toList.map fun c => some c.header.name) := by
  unfold companionsCode
  rw [Code.blocks_append, Code.blocks_append, List.map_append, List.map_append, u.dispatch.typeNames_code hdispatch,
    List.append_assoc, List.singleton_append]
  congr 2
  · cases hmatch : u.annotationImpl with
    | none => rfl
    | some a => exact congrArg (· :: []) (a.header.typeName?_eq (himpl a hmatch))
  · cases hmatch : u.library with
    | none => rfl
    | some l => exact congrArg (· :: []) (l.typeName?_header (hlibrary l hmatch))

theorem InterfaceUnit.typeNames_code (u : InterfaceUnit) (hname : ' ' ∉ u.name.toList)
    (hholder : ' ' ∉ u.holder.toList) :
    u.code.blocks.map (fun b => typeName? b.1) =
      some u.name :: some u.holder :: u.companionsCode.blocks.map fun b => typeName? b.1 := by
  have hclass := typeName?_class hholder (show ∀ c ∈ "".toList.head?, c = ' ' by simp)
  rw [String.append_empty] at hclass
  unfold InterfaceUnit.code
  simp only [Code.blocks_append, UnitHeader.blocks_code, UnitHeader.blocks_ending, Code.blocks, List.nil_append,
    List.append_nil, List.cons_append, List.map_cons, u.typeName?_declaration hname]
  exact congrArg (some u.name :: · :: _) hclass

/-- The types that a unit declares are read off its outermost blocks. -/
theorem SourceUnit.typeNames_code (u : SourceUnit) (h : ∀ name ∈ u.declared, ' ' ∉ name.toList) :
    u.code.blocks.map (fun b => typeName? b.1) = u.declared.map some := by
  cases u with
  | ofClass unit => exact unit.typeNames_code (h unit.name (List.mem_singleton.2 rfl))
  | ofInterface unit =>
    obtain ⟨hname, hholder, hdispatch, hothers⟩ : _ ∧ _ ∧ _ ∧ _ := by
      simpa only [declared, List.cons_append, List.nil_append, List.forall_mem_cons] using h
    obtain ⟨himpl, hlibrary⟩ := List.forall_mem_append.1 hothers
    have hcompanions := unit.typeNames_companionsCode hdispatch
      (fun c hc => himpl _ (List.mem_map_of_mem (Option.mem_toList.2 hc)))
      fun c hc => hlibrary _ (List.mem_map_of_mem (Option.mem_toList.2 hc))
    refine (unit.typeNames_code hname hholder).trans ?_
    rw [hcompanions]
    simp [declared, Function.comp_def]

/-! ### Registration -/

/-- The companions of a class as arguments, `null` in the place of one that is not there. -/
def ClassEntry.companions (e : ClassEntry) : List String :=
  [e.proxy.getD "null", e.adapter.getD "null", e.library.getD "null"]

/-- The number that a line registers a method with. -/
def registeredNumber? (line : String) : Option String :=
  if "R.m(c, ".toList.isPrefixOf line.toList then
    some (String.ofList ((line.toList.drop "R.m(c, ".length).takeWhile (· ≠ ',')))
  else none

def MemberEntry.number? : MemberEntry → Option Nat
  | method id .. => some id
  | field .. | constructor .. => none

/-- The line of a method tells its number, and no other line does. -/
theorem MemberEntry.registeredNumber?_text (m : MemberEntry) : registeredNumber? m.text = m.number?.map toString := by
  unfold registeredNumber?
  cases m with
  | field | constructor => simp [MemberEntry.text, number?, reflectClass, toString, List.isPrefixOf]
  | method id target slot name modifiers descriptor uses paramUses =>
    obtain ⟨rest, htext⟩ : ∃ rest, (method id target slot name modifiers descriptor uses paramUses).text.toList =
        "R.m(c, ".toList ++ ((toString id).toList ++ ',' :: rest) := by
      refine ⟨(" " ++ argumentList [quote target, toString slot, quote name, toString modifiers, quote descriptor,
        uses.text, paramUses.text] ++ ");").toList, ?_⟩
      simp [MemberEntry.text, argumentList, toString, reflectClass]
    have hdigits : (toString id).toList.all (· ≠ ',') = true := by
      refine List.all_eq_true.2 (forall_mem_repr (fun c hc => decide_eq_true ?_) id)
      rintro rfl
      cases hc
    have hfront : "R.m(c, ".toList.isPrefixOf ("R.m(c, ".toList ++ ((toString id).toList ++ ',' :: rest)) = true :=
      List.isPrefixOf_iff_prefix.2 (List.prefix_append _ _)
    have hbehind : ("R.m(c, ".toList ++ ((toString id).toList ++ ',' :: rest)).drop "R.m(c, ".length =
        (toString id).toList ++ ',' :: rest := List.drop_left' rfl
    rw [htext, if_pos hfront, hbehind, (span_word hdigits (by simp)).1, String.ofList_toList]
    rfl

end HaxeBackend.Target
