import HaxeBackend.Proofs.Target.Pool
import HaxeBackend.Proofs.Target.Sheets

/-!
# What stands in generated code

Parts stand in code in order and apart from each other, at any depth (`Code.Holds`).  Then their lines stand in the
text, each behind some tabs (`Code.Holds.standIn`).  A unit has its header, its declarations, its statics, its
functions, its registration and its companions (`ClassUnit.holds_code`, `InterfaceUnit.holds_code`).
-/

namespace HaxeBackend.Target

namespace Code

variable {c c' part : Code} {parts parts' : List Code}

/-! ### Parts of code -/

/-- The parts stand in the code, in this order and apart from each other. -/
inductive Holds : Code → List Code → Prop
  | none {c : Code} : Holds c []
  | self {c : Code} : Holds c [c]
  | seq {first rest : Code} {parts parts' : List Code} (h : Holds first parts) (h' : Holds rest parts') :
      Holds (.seq first rest) (parts ++ parts')
  | block {body : Code} {parts : List Code} (header : String) (h : Holds body parts) :
      Holds (.block header body) parts
  | chain {body nextBody : Code} {parts parts' : List Code} (header nextHeader : String) (h : Holds body parts)
      (h' : Holds nextBody parts') : Holds (.chain header body nextHeader nextBody) (parts ++ parts')
  | indented {body : Code} {parts : List Code} (h : Holds body parts) : Holds (.indented body) parts
  | nested {body : Code} {parts : List Code} (h : Holds body parts) : Holds (.nested body) parts

theorem Holds.append (h : c.Holds parts) (h' : c'.Holds parts') : (c ++ c').Holds (parts ++ parts') := .seq h h'

theorem Holds.left (h : c.Holds parts) (c' : Code) : (c ++ c').Holds parts := by
  have hall := h.append (.none (c := c'))
  rwa [List.append_nil] at hall

theorem Holds.right (h : c'.Holds parts) (c : Code) : (c ++ c').Holds parts := Holds.append .none h

theorem Holds.sublist (h : c.Holds parts) (hsub : parts'.Sublist parts) : c.Holds parts' := by
  induction h generalizing parts' with
  | none =>
    rw [List.sublist_nil.1 hsub]
    exact .none
  | self =>
    obtain rfl | rfl := List.sublist_singleton.1 hsub
    · exact .none
    · exact .self
  | seq _ _ ih ih' =>
    obtain ⟨l, l', rfl, hl, hl'⟩ := List.sublist_append_iff.1 hsub
    exact .seq (ih hl) (ih' hl')
  | block header _ ih => exact .block header (ih hsub)
  | chain header nextHeader _ _ ih ih' =>
    obtain ⟨l, l', rfl, hl, hl'⟩ := List.sublist_append_iff.1 hsub
    exact .chain header nextHeader (ih hl) (ih' hl')
  | indented _ ih => exact .indented (ih hsub)
  | nested _ ih => exact .nested (ih hsub)

theorem holds_ofList_flatMap {α : Type} {f : α → Code} {g : α → List Code} (h : ∀ a, (f a).Holds (g a)) (l : List α) :
    (ofList (l.map f)).Holds (l.flatMap g) := by
  induction l with
  | nil => exact .none
  | cons a l ih => exact (h a).append ih

theorem holds_ofList_map {α : Type} (f : α → Code) (l : List α) : (ofList (l.map f)).Holds (l.map f) := by
  have h := holds_ofList_flatMap (f := f) (g := fun a => [f a]) (fun _ => .self) l
  rwa [← List.map_eq_flatMap] at h

theorem holds_lines (texts : List String) : (lines texts).Holds (texts.map line) := holds_ofList_map line texts

end Code

/-! ### Lines of parts -/

/-- A line after its code was copied so many times: it has tabs in front and no carriage return at its end. -/
inductive Copied (line : String) : String → Prop
  | self : Copied line line
  | again {line' : String} (depth : Nat) (h : Copied line line') :
      Copied line (Layout.tabbed depth (Layout.chomp line'))

/-- The lines are those of the code, at some depth. -/
def Code.HasLines (c : Code) (lines : List String) : Prop :=
  ∃ depth st, List.Forall₂ Copied ((c.page depth st).1.map PageLine.text) lines

/-- The pieces stand in the list, in order and apart from each other. -/
inductive Among {α : Type} : List (List α) → List α → Prop
  | nil {l : List α} : Among [] l
  | cons {piece l : List α} {pieces : List (List α)} (before : List α) (h : Among pieces l) :
      Among (piece :: pieces) (before ++ (piece ++ l))

/-- The lines of the parts stand in the text, in order and apart from each other. -/
def StandIn (parts : List Code) (text : String) : Prop :=
  ∃ pieces lines, List.Forall₂ Code.HasLines parts pieces ∧ Among pieces lines ∧
    Text.splitAt '\n' text.toList = lines.map String.toList ++ [[]]

namespace Among

variable {α β : Type} {l l' : List α} {pieces pieces' : List (List α)}

theorem behind (h : Among pieces l) (before : List α) : Among pieces (before ++ l) := by
  cases h with
  | nil => exact .nil
  | cons before' h =>
    rw [← List.append_assoc]
    exact .cons _ h

theorem append (h : Among pieces l) (h' : Among pieces' l') : Among (pieces ++ pieces') (l ++ l') := by
  induction h with
  | nil => exact h'.behind _
  | cons before _ ih =>
    rw [List.append_assoc, List.append_assoc]
    exact .cons before ih

theorem before (h : Among pieces l) (behind : List α) : Among pieces (l ++ behind) := by
  have hall := h.append (nil (l := behind))
  rwa [List.append_nil] at hall

theorem single : Among [l] l := by
  have h : Among [l] ([] ++ (l ++ [])) := .cons [] .nil
  rwa [List.append_nil, List.nil_append] at h

theorem map (f : α → β) (h : Among pieces l) : Among (pieces.map (List.map f)) (l.map f) := by
  induction h with
  | nil => exact .nil
  | cons before _ ih =>
    rw [List.map_append, List.map_append]
    exact .cons _ ih

end Among

theorem Code.HasLines.copy {c : Code} {lines : List String} (h : c.HasLines lines) (depth : Nat) :
    c.HasLines (lines.map fun line => Layout.tabbed depth (Layout.chomp line)) := by
  obtain ⟨inner, st, h⟩ := h
  exact ⟨inner, st, List.forall₂_map_right_iff.2 (h.imp fun _ _ hcopied => .again depth hcopied)⟩

theorem Code.Holds.exists_lines {c : Code} {parts : List Code} (h : c.Holds parts) (depth : Nat) (st : PageState) :
    ∃ pieces, List.Forall₂ HasLines parts pieces ∧ Among pieces ((c.page depth st).1.map PageLine.text) := by
  induction h generalizing depth st with
  | none => exact ⟨[], .nil, .nil⟩
  | @self c =>
    have hlines : c.HasLines ((c.page depth st).1.map PageLine.text) :=
      ⟨depth, st, List.forall₂_same.2 fun _ _ => .self⟩
    exact ⟨_, .cons hlines .nil, .single⟩
  | @seq first rest _ _ _ _ ih ih' =>
    obtain ⟨pieces, hpieces, hamong⟩ := ih depth st
    obtain ⟨pieces', hpieces', hamong'⟩ := ih' depth (first.page depth st).2
    refine ⟨_, List.rel_append hpieces hpieces', ?_⟩
    show Among _ (((first.page depth st).1 ++ (rest.page depth (first.page depth st).2).1).map PageLine.text)
    rw [List.map_append]
    exact hamong.append hamong'
  | @block body _ header _ ih =>
    obtain ⟨pieces, hpieces, hamong⟩ := ih (depth + 1) (Layout.row depth (header ++ " \x7b") st).2
    refine ⟨_, hpieces, ?_⟩
    simp only [Code.page, Layout.andThen, List.map_append]
    exact (hamong.before _).behind _
  | @chain body nextBody _ _ header nextHeader _ _ ih ih' =>
    let opened := (Layout.row depth (header ++ " \x7b") st).2
    let reopened := (Layout.row depth ("\x7d " ++ nextHeader ++ " \x7b") (body.page (depth + 1) opened).2).2
    obtain ⟨pieces, hpieces, hamong⟩ := ih (depth + 1) opened
    obtain ⟨pieces', hpieces', hamong'⟩ := ih' (depth + 1) reopened
    refine ⟨_, List.rel_append hpieces hpieces', ?_⟩
    simp only [Code.page, Layout.andThen, List.map_append]
    exact (hamong.append ((hamong'.before _).behind _)).behind _
  | indented _ ih => exact ih (depth + 1) st
  | @nested body _ _ ih =>
    obtain ⟨pieces, hpieces, hamong⟩ := ih 0 {}
    refine ⟨pieces.map (List.map fun line => Layout.tabbed depth (Layout.chomp line)), ?_, ?_⟩
    · exact List.forall₂_map_right_iff.2 (hpieces.imp fun _ _ hlines => hlines.copy depth)
    · have hcopied := hamong.map fun line => Layout.tabbed depth (Layout.chomp line)
      rw [List.map_map] at hcopied
      show Among _ (((body.page 0 {}).1.map _).map PageLine.text)
      rw [List.map_map]
      exact hcopied

/-- The parts of a sheet stand in its text. -/
theorem Code.Holds.standIn {c : Code} {parts : List Code} (h : c.Holds parts) (hsheet : c.isSheet = true) :
    StandIn parts c.text := by
  obtain ⟨pieces, hpieces, hamong⟩ := h.exists_lines 0 {}
  refine ⟨pieces, _, hpieces, hamong, ?_⟩
  have hlines := (shows_write hsheet).lines_eq
  show Text.splitAt '\n' c.write.text.toList = _
  rw [Writer.splitAt_text, hlines]
  rfl

/-! ### Headers and registration -/

/-- The condition that a unit stands under. -/
def UnitHeader.condition? (h : UnitHeader) : Option String :=
  if h.targets.isEmpty then none else some ("#if (" ++ " || ".intercalate h.targets ++ ")")

/-- The package, the imports, the condition and the metadata. -/
theorem UnitHeader.holds_code (h : UnitHeader) :
    h.code.Holds (.line (if h.package.isEmpty then "package;" else s!"package {h.package};") ::
      (h.imports.map .line ++ h.condition?.toList.map .line ++ h.metadata.map .line)) := by
  have hcondition : (if h.targets.isEmpty then Code.empty
      else .line ("#if (" ++ " || ".intercalate h.targets ++ ")")).Holds (h.condition?.toList.map .line) := by
    unfold UnitHeader.condition?
    split
    · exact .none
    · exact .self
  unfold UnitHeader.code
  rw [← List.singleton_append, ← List.append_assoc, ← List.append_assoc]
  refine .append (.append ?_ hcondition) (Code.holds_lines h.metadata)
  have hpackage := Code.Holds.self (c := .line (if h.package.isEmpty then "package;" else s!"package {h.package};"))
  exact ((hpackage.left .blank).append (Code.holds_lines h.imports)).left _

/-- The condition is closed when it was opened. -/
theorem UnitHeader.holds_ending (h : UnitHeader) : h.ending.Holds (h.condition?.toList.map fun _ => .line "#end") := by
  unfold UnitHeader.ending UnitHeader.condition?
  split
  · exact .none
  · exact .self

/-- Guards first, then the class, then its members. -/
theorem ClassInfo.holds_code (i : ClassInfo) :
    i.code.Holds (i.guards.map (fun holder => .line (guardText holder)) ++
      .line i.entry.text :: i.members.map fun m => .line m.text) := by
  have hguards := Code.holds_lines (i.guards.map guardText)
  have hmembers := Code.holds_lines (i.members.map MemberEntry.text)
  rw [List.map_map] at hguards hmembers
  have hall := (hguards.append (.self (c := .line i.entry.text))).append hmembers
  rw [List.append_assoc] at hall
  exact hall.block _

theorem holds_functionsCode (functions : List Function) :
    (functionsCode functions).Holds (functions.map Function.code) :=
  (Code.holds_ofList_map Function.code functions).nested

theorem holds_infoCode (info : Option ClassInfo) : (infoCode info).Holds (info.toList.map ClassInfo.code) := by
  cases info with
  | none => exact .none
  | some info => exact .nested .self

theorem ClassUnit.holds_code (u : ClassUnit) :
    u.code.Holds (u.header.code :: u.fields.map (fun f => .line f.text) ++
      (u.statics.code :: u.functions.map Function.code) ++ u.info.toList.map ClassInfo.code ++
      u.header.condition?.toList.map fun _ => .line "#end") := by
  have hfields := Code.holds_lines (u.fields.map FieldDecl.text)
  rw [List.map_map] at hfields
  have hstatics := ((hfields.right (.lines u.added)).append (.self (c := u.statics.code))).left
    (.block "public function new()" ((if u.parent.isSome then .line "super();" else .empty) ++
      .line s!"{initRoutine}();"))
  have hbody := (hstatics.append (holds_functionsCode u.functions)).append (holds_infoCode u.info)
  have hunit := ((Code.Holds.self (c := u.header.code)).append (hbody.block u.declaration)).append
    u.header.holds_ending
  simp only [List.nil_append, List.cons_append, List.append_assoc] at hunit ⊢
  exact hunit

/-- What stands in an interface unit, with these parts in the companions. -/
private theorem InterfaceUnit.holds_of_companionsCode (u : InterfaceUnit) {parts : List Code}
    (hcompanions : u.companionsCode.Holds parts) :
    u.code.Holds (u.header.code :: u.methods.map (fun s => .line (methodText s)) ++
      u.fields.map (fun f => .line f.text) ++ (u.statics.code :: u.functions.map Function.code) ++
      u.info.toList.map ClassInfo.code ++ parts ++ u.header.condition?.toList.map fun _ => .line "#end") := by
  have hmethods := Code.holds_lines (u.methods.map methodText)
  have hfields := Code.holds_lines (u.fields.map FieldDecl.text)
  rw [List.map_map] at hmethods hfields
  have hholder := ((hfields.append (.self (c := u.statics.code))).append (holds_functionsCode u.functions)).append
    (holds_infoCode u.info)
  have hinterface := ((Code.Holds.self (c := u.header.code)).append (hmethods.block u.declaration)).left .blank
  have htypes := (hinterface.append (hholder.block s!"class {u.holder}")).left .blank
  have hunit := (htypes.append hcompanions.nested).append u.header.holds_ending
  simp only [List.nil_append, List.cons_append, List.append_assoc] at hunit ⊢
  exact hunit

theorem InterfaceUnit.holds_code (u : InterfaceUnit) :
    u.code.Holds (u.header.code :: u.methods.map (fun s => .line (methodText s)) ++
      u.fields.map (fun f => .line f.text) ++ (u.statics.code :: u.functions.map Function.code) ++
      u.info.toList.map ClassInfo.code ++ (u.dispatch.code :: (u.annotationImpl.toList.map AnnotationClass.code ++
      u.library.toList.map LibraryClass.code)) ++ u.header.condition?.toList.map fun _ => .line "#end") := by
  refine u.holds_of_companionsCode ?_
  have hbehind : ∀ c : Code, (Code.blank ++ c).Holds [c] := fun c => Code.Holds.self.right .blank
  unfold companionsCode
  rw [← List.singleton_append, ← List.append_assoc]
  refine (Code.Holds.append .self ?_).append ?_
  · cases u.annotationImpl with
    | none => exact .none
    | some a => exact hbehind a.code
  · cases u.library with
    | none => exact .none
    | some l => exact hbehind l.code

theorem AdapterClass.holds_code (c : AdapterClass) : c.code.Holds (c.functions.map Function.code) := by
  refine .block c.header.text ?_
  unfold AdapterClass.functions
  cases c.members with
  | none => exact .none
  | some members =>
    obtain ⟨type, methods⟩ := members
    have hmethod : ∀ m : AdapterMethod, m.code.Holds (m.function?.toList.map Function.code) := by
      intro m
      cases m with
      | forward signature returnsValue => exact .none
      | copied function => exact .self
    have hmethods := Code.holds_ofList_flatMap hmethod methods
    rw [← List.map_flatMap, ← List.filterMap_eq_flatMap_toList] at hmethods
    exact hmethods.right _

theorem DispatchClass.holds_code (d : DispatchClass) : d.code.Holds (d.functions.map Function.code) := by
  cases d with
  | proxy c => exact .none
  | adapter c => exact c.holds_code

/-- The statics of a unit stand in it, and behind them the functions with methods' bodies. -/
theorem SourceUnit.holds_code (u : SourceUnit) : u.code.Holds (u.statics.code :: u.functions.map Function.code) := by
  cases u with
  | ofClass unit =>
    refine unit.holds_code.sublist ?_
    exact ((List.sublist_append_right _ _).trans (List.sublist_append_left _ _)).trans (List.sublist_append_left _ _)
  | ofInterface unit =>
    have hfunctions : unit.companionsCode.Holds (unit.dispatch.functions.map Function.code) := by
      exact (unit.dispatch.holds_code.left _).left _
    refine (unit.holds_of_companionsCode hfunctions).sublist ?_
    show (unit.statics.code :: (unit.functions ++ unit.dispatch.functions).map Function.code).Sublist _
    rw [List.map_append, ← List.cons_append]
    refine List.Sublist.trans ?_ (List.sublist_append_left _ _)
    refine List.Sublist.append ?_ (List.Sublist.refl _)
    exact (List.sublist_append_right _ _).trans (List.sublist_append_left _ _)

/-- The parts of a unit stand in its text. -/
theorem SourceUnit.standIn (u : SourceUnit) {parts : List Code} (h : u.code.Holds parts) : StandIn parts u.code.text :=
  h.standIn u.isSheetOf_code.isSheet

end HaxeBackend.Target
