import HaxeBackend.Proofs.Lowering.Markers
import HaxeBackend.Target.SourceUnit
import Mathlib.Data.List.Basic

/-!
# Pages of units

Nothing in a unit is marked but the bodies of functions, which are laid out on their own and copied
(`SourceUnit.isSheetOf_code`).  So the marked lines of a unit are those of its functions, one function after the other
(`SourceUnit.takenMarks_code`).
-/

namespace HaxeBackend.Target

namespace Code

variable {c c' : Code}

/-- Nothing is marked and nothing is copied. -/
def IsQuiet (c : Code) : Prop := c.isPlain = true ∧ c.isSheet = true

theorem IsQuiet.copiedMarks_eq (h : c.IsQuiet) : c.copiedMarks = [] := by
  obtain ⟨hplain, hsheet⟩ := h
  induction c with
  | seq first rest ihfirst ihrest | chain _ first _ rest ihfirst ihrest =>
    obtain ⟨hplain, hplain'⟩ := Bool.and_eq_true_iff.1 hplain
    obtain ⟨hsheet, hsheet'⟩ := Bool.and_eq_true_iff.1 hsheet
    rw [copiedMarks, ihfirst hplain hsheet, ihrest hplain' hsheet', List.nil_append]
  | block header body ih | indented body ih => exact ih hplain hsheet
  | nested body _ => cases hplain
  | empty | line text | blank | mark source => rfl

@[simp]
theorem isQuiet_line (text : String) : (line text).IsQuiet := ⟨rfl, rfl⟩

@[simp]
theorem isQuiet_empty : empty.IsQuiet := ⟨rfl, rfl⟩

@[simp]
theorem isQuiet_blank : blank.IsQuiet := ⟨rfl, rfl⟩

@[simp]
theorem isQuiet_append : (c ++ c').IsQuiet ↔ c.IsQuiet ∧ c'.IsQuiet := by
  show (c.isPlain && c'.isPlain) = true ∧ (c.isSheet && c'.isSheet) = true ↔ _
  rw [Bool.and_eq_true, Bool.and_eq_true]
  exact and_and_and_comm

@[simp]
theorem isQuiet_block (header : String) : (block header c).IsQuiet ↔ c.IsQuiet := Iff.rfl

@[simp]
theorem isQuiet_ite {p : Prop} [Decidable p] (h : c.IsQuiet) (h' : c'.IsQuiet) :
    (if p then c else c').IsQuiet := by
  split
  · exact h
  · exact h'

@[simp]
theorem isQuiet_ofList {codes : List Code} : (ofList codes).IsQuiet ↔ ∀ c ∈ codes, c.IsQuiet := by
  induction codes with
  | nil => simp [ofList]
  | cons c codes ih => simp [ofList, ih]

@[simp]
theorem isQuiet_lines (texts : List String) : (lines texts).IsQuiet := by simp [lines]

/-- A sheet that takes these marks. -/
structure IsSheetOf (c : Code) (marks : List Nat) : Prop where
  isSheet : c.isSheet = true
  copiedMarks_eq : c.copiedMarks = marks

variable {marks marks' : List Nat}

theorem IsQuiet.isSheetOf (h : c.IsQuiet) : c.IsSheetOf [] := ⟨h.2, h.copiedMarks_eq⟩

theorem IsSheetOf.append (h : c.IsSheetOf marks) (h' : c'.IsSheetOf marks') :
    (c ++ c').IsSheetOf (marks ++ marks') := by
  refine ⟨Bool.and_eq_true_iff.2 ⟨h.isSheet, h'.isSheet⟩, ?_⟩
  show c.copiedMarks ++ c'.copiedMarks = _
  rw [h.copiedMarks_eq, h'.copiedMarks_eq]

theorem IsSheetOf.block (h : c.IsSheetOf marks) (header : String) : (block header c).IsSheetOf marks := ⟨h.1, h.2⟩

theorem isSheetOf_nested (h : c.isPlain = true) : (nested c).IsSheetOf c.takenMarks :=
  ⟨Bool.or_eq_true_iff.2 (.inl h), rfl⟩

theorem IsSheetOf.nested (h : c.IsSheetOf marks) : (nested c).IsSheetOf marks :=
  ⟨Bool.or_eq_true_iff.2 (.inr h.isSheet), (takenMarks_eq h.isSheet).trans h.copiedMarks_eq⟩

theorem isSheetOf_ofList_map {α : Type} {f : α → Code} {g : α → List Nat} (h : ∀ a, (f a).IsSheetOf (g a))
    (l : List α) : (ofList (l.map f)).IsSheetOf (l.flatMap g) := by
  induction l with
  | nil => exact isQuiet_empty.isSheetOf
  | cons a l ih => exact (h a).append ih

end Code

/-! ### Functions and companions -/

theorem Body.isPlain_code (b : Body) : b.code.isPlain = true := by
  have hdecls : (Code.ofList (b.decls.map fun d => (Stmt.declare d.name d.tag d.value).code)).IsQuiet := by
    simp [Stmt.code]
  exact Bool.and_eq_true_iff.2 ⟨hdecls.1, b.stmts.isPlain_code⟩

/-- The marks that lines of the body take. -/
def FunctionBody.takenMarks : FunctionBody → List Nat
  | lowered body _ => body.code.takenMarks
  | given _ | missing .. | errored .. => []

theorem Function.isSheetOf_code (f : Function) : f.code.IsSheetOf f.body.takenMarks := by
  refine Code.IsSheetOf.block ?_ f.signature.text
  cases f.body with
  | given text => exact (Code.isQuiet_line text).isSheetOf
  | lowered body returnsThis =>
    have hbody := Code.isSheetOf_nested body.isPlain_code
    have hlast : (if returnsThis then Code.line "return this;" else Code.empty).IsQuiet := by simp
    have hwhole := hbody.append hlast.isSheetOf
    rw [List.append_nil] at hwhole
    exact hwhole
  | missing className id => exact (Code.isQuiet_line _).isSheetOf
  | errored className member cause => exact (Code.isQuiet_line _).isSheetOf

theorem isSheetOf_functionsCode (functions : List Function) :
    (functionsCode functions).IsSheetOf (functions.flatMap fun f => f.body.takenMarks) :=
  (Code.isSheetOf_ofList_map Function.isSheetOf_code functions).nested

theorem isSheetOf_infoCode (info : Option ClassInfo) : (infoCode info).IsSheetOf [] := by
  cases info with
  | none => exact Code.isQuiet_empty.isSheetOf
  | some info =>
    have hcode : info.code.IsQuiet := by simp [ClassInfo.code]
    exact hcode.isSheetOf.nested

theorem ProxyClass.isQuiet_code (c : ProxyClass) : c.code.IsQuiet := by simp [ProxyClass.code, ProxyMethod.code]

theorem AnnotationClass.isQuiet_code (c : AnnotationClass) : c.code.IsQuiet := by
  simp only [AnnotationClass.code, Code.isQuiet_block, Code.isQuiet_append, Code.isQuiet_line, Code.isQuiet_lines,
    Code.isQuiet_ofList, true_and]
  intro code hcode
  rw [← List.map_uncurry_zip_eq_zipWith] at hcode
  obtain ⟨⟨slot, signature⟩, -, rfl⟩ := List.mem_map.1 hcode
  exact (Code.isQuiet_block signature.text).2 (Code.isQuiet_line _)

theorem LibraryMethod.isQuiet_code (m : LibraryMethod) : m.code.IsQuiet := by
  unfold LibraryMethod.code
  cases m.fallback <;> simp

theorem LibraryClass.isQuiet_code (c : LibraryClass) : c.code.IsQuiet := by
  simp [LibraryClass.code, LibraryMethod.isQuiet_code]

/-- The function that a method of an adapter is a copy of. -/
def AdapterMethod.function? : AdapterMethod → Option Function
  | forward .. => none
  | copied function => some function

/-- The copied functions of an adapter. -/
def AdapterClass.functions (c : AdapterClass) : List Function :=
  match c.members with
  | none => []
  | some (_, methods) => methods.filterMap AdapterMethod.function?

theorem AdapterClass.isSheetOf_code (c : AdapterClass) :
    c.code.IsSheetOf (c.functions.flatMap fun f => f.body.takenMarks) := by
  refine Code.IsSheetOf.block ?_ c.header.text
  unfold AdapterClass.functions
  cases c.members with
  | none => exact Code.isQuiet_empty.isSheetOf
  | some members =>
    obtain ⟨type, methods⟩ := members
    have hmethod : ∀ m : AdapterMethod,
        m.code.IsSheetOf (m.function?.toList.flatMap fun f => f.body.takenMarks) := by
      intro m
      cases m with
      | forward signature returnsValue =>
        have hquiet : (AdapterMethod.forward signature returnsValue).code.IsQuiet := by simp [AdapterMethod.code]
        exact hquiet.isSheetOf
      | copied function =>
        have hmarks : (AdapterMethod.copied function).function?.toList.flatMap (fun f => f.body.takenMarks) =
            function.body.takenMarks := List.append_nil _
        rw [hmarks]
        exact function.isSheetOf_code
    have hmethods := Code.isSheetOf_ofList_map hmethod methods
    rw [← List.flatMap_assoc, ← List.filterMap_eq_flatMap_toList] at hmethods
    have hstart : (Code.line s!"private var __func:{type};" ++
        Code.block s!"public function new(func:{type})" (.lines ["super();", "this.__func = func;"])).IsQuiet := by simp
    exact hstart.isSheetOf.append hmethods

def DispatchClass.functions : DispatchClass → List Function
  | proxy _ => []
  | adapter c => c.functions

theorem DispatchClass.isSheetOf_code (d : DispatchClass) :
    d.code.IsSheetOf (d.functions.flatMap fun f => f.body.takenMarks) := by
  cases d with
  | proxy c => exact c.isQuiet_code.isSheetOf
  | adapter c => exact c.isSheetOf_code

/-! ### Units -/

theorem UnitHeader.isQuiet_code (h : UnitHeader) : h.code.IsQuiet := by simp [UnitHeader.code]

theorem UnitHeader.isQuiet_ending (h : UnitHeader) : h.ending.IsQuiet := by simp [UnitHeader.ending]

theorem Statics.isQuiet_code (s : Statics) : s.code.IsQuiet := by simp [Statics.code]

theorem ClassUnit.isSheetOf_code (u : ClassUnit) :
    u.code.IsSheetOf (u.functions.flatMap fun f => f.body.takenMarks) := by
  have hstart : (Code.lines u.added ++ .lines (u.fields.map FieldDecl.text) ++ u.statics.code ++
      .block "public function new()" ((if u.parent.isSome then .line "super();" else .empty) ++
        .line s!"{initRoutine}();")).IsQuiet := by simp [u.statics.isQuiet_code]
  have hbody := (hstart.isSheetOf.append (isSheetOf_functionsCode u.functions)).append (isSheetOf_infoCode u.info)
  have hunit := (u.header.isQuiet_code.isSheetOf.append (hbody.block u.declaration)).append
    u.header.isQuiet_ending.isSheetOf
  simp only [List.nil_append, List.append_nil] at hunit
  exact hunit

theorem InterfaceUnit.isSheetOf_companionsCode (u : InterfaceUnit) :
    u.companionsCode.IsSheetOf (u.dispatch.functions.flatMap fun f => f.body.takenMarks) := by
  have hdispatch := u.dispatch.isSheetOf_code
  have hbehind : ∀ {c c' : Code}, c.IsQuiet → c'.IsQuiet →
      (u.dispatch.code ++ c ++ c').IsSheetOf (u.dispatch.functions.flatMap fun f => f.body.takenMarks) := by
    intro c c' hc hc'
    have hunit := (hdispatch.append hc.isSheetOf).append hc'.isSheetOf
    rw [List.append_nil, List.append_nil] at hunit
    exact hunit
  unfold InterfaceUnit.companionsCode
  cases u.annotationImpl with
  | none =>
    cases u.library with
    | none => exact hbehind Code.isQuiet_empty Code.isQuiet_empty
    | some l => exact hbehind Code.isQuiet_empty (Code.isQuiet_append.2 ⟨Code.isQuiet_blank, l.isQuiet_code⟩)
  | some a =>
    have ha : (Code.blank ++ a.code).IsQuiet := Code.isQuiet_append.2 ⟨Code.isQuiet_blank, a.isQuiet_code⟩
    cases u.library with
    | none => exact hbehind ha Code.isQuiet_empty
    | some l => exact hbehind ha (Code.isQuiet_append.2 ⟨Code.isQuiet_blank, l.isQuiet_code⟩)

theorem InterfaceUnit.isSheetOf_code (u : InterfaceUnit) :
    u.code.IsSheetOf ((u.functions ++ u.dispatch.functions).flatMap fun f => f.body.takenMarks) := by
  have hstart : (u.header.code ++ .block u.declaration (.lines (u.methods.map InterfaceUnit.methodText)) ++
      .blank).IsQuiet := by simp [u.header.isQuiet_code]
  have hfields : (Code.lines (u.fields.map FieldDecl.text) ++ u.statics.code).IsQuiet := by
    simp [u.statics.isQuiet_code]
  have hholder := ((hfields.isSheetOf.append (isSheetOf_functionsCode u.functions)).append
    (isSheetOf_infoCode u.info)).block s!"class {u.holder}"
  have hunit := (((hstart.isSheetOf.append hholder).append Code.isQuiet_blank.isSheetOf).append
    u.isSheetOf_companionsCode.nested).append u.header.isQuiet_ending.isSheetOf
  simp only [List.nil_append, List.append_nil, ← List.flatMap_append] at hunit
  exact hunit

/-- The functions of a unit whose bodies are methods' bodies, those of its adapter included. -/
def SourceUnit.functions : SourceUnit → List Function
  | ofClass unit => unit.functions
  | ofInterface unit => unit.functions ++ unit.dispatch.functions

theorem SourceUnit.isSheetOf_code (u : SourceUnit) :
    u.code.IsSheetOf (u.functions.flatMap fun f => f.body.takenMarks) := by
  cases u with
  | ofClass unit => exact unit.isSheetOf_code
  | ofInterface unit => exact unit.isSheetOf_code

/-- The marked lines of a unit are those of its functions. -/
theorem SourceUnit.takenMarks_code (u : SourceUnit) :
    u.code.takenMarks = u.functions.flatMap fun f => f.body.takenMarks :=
  (Code.takenMarks_eq u.isSheetOf_code.isSheet).trans u.isSheetOf_code.copiedMarks_eq

end HaxeBackend.Target
