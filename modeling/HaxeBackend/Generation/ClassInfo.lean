import HaxeBackend.Generation.Companion
import HaxeBackend.Target.ClassInfo

/-!
# Class registration and annotation literals

An annotation that is kept for reflection becomes an object of its type's implementation, with one value for each
element in the order of declaration; an element that is left out takes its default.  Annotations that steer
generation are not registered, and one whose type is not in the program is dropped with a warning.
-/

namespace HaxeBackend.Generation

/-- What annotation literals add to: the references and diagnostics of the unit, and the classes to initialize. -/
structure LiteralState where
  refs : ReferenceTable
  diagnostics : List Diagnostic
  guards : Guards := {}

abbrev LiteralM := StateM LiteralState

/-! ### Annotation literals -/

/-- The steps of a list, in order. -/
def inOrder {α : Type} : List (LiteralM α) → LiteralM (List α)
  | [] => return []
  | first :: rest => do
    let value ← first
    return value :: (← inOrder rest)

/-- The steps of a list in order, without the results that are missing. -/
def inOrderSome {α : Type} (steps : List (LiteralM (Option α))) : LiteralM (List α) := do
  return (← inOrder steps).filterMap id

/-- An annotation of the type, from the literals of its elements and of the defaults. -/
def annotationLiteral (p : Program) (at_ : Location) (fallback : Method → LiteralM Target.Expr) (type : Name)
    (elements : List (Name × LiteralM Target.Expr)) : LiteralM (Option Target.Expr) := do
  match p.find? type with
  | none =>
    modify fun st => { st with diagnostics := st.diagnostics ++ [.droppedUse at_ type] }
    return none
  | some c =>
    modify fun st => { st with refs := st.refs.add c.name }
    let values ← inOrder ((accessors c).map fun m => (elements.lookup m.name).getD (fallback m))
    return some (.construct (Naming.companion c.name .annotationImpl) [.list values])

mutual

/-- The literal of an element's value. -/
def valueLiteral (p : Program) (at_ : Location) (fallback : Method → LiteralM Target.Expr) :
    AnnotationValue → LiteralM Target.Expr
  | .bool value => pure (.bool value)
  | .byte value => pure (.int value.toInt32)
  | .short value => pure (.int value.toInt32)
  | .char value => pure (.int (Int32.ofNat value.toNat))
  | .int value => pure (.int value)
  | .long value => pure (.long value)
  | .float bits => pure (.single bits)
  | .double bits => pure (.double bits)
  | .string text => pure (.num "str" [.quoted text])
  | .enum className fieldName => do
    modify fun st => { st with guards := st.guards.touch className, refs := st.refs.add className }
    return .member (.path (Naming.staticHolder p className)) (Naming.field p className fieldName)
  | .classRef type => do
    modify fun st => { st with refs := st.refs.addType type }
    return Lowering.classLiteral type
  | .nested type elements _ => do
    return (← annotationLiteral p at_ fallback type (elementLiterals p at_ fallback elements)).getD .null
  | .array items => do
    return .list (← inOrder (itemLiterals p at_ fallback items))

def elementLiterals (p : Program) (at_ : Location) (fallback : Method → LiteralM Target.Expr) :
    List (Name × AnnotationValue) → List (Name × LiteralM Target.Expr)
  | [] => []
  | (name, value) :: rest => (name, valueLiteral p at_ fallback value) :: elementLiterals p at_ fallback rest

def itemLiterals (p : Program) (at_ : Location) (fallback : Method → LiteralM Target.Expr) :
    List AnnotationValue → List (LiteralM Target.Expr)
  | [] => []
  | value :: rest => valueLiteral p at_ fallback value :: itemLiterals p at_ fallback rest

end

/-- The literal of an element that is left out.  A default may hold annotations that leave elements out in turn;
`fuel` bounds how often. -/
def defaultLiteral (p : Program) (at_ : Location) : Nat → Method → LiteralM Target.Expr
  | 0, _ => pure .null
  | fuel + 1, m =>
    match m.defaultValue with
    | some value => valueLiteral p at_ (defaultLiteral p at_ fuel) value
    | none => pure .null

/-- A chain of defaults that never comes back to the same element is no longer than this. -/
def defaultDepth (p : Program) : Nat := p.classes.foldl (fun depth c => depth + c.methods.length) 1

def useLiteral (p : Program) (at_ : Location) (use : AnnotationUse) : LiteralM (Option Target.Expr) :=
  let fallback := defaultLiteral p at_ (defaultDepth p)
  annotationLiteral p at_ fallback use.type (elementLiterals p at_ fallback use.elements)

/-- Whether an annotation is registered. -/
def isRegistered (use : AnnotationUse) : Bool :=
  use.visible && !Target.steeringPackage.toList.isPrefixOf use.type.toList

/-- The list of registered annotations. -/
def useList (p : Program) (at_ : Location) (uses : List AnnotationUse) : LiteralM Target.Expr := do
  return .list (← inOrderSome ((uses.filter isRegistered).map (useLiteral p at_)))

/-- A list for each parameter. -/
def paramUseLists (p : Program) (at_ : Location) (m : Method) : LiteralM Target.Expr := do
  let lists := (List.range m.params.length).map fun i => useList p at_ (m.paramAnnotations.getD i [])
  return .list (← inOrder lists)

/-! ### Registration -/

/-- The fields that are generated. -/
def visibleFields (c : ClassModel) : List Field :=
  c.fields.filter fun f => (findUse? f.annotations Target.removeFieldMark).isNone

/-- The companion of an interface, where it has one. -/
def companionName (c : ClassModel) (kind : Companion) (wanted : Bool) : Option String :=
  if c.isInterface && wanted then some (Naming.companion c.name kind) else none

def classEntry (p : Program) (at_ : Location) (c : ClassModel) : LiteralM Target.ClassEntry := do
  return {
    className := Naming.qualified p c.name
    proxy := companionName c .proxy (p.dispatch c == .proxy)
    adapter := companionName c .adapter (p.dispatch c == .adapter)
    library := companionName c .library c.markers.nativeBound
    superclass := c.superclass
    interfaces := c.interfaces
    modifiers := c.modifiers.bits
    uses := ← useList p at_ c.annotations }

def fieldEntries (p : Program) (at_ : Location) (c : ClassModel) (slot : Nat) :
    List Field → LiteralM (List Target.MemberEntry)
  | [] => return []
  | f :: rest => do
    let uses ← useList p at_ f.annotations
    let entry := Target.MemberEntry.field (Naming.field p c.name f.name) slot f.name f.type.descriptor
      f.modifiers.bits uses
    return entry :: (← fieldEntries p at_ c (slot + 1) rest)

/-- The static initializer is not registered. -/
def methodEntries (p : Program) (at_ : Location) (c : ClassModel) (constructorSlot methodSlot : Nat) :
    List Method → LiteralM (List Target.MemberEntry)
  | [] => return []
  | m :: rest => do
    let uses ← useList p at_ m.annotations
    let paramUses ← paramUseLists p at_ m
    let target := Naming.method c.name m
    let descriptor := m.type.descriptor
    if m.isConstructor then
      let entry := Target.MemberEntry.constructor target constructorSlot m.modifiers.bits descriptor uses paramUses
      return entry :: (← methodEntries p at_ c (constructorSlot + 1) methodSlot rest)
    else if isSpecialName m.name then
      methodEntries p at_ c constructorSlot methodSlot rest
    else
      let entry := Target.MemberEntry.method m.id target methodSlot m.name m.modifiers.bits descriptor uses paramUses
      return entry :: (← methodEntries p at_ c constructorSlot (methodSlot + 1) rest)

def classInfoEntries (p : Program) (c : ClassModel) : LiteralM (Target.ClassEntry × List Target.MemberEntry) := do
  let at_ : Location := ⟨c.name, none⟩
  let entry ← classEntry p at_ c
  let fields ← fieldEntries p at_ c 0 (visibleFields c)
  let methods ← methodEntries p at_ c 0 0 c.methods
  return (entry, fields ++ methods)

/-- The registration of a class, when the options ask for it. -/
def classInfo (env : Env) (c : ClassModel) : GenM (Option Target.ClassInfo) := do
  unless env.options.reflection do
    return none
  let unit ← get
  let ((entry, members), last) := (classInfoEntries env.program c).run ⟨unit.refs, unit.diagnostics, {}⟩
  set { unit with refs := last.refs, diagnostics := last.diagnostics }
  return some ⟨last.guards.holders env.program, entry, members⟩

end HaxeBackend.Generation
