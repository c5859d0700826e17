import HaxeBackend.Generation.ClassInfo
import HaxeBackend.Proofs.Hierarchy.Chain
import HaxeBackend.Proofs.Naming.Members
import HaxeBackend.Proofs.Run
import HaxeBackend.Proofs.Target.Pool

/-!
# What registration touches

The registration of a class names the constants of enum classes, those in the defaults of elements that are left out
included (`registeredEnums`).  It asks for the initialization of exactly these classes, reports dropped annotations and
nothing else, uses the implementations of annotation types of the program, and reads no pooled literal
(`makes_classInfoEntries`).
-/

namespace HaxeBackend.Generation

open Target (ClassUse)

/-! ### Classes of enum constants -/

/-- The enum classes in an annotation of the type, from those in its elements and in the defaults. -/
def annotationEnums (p : Program) (fallback : Method → List Name) (type : Name) (elements : List (Name × List Name)) :
    List Name :=
  match p.find? type with
  | none => []
  | some c => (accessors c).flatMap fun m => (elements.lookup m.name).getD (fallback m)

mutual

def valueEnums (p : Program) (fallback : Method → List Name) : AnnotationValue → List Name
  | .enum className _ => [className]
  | .nested type elements _ => annotationEnums p fallback type (elementEnums p fallback elements)
  | .array items => itemEnums p fallback items
  | .bool _ | .byte _ | .short _ | .char _ | .int _ | .long _ | .float _ | .double _ | .string _ | .classRef _ => []

def elementEnums (p : Program) (fallback : Method → List Name) :
    List (Name × AnnotationValue) → List (Name × List Name)
  | [] => []
  | (name, value) :: rest => (name, valueEnums p fallback value) :: elementEnums p fallback rest

def itemEnums (p : Program) (fallback : Method → List Name) : List AnnotationValue → List Name
  | [] => []
  | value :: rest => valueEnums p fallback value ++ itemEnums p fallback rest

end

/-- The enum classes in the default of an element. -/
def defaultEnums (p : Program) : Nat → Method → List Name
  | 0, _ => []
  | fuel + 1, m =>
    match m.defaultValue with
    | some value => valueEnums p (defaultEnums p fuel) value
    | none => []

def useEnums (p : Program) (use : AnnotationUse) : List Name :=
  let fallback := defaultEnums p (defaultDepth p)
  annotationEnums p fallback use.type (elementEnums p fallback use.elements)

/-- The enum classes in the annotations that are registered. -/
def listEnums (p : Program) (uses : List AnnotationUse) : List Name := (uses.filter isRegistered).flatMap (useEnums p)

def methodEnums (p : Program) (m : Method) : List Name :=
  listEnums p m.annotations ++
    (List.range m.params.length).flatMap fun i => listEnums p (m.paramAnnotations.getD i [])

/-- The enum classes in the registration of a class: in its own annotations, in those of its fields, and in those of
its methods and their parameters. -/
def registeredEnums (p : Program) (c : ClassModel) : List Name :=
  listEnums p c.annotations ++
    ((visibleFields c).flatMap (fun f => listEnums p f.annotations) ++ c.methods.flatMap (methodEnums p))

/-! ### Steps -/

variable {α β : Type} {p : Program} {at_ : Location} {names names' : List Name}

/-- The annotation was dropped because its type is not in the program. -/
def IsDrop (d : Diagnostic) : Prop := ∃ at_ type, d = .droppedUse at_ type

/-- The step has a result like this, touches these classes in order, and reports nothing but dropped annotations. -/
def Makes (x : LiteralM α) (names : List Name) (Q : α → Prop) : Prop :=
  ∀ st, Q (x.run st).1 ∧ (x.run st).2.guards = names.foldl Guards.touch st.guards ∧
    ∃ dropped, (x.run st).2.diagnostics = st.diagnostics ++ dropped ∧ ∀ d ∈ dropped, IsDrop d

private theorem makes_pure {a : α} {Q : α → Prop} (h : Q a) : Makes (pure a) [] Q := fun _ =>
  ⟨h, rfl, [], (List.append_nil _).symm, fun _ hd => absurd hd List.not_mem_nil⟩

/-- References are added without a trace in the guards and the reports. -/
private theorem makes_refs (f : ReferenceTable → ReferenceTable) :
    Makes (modify fun st => { st with refs := f st.refs }) [] fun _ => True := fun _ =>
  ⟨trivial, rfl, [], (List.append_nil _).symm, fun _ hd => absurd hd List.not_mem_nil⟩

private theorem Makes.bind {x : LiteralM α} {f : α → LiteralM β} {Q : α → Prop} {R : β → Prop} (hx : Makes x names Q)
    (hf : ∀ a, Q a → Makes (f a) names' R) : Makes (x >>= f) (names ++ names') R := by
  intro st
  obtain ⟨ha, hguards, dropped, hdropped, hall⟩ := hx st
  obtain ⟨hb, hguards', dropped', hdropped', hall'⟩ := hf _ ha (x.run st).2
  refine ⟨hb, ?_, dropped ++ dropped', ?_, List.forall_mem_append.2 ⟨hall, hall'⟩⟩
  · rw [List.foldl_append, ← hguards]
    exact hguards'
  · rw [← List.append_assoc, ← hdropped]
    exact hdropped'

/-- Behind a step, the result is only put into another one. -/
private theorem Makes.bind_pure {x : LiteralM α} {f : α → β} {Q : α → Prop} {R : β → Prop} (hx : Makes x names Q)
    (hf : ∀ a, Q a → R (f a)) : Makes (x >>= fun a => pure (f a)) names R := by
  have h := hx.bind fun a ha => makes_pure (hf a ha)
  rwa [List.append_nil] at h

/-! ### Literals -/

/-- How annotation literals use classes: the holder of an enum class, or the implementation of an annotation type. -/
def LiteralUse (p : Program) : ClassUse → Prop
  | .access name => ∃ source, name = Naming.staticHolder p source
  | .construct name => ∃ c ∈ p.classes, name = Naming.companion c.name .annotationImpl
  | .guard _ | .adapter _ => False

/-- The literal uses classes in these ways only and reads nothing from the pool. -/
private def Plain (p : Program) (e : Target.Expr) : Prop :=
  (∀ use ∈ e.classUses, LiteralUse p use) ∧ e.poolRefs = []

private theorem plain_of_nil {e : Target.Expr} (h : e.classUses = []) (hrefs : e.poolRefs = []) : Plain p e := by
  refine ⟨fun use huse => ?_, hrefs⟩
  rw [h] at huse
  exact absurd huse List.not_mem_nil

private theorem plain_list {items : List Target.Expr} (h : ∀ e ∈ items, Plain p e) : Plain p (.list items) := by
  unfold Plain
  rw [Target.Expr.classUses, Target.Expr.classUsesList_eq, Target.Expr.poolRefs, Target.Expr.poolRefsList_eq]
  exact ⟨List.forall_mem_flatMap.2 fun e he => (h e he).1, List.flatMap_eq_nil_iff.2 fun e he => (h e he).2⟩

/-- Steps in order, one after the other. -/
private theorem makes_inOrder {γ : Type} {l : List γ} {step : γ → LiteralM α} {namesOf : γ → List Name} {Q : α → Prop}
    (h : ∀ x ∈ l, Makes (step x) (namesOf x) Q) :
    Makes (inOrder (l.map step)) (l.flatMap namesOf) fun values => ∀ a ∈ values, Q a := by
  induction l with
  | nil => exact makes_pure fun _ ha => absurd ha List.not_mem_nil
  | cons x l ih =>
    obtain ⟨hx, hl⟩ := List.forall_mem_cons.1 h
    rw [List.map_cons, inOrder, List.flatMap_cons]
    exact hx.bind fun a ha => (ih hl).bind_pure fun values hvalues => List.forall_mem_cons.2 ⟨ha, hvalues⟩

/-- The literals of elements and of defaults touch what `elementNames` and `fallbackNames` say. -/
private theorem makes_annotationLiteral {fallback : Method → LiteralM Target.Expr} {fallbackNames : Method → List Name}
    (hfallback : ∀ m, Makes (fallback m) (fallbackNames m) (Plain p)) (type : Name)
    {elements : List (Name × LiteralM Target.Expr)} {elementNames : List (Name × List Name)}
    (helements : ∀ name x names, Makes x names (Plain p) →
      Makes ((elements.lookup name).getD x) ((elementNames.lookup name).getD names) (Plain p)) :
    Makes (annotationLiteral p at_ fallback type elements) (annotationEnums p fallbackNames type elementNames)
      fun value => ∀ e ∈ value, Plain p e := by
  unfold annotationLiteral annotationEnums
  cases hfind : p.find? type with
  | none =>
    intro st
    exact ⟨fun _ h => absurd h (Option.not_mem_none _), rfl, [_], rfl, List.forall_mem_singleton.2 ⟨at_, type, rfl⟩⟩
  | some c =>
    have hvalues : ∀ m ∈ accessors c, Makes ((elements.lookup m.name).getD (fallback m))
        ((elementNames.lookup m.name).getD (fallbackNames m)) (Plain p) :=
      fun m _ => helements m.name _ _ (hfallback m)
    refine (makes_refs fun refs => refs.add c.name).bind fun _ _ => (makes_inOrder hvalues).bind_pure ?_
    rintro values hvalues e ⟨⟩
    have hlist : Plain p (.list values) := plain_list hvalues
    refine ⟨List.forall_mem_cons.2 ⟨⟨c, (Program.mem_of_find? hfind).1, rfl⟩, ?_⟩, ?_⟩
    · rw [Target.Expr.classUsesList_eq]
      exact List.forall_mem_flatMap.2 (List.forall_mem_singleton.2 hlist.1)
    · rw [Target.Expr.poolRefs, Target.Expr.poolRefsList_eq, List.flatMap_singleton, hlist.2]

mutual

private theorem makes_valueLiteral {fallback : Method → LiteralM Target.Expr} {fallbackNames : Method → List Name}
    (hfallback : ∀ m, Makes (fallback m) (fallbackNames m) (Plain p)) :
    (value : AnnotationValue) →
      Makes (valueLiteral p at_ fallback value) (valueEnums p fallbackNames value) (Plain p)
  | .bool _ | .byte _ | .short _ | .char _ | .int _ | .long _ | .float _ | .double _ | .string _ => by
    rw [valueLiteral, valueEnums]
    exact makes_pure (plain_of_nil rfl rfl)
  | .enum className fieldName => by
    rw [valueLiteral, valueEnums]
    intro st
    have hrefs : ∀ holder, Target.nameRefs holder (Naming.field p className fieldName) = [] := fun _ =>
      Target.nameRefs_eq_nil (Target.poolIndex?_eq_none.2 Naming.isFree_field.2.2)
    exact ⟨⟨List.forall_mem_singleton.2 ⟨className, rfl⟩, hrefs _⟩, rfl, [], (List.append_nil _).symm,
      fun _ hd => absurd hd List.not_mem_nil⟩
  | .classRef type => by
    rw [valueLiteral, valueEnums]
    exact (makes_refs fun refs => refs.addType type).bind fun _ _ => makes_pure (plain_of_nil rfl rfl)
  | .nested type elements _ => by
    rw [valueLiteral, valueEnums]
    refine (makes_annotationLiteral hfallback type (makes_elementLiterals hfallback elements)).bind_pure ?_
    intro value hvalue
    cases value with
    | none => exact plain_of_nil rfl rfl
    | some e => exact hvalue e rfl
  | .array items => by
    rw [valueLiteral, valueEnums]
    exact (makes_itemLiterals hfallback items).bind_pure fun values hvalues => plain_list hvalues

private theorem makes_elementLiterals {fallback : Method → LiteralM Target.Expr} {fallbackNames : Method → List Name}
    (hfallback : ∀ m, Makes (fallback m) (fallbackNames m) (Plain p)) :
    (elements : List (Name × AnnotationValue)) → ∀ name x names, Makes x names (Plain p) →
      Makes (((elementLiterals p at_ fallback elements).lookup name).getD x)
        (((elementEnums p fallbackNames elements).lookup name).getD names) (Plain p)
  | [], _, _, _, h => h
  | (key, value) :: rest, name, x, names, h => by
    rw [elementLiterals, elementEnums, List.lookup_cons, List.lookup_cons]
    split
    · exact makes_valueLiteral hfallback value
    · exact makes_elementLiterals hfallback rest name x names h

private theorem makes_itemLiterals {fallback : Method → LiteralM Target.Expr} {fallbackNames : Method → List Name}
    (hfallback : ∀ m, Makes (fallback m) (fallbackNames m) (Plain p)) :
    (items : List AnnotationValue) →
      Makes (inOrder (itemLiterals p at_ fallback items)) (itemEnums p fallbackNames items) fun values =>
        ∀ e ∈ values, Plain p e
  | [] => by
    rw [itemLiterals, itemEnums]
    exact makes_pure fun _ h => absurd h List.not_mem_nil
  | value :: rest => by
    rw [itemLiterals, itemEnums, inOrder]
    exact (makes_valueLiteral hfallback value).bind fun _ he => (makes_itemLiterals hfallback rest).bind_pure
      fun _ hvalues => List.forall_mem_cons.2 ⟨he, hvalues⟩

end

private theorem makes_defaultLiteral (fuel : Nat) :
    ∀ m, Makes (defaultLiteral p at_ fuel m) (defaultEnums p fuel m) (Plain p) := by
  induction fuel with
  | zero => exact fun _ => makes_pure (plain_of_nil rfl rfl)
  | succ fuel ih =>
    intro m
    rw [defaultLiteral, defaultEnums]
    cases m.defaultValue with
    | some value => exact makes_valueLiteral ih value
    | none => exact makes_pure (plain_of_nil rfl rfl)

private theorem makes_useLiteral (use : AnnotationUse) :
    Makes (useLiteral p at_ use) (useEnums p use) fun value => ∀ e ∈ value, Plain p e :=
  makes_annotationLiteral (makes_defaultLiteral _) _ (makes_elementLiterals (makes_defaultLiteral _) use.elements)

/-! ### Registration -/

private theorem makes_useList (uses : List AnnotationUse) : Makes (useList p at_ uses) (listEnums p uses) (Plain p) := by
  unfold useList inOrderSome listEnums
  refine Makes.bind_pure (Makes.bind_pure (makes_inOrder fun use _ => makes_useLiteral use) ?_) fun _ h => plain_list h
  intro values hvalues e he
  obtain ⟨value, hvalue, rfl⟩ := List.mem_filterMap.1 he
  exact hvalues _ hvalue e rfl

private theorem makes_paramUseLists (m : Method) :
    Makes (paramUseLists p at_ m)
      ((List.range m.params.length).flatMap fun i => listEnums p (m.paramAnnotations.getD i [])) (Plain p) :=
  (makes_inOrder fun _ _ => makes_useList _).bind_pure fun _ h => plain_list h

/-- The member uses classes as literals do and reads nothing from the pool. -/
private def PlainMember (p : Program) (entry : Target.MemberEntry) : Prop :=
  (∀ use ∈ entry.classUses, LiteralUse p use) ∧ entry.poolRefs = []

private theorem plainMember_uses {entry : Target.MemberEntry} {uses paramUses : Target.Expr} (huses : Plain p uses)
    (hparams : Plain p paramUses) (hclasses : entry.classUses = uses.classUses ++ paramUses.classUses)
    (hrefs : entry.poolRefs = uses.poolRefs ++ paramUses.poolRefs) : PlainMember p entry := by
  unfold PlainMember
  rw [hclasses, hrefs, huses.2, hparams.2]
  exact ⟨List.forall_mem_append.2 ⟨huses.1, hparams.1⟩, rfl⟩

private theorem makes_fieldEntries {c : ClassModel} {slot : Nat} {fields : List Field} :
    Makes (fieldEntries p at_ c slot fields) (fields.flatMap fun f => listEnums p f.annotations) fun entries =>
      ∀ entry ∈ entries, PlainMember p entry := by
  induction fields generalizing slot with
  | nil => exact makes_pure fun _ h => absurd h List.not_mem_nil
  | cons f fields ih =>
    rw [fieldEntries, List.flatMap_cons]
    exact (makes_useList _).bind fun _ huses => ih.bind_pure fun _ hentries => List.forall_mem_cons.2 ⟨huses, hentries⟩

private theorem makes_methodEntries {c : ClassModel} {constructorSlot methodSlot : Nat} {methods : List Method} :
    Makes (methodEntries p at_ c constructorSlot methodSlot methods) (methods.flatMap (methodEnums p)) fun entries =>
      ∀ entry ∈ entries, PlainMember p entry := by
  induction methods generalizing constructorSlot methodSlot with
  | nil => exact makes_pure fun _ h => absurd h List.not_mem_nil
  | cons m methods ih =>
    rw [methodEntries, List.flatMap_cons, methodEnums, List.append_assoc]
    refine (makes_useList _).bind fun _ huses => (makes_paramUseLists m).bind fun _ hparams => ?_
    dsimp only
    split
    · exact ih.bind_pure fun _ hentries =>
        List.forall_mem_cons.2 ⟨plainMember_uses huses hparams rfl rfl, hentries⟩
    · -- the annotations of the static initializer are read, although it is not registered
      split
      · exact ih
      · exact ih.bind_pure fun _ hentries =>
          List.forall_mem_cons.2 ⟨plainMember_uses huses hparams rfl rfl, hentries⟩

/-- The entry of the class has its adapter by name, and everything else uses classes as literals do. -/
def Registers (p : Program) (c : ClassModel) (entries : Target.ClassEntry × List Target.MemberEntry) : Prop :=
  entries.1.adapter = companionName c .adapter (p.dispatch c == .adapter) ∧
    (∀ use ∈ entries.1.uses.classUses, LiteralUse p use) ∧
    ∀ entry ∈ entries.2, ∀ use ∈ entry.classUses, LiteralUse p use

/-- Nothing in the entries reads from the pool. -/
def Unpooled (entries : Target.ClassEntry × List Target.MemberEntry) : Prop :=
  entries.1.uses.poolRefs = [] ∧ ∀ entry ∈ entries.2, entry.poolRefs = []

theorem makes_classInfoEntries (p : Program) (c : ClassModel) :
    Makes (classInfoEntries p c) (registeredEnums p c) fun entries => Registers p c entries ∧ Unpooled entries := by
  have hentry : Makes (classEntry p ⟨c.name, none⟩ c) (listEnums p c.annotations) fun entry =>
      entry.adapter = companionName c .adapter (p.dispatch c == .adapter) ∧ Plain p entry.uses :=
    (makes_useList _).bind_pure fun _ huses => ⟨rfl, huses⟩
  unfold classInfoEntries registeredEnums
  refine hentry.bind fun entry hentry => makes_fieldEntries.bind fun fields hfields => makes_methodEntries.bind_pure ?_
  intro methods hmethods
  have hmembers := List.forall_mem_append.2 ⟨hfields, hmethods⟩
  exact ⟨⟨hentry.1, hentry.2.1, fun member hmem => (hmembers member hmem).1⟩, hentry.2.2,
    fun member hmem => (hmembers member hmem).2⟩

/-- What the registration of a class is, when the options ask for it. -/
def Registered (env : Env) (c : ClassModel) : Option Target.ClassInfo → Prop
  | none => env.options.reflection = false
  | some info =>
    env.options.reflection = true ∧
      info.guards = ((registeredEnums env.program c).foldl Guards.touch {}).holders env.program ∧
      Registers env.program c (info.entry, info.members)

/-- Registration never fails. -/
theorem exists_runs_classInfo (env : Env) (c : ClassModel) (st : UnitState) :
    ∃ info st' dropped, Runs (classInfo env c) st info st' ∧ Registered env c info ∧
      st'.diagnostics = st.diagnostics ++ dropped ∧ ∀ d ∈ dropped, IsDrop d := by
  cases hreflection : env.options.reflection with
  | false =>
    refine ⟨none, st, [], ?_, hreflection, (List.append_nil _).symm, fun _ hd => absurd hd List.not_mem_nil⟩
    unfold classInfo
    rw [hreflection]
    rfl
  | true =>
    have hmakes := makes_classInfoEntries env.program c ⟨st.refs, st.diagnostics, {}⟩
    rcases hrun : (classInfoEntries env.program c).run ⟨st.refs, st.diagnostics, {}⟩ with ⟨⟨entry, members⟩, last⟩
    rw [hrun] at hmakes
    obtain ⟨⟨hentries, -⟩, hguards, dropped, hdropped, hall⟩ := hmakes
    refine ⟨some ⟨last.guards.holders env.program, entry, members⟩,
      { st with refs := last.refs, diagnostics := last.diagnostics }, dropped, ?_,
      ⟨hreflection, congrArg (Guards.holders · env.program) hguards, hentries⟩, hdropped, hall⟩
    unfold classInfo
    rw [hreflection, if_pos rfl, runs_bind]
    refine ⟨st, st, rfl, ?_⟩
    rw [hrun]
    rfl

/-- Registration has nothing to do with the pool. -/
theorem unpooled_classInfo {env : Env} {c : ClassModel} {st st' : UnitState} {info : Option Target.ClassInfo}
    (h : Runs (classInfo env c) st info st') :
    st'.literals = st.literals ∧ info.toList.flatMap Target.ClassInfo.poolRefs = [] := by
  unfold classInfo at h
  split at h
  · obtain ⟨before, mid, hget, h⟩ := runs_bind.1 h
    obtain ⟨rfl, rfl⟩ := runs_get.1 hget
    have hmakes := makes_classInfoEntries env.program c ⟨st.refs, st.diagnostics, {}⟩
    rcases hrun : (classInfoEntries env.program c).run ⟨st.refs, st.diagnostics, {}⟩ with ⟨⟨entry, members⟩, last⟩
    rw [hrun] at hmakes h
    obtain ⟨_, mid, hset, h⟩ := runs_bind.1 h
    obtain rfl := runs_set.1 hset
    obtain ⟨rfl, rfl⟩ := runs_pure.1 h
    obtain ⟨⟨-, huses, hmembers⟩, -⟩ := hmakes
    refine ⟨rfl, ?_⟩
    rw [Option.toList_some, List.flatMap_singleton, Target.ClassInfo.poolRefs, List.append_eq_nil_iff]
    exact ⟨huses, List.flatMap_eq_nil_iff.2 hmembers⟩
  · obtain ⟨rfl, rfl⟩ := runs_pure.1 h
    exact ⟨rfl, rfl⟩

end HaxeBackend.Generation
