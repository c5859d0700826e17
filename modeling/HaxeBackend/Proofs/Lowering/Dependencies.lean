import HaxeBackend.Proofs.Lowering.Pool
import HaxeBackend.Proofs.Lowering.Uses

/-!
# Classes that a body refers to

The classes of a body, in the order in which lowering meets them: the owners of its static members, the classes of new
objects, the interfaces and targets of its method references, and the classes that its types mention.  Lowering refers
to these, or to those up to the place where it fails, and whatever class a lowered body guards, accesses or makes
objects of is one of them (`refers_lowerBody`).
-/

namespace HaxeBackend

/-! ### References in order -/

/-- The class that declares the field. -/
def Program.fieldOwner (p : Program) (r : FieldRef) : List Name :=
  (p.getField? r.owner r.name r.type).toList.map fun entry => entry.owner.name

/-- The class that declares the method. -/
def Program.methodOwner (p : Program) (r : MethodRef) : List Name :=
  (p.resolve? r false).toList.map fun entry => entry.owner.name

/-- The class whose holder a string literal is read through. -/
def Lowering.PoolAccess.owner : Lowering.PoolAccess → List Name
  | .own => []
  | .through className => [className]

section References

variable (p : Program) (pool : Lowering.PoolAccess)

mutual

/-- The classes that an expression refers to.  The receiver of a super call is never lowered. -/
def Expr.references : Expr → List Name
  | .literal (.string _) _ => pool.owner
  | .literal (.classRef type) _ => type.mentioned?.toList
  | .literal .. | .missing _ | .readLocal .. | .this _ | .caught _ => []
  | .staticField r _ => p.fieldOwner r
  | .allocate className _ => [className]
  | .capture interfaceMethod target _ => interfaceMethod.owner :: p.methodOwner target
  | .staticCall method args _ => p.methodOwner method ++ Expr.referencesList args
  | .superCall _ _ args _ => Expr.referencesList args
  | .call receiver _ args _ _ => receiver.references ++ Expr.referencesList args
  | .newArray counts type => Expr.referencesList counts ++ type.mentioned?.toList
  | .instanceOf operand type _ | .cast operand type => operand.references ++ type.mentioned?.toList
  | .binary _ left right _ | .element left right _ => left.references ++ right.references
  | .unary _ operand _ | .field operand _ _ | .arrayLength operand _ => operand.references

def Expr.referencesList : List Expr → List Name
  | [] => []
  | e :: rest => e.references ++ Expr.referencesList rest

end

/-- The classes that a statement refers to. -/
def Stmt.references : Stmt → List Name
  | .missing _ | .skip | .line _ | .label _ | .goto _ | .ret none | .rethrow | .exitLoop | .nextLoop => []
  | .seq first rest => first.references ++ rest.references
  | .gotoIf x _ | .jumpTable x _ _ | .setLocal _ x | .eval x | .ret (some x) | .throw x => x.references p pool
  | .setStatic r value => p.fieldOwner r ++ value.references p pool
  | .setField object _ value => object.references p pool ++ value.references p pool
  | .setElement array index value =>
    array.references p pool ++ (index.references p pool ++ value.references p pool)
  | .construct _ className _ args => Expr.referencesList p pool args ++ [className]
  | .tryCatch body handler => body.references ++ handler.references
  | .when condition body | .loop condition body | .switch condition body =>
    condition.references p pool ++ body.references
  | .ite condition thenBranch elseBranch =>
    condition.references p pool ++ (thenBranch.references ++ elseBranch.references)
  | .arm _ body | .otherwise body => body.references

end References

/-! ### Reference tables -/

/-- A table has each class once, in the order of first reference. -/
theorem ReferenceTable.order_add {t : ReferenceTable} {seen : List Name} (h : t.order = seen.eraseDups) (name : Name) :
    (t.add name).order = (seen ++ [name]).eraseDups := by
  rw [List.eraseDups_append, ← h]
  unfold add contains
  by_cases hmem : name ∈ seen
  · have hold : name ∈ t.order := by rwa [h, List.mem_eraseDups]
    simp [hold, List.removeAll, hmem]
  · have hnew : name ∉ t.order := by rwa [h, List.mem_eraseDups]
    simp [hnew, List.removeAll, hmem, List.eraseDups_cons]

theorem ReferenceTable.order_addType {t : ReferenceTable} {seen : List Name} (h : t.order = seen.eraseDups)
    (type : Ty) : (t.addType type).order = (seen ++ type.mentioned?.toList).eraseDups := by
  unfold addType
  cases type.mentioned? with
  | none => rw [h, Option.toList_none, List.append_nil]
  | some name => exact order_add h name

/-! ### Uses of classes among names -/

namespace Target.ClassUse

/-- The use is of the class of this name. -/
def Names (p : Program) (source : Name) : ClassUse → Prop
  | access name | guard name => name = Naming.staticHolder p source
  | construct name => name = Naming.qualified p source ∨ name = Naming.companion source .annotationImpl
  | adapter name => name = Naming.companion source .adapter

/-- The use is of the support library for arrays. -/
def IsArray : ClassUse → Prop
  | access name => name = objectArray
  | construct name => ∃ type, name = Naming.arrayClass type
  | guard _ | adapter _ => False

end Target.ClassUse

open Target (ClassUse)

/-- All these uses are of one of the classes, or of the support library for arrays. -/
def UsesAmong (p : Program) (names : List Name) (uses : List ClassUse) : Prop :=
  ∀ use ∈ uses, use.IsArray ∨ ∃ source ∈ names, use.Names p source

section UsesAmong

variable {p : Program} {names : List Name}

theorem usesAmong_nil : UsesAmong p names [] := fun _ h => absurd h List.not_mem_nil

theorem usesAmong_append {uses uses' : List ClassUse} :
    UsesAmong p names (uses ++ uses') ↔ UsesAmong p names uses ∧ UsesAmong p names uses' := List.forall_mem_append

theorem usesAmong_flatMap {γ : Type} {l : List γ} {f : γ → List ClassUse} :
    UsesAmong p names (l.flatMap f) ↔ ∀ x ∈ l, UsesAmong p names (f x) := List.forall_mem_flatMap

theorem usesAmong_single {use : ClassUse} {source : Name} (hmem : source ∈ names) (h : use.Names p source) :
    UsesAmong p names [use] := List.forall_mem_singleton.2 (.inr ⟨source, hmem, h⟩)

theorem UsesAmong.mono {names' : List Name} {uses : List ClassUse} (h : UsesAmong p names uses)
    (hnames : ∀ name ∈ names, name ∈ names') : UsesAmong p names' uses :=
  fun use huse => (h use huse).imp_right fun ⟨source, hmem, huse⟩ => ⟨source, hnames source hmem, huse⟩

end UsesAmong

namespace Lowering

variable {α β : Type} {s : Scope} {p : Program} {base names : List Name}

/-! ### Steps -/

/-- Behind the references that were there, those of a body are kept, and the guards that wait are for some of them. -/
private def Held (base : List Name) (st : State) (seen : List Name) : Prop :=
  st.refs.order = (base ++ seen).eraseDups ∧ ∀ name ∈ st.guards.pending, name ∈ seen

/-- The step refers to these classes. -/
private abbrev Refers (base : List Name) (x : LowerM α) (names : List Name) (Q : α → List Name → Prop) : Prop :=
  Collects (Held base) x names Q

private theorem mem_of_prefix {seen later : List Name} {name : Name} (h : (seen ++ [name]).eraseDups <+: later) :
    name ∈ later := h.subset (List.mem_eraseDups.2 (by simp))

private theorem refers_refer (name : Name) : Refers base (refer name) [name] fun _ later => name ∈ later := by
  intro st seen hseen
  refine ⟨[name], List.prefix_refl _, ⟨?_, fun n hn => List.mem_append_left _ (hseen.2 n hn)⟩,
    fun _ _ => ⟨rfl, fun _ => mem_of_prefix⟩⟩
  rw [← List.append_assoc]
  exact ReferenceTable.order_add hseen.1 name

private theorem refers_referType (type : Ty) : Refers base (referType type) type.mentioned?.toList fun _ _ => True := by
  intro st seen hseen
  refine ⟨_, List.prefix_refl _, ⟨?_, fun n hn => List.mem_append_left _ (hseen.2 n hn)⟩,
    fun _ _ => ⟨rfl, fun _ _ => trivial⟩⟩
  rw [← List.append_assoc]
  exact ReferenceTable.order_addType hseen.1 type

/-- A class that is touched is referred to as well, so its guard may wait. -/
private theorem refers_touch (name : Name) : Refers base (s.touch name) [name] fun _ later => name ∈ later := by
  unfold Scope.touch
  dsimp only
  split
  · exact refers_refer name
  · intro st seen hseen
    refine ⟨[name], List.prefix_refl _, ⟨?_, fun n hn => ?_⟩, fun _ _ => ⟨rfl, fun _ => mem_of_prefix⟩⟩
    · rw [← List.append_assoc]
      exact ReferenceTable.order_add hseen.1 name
    · rcases Guards.mem_pending_touch.1 hn with hn | ⟨rfl, -⟩
      · exact List.mem_append_left _ (hseen.2 n hn)
      · simp

private theorem refers_takeGuards :
    Refers base s.takeGuards [] fun holders later =>
      ∀ holder ∈ holders, ∃ source ∈ later, holder = Naming.staticHolder s.program source := by
  intro st seen hseen
  refine ⟨[], List.prefix_refl _, ⟨?_, fun n hn => absurd hn List.not_mem_nil⟩, fun holders hholders =>
    ⟨rfl, fun later hlater holder hholder => ?_⟩⟩
  · rw [List.append_nil]
    exact hseen.1
  · cases hholders
    obtain ⟨source, hsource, rfl⟩ := List.mem_map.1 hholder
    rw [List.append_nil] at hlater
    exact ⟨source, hlater.subset (List.mem_eraseDups.2 (hseen.2 source hsource)), rfl⟩

/-! ### Expressions -/

/-- The expression uses the classes only. -/
private abbrev UsesOnly (p : Program) (t : Target.Expr) (later : List Name) : Prop := UsesAmong p later t.classUses

private theorem usesOnly_holder {later : List Name} {source : Name} (h : source ∈ later) :
    UsesOnly p (.path (Naming.staticHolder p source)) later := usesAmong_single h rfl

private theorem refers_interned (text : Name) : Refers base (interned text) [] fun _ _ => True :=
  collects_quiet fun _ _ hseen => ⟨hseen, fun _ _ => trivial⟩

private theorem refers_lowerString (text : Name) :
    Refers base (lowerString s text) s.pool.owner (UsesOnly s.program) := by
  rw [lowerString_eq]
  refine (refers_interned text).bind fun index => ?_
  cases s.pool with
  | own => exact collects_pure fun _ _ => usesAmong_nil
  | through className => exact (refers_touch className).bind_pure fun _ _ hmem _ => usesOnly_holder hmem

private theorem refers_lowerLiteral (value : Literal) (type : Ty) :
    Refers base (lowerLiteral s value) ((Expr.literal value type).references s.program s.pool)
      (UsesOnly s.program) := by
  cases value with
  | string text =>
    rw [Expr.references]
    exact refers_lowerString text
  | classRef type =>
    rw [Expr.references]
    refine (refers_referType type).bind_pure fun _ _ _ => ?_
    rw [classLiteral, UsesOnly, passedOn_classUses.natives]
    exact usesAmong_nil
  | long value =>
    refine collects_pure fun _ => ?_
    rw [UsesOnly, passedOn_classUses.read_long]
    exact usesAmong_nil
  | null | bool _ | int _ | float _ | double _ => exact collects_pure fun _ => usesAmong_nil

private theorem refers_lowerStaticField (r : FieldRef) :
    Refers base (lowerStaticField s r) (s.program.fieldOwner r) (UsesOnly s.program) := by
  unfold lowerStaticField
  refine collects_look (looks_resolveField r) fun entry hentry => ?_
  rw [Program.fieldOwner, hentry]
  exact (refers_touch entry.owner.name).bind_pure fun _ _ hmem => usesOnly_holder hmem

private theorem refers_allocate (className : Name) :
    Refers base (allocate s className) [className] (UsesOnly s.program) := by
  unfold allocate
  refine collects_look (looks_requireClass className) fun _ _ => (refers_touch className).bind_pure fun _ _ hmem => ?_
  exact usesAmong_single hmem (.inl rfl)

private theorem refers_newArray (type : Ty) (counts : List Target.Expr) :
    Refers base (newArray type counts) [] fun t later =>
      UsesAmong p later (counts.flatMap Target.Expr.classUses) → UsesOnly p t later := by
  refine (looks_newArray type counts).collects.imp fun t later ht hcounts => ?_
  have harray : UsesAmong p later [.construct (Naming.arrayClass type)] :=
    List.forall_mem_singleton.2 (.inl ⟨type, rfl⟩)
  cases ht with
  | plain =>
    rw [UsesOnly, classUses_construct, ← List.singleton_append]
    exact usesAmong_append.2 ⟨harray, hcounts⟩
  | described =>
    rw [UsesOnly, classUses_construct, List.flatMap_append, ← List.singleton_append]
    exact usesAmong_append.2 ⟨harray, usesAmong_append.2 ⟨hcounts, usesAmong_nil⟩⟩
  | nested =>
    rw [UsesOnly, passedOn_classUses.invoke, List.flatMap_cons, Target.Expr.classUses, Target.Expr.classUses,
      Target.Expr.classUsesList_eq]
    exact usesAmong_append.2 ⟨List.forall_mem_singleton.2 (.inl rfl), usesAmong_append.2 ⟨hcounts, usesAmong_nil⟩⟩

/-- An adapter uses its class, what it guards, and what its call uses. -/
private theorem usesOnly_adapterOf {later : List Name} {interface : ClassModel} {interfaceMethod : MethodRef}
    {entry : MethodEntry} (hinterface : interface.name ∈ later) (howner : entry.owner.name ∈ later)
    {call : Target.Expr} (hcall : IsForward s interfaceMethod entry call) (owned : Bool) :
    UsesOnly s.program (adapterOf s interface interfaceMethod entry owned call) later := by
  obtain ⟨value, result, heq, hvalue, -⟩ := adapterOf_eq s interface interfaceMethod entry owned call
  have hread : UsesOnly s.program call later := by
    rw [UsesOnly]
    rcases passedOn_classUses.read_isForward hcall fun _ _ => rfl with hnone | hholder
    · rw [hnone]
      exact usesAmong_nil
    · rw [hholder]
      exact usesOnly_holder howner
  rw [UsesOnly, heq, Target.Expr.classUses, ← List.singleton_append]
  refine usesAmong_append.2 ⟨usesAmong_single hinterface rfl, usesAmong_append.2 ⟨fun use huse => ?_, ?_⟩⟩
  · obtain ⟨holder, hholder, rfl⟩ := List.mem_map.1 huse
    exact .inr ⟨_, howner, (mem_adapterGuard (Option.mem_toList.1 hholder)).1⟩
  · rcases hvalue with rfl | rfl
    · exact hread
    · rw [passedOn_classUses.read_convert]
      exact hread

private theorem refers_capture (interfaceMethod target : MethodRef) :
    Refers base (capture s interfaceMethod target) (interfaceMethod.owner :: s.program.methodOwner target)
      (UsesOnly s.program) := by
  rw [capture_eq]
  refine collects_look (looks_requireClass _) fun interface hinterface => ?_
  obtain ⟨-, hname⟩ := Program.mem_of_find? hinterface
  split
  · refine collects_look (looks_resolveMethod _ _) fun entry hentry => ?_
    -- the interface is referred to by the name that it was found under
    rw [Program.methodOwner, hentry, ← hname, ← List.singleton_append]
    exact (refers_refer interface.name).bind fun _ => (refers_refer entry.owner.name).bind_quiet fun _ =>
      collects_look looks_get fun st _ => collects_look (looks_forwarded _ _ entry) fun call hcall =>
      collects_pure fun later howner hface => usesOnly_adapterOf hface howner hcall _
  · exact collects_throw _ _ _

mutual

/-- A lowered expression uses classes that it refers to. -/
private theorem refers_lowerExpr :
    (e : Expr) → Refers base (lowerExpr s e) (e.references s.program s.pool) (UsesOnly s.program)
  | .missing id => by
    rw [lowerExpr]
    exact collects_throw _ _ _
  | .literal value type => by
    rw [lowerExpr]
    exact refers_lowerLiteral value type
  | .readLocal id _ => by
    rw [lowerExpr, Expr.references]
    exact collects_look (looks_localName id) fun _ _ => collects_pure fun _ => usesAmong_nil
  | .this _ | .caught _ => by
    rw [lowerExpr, Expr.references]
    exact collects_pure fun _ => usesAmong_nil
  | .binary op left right type => by
    rw [lowerExpr, Expr.references]
    refine (refers_lowerExpr left).bind fun l => (refers_lowerExpr right).bind_pure fun r later hr hl => ?_
    rw [UsesOnly, passedOn_classUses.read_binary]
    exact usesAmong_append.2 ⟨hl, hr⟩
  | .unary op operand type => by
    rw [lowerExpr, Expr.references]
    refine (refers_lowerExpr operand).bind_pure fun t later ht => ?_
    rw [UsesOnly, passedOn_classUses.read_unary]
    exact ht
  | .staticCall method args _ => by
    rw [lowerExpr, Expr.references]
    refine collects_look (looks_resolveMethod method false) fun entry hentry => ?_
    rw [Program.methodOwner, hentry]
    refine (refers_touch entry.owner.name).bind fun _ => collects_look (looks_checkArity _ _) fun _ harity =>
      (refers_lowerExprs args).bind_pure fun ts later hts hmem => ?_
    rw [UsesOnly, passedOn_classUses.read_callOf _ (hts.2.trans harity)]
    exact usesAmong_append.2 ⟨usesOnly_holder hmem, hts.1⟩
  | .call receiver method args special _ => by
    rw [lowerExpr, Expr.references]
    refine collects_look (looks_resolveMethod method special) fun entry _ => (refers_lowerExpr receiver).bind
      fun t => collects_look (looks_checkArity _ _) fun _ harity => (refers_lowerExprs args).bind_pure ?_
    intro ts later hts ht
    rw [UsesOnly, passedOn_classUses.read_callOf _ (hts.2.trans harity)]
    exact usesAmong_append.2 ⟨ht, hts.1⟩
  | .superCall _ method args _ => by
    rw [lowerExpr, Expr.references]
    refine collects_look (looks_resolveMethod method false) fun entry _ =>
      collects_look (looks_checkArity _ _) fun _ harity => (refers_lowerExprs args).bind_pure fun ts later hts => ?_
    rw [UsesOnly, passedOn_classUses.read_callOf _ (hts.2.trans harity)]
    exact hts.1
  | .field object r _ => by
    rw [lowerExpr, Expr.references]
    refine (refers_lowerExpr object).bind_quiet fun t => collects_look (looks_resolveField r) fun _ _ => ?_
    exact collects_pure fun _ ht => ht
  | .staticField r _ => by
    rw [lowerExpr, Expr.references]
    exact refers_lowerStaticField r
  | .element array index _ => by
    rw [lowerExpr, Expr.references]
    refine collects_look (looks_typeOf array) fun type _ => (refers_lowerExpr array).bind fun t =>
      (refers_lowerExpr index).bind_pure fun i later hi ht => ?_
    rw [UsesOnly, passedOn_classUses.invoke, passedOn_classUses.read_asArray, List.flatMap_singleton]
    exact usesAmong_append.2 ⟨ht, hi⟩
  | .arrayLength array _ => by
    rw [lowerExpr, Expr.references]
    refine collects_look (looks_typeOf array) fun type _ => (refers_lowerExpr array).bind_pure fun t later ht => ?_
    rw [UsesOnly, Target.Expr.classUses, passedOn_classUses.read_asArray]
    exact ht
  | .allocate className _ => by
    rw [lowerExpr, Expr.references]
    exact refers_allocate className
  | .newArray counts type => by
    rw [lowerExpr, Expr.references]
    refine (refers_lowerExprs counts).bind fun ts => (refers_referType type).bind_quiet fun _ => ?_
    exact (refers_newArray type ts).imp fun t later ht _ hts => ht hts.1
  | .instanceOf operand check _ => by
    rw [lowerExpr, Expr.references]
    exact (refers_lowerExpr operand).bind fun t => (refers_referType check).bind_pure fun _ _ _ ht => ht
  | .cast operand type => by
    rw [lowerExpr, Expr.references]
    refine collects_look (looks_typeOf operand) fun source _ => (refers_lowerExpr operand).bind fun t =>
      (refers_referType type).bind_pure fun _ later _ ht => ?_
    rw [UsesOnly, passedOn_classUses.read_convert]
    exact ht
  | .capture interfaceMethod target _ => by
    rw [lowerExpr, Expr.references]
    exact refers_capture interfaceMethod target

private theorem refers_lowerExprs :
    (es : List Expr) → Refers base (lowerExprs s es) (Expr.referencesList s.program s.pool es) fun ts later =>
      UsesAmong s.program later (ts.flatMap Target.Expr.classUses) ∧ ts.length = es.length
  | [] => by
    rw [lowerExprs, Expr.referencesList]
    exact collects_pure fun _ => ⟨usesAmong_nil, rfl⟩
  | e :: es => by
    rw [lowerExprs, Expr.referencesList]
    refine (refers_lowerExpr e).bind fun t => (refers_lowerExprs es).bind_pure fun ts later hts ht => ?_
    rw [List.flatMap_cons, List.length_cons, hts.2]
    exact ⟨usesAmong_append.2 ⟨ht, hts.1⟩, rfl⟩

end

/-! ### Statements -/

/-- The statement uses the classes only. -/
private abbrev UsesOnlyStmt (p : Program) (t : Target.Stmt) (later : List Name) : Prop := UsesAmong p later t.classUses

/-- A statement behind the guards of classes that are referred to. -/
private theorem usesOnlyStmt_behind {later : List Name} {holders : List String} {t : Target.Stmt}
    (hholders : ∀ holder ∈ holders, ∃ source ∈ later, holder = Naming.staticHolder p source)
    (ht : UsesOnlyStmt p t later) : UsesOnlyStmt p (.seq (.ofList (holders.map .guard)) t) later := by
  refine usesAmong_append.2 ⟨?_, ht⟩
  rw [Target.Stmt.classUses_ofList, usesAmong_flatMap]
  intro t ht
  obtain ⟨holder, hholder, rfl⟩ := List.mem_map.1 ht
  exact List.forall_mem_singleton.2 (.inr (hholders holder hholder))

private theorem refers_guarded (t : Target.Stmt) :
    Refers base (guarded s t) [] fun u later => UsesOnlyStmt s.program t later → UsesOnlyStmt s.program u later :=
  refers_takeGuards.bind_pure fun _ _ hholders ht => usesOnlyStmt_behind hholders ht

private theorem usesOnlyStmt_assignment {later : List Name} {target value : Target.Expr}
    (htarget : UsesOnly p target later) (hvalue : UsesOnly p value later) :
    UsesOnlyStmt p (assignment target value) later := by
  unfold assignment
  split
  · exact usesAmong_nil
  · exact usesAmong_append.2 ⟨htarget, hvalue⟩

private theorem refers_lowerConstruct (id : Nat) (className : Name) (constructor : MethodRef) (args : List Expr) :
    Refers base (lowerConstruct s id className constructor args)
      (Expr.referencesList s.program s.pool args ++ [className]) (UsesOnlyStmt s.program) := by
  unfold lowerConstruct
  refine collects_look (looks_localName id) fun name _ => collects_look (looks_requireClass className) fun _ _ =>
    collects_look (looks_resolveMethod constructor true) fun entry _ => collects_look (looks_checkArity _ _)
    fun _ harity => (refers_lowerExprs args).bind fun ts => ?_
  have hclass : ∀ {later : List Name}, className ∈ later →
      UsesAmong s.program later [.construct (Naming.qualified s.program className)] :=
    fun hmem => usesAmong_single hmem (.inl rfl)
  dsimp only
  split
  · refine (refers_refer className).bind_quiet fun _ => (refers_guarded _).imp fun u later hu hmem hts => hu ?_
    rw [UsesOnlyStmt, Target.Stmt.classUses, classUses_construct,
      passedOn_classUses.read_nativeArgs _ (hts.2.trans harity), ← List.singleton_append]
    exact usesAmong_append.2 ⟨usesAmong_nil, usesAmong_append.2 ⟨hclass hmem, hts.1⟩⟩
  · refine (refers_touch className).bind_quiet fun _ => (refers_guarded _).imp fun u later hu hmem hts => hu ?_
    rw [UsesOnlyStmt, Target.Stmt.classUses, Target.Stmt.classUses, Target.Stmt.classUses, passedOn_classUses.invoke,
      classUses_construct]
    exact usesAmong_append.2 ⟨usesAmong_append.2 ⟨usesAmong_nil, hclass hmem⟩,
      usesAmong_append.2 ⟨usesAmong_nil, hts.1⟩⟩

/-- A lowered statement uses classes that it refers to. -/
private theorem refers_lowerStmt (stmt : Stmt) :
    Refers base (lowerStmt s stmt) (stmt.references s.program s.pool) (UsesOnlyStmt s.program) := by
  -- the guards of a statement are for classes that are referred to by then
  induction stmt with
  | missing id => exact collects_throw _ _ _
  | skip | line _ => exact collects_pure fun _ => usesAmong_nil
  | seq first rest hfirst hrest =>
    rw [lowerStmt]
    exact hfirst.bind fun a => hrest.bind_pure fun b later hb ha => usesAmong_append.2 ⟨ha, hb⟩
  | label id | goto id =>
    rw [lowerStmt]
    exact collects_look (looks_checkJump _ _) fun _ _ => collects_pure fun _ => usesAmong_nil
  | gotoIf condition label =>
    rw [lowerStmt]
    exact collects_look (looks_checkJump _ _) fun _ _ => (refers_lowerExpr condition).bind_quiet fun c =>
      (refers_guarded _).imp fun u later hu hc => hu hc
  | jumpTable subject cases default =>
    rw [lowerStmt]
    exact collects_look (looks_forM fun _ => looks_checkJump _ _) fun _ _ => collects_look (looks_checkJump _ _)
      fun _ _ => (refers_lowerExpr subject).bind_quiet fun x => (refers_guarded _).imp fun u later hu hx => hu hx
  | setLocal id value =>
    rw [lowerStmt]
    exact collects_look (looks_localName id) fun name _ => (refers_lowerExpr value).bind_quiet fun v =>
      (refers_guarded _).imp fun u later hu hv => hu (usesOnlyStmt_assignment usesAmong_nil hv)
  | setField object r value =>
    rw [lowerStmt]
    exact (refers_lowerExpr object).bind fun t => collects_look (looks_resolveField r) fun _ _ =>
      (refers_lowerExpr value).bind_quiet fun v => (refers_guarded _).imp fun u later hu hv ht =>
      hu (usesOnlyStmt_assignment ht hv)
  | setStatic r value =>
    rw [lowerStmt]
    exact (refers_lowerStaticField r).bind fun t => (refers_lowerExpr value).bind_quiet fun v =>
      (refers_guarded _).imp fun u later hu hv ht => hu (usesOnlyStmt_assignment ht hv)
  | setElement array index value =>
    rw [lowerStmt]
    refine collects_look (looks_typeOf array) fun type _ => collects_look (looks_elementType _ _) fun _ _ =>
      (refers_lowerExpr array).bind fun t => (refers_lowerExpr index).bind fun i =>
      (refers_lowerExpr value).bind_quiet fun v => (refers_guarded _).imp fun u later hu hv hi ht => hu ?_
    rw [UsesOnlyStmt, Target.Stmt.classUses, passedOn_classUses.invoke, passedOn_classUses.read_asArray,
      List.flatMap_cons, List.flatMap_singleton]
    exact usesAmong_append.2 ⟨ht, usesAmong_append.2 ⟨hi, hv⟩⟩
  | construct id className constructor args =>
    rw [lowerStmt]
    exact refers_lowerConstruct id className constructor args
  | eval expr | throw expr =>
    rw [lowerStmt]
    exact (refers_lowerExpr expr).bind_quiet fun x => (refers_guarded _).imp fun u later hu hx => hu hx
  | ret value =>
    cases value with
    | none =>
      rw [lowerStmt]
      refine (refers_guarded _).imp fun u later hu => hu ?_
      split <;> exact usesAmong_nil
    | some value =>
      rw [lowerStmt]
      refine (refers_lowerExpr value).bind_quiet fun v => (refers_guarded _).imp fun u later hu hv => hu ?_
      rw [UsesOnlyStmt, Target.Stmt.classUses, Option.toList_some, List.flatMap_singleton]
      exact hv
  | tryCatch body handler hbody hhandler =>
    rw [lowerStmt]
    exact refers_takeGuards.bind fun holders => hbody.bind fun b => hhandler.bind_pure fun h later hh hb hholders =>
      usesOnlyStmt_behind hholders (usesAmong_append.2 ⟨hb, hh⟩)
  | rethrow | exitLoop | nextLoop => exact (refers_guarded _).imp fun u later hu => hu usesAmong_nil
  | «when» condition body hbody | loop condition body hbody | switch condition body hbody =>
    rw [lowerStmt]
    exact (refers_lowerExpr condition).bind fun c => refers_takeGuards.bind fun holders => hbody.bind_pure
      fun b later hb hholders hc => usesOnlyStmt_behind hholders (usesAmong_append.2 ⟨hc, hb⟩)
  | ite condition thenBranch elseBranch hthen helse =>
    rw [lowerStmt]
    exact (refers_lowerExpr condition).bind fun c => refers_takeGuards.bind fun holders => hthen.bind fun a =>
      helse.bind_pure fun b later hb ha hholders hc =>
      usesOnlyStmt_behind hholders (usesAmong_append.2 ⟨hc, usesAmong_append.2 ⟨ha, hb⟩⟩)
  | arm values body hbody =>
    rw [lowerStmt]
    dsimp only
    split
    · rw [fault_bind]
      exact collects_throw _ _ _
    · exact hbody.bind_pure fun b later hb => hb
  | otherwise body hbody =>
    rw [lowerStmt]
    exact hbody.bind_pure fun b later hb => hb

/-! ### Bodies -/

/-- Lowering a body refers to the classes of its statements, or to those up to the place where it fails; a lowered body
uses no other classes. -/
theorem refers_lowerBody (p : Program) (options : GenOptions) (site : BodySite) (body : Body) {unit : UnitState}
    {seen : List Name} (hseen : unit.refs.order = seen.eraseDups) :
    ∃ met, met <+: body.tree.references p site.pool ∧
      (lowerBody p options site body unit).2.refs.order = (seen ++ met).eraseDups ∧
      ∀ result, (lowerBody p options site body unit).1 = .ok result →
        met = body.tree.references p site.pool ∧ UsesAmong p met result.stmts.classUses := by
  have hstart : Held seen (startState site unit) [] := by
    refine ⟨?_, fun _ hname => absurd hname List.not_mem_nil⟩
    rw [List.append_nil]
    exact hseen
  obtain ⟨met, hmet, hheld, hresult⟩ :=
    refers_lowerStmt (s := scopeOf p options site body) body.tree (startState site unit) [] hstart
  refine ⟨met, hmet, hheld.1, fun result hlowered => ?_⟩
  obtain ⟨last, hrun⟩ := runs_of_lowerBody hlowered
  obtain ⟨rfl, huses⟩ := hresult result.stmts (by rw [hrun])
  exact ⟨rfl, (huses _ (List.prefix_refl _)).mono fun name => List.mem_eraseDups.1⟩

end Lowering

end HaxeBackend
