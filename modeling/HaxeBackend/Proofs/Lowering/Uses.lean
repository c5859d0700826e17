import HaxeBackend.Proofs.Hierarchy.Ancestors
import HaxeBackend.Proofs.Lowering.Adapters
import HaxeBackend.Proofs.Target.Uses

/-!
# Classes that lowered bodies use

A lowered body accesses static holders, guards the holders of classes that are generated, makes objects of classes and
of arrays, and wraps functions in the adapters of interfaces that have one (`known_of_lowerBody`).  What is pending
between two statements carries the guards: only classes that are generated are ever touched.
-/

namespace HaxeBackend

/-- The program has the class, and it stands for no existing target type. -/
def Program.Generates (p : Program) (name : Name) : Prop := ∃ c, p.find? name = some c ∧ c.isNative = false

theorem Guards.mem_pending_touch {g : Guards} {name n : Name} :
    n ∈ (g.touch name).pending ↔ n ∈ g.pending ∨ n = name ∧ g.owns name = false := by
  unfold touch
  cases howns : g.owns name with
  | true => simp
  | false =>
    rw [Bool.false_or]
    split
    · rename_i hmem
      rw [List.contains_iff_mem] at hmem
      exact ⟨.inl, fun h => h.elim id fun h => h.1 ▸ hmem⟩
    · rw [List.mem_append, List.mem_singleton, and_iff_left rfl]

namespace Lowering

open Target (ClassUse)

variable {α β : Type} {s : Scope} {p : Program}

/-- How lowered code may use a class. -/
def Known (p : Program) : ClassUse → Prop
  | .access name => name = Target.objectArray ∨ ∃ source, name = Naming.staticHolder p source
  | .guard holder => ∃ source, p.Generates source ∧ holder = Naming.staticHolder p source
  | .construct name => (∃ type, name = Naming.arrayClass type) ∨ ∃ source, name = Naming.qualified p source
  | .adapter name => ∃ c ∈ p.classes, p.dispatch c = .adapter ∧ name = Naming.companion c.name .adapter

/-- All of these are known. -/
private def AllKnown (p : Program) (uses : List ClassUse) : Prop := ∀ use ∈ uses, Known p use

private theorem allKnown_nil : AllKnown p [] := fun _ h => absurd h List.not_mem_nil

private theorem allKnown_append {xs ys : List ClassUse} : AllKnown p (xs ++ ys) ↔ AllKnown p xs ∧ AllKnown p ys :=
  List.forall_mem_append

private theorem allKnown_flatMap {γ : Type} {l : List γ} {f : γ → List ClassUse} :
    AllKnown p (l.flatMap f) ↔ ∀ x ∈ l, AllKnown p (f x) := List.forall_mem_flatMap

/-- The expression uses classes in known ways only. -/
private abbrev Sound (p : Program) (e : Target.Expr) : Prop := AllKnown p e.classUses

private abbrev SoundStmt (p : Program) (t : Target.Stmt) : Prop := AllKnown p t.classUses

private theorem sound_holder (name : Name) : Sound p (.path (Naming.staticHolder p name)) :=
  List.forall_mem_singleton.2 (.inr ⟨name, rfl⟩)

/-! ### Operators -/

theorem passedOn_classUses : PassedOn Target.Expr.classUses where
  int := fun _ => rfl
  num := fun _ => Target.Expr.classUsesList_eq
  natives := fun _ => Target.Expr.classUsesList_eq
  invoke := fun base _ args => congrArg (base.classUses ++ ·) (Target.Expr.classUsesList_eq args)
  binary := fun _ _ _ => rfl
  negate := fun _ => rfl
  not := fun _ => rfl
  complement := fun _ => rfl
  castTo := fun _ _ => rfl
  template := fun _ _ => rfl

theorem classUses_construct (className : String) (args : List Target.Expr) :
    (Target.Expr.construct className args).classUses =
      .construct className :: args.flatMap Target.Expr.classUses :=
  congrArg (List.cons _) (Target.Expr.classUsesList_eq args)

private theorem classUses_list (items : List Target.Expr) :
    (Target.Expr.list items).classUses = items.flatMap Target.Expr.classUses := Target.Expr.classUsesList_eq items

private theorem classUses_member (object : Target.Expr) (name : String) :
    (Target.Expr.member object name).classUses = object.classUses := rfl

private theorem sound_construct {className : String} {args : List Target.Expr}
    (hclass : Known p (.construct className)) (hargs : AllKnown p (args.flatMap Target.Expr.classUses)) :
    Sound p (.construct className args) := by
  rw [Sound, classUses_construct]
  exact List.forall_mem_cons.2 ⟨hclass, hargs⟩

private theorem sound_invoke {base : Target.Expr} {args : List Target.Expr} (hbase : Sound p base)
    (hargs : AllKnown p (args.flatMap Target.Expr.classUses)) (name : String) : Sound p (.invoke base name args) := by
  rw [Sound, passedOn_classUses.invoke]
  exact allKnown_append.2 ⟨hbase, hargs⟩

private theorem sound_callOf {entry : MethodEntry} {base : Target.Expr} {args : List Target.Expr}
    (harity : args.length = entry.method.params.length) (hbase : Sound s.program base)
    (hargs : AllKnown s.program (args.flatMap Target.Expr.classUses)) :
    Sound s.program (callOf s entry base args) := by
  rw [Sound, passedOn_classUses.read_callOf _ harity]
  exact allKnown_append.2 ⟨hbase, hargs⟩

/-! ### Steps -/

/-- Only classes that are generated wait for a guard. -/
private def Pending (p : Program) (st : State) : Prop := ∀ name ∈ st.guards.pending, p.Generates name

/-- The step keeps what is pending in order, and has a result like this. -/
private def Yields (p : Program) (x : LowerM α) (Q : α → Prop) : Prop :=
  ∀ st a st', Pending p st → Runs x st a st' → Pending p st' ∧ Q a

private theorem Yields.holds {x : LowerM α} {Q : α → Prop} {st st' : State} {a : α} (h : Yields p x Q)
    (hst : Pending p st) (hrun : Runs x st a st') : Pending p st' ∧ Q a := h st a st' hst hrun

private theorem Yields.bind {x : LowerM α} {f : α → LowerM β} {Q : α → Prop} {R : β → Prop} (hx : Yields p x Q)
    (hf : ∀ a, Q a → Yields p (f a) R) : Yields p (x >>= f) R := by
  intro st b st' hst h
  obtain ⟨a, mid, hmid, h⟩ := runs_bind.1 h
  obtain ⟨hpending, ha⟩ := hx st a mid hst hmid
  exact hf a ha mid b st' hpending h

private theorem yields_pure {a : α} {Q : α → Prop} (h : Q a) : Yields p (pure a) Q := by
  intro st b st' hst hrun
  obtain ⟨rfl, rfl⟩ := runs_pure.1 hrun
  exact ⟨hst, h⟩

private theorem yields_throw {e : GenError} {Q : α → Prop} : Yields p (throw e) Q :=
  fun _ _ _ _ h => absurd h runs_throw

/-- What is only looked up leaves everything pending. -/
private theorem yields_look {x : LowerM α} {f : α → LowerM β} {Q : α → Prop} {R : β → Prop} (hx : Looks x Q)
    (hf : ∀ a, Q a → Yields p (f a) R) : Yields p (x >>= f) R := by
  intro st b st' hst h
  obtain ⟨a, mid, hmid, h⟩ := runs_bind.1 h
  obtain ⟨ha, rfl⟩ := hx.runs hmid
  exact hf a ha st b st' hst h

private theorem yields_of_look {x : LowerM α} {Q : α → Prop} (h : Looks x Q) : Yields p x Q := by
  intro st a st' hst hrun
  obtain ⟨ha, rfl⟩ := h.runs hrun
  exact ⟨hst, ha⟩

private theorem yields_refer (name : Name) : Yields p (refer name) fun _ => True := by
  intro st a st' hst h
  rw [runs_modify.1 h]
  exact ⟨hst, trivial⟩

private theorem yields_referType (type : Ty) : Yields p (referType type) fun _ => True := by
  intro st a st' hst h
  rw [runs_modify.1 h]
  exact ⟨hst, trivial⟩

/-- The class that declares a method is in the program. -/
private theorem looks_calledOwner (r : MethodRef) :
    Looks (s.resolveMethod r false) fun entry => s.program.find? entry.owner.name = some entry.owner := by
  refine (looks_resolveMethod r false).imp fun entry hresolve => ?_
  obtain ⟨c, hc, hmethod⟩ := List.exists_of_findSome?_eq_some (show Program.getMethod? _ _ _ _ = _ from hresolve)
  obtain ⟨m, -, rfl⟩ := Option.map_eq_some_iff.1 hmethod
  exact Program.find?_name (Program.mem_of_mem_ancestors hc)

private theorem looks_fieldOwner (r : FieldRef) :
    Looks (s.resolveField r) fun entry => s.program.find? entry.owner.name = some entry.owner := by
  refine (looks_resolveField r).imp fun entry hresolve => ?_
  obtain ⟨c, hc, hfield⟩ := List.exists_of_findSome?_eq_some hresolve
  obtain ⟨f, -, rfl⟩ := Option.map_eq_some_iff.1 hfield
  exact Program.find?_name (Program.mem_of_mem_ancestors hc)

/-- A class of the program is touched when it is generated. -/
private theorem yields_touch {name : Name} {c : ClassModel} (hc : s.program.find? name = some c) :
    Yields s.program (s.touch name) fun _ => True := by
  unfold Scope.touch
  dsimp only
  split
  · exact yields_refer name
  · rename_i hnative
    refine Yields.bind (Q := fun _ => True) ?_ fun _ _ => yields_refer name
    intro st a st' hst h
    rw [runs_modify.1 h]
    refine ⟨fun n hn => ?_, trivial⟩
    rcases Guards.mem_pending_touch.1 hn with hn | ⟨rfl, -⟩
    · exact hst n hn
    · exact ⟨c, hc, by simpa [Naming.isNative, hc] using hnative⟩

/-- The guards of a statement are those of generated classes, and nothing stays pending. -/
private theorem yields_takeGuards :
    Yields s.program s.takeGuards fun holders => ∀ holder ∈ holders, Known s.program (.guard holder) := by
  intro st holders st' hst h
  unfold Scope.takeGuards at h
  obtain ⟨before, mid, hget, h⟩ := runs_bind.1 h
  obtain ⟨rfl, rfl⟩ := runs_get.1 hget
  obtain ⟨_, mid, hset, h⟩ := runs_bind.1 h
  obtain rfl := runs_set.1 hset
  obtain ⟨rfl, rfl⟩ := runs_pure.1 h
  refine ⟨fun _ hname => absurd hname List.not_mem_nil, fun holder hholder => ?_⟩
  obtain ⟨name, hname, rfl⟩ := List.mem_map.1 hholder
  exact ⟨name, hst name hname, rfl⟩

/-! ### Expressions -/

/-- Literals that belong to another class belong to one of the program. -/
def PoolIn (p : Program) (pool : PoolAccess) : Prop :=
  ∀ className, pool = .through className → ∃ c, p.find? className = some c

private theorem yields_lowerString (hpool : PoolIn s.program s.pool) (text : Name) :
    Yields s.program (lowerString s text) (Sound s.program) := by
  intro st t st' hst h
  unfold lowerString at h
  obtain ⟨before, mid, hget, h⟩ := runs_bind.1 h
  obtain ⟨rfl, rfl⟩ := runs_get.1 hget
  obtain ⟨_, mid, hset, h⟩ := runs_bind.1 h
  -- a new literal leaves the guards as they are
  have hmid : Pending s.program mid := by
    rw [runs_set.1 hset]
    exact hst
  refine Yields.holds ?_ hmid h
  cases hpool' : s.pool with
  | own => exact yields_pure allKnown_nil
  | through className =>
    obtain ⟨c, hc⟩ := hpool className hpool'
    exact (yields_touch hc).bind fun _ _ => yields_pure (sound_holder className)

private theorem sound_classLiteral (type : Ty) : Sound p (classLiteral type) := by
  rw [Sound, classLiteral, passedOn_classUses.natives]
  exact allKnown_nil

private theorem yields_lowerLiteral (hpool : PoolIn s.program s.pool) (value : Literal) :
    Yields s.program (lowerLiteral s value) (Sound s.program) := by
  cases value with
  | string text => exact yields_lowerString hpool text
  | classRef type => exact (yields_referType type).bind fun _ _ => yields_pure (sound_classLiteral type)
  | long value =>
    refine yields_pure ?_
    rw [Sound, passedOn_classUses.read_long]
    exact allKnown_nil
  | null | bool _ | int _ | float _ | double _ => exact yields_pure allKnown_nil

private theorem yields_lowerStaticField (r : FieldRef) :
    Yields s.program (lowerStaticField s r) (Sound s.program) :=
  yields_look (looks_fieldOwner r) fun _ howner => (yields_touch howner).bind fun _ _ => yields_pure (sound_holder _)

private theorem yields_allocate (className : Name) : Yields s.program (allocate s className) (Sound s.program) := by
  unfold allocate
  refine yields_look (looks_requireClass className) fun _ hclass => (yields_touch hclass).bind fun _ _ => yields_pure ?_
  exact sound_construct (.inr ⟨className, rfl⟩) allKnown_nil

private theorem looks_newArray_sound {type : Ty} {counts : List Target.Expr}
    (h : AllKnown p (counts.flatMap Target.Expr.classUses)) : Looks (newArray type counts) (Sound p) := by
  refine (looks_newArray type counts).imp fun t ht => ?_
  have hclass : Known p (.construct (Naming.arrayClass type)) := .inl ⟨type, rfl⟩
  cases ht with
  | plain => exact sound_construct hclass h
  | described =>
    refine sound_construct hclass ?_
    rw [List.flatMap_append]
    exact allKnown_append.2 ⟨h, allKnown_nil⟩
  | nested =>
    have hobject : Sound p (.path Target.objectArray) := List.forall_mem_singleton.2 (.inl rfl)
    refine sound_invoke hobject ?_ _
    rw [List.flatMap_cons, classUses_list]
    exact allKnown_append.2 ⟨h, allKnown_nil⟩

private theorem sound_adapterOf {interface : ClassModel} {interfaceMethod : MethodRef} {entry : MethodEntry}
    (hinterface : interface ∈ s.program.classes) (hdispatch : s.program.dispatch interface = .adapter)
    (howner : s.program.find? entry.owner.name = some entry.owner) {call : Target.Expr}
    (hcall : IsForward s interfaceMethod entry call) (owned : Bool) :
    Sound s.program (adapterOf s interface interfaceMethod entry owned call) := by
  obtain ⟨value, result, heq, hvalue, -⟩ := adapterOf_eq s interface interfaceMethod entry owned call
  have hread : Sound s.program call := by
    rw [Sound]
    rcases passedOn_classUses.read_isForward hcall fun _ _ => rfl with hnone | hholder
    · rw [hnone]
      exact allKnown_nil
    · rw [hholder]
      exact sound_holder _
  rw [heq]
  refine List.forall_mem_cons.2 ⟨⟨interface, hinterface, hdispatch, rfl⟩, allKnown_append.2 ⟨fun use huse => ?_, ?_⟩⟩
  · obtain ⟨holder, hholder, rfl⟩ := List.mem_map.1 huse
    obtain ⟨rfl, hnative⟩ := mem_adapterGuard (Option.mem_toList.1 hholder)
    refine ⟨entry.owner.name, ⟨entry.owner, howner, ?_⟩, rfl⟩
    simpa [Naming.isNative, howner] using hnative
  · rcases hvalue with rfl | rfl
    · exact hread
    · rw [passedOn_classUses.read_convert]
      exact hread

private theorem yields_capture (interfaceMethod target : MethodRef) :
    Yields s.program (capture s interfaceMethod target) (Sound s.program) := by
  rw [capture_eq]
  refine yields_look (looks_requireClass _) fun interface hinterface => ?_
  split
  · rename_i hdispatch
    exact yields_look (looks_calledOwner _) fun entry howner => (yields_refer _).bind fun _ _ =>
      (yields_refer _).bind fun _ _ => yields_look looks_get fun st _ =>
      yields_look (looks_forwarded _ _ entry) fun call hcall =>
      yields_pure (sound_adapterOf (Program.mem_of_find? hinterface).1 hdispatch howner hcall _)
  · exact yields_throw

mutual

/-- A lowered expression uses classes in known ways. -/
private theorem yields_lowerExpr (hpool : PoolIn s.program s.pool) :
    (e : Expr) → Yields s.program (lowerExpr s e) (Sound s.program)
  | .missing id => by
    rw [lowerExpr]
    exact yields_throw
  | .literal value _ => by
    rw [lowerExpr]
    exact yields_lowerLiteral hpool value
  | .readLocal id _ => by
    rw [lowerExpr]
    exact yields_look (looks_localName id) fun _ _ => yields_pure allKnown_nil
  | .this _ | .caught _ => by
    rw [lowerExpr]
    exact yields_pure allKnown_nil
  | .binary _ left right _ => by
    rw [lowerExpr]
    refine (yields_lowerExpr hpool left).bind fun _ hleft => (yields_lowerExpr hpool right).bind fun _ hright =>
      yields_pure ?_
    rw [Sound, passedOn_classUses.read_binary]
    exact allKnown_append.2 ⟨hleft, hright⟩
  | .unary _ operand _ => by
    rw [lowerExpr]
    refine (yields_lowerExpr hpool operand).bind fun _ hoperand => yields_pure ?_
    rw [Sound, passedOn_classUses.read_unary]
    exact hoperand
  | .staticCall method args _ => by
    rw [lowerExpr]
    exact yields_look (looks_calledOwner method) fun _ howner => (yields_touch howner).bind fun _ _ =>
      yields_look (looks_checkArity _ _) fun _ harity => (yields_lowerExprs hpool args).bind fun _ hargs =>
      yields_pure (sound_callOf (hargs.2.trans harity) (sound_holder _) hargs.1)
  | .call receiver method args special _ => by
    rw [lowerExpr]
    exact yields_look (looks_resolveMethod method special) fun _ _ =>
      (yields_lowerExpr hpool receiver).bind fun _ hbase => yields_look (looks_checkArity _ _) fun _ harity =>
      (yields_lowerExprs hpool args).bind fun _ hargs =>
      yields_pure (sound_callOf (hargs.2.trans harity) hbase hargs.1)
  | .superCall _ method args _ => by
    rw [lowerExpr]
    exact yields_look (looks_resolveMethod method false) fun _ _ => yields_look (looks_checkArity _ _) fun _ harity =>
      (yields_lowerExprs hpool args).bind fun _ hargs =>
      yields_pure (sound_callOf (hargs.2.trans harity) allKnown_nil hargs.1)
  | .field object r _ => by
    rw [lowerExpr]
    exact (yields_lowerExpr hpool object).bind fun _ hbase => yields_look (looks_resolveField r) fun _ _ =>
      yields_pure hbase
  | .staticField r _ => by
    rw [lowerExpr]
    exact yields_lowerStaticField r
  | .element array index _ => by
    rw [lowerExpr]
    refine yields_look (looks_typeOf array) fun _ _ => (yields_lowerExpr hpool array).bind fun _ hbase =>
      (yields_lowerExpr hpool index).bind fun _ hindex => yields_pure ?_
    rw [Sound, passedOn_classUses.invoke, passedOn_classUses.read_asArray, List.flatMap_singleton]
    exact allKnown_append.2 ⟨hbase, hindex⟩
  | .arrayLength array _ => by
    rw [lowerExpr]
    refine yields_look (looks_typeOf array) fun _ _ => (yields_lowerExpr hpool array).bind fun _ hbase =>
      yields_pure ?_
    rw [Sound, classUses_member, passedOn_classUses.read_asArray]
    exact hbase
  | .allocate className _ => by
    rw [lowerExpr]
    exact yields_allocate className
  | .newArray counts _ => by
    rw [lowerExpr]
    refine (yields_lowerExprs hpool counts).bind fun _ hcounts => (yields_referType _).bind fun _ _ => ?_
    exact yields_of_look (looks_newArray_sound hcounts.1)
  | .instanceOf operand check _ => by
    rw [lowerExpr]
    exact (yields_lowerExpr hpool operand).bind fun _ hvalue => (yields_referType check).bind fun _ _ =>
      yields_pure hvalue
  | .cast operand type => by
    rw [lowerExpr]
    refine yields_look (looks_typeOf operand) fun _ _ => (yields_lowerExpr hpool operand).bind fun _ hvalue =>
      (yields_referType type).bind fun _ _ => yields_pure ?_
    rw [Sound, passedOn_classUses.read_convert]
    exact hvalue
  | .capture interfaceMethod target _ => by
    rw [lowerExpr]
    exact yields_capture interfaceMethod target

private theorem yields_lowerExprs (hpool : PoolIn s.program s.pool) : (es : List Expr) →
    Yields s.program (lowerExprs s es) fun values =>
      AllKnown s.program (values.flatMap Target.Expr.classUses) ∧ values.length = es.length
  | [] => by
    rw [lowerExprs]
    exact yields_pure ⟨allKnown_nil, rfl⟩
  | e :: es => by
    rw [lowerExprs]
    refine (yields_lowerExpr hpool e).bind fun _ hvalue => (yields_lowerExprs hpool es).bind fun _ hvalues =>
      yields_pure ⟨?_, congrArg Nat.succ hvalues.2⟩
    rw [List.flatMap_cons]
    exact allKnown_append.2 ⟨hvalue, hvalues.1⟩

end

/-! ### Statements -/

/-- A statement behind known guards. -/
private theorem soundStmt_behind {holders : List String} {t : Target.Stmt}
    (hholders : ∀ holder ∈ holders, Known p (.guard holder)) (ht : SoundStmt p t) :
    SoundStmt p (.seq (.ofList (holders.map .guard)) t) := by
  refine allKnown_append.2 ⟨?_, ht⟩
  rw [Target.Stmt.classUses_ofList, allKnown_flatMap]
  intro t ht
  obtain ⟨holder, hholder, rfl⟩ := List.mem_map.1 ht
  exact List.forall_mem_singleton.2 (hholders holder hholder)

private theorem yields_guarded {t : Target.Stmt} (ht : SoundStmt s.program t) :
    Yields s.program (guarded s t) (SoundStmt s.program) :=
  yields_takeGuards.bind fun _ hholders => yields_pure (soundStmt_behind hholders ht)

private theorem soundStmt_assignment {target value : Target.Expr} (htarget : Sound p target) (hvalue : Sound p value) :
    SoundStmt p (assignment target value) := by
  unfold assignment
  split
  · exact allKnown_nil
  · exact allKnown_append.2 ⟨htarget, hvalue⟩

private theorem yields_lowerConstruct (hpool : PoolIn s.program s.pool) (id : Nat) (className : Name)
    (constructor : MethodRef) (args : List Expr) :
    Yields s.program (lowerConstruct s id className constructor args) (SoundStmt s.program) := by
  have hclass : Known s.program (.construct (Naming.qualified s.program className)) := .inr ⟨className, rfl⟩
  unfold lowerConstruct
  refine yields_look (looks_localName id) fun _ _ => yields_look (looks_requireClass className) fun _ hfind =>
    yields_look (looks_resolveMethod constructor true) fun _ _ => yields_look (looks_checkArity _ _) fun _ harity =>
    (yields_lowerExprs hpool args).bind fun _ hargs => ?_
  dsimp only
  split
  · refine (yields_refer className).bind fun _ _ => yields_guarded (allKnown_append.2 ⟨allKnown_nil, ?_⟩)
    refine sound_construct hclass ?_
    rw [passedOn_classUses.read_nativeArgs _ (hargs.2.trans harity)]
    exact hargs.1
  · refine (yields_touch hfind).bind fun _ _ => yields_guarded (allKnown_append.2 ⟨?_, ?_⟩)
    · exact allKnown_append.2 ⟨allKnown_nil, sound_construct hclass allKnown_nil⟩
    · exact sound_invoke allKnown_nil hargs.1 _

private theorem yields_lowerStmt (hpool : PoolIn s.program s.pool) (stmt : Stmt) :
    Yields s.program (lowerStmt s stmt) (SoundStmt s.program) := by
  -- guards are taken behind the operands, when all that these touch is pending
  induction stmt with
  | missing id => exact yields_throw
  | skip | line _ => exact yields_pure allKnown_nil
  | seq first rest hfirst hrest =>
    rw [lowerStmt]
    exact hfirst.bind fun _ ha => hrest.bind fun _ hb => yields_pure (allKnown_append.2 ⟨ha, hb⟩)
  | label id | goto id =>
    rw [lowerStmt]
    exact yields_look (looks_checkJump _ _) fun _ _ => yields_pure allKnown_nil
  | gotoIf condition label =>
    rw [lowerStmt]
    exact yields_look (looks_checkJump _ _) fun _ _ => (yields_lowerExpr hpool condition).bind fun _ hc =>
      yields_guarded hc
  | jumpTable subject cases default =>
    rw [lowerStmt]
    exact yields_look (looks_forM fun _ => looks_checkJump _ _) fun _ _ => yields_look (looks_checkJump _ _) fun _ _ =>
      (yields_lowerExpr hpool subject).bind fun _ hx => yields_guarded hx
  | setLocal id value =>
    rw [lowerStmt]
    exact yields_look (looks_localName id) fun _ _ => (yields_lowerExpr hpool value).bind fun _ hv =>
      yields_guarded (soundStmt_assignment allKnown_nil hv)
  | setField object r value =>
    rw [lowerStmt]
    exact (yields_lowerExpr hpool object).bind fun _ hbase => yields_look (looks_resolveField r) fun _ _ =>
      (yields_lowerExpr hpool value).bind fun _ hv => yields_guarded (soundStmt_assignment hbase hv)
  | setStatic r value =>
    rw [lowerStmt]
    exact (yields_lowerStaticField r).bind fun _ htarget => (yields_lowerExpr hpool value).bind fun _ hv =>
      yields_guarded (soundStmt_assignment htarget hv)
  | setElement array index value =>
    rw [lowerStmt]
    refine yields_look (looks_typeOf array) fun _ _ => yields_look (looks_elementType _ _) fun _ _ =>
      (yields_lowerExpr hpool array).bind fun _ hbase => (yields_lowerExpr hpool index).bind fun _ hi =>
      (yields_lowerExpr hpool value).bind fun _ hv => yields_guarded (sound_invoke ?_ ?_ _)
    · rw [Sound, passedOn_classUses.read_asArray]
      exact hbase
    · rw [List.flatMap_cons, List.flatMap_singleton]
      exact allKnown_append.2 ⟨hi, hv⟩
  | construct id className constructor args =>
    rw [lowerStmt]
    exact yields_lowerConstruct hpool id className constructor args
  | eval expr | throw expr =>
    rw [lowerStmt]
    exact (yields_lowerExpr hpool expr).bind fun _ hx => yields_guarded hx
  | ret value =>
    cases value with
    | none =>
      rw [lowerStmt]
      refine yields_guarded ?_
      split
      · exact allKnown_nil
      · exact allKnown_nil
    | some value =>
      rw [lowerStmt]
      exact (yields_lowerExpr hpool value).bind fun _ hv =>
        yields_guarded (allKnown_flatMap.2 (List.forall_mem_singleton.2 hv))
  | tryCatch body handler hbody hhandler =>
    rw [lowerStmt]
    exact yields_takeGuards.bind fun _ hholders => hbody.bind fun _ hb => hhandler.bind fun _ hh =>
      yields_pure (soundStmt_behind hholders (allKnown_append.2 ⟨hb, hh⟩))
  | rethrow | exitLoop | nextLoop => exact yields_guarded allKnown_nil
  | «when» condition body hbody | loop condition body hbody | switch condition body hbody =>
    rw [lowerStmt]
    exact (yields_lowerExpr hpool condition).bind fun _ hc => yields_takeGuards.bind fun _ hholders =>
      hbody.bind fun _ hb => yields_pure (soundStmt_behind hholders (allKnown_append.2 ⟨hc, hb⟩))
  | ite condition thenBranch elseBranch hthen helse =>
    rw [lowerStmt]
    exact (yields_lowerExpr hpool condition).bind fun _ hc => yields_takeGuards.bind fun _ hholders =>
      hthen.bind fun _ ha => helse.bind fun _ hb =>
      yields_pure (soundStmt_behind hholders (allKnown_append.2 ⟨hc, allKnown_append.2 ⟨ha, hb⟩⟩))
  | arm values body hbody =>
    rw [lowerStmt]
    dsimp only
    split
    · rw [fault_bind]
      exact yields_throw
    · exact hbody.bind fun _ hb => yields_pure hb
  | otherwise body hbody =>
    rw [lowerStmt]
    exact hbody.bind fun _ hb => yields_pure hb

/-- A lowered body uses classes in known ways. -/
theorem known_of_lowerBody {options : GenOptions} {site : BodySite} {body : Body} {unit : UnitState}
    {result : Target.Body} (hpool : PoolIn p site.pool) (h : (lowerBody p options site body unit).1 = .ok result) :
    ∀ use ∈ result.stmts.classUses, Known p use := by
  obtain ⟨last, hrun⟩ := runs_of_lowerBody h
  have hstart : Pending p (startState site unit) := fun _ hname => absurd hname List.not_mem_nil
  exact ((yields_lowerStmt (s := scopeOf p options site body) hpool body.tree).holds hstart hrun).2

end Lowering

end HaxeBackend
