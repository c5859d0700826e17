import HaxeBackend.Proofs.Lowering.Adapters

/-!
# Failure of lowering

Lowering numbers literals and remembers the classes it met, but neither decides whether it fails: from any two states
a body is lowered twice, or it fails twice with the same error (`lowerBody_fails_always`).  A fatal error is always a
reference that leads nowhere (`isUnresolved_of_lowerBody`).  Every label and jump is checked on the way: those of a
lowered statement can be written (`admits_of_runs`), and a body fails for an unsupported one only when it has it
(`blames_of_lowerBody`).
-/

namespace HaxeBackend

/-- The error is about a class, a method or a field that is not there. -/
def GenError.IsUnresolved (e : GenError) : Prop := e.code = .e1001 ∨ e.code = .e1002 ∨ e.code = .e1003

/-- A label or a jump, and the label that it needs. -/
structure LabelUse where
  form : JumpForm
  label : Nat
  deriving DecidableEq, Repr

/-- The labels that a statement needs, at any depth. -/
def Stmt.labelUses : Stmt → List LabelUse
  | .label id => [⟨.label, id⟩]
  | .goto target => [⟨.goto, target⟩]
  | .gotoIf _ target => [⟨.conditionalGoto, target⟩]
  | .jumpTable _ cases default => cases.map (fun arm => ⟨.switchGoto, arm.2⟩) ++ [⟨.switchGoto, default⟩]
  | .seq first rest => first.labelUses ++ rest.labelUses
  | .tryCatch body handler => body.labelUses ++ handler.labelUses
  | .ite _ thenBranch elseBranch => thenBranch.labelUses ++ elseBranch.labelUses
  | .when _ body | .loop _ body | .switch _ body | .arm _ body | .otherwise body => body.labelUses
  | _ => []

namespace Lowering

variable {α β : Type} {R : α → α → Prop} {S : β → β → Prop} {x y : LowerM α} {s : Scope} {js js' : List LabelUse}

/-! ### Outcomes -/

/-- Jumps can be written here and the label is one of the body. -/
def Scope.Admits (s : Scope) (j : LabelUse) : Prop := s.options.supportsGoto = true ∧ j.label < s.labelCount

/-- The error is not about a jump, or it is about one of these where the target has none. -/
def Scope.Blames (s : Scope) (js : List LabelUse) (e : GenError) : Prop :=
  ∀ form subtarget, e = .unsupportedJump form subtarget →
    s.options.supportsGoto = false ∧ subtarget = s.options.subtarget ∧ ∃ j ∈ js, j.form = form

private theorem Scope.Blames.mono {e : GenError} (h : s.Blames js e) (hjs : ∀ j ∈ js, j ∈ js') : s.Blames js' e := by
  intro form subtarget he
  obtain ⟨hgoto, hsubtarget, j, hj, hform⟩ := h form subtarget he
  exact ⟨hgoto, hsubtarget, j, hjs j hj, hform⟩

/-- Both succeed with related results, and these jumps are admitted, or both fail with the same error.  A fatal error is
about a reference, and one about a jump blames one of these. -/
private inductive SameOutcome (s : Scope) (js : List LabelUse) (R : α → α → Prop) :
    Except GenError α → Except GenError α → Prop where
  | ok {a b : α} (h : R a b) (hjs : ∀ j ∈ js, s.Admits j) : SameOutcome s js R (.ok a) (.ok b)
  | error {e : GenError} (h : e.isFatal = true → e.IsUnresolved) (hjs : s.Blames js e) :
    SameOutcome s js R (.error e) (.error e)

private theorem SameOutcome.map {r r' : Except GenError α} (h : SameOutcome s js R r r') (f g : α → β) :
    SameOutcome s js (fun _ _ => True) (r.map f) (r'.map g) := by
  cases h with
  | ok _ hjs => exact .ok trivial hjs
  | error h hjs => exact .error h hjs

/-- The steps check these jumps and have the same outcome, whatever states they start in. -/
private def Alike (s : Scope) (js : List LabelUse) (R : α → α → Prop) (x y : LowerM α) : Prop :=
  ∀ st st', SameOutcome s js R (x.run.run st).1 (y.run.run st').1

/-- The same outcome with any results. -/
private abbrev Steady (s : Scope) (js : List LabelUse) (x y : LowerM α) : Prop := Alike s js (fun _ _ => True) x y

private theorem Alike.bind {f g : α → LowerM β} (hx : Alike s js R x y)
    (hf : ∀ a b, R a b → Alike s js' S (f a) (g b)) : Alike s (js ++ js') S (x >>= f) (y >>= g) := by
  intro st st'
  have hsame := hx st st'
  rw [run_bind, run_bind]
  generalize x.run.run st = r at hsame ⊢
  generalize y.run.run st' = r' at hsame ⊢
  obtain ⟨r, mid⟩ := r
  obtain ⟨r', mid'⟩ := r'
  -- an error in front hides whatever the rest would have checked
  cases hsame with
  | error h hjs => exact .error h (hjs.mono fun j hj => List.mem_append_left _ hj)
  | @ok a b h hjs =>
    have hrest := hf a b h mid mid'
    dsimp only
    generalize ((f a).run.run mid).1 = r at hrest ⊢
    generalize ((g b).run.run mid').1 = r' at hrest ⊢
    cases hrest with
    | ok h hjs' => exact .ok h (List.forall_mem_append.2 ⟨hjs, hjs'⟩)
    | error h hjs' => exact .error h (hjs'.mono fun j hj => List.mem_append_right _ hj)

private theorem Alike.steady (h : Alike s js R x y) : Steady s js x y := by
  intro st st'
  have hsame := (h st st').map id id
  rwa [Except.map_id] at hsame

/-- Behind a step without jumps that tells nothing new. -/
private theorem Alike.andThen {f g : α → LowerM β} (hx : Alike s [] R x y) (hf : ∀ a b, Alike s js S (f a) (g b)) :
    Alike s js S (x >>= f) (y >>= g) := hx.bind fun a b _ => hf a b

/-- Behind a step with one possible result. -/
private theorem Alike.bind_eq {f g : α → LowerM β} (hx : Alike s [] Eq x y) (hf : ∀ a, Alike s js S (f a) (g a)) :
    Alike s js S (x >>= f) (y >>= g) := hx.bind fun a _ h => h ▸ hf a

/-- In front of a step without jumps. -/
private theorem Alike.before {f g : α → LowerM β} (hx : Alike s js R x y) (hf : ∀ a b, Alike s [] S (f a) (g b)) :
    Alike s js S (x >>= f) (y >>= g) := by
  have hbind := hx.bind fun a b _ => hf a b
  rwa [List.append_nil] at hbind

private theorem alike_pure {a b : α} (h : R a b) : Alike s [] R (pure a) (pure b) :=
  fun _ _ => .ok h fun _ hj => absurd hj List.not_mem_nil

private theorem steady_pure {a b : α} : Steady s [] (pure a) (pure b) := alike_pure trivial

private theorem alike_throw {e : GenError} (h : e.isFatal = true → e.IsUnresolved)
    (hjump : ∀ form subtarget, e ≠ .unsupportedJump form subtarget) : Alike s js R (throw e : LowerM α) (throw e) :=
  fun _ _ => .error h fun form subtarget he => absurd he (hjump form subtarget)

private theorem alike_fault {f : BodyFault} : Alike s js R (fault f : LowerM α) (fault f) :=
  alike_throw (fun h => absurd h Bool.false_ne_true) nofun

private theorem steady_get : Steady s [] (get : LowerM State) get :=
  fun _ _ => .ok trivial fun _ hj => absurd hj List.not_mem_nil

private theorem steady_set (st st' : State) : Steady s [] (set st : LowerM PUnit) (set st') :=
  fun _ _ => .ok trivial fun _ hj => absurd hj List.not_mem_nil

private theorem steady_modify (f g : State → State) : Steady s [] (modify f : LowerM PUnit) (modify g) :=
  fun _ _ => .ok trivial fun _ hj => absurd hj List.not_mem_nil

/-! ### Look-ups -/

private theorem alike_resolveMethod (r : MethodRef) (special : Bool) :
    Alike s [] Eq (s.resolveMethod r special) (s.resolveMethod r special) := by
  unfold Scope.resolveMethod
  split
  · exact alike_pure rfl
  · exact alike_throw (fun _ => .inr (.inl rfl)) nofun

private theorem alike_resolveField (r : FieldRef) : Alike s [] Eq (s.resolveField r) (s.resolveField r) := by
  unfold Scope.resolveField
  split
  · exact alike_pure rfl
  · exact alike_throw (fun _ => .inr (.inr rfl)) nofun

private theorem alike_requireClass (name : Name) : Alike s [] Eq (s.requireClass name) (s.requireClass name) := by
  unfold Scope.requireClass
  split
  · exact alike_pure rfl
  · exact alike_throw (fun _ => .inl rfl) nofun

private theorem alike_localName (id : Nat) : Alike s [] Eq (s.localName id) (s.localName id) := by
  unfold Scope.localName
  split
  · exact alike_pure rfl
  · exact alike_fault

private theorem alike_typeOf (e : Expr) : Alike s [] Eq (typeOf e) (typeOf e) := by
  unfold typeOf
  split
  · exact alike_pure rfl
  · exact alike_fault

private theorem steady_elementType (type : Ty) (value : Expr) :
    Steady s [] (elementType type value) (elementType type value) := by
  unfold elementType
  split
  · exact steady_pure
  · exact (alike_typeOf value).steady

private theorem steady_checkArity (m : Method) (given : Nat) :
    Steady s [] (Scope.checkArity m given) (Scope.checkArity m given) := by
  unfold Scope.checkArity
  split
  · exact steady_pure
  · exact alike_fault

/-- The only step that fails for want of jumps. -/
private theorem steady_checkJump (form : JumpForm) (label : Nat) :
    Steady s [⟨form, label⟩] (s.checkJump form label) (s.checkJump form label) := by
  unfold Scope.checkJump
  split
  · rename_i hgoto
    refine fun _ _ => .error (fun h => absurd h Bool.false_ne_true) ?_
    rintro form' subtarget ⟨⟩
    exact ⟨by simpa using hgoto, rfl, _, List.mem_singleton_self _, rfl⟩
  · rename_i hgoto
    split
    · exact alike_fault
    · rename_i hlabel
      exact fun _ _ => .ok trivial (List.forall_mem_singleton.2 ⟨by simpa using hgoto, Nat.lt_of_not_le hlabel⟩)

private theorem steady_forM {γ : Type} {l : List γ} {f : γ → LowerM PUnit} {jump : γ → LabelUse}
    (h : ∀ c, Steady s [jump c] (f c) (f c)) : Steady s (l.map jump) (l.forM f) (l.forM f) := by
  induction l with
  | nil => exact steady_pure
  | cons c l ih => exact (h c).bind fun _ _ _ => ih

private theorem steady_touch (name : Name) : Steady s [] (s.touch name) (s.touch name) := by
  unfold Scope.touch
  dsimp only
  split
  · exact steady_modify _ _
  · exact (steady_modify _ _).andThen fun _ _ => steady_modify _ _

private theorem steady_takeGuards : Steady s [] s.takeGuards s.takeGuards :=
  steady_get.andThen fun _ _ => (steady_set _ _).andThen fun _ _ => steady_pure

/-! ### Expressions -/

private theorem steady_lowerString (text : Name) : Steady s [] (lowerString s text) (lowerString s text) := by
  unfold lowerString
  refine steady_get.andThen fun _ _ => (steady_set _ _).andThen fun _ _ => ?_
  split
  · exact steady_pure
  · exact (steady_touch _).andThen fun _ _ => steady_pure

private theorem steady_lowerLiteral (value : Literal) : Steady s [] (lowerLiteral s value) (lowerLiteral s value) := by
  cases value with
  | string text => exact steady_lowerString text
  | classRef type => exact (steady_modify _ _).andThen fun _ _ => steady_pure
  | null | bool _ | int _ | long _ | float _ | double _ => exact steady_pure

private theorem steady_lowerStaticField (r : FieldRef) : Steady s [] (lowerStaticField s r) (lowerStaticField s r) :=
  (alike_resolveField r).bind_eq fun _ => (steady_touch _).andThen fun _ _ => steady_pure

private theorem steady_allocate (className : Name) : Steady s [] (allocate s className) (allocate s className) :=
  (alike_requireClass className).andThen fun _ _ => (steady_touch _).andThen fun _ _ => steady_pure

/-- Only the number of the counts decides whether an array can be made. -/
private theorem steady_newArray {type : Ty} {counts counts' : List Target.Expr} (h : counts.length = counts'.length) :
    Steady s [] (newArray type counts) (newArray type counts') := by
  match counts, counts', h with
  | [], [], _ => exact alike_fault
  | [_], [_], _ =>
    unfold newArray
    dsimp only
    split
    · exact steady_pure
    · exact steady_pure
  | _ :: _ :: _, _ :: _ :: _, _ => exact steady_pure

private theorem steady_capture (interfaceMethod target : MethodRef) :
    Steady s [] (capture s interfaceMethod target) (capture s interfaceMethod target) := by
  rw [capture_eq]
  refine (alike_requireClass _).bind_eq fun interface => ?_
  split
  · refine (alike_resolveMethod _ _).bind_eq fun entry => (steady_modify _ _).andThen fun _ _ =>
      (steady_modify _ _).andThen fun _ _ => steady_get.andThen fun _ _ => ?_
    rcases forwarded_cases s interfaceMethod target entry with ⟨t, heq, -⟩ | ⟨f, heq⟩
    · rw [heq]
      exact steady_pure
    · rw [heq]
      exact alike_fault
  · exact alike_throw (fun h => absurd h Bool.false_ne_true) nofun

mutual

/-- The lowering of an expression fails in no state or in all. -/
private theorem steady_lowerExpr : (e : Expr) → Steady s [] (lowerExpr s e) (lowerExpr s e)
  | .missing id => by
    rw [lowerExpr]
    exact alike_fault
  | .literal value _ => by
    rw [lowerExpr]
    exact steady_lowerLiteral value
  | .readLocal id _ => by
    rw [lowerExpr]
    exact (alike_localName id).andThen fun _ _ => steady_pure
  | .this _ | .caught _ => by
    rw [lowerExpr]
    exact steady_pure
  | .binary _ left right _ => by
    rw [lowerExpr]
    exact (steady_lowerExpr left).andThen fun _ _ => (steady_lowerExpr right).andThen fun _ _ => steady_pure
  | .unary _ operand _ => by
    rw [lowerExpr]
    exact (steady_lowerExpr operand).andThen fun _ _ => steady_pure
  | .staticCall method args _ => by
    rw [lowerExpr]
    exact (alike_resolveMethod _ _).bind_eq fun _ => (steady_touch _).andThen fun _ _ =>
      (steady_checkArity _ _).andThen fun _ _ => (alike_lowerExprs args).andThen fun _ _ => steady_pure
  | .call receiver method args special _ => by
    rw [lowerExpr]
    exact (alike_resolveMethod _ _).bind_eq fun _ => (steady_lowerExpr receiver).andThen fun _ _ =>
      (steady_checkArity _ _).andThen fun _ _ => (alike_lowerExprs args).andThen fun _ _ => steady_pure
  | .superCall _ method args _ => by
    rw [lowerExpr]
    exact (alike_resolveMethod _ _).bind_eq fun _ => (steady_checkArity _ _).andThen fun _ _ =>
      (alike_lowerExprs args).andThen fun _ _ => steady_pure
  | .field object r _ => by
    rw [lowerExpr]
    exact (steady_lowerExpr object).andThen fun _ _ => (alike_resolveField r).andThen fun _ _ => steady_pure
  | .staticField r _ => by
    rw [lowerExpr]
    exact steady_lowerStaticField r
  | .element array index _ => by
    rw [lowerExpr]
    exact (alike_typeOf array).andThen fun _ _ => (steady_lowerExpr array).andThen fun _ _ =>
      (steady_lowerExpr index).andThen fun _ _ => steady_pure
  | .arrayLength array _ => by
    rw [lowerExpr]
    exact (alike_typeOf array).andThen fun _ _ => (steady_lowerExpr array).andThen fun _ _ => steady_pure
  | .allocate className _ => by
    rw [lowerExpr]
    exact steady_allocate className
  | .newArray counts _ => by
    rw [lowerExpr]
    exact (alike_lowerExprs counts).bind fun _ _ hlength =>
      (steady_modify _ _).andThen fun _ _ => steady_newArray hlength
  | .instanceOf operand _ _ => by
    rw [lowerExpr]
    exact (steady_lowerExpr operand).andThen fun _ _ => (steady_modify _ _).andThen fun _ _ => steady_pure
  | .cast operand _ => by
    rw [lowerExpr]
    exact (alike_typeOf operand).andThen fun _ _ => (steady_lowerExpr operand).andThen fun _ _ =>
      (steady_modify _ _).andThen fun _ _ => steady_pure
  | .capture interfaceMethod target _ => by
    rw [lowerExpr]
    exact steady_capture interfaceMethod target

private theorem alike_lowerExprs : (es : List Expr) →
    Alike s [] (fun l l' => l.length = l'.length) (lowerExprs s es) (lowerExprs s es)
  | [] => by
    rw [lowerExprs]
    exact alike_pure rfl
  | e :: es => by
    rw [lowerExprs]
    exact (steady_lowerExpr e).andThen fun _ _ => (alike_lowerExprs es).bind fun _ _ hlength =>
      alike_pure (congrArg Nat.succ hlength)

end

/-! ### Statements -/

private theorem steady_guarded (t t' : Target.Stmt) : Steady s [] (guarded s t) (guarded s t') :=
  steady_takeGuards.andThen fun _ _ => steady_pure

private theorem steady_lowerConstruct (id : Nat) (className : Name) (constructor : MethodRef) (args : List Expr) :
    Steady s [] (lowerConstruct s id className constructor args) (lowerConstruct s id className constructor args) := by
  unfold lowerConstruct
  refine (alike_localName id).andThen fun _ _ => (alike_requireClass className).andThen fun _ _ =>
    (alike_resolveMethod constructor true).bind_eq fun _ => (steady_checkArity _ _).andThen fun _ _ =>
    (alike_lowerExprs args).andThen fun _ _ => ?_
  dsimp only
  split
  · exact (steady_modify _ _).andThen fun _ _ => steady_guarded _ _
  · exact (steady_touch _).andThen fun _ _ => steady_guarded _ _

/-- The lowering of a statement checks the jumps of the statement, and fails in no state or in all. -/
private theorem steady_lowerStmt (stmt : Stmt) : Steady s stmt.labelUses (lowerStmt s stmt) (lowerStmt s stmt) := by
  -- jumps are checked in front of the operands, and those inside a statement behind its condition
  induction stmt with
  | missing id => exact alike_fault
  | skip | line _ => exact steady_pure
  | seq first rest hfirst hrest =>
    rw [lowerStmt]
    exact hfirst.bind fun _ _ _ => hrest.before fun _ _ => steady_pure
  | label id | goto id =>
    rw [lowerStmt]
    exact (steady_checkJump _ _).before fun _ _ => steady_pure
  | gotoIf condition label =>
    rw [lowerStmt]
    exact (steady_checkJump _ _).before fun _ _ => (steady_lowerExpr condition).andThen fun _ _ => steady_guarded _ _
  | jumpTable subject cases default =>
    rw [lowerStmt]
    exact (steady_forM fun _ => steady_checkJump _ _).bind fun _ _ _ => (steady_checkJump _ _).before fun _ _ =>
      (steady_lowerExpr subject).andThen fun _ _ => steady_guarded _ _
  | setLocal id value =>
    rw [lowerStmt]
    exact (alike_localName id).andThen fun _ _ => (steady_lowerExpr value).andThen fun _ _ => steady_guarded _ _
  | setField object r value =>
    rw [lowerStmt]
    exact (steady_lowerExpr object).andThen fun _ _ => (alike_resolveField r).andThen fun _ _ =>
      (steady_lowerExpr value).andThen fun _ _ => steady_guarded _ _
  | setStatic r value =>
    rw [lowerStmt]
    exact (steady_lowerStaticField r).andThen fun _ _ => (steady_lowerExpr value).andThen fun _ _ => steady_guarded _ _
  | setElement array index value =>
    rw [lowerStmt]
    exact (alike_typeOf array).bind_eq fun _ => (steady_elementType _ _).andThen fun _ _ =>
      (steady_lowerExpr array).andThen fun _ _ => (steady_lowerExpr index).andThen fun _ _ =>
      (steady_lowerExpr value).andThen fun _ _ => steady_guarded _ _
  | construct id className constructor args =>
    rw [lowerStmt]
    exact steady_lowerConstruct id className constructor args
  | eval expr | throw expr =>
    rw [lowerStmt]
    exact (steady_lowerExpr expr).andThen fun _ _ => steady_guarded _ _
  | ret value =>
    cases value with
    | none => exact steady_guarded _ _
    | some value =>
      rw [lowerStmt]
      exact (steady_lowerExpr value).andThen fun _ _ => steady_guarded _ _
  | tryCatch body handler hbody hhandler =>
    rw [lowerStmt]
    exact steady_takeGuards.andThen fun _ _ => hbody.bind fun _ _ _ => hhandler.before fun _ _ => steady_pure
  | «when» condition body hbody | loop condition body hbody | switch condition body hbody =>
    rw [lowerStmt]
    exact (steady_lowerExpr condition).andThen fun _ _ => steady_takeGuards.andThen fun _ _ =>
      hbody.before fun _ _ => steady_pure
  | ite condition thenBranch elseBranch hthen helse =>
    rw [lowerStmt]
    exact (steady_lowerExpr condition).andThen fun _ _ => steady_takeGuards.andThen fun _ _ =>
      hthen.bind fun _ _ _ => helse.before fun _ _ => steady_pure
  | arm values body hbody =>
    rw [lowerStmt]
    dsimp only
    split
    · rw [fault_bind]
      exact alike_fault
    · exact hbody.before fun _ _ => steady_pure
  | otherwise body hbody =>
    rw [lowerStmt]
    exact hbody.before fun _ _ => steady_pure
  | rethrow | exitLoop | nextLoop => exact steady_guarded _ _

/-- The jumps of a lowered statement can be written. -/
theorem admits_of_runs {stmt : Stmt} {st st' : State} {t : Target.Stmt} (h : Runs (lowerStmt s stmt) st t st') :
    ∀ j ∈ stmt.labelUses, s.Admits j := by
  have hsame := steady_lowerStmt (s := s) stmt st st
  rw [show (lowerStmt s stmt).run.run st = (.ok t, st') from h] at hsame
  cases hsame with
  | ok _ hjs => exact hjs

/-! ### Bodies -/

variable {p : Program} {options : GenOptions} {site : BodySite} {body : Body} {unit : UnitState} {e : GenError}

private theorem sameOutcome_lowerBody (p : Program) (options : GenOptions) (site : BodySite) (body : Body)
    (unit unit' : UnitState) :
    SameOutcome (scopeOf p options site body) body.tree.labelUses (fun _ _ => True)
      (lowerBody p options site body unit).1 (lowerBody p options site body unit').1 :=
  (steady_lowerStmt (s := scopeOf p options site body) body.tree (startState site unit) (startState site unit')).map _ _

/-- A body that fails does so whatever the unit has accumulated. -/
theorem lowerBody_fails_always (h : (lowerBody p options site body unit).1 = .error e) (unit' : UnitState) :
    (lowerBody p options site body unit').1 = .error e := by
  have hsame := sameOutcome_lowerBody p options site body unit unit'
  rw [h] at hsame
  generalize (lowerBody p options site body unit').1 = r at hsame ⊢
  cases hsame
  rfl

/-- A body fails a whole class only for a reference that leads nowhere. -/
theorem isUnresolved_of_lowerBody (h : (lowerBody p options site body unit).1 = .error e) (hfatal : e.isFatal = true) :
    e.IsUnresolved := by
  have hsame := sameOutcome_lowerBody p options site body unit unit
  rw [h] at hsame
  cases hsame with
  | error hunresolved _ => exact hunresolved hfatal

/-- A body fails for an unsupported jump only when it has one. -/
theorem blames_of_lowerBody (h : (lowerBody p options site body unit).1 = .error e) :
    (scopeOf p options site body).Blames body.tree.labelUses e := by
  have hsame := sameOutcome_lowerBody p options site body unit unit
  rw [h] at hsame
  cases hsame with
  | error _ hblames => exact hblames

end Lowering

end HaxeBackend
