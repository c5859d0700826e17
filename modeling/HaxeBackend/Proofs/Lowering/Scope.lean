import HaxeBackend.Lowering.Body
import HaxeBackend.Proofs.Run

/-!
# Runs in a scope

When the look-ups of lowering succeed, that they leave the state as it is, and the runs of operators on operands that
are lowered.
-/

namespace HaxeBackend.Lowering

/-- The scope that the statements of a body are lowered in. -/
def scopeOf (p : Program) (options : GenOptions) (site : BodySite) (body : Body) : Scope :=
  bodyScope p options site (declareLocals p site.params.reverse body.locals.toList).1 body

variable {α β : Type} {a : α} {s : Scope} {st st' : State}

/-- Nothing runs behind a fault. -/
theorem fault_bind {f : BodyFault} {g : α → LowerM β} : fault f >>= g = fault f := rfl

@[simp]
theorem runs_fault {f : BodyFault} : ¬Runs (fault f : LowerM α) st a st' := runs_throw

theorem runs_resolveMethod {r : MethodRef} {special : Bool} {entry : MethodEntry} :
    Runs (s.resolveMethod r special) st entry st' ↔ s.program.resolve? r special = some entry ∧ st = st' := by
  unfold Scope.resolveMethod
  cases s.program.resolve? r special with
  | some found => simp [eq_comm]
  | none => simp

theorem runs_resolveField {r : FieldRef} {entry : FieldEntry} :
    Runs (s.resolveField r) st entry st' ↔ s.program.getField? r.owner r.name r.type = some entry ∧ st = st' := by
  unfold Scope.resolveField
  cases s.program.getField? r.owner r.name r.type with
  | some found => simp [eq_comm]
  | none => simp

theorem runs_requireClass {name : Name} {c : ClassModel} :
    Runs (s.requireClass name) st c st' ↔ s.program.find? name = some c ∧ st = st' := by
  unfold Scope.requireClass
  cases s.program.find? name with
  | some found => simp [eq_comm]
  | none => simp

theorem runs_localName {id : Nat} {name : String} :
    Runs (s.localName id) st name st' ↔ s.locals[id]? = some name ∧ st = st' := by
  unfold Scope.localName
  cases s.locals[id]? with
  | some found => simp [eq_comm]
  | none => simp

theorem runs_checkArity {m : Method} {given : Nat} {u : Unit} :
    Runs (Scope.checkArity m given) st u st' ↔ given = m.params.length ∧ st = st' := by
  unfold Scope.checkArity
  split <;> simp [*]

/-! ### Look-ups -/

theorem looks_resolveMethod (r : MethodRef) (special : Bool) :
    Looks (s.resolveMethod r special) fun entry => s.program.resolve? r special = some entry := by
  unfold Scope.resolveMethod
  cases s.program.resolve? r special with
  | some found => exact looks_pure rfl
  | none => exact looks_throw

theorem looks_resolveField (r : FieldRef) :
    Looks (s.resolveField r) fun entry => s.program.getField? r.owner r.name r.type = some entry := by
  unfold Scope.resolveField
  cases s.program.getField? r.owner r.name r.type with
  | some found => exact looks_pure rfl
  | none => exact looks_throw

theorem looks_requireClass (name : Name) : Looks (s.requireClass name) fun c => s.program.find? name = some c := by
  unfold Scope.requireClass
  cases s.program.find? name with
  | some found => exact looks_pure rfl
  | none => exact looks_throw

theorem looks_localName (id : Nat) : Looks (s.localName id) fun name => s.locals[id]? = some name := by
  unfold Scope.localName
  cases s.locals[id]? with
  | some found => exact looks_pure rfl
  | none => exact looks_throw

theorem looks_checkArity (m : Method) (given : Nat) :
    Looks (Scope.checkArity m given) fun _ => given = m.params.length := by
  unfold Scope.checkArity
  split
  · rename_i harity
    exact looks_pure harity
  · exact looks_throw

theorem looks_checkJump (form : JumpForm) (label : Nat) : Looks (s.checkJump form label) fun _ => True := by
  unfold Scope.checkJump
  split
  · exact looks_throw
  · split
    · exact looks_throw
    · exact looks_pure trivial

theorem looks_typeOf (e : Expr) : Looks (typeOf e) fun _ => True := by
  unfold typeOf
  split
  · exact looks_pure trivial
  · exact looks_throw

theorem looks_elementType (type : Ty) (value : Expr) : Looks (elementType type value) fun _ => True := by
  unfold elementType
  split
  · exact looks_pure trivial
  · exact looks_typeOf value

/-- What becomes of the counts of a new array. -/
inductive IsNewArray (type : Ty) (counts : List Target.Expr) : Target.Expr → Prop where
  | plain : IsNewArray type counts (.construct (Naming.arrayClass type) counts)
  | described : IsNewArray type counts (.construct (Naming.arrayClass type) (counts ++ [.quoted type.descriptor]))
  | nested : IsNewArray type counts
    (.invoke (.path Target.objectArray) "createMultiSure" [.list counts, .quoted type.descriptor])

/-- Only an array without a count cannot be made. -/
theorem newArray_cases (type : Ty) (counts : List Target.Expr) :
    (∃ t, newArray type counts = pure t ∧ IsNewArray type counts t) ∨
      newArray type counts = fault .arrayWithoutCount := by
  match counts with
  | [] => exact .inr rfl
  | [count] =>
    unfold newArray
    dsimp only
    split
    · exact .inl ⟨_, rfl, .described⟩
    · exact .inl ⟨_, rfl, .plain⟩
  | first :: second :: rest => exact .inl ⟨_, rfl, .nested⟩

theorem looks_newArray (type : Ty) (counts : List Target.Expr) :
    Looks (newArray type counts) (IsNewArray type counts) := by
  rcases newArray_cases type counts with ⟨t, heq, ht⟩ | heq
  · rw [heq]
    exact looks_pure ht
  · rw [heq]
    exact looks_throw

/-! ### Expressions -/

section Expressions

variable {e l r : Expr} {t tl tr : Target.Expr} {mid : State}

theorem runs_readLocal {id : Nat} {name : String} (h : s.locals[id]? = some name) (type : Ty) :
    Runs (lowerExpr s (.readLocal id type)) st (.var name) st := by
  rw [lowerExpr]
  exact runs_bind.2 ⟨name, st, runs_localName.2 ⟨h, rfl⟩, rfl⟩

theorem runs_binary (hl : Runs (lowerExpr s l) st tl mid) (hr : Runs (lowerExpr s r) mid tr st') (op : BinaryOp)
    (type : Ty) : Runs (lowerExpr s (.binary op l r type)) st (binary op tl tr type) st' := by
  rw [lowerExpr]
  exact runs_bind.2 ⟨tl, mid, hl, runs_bind.2 ⟨tr, st', hr, rfl⟩⟩

theorem runs_unary (h : Runs (lowerExpr s e) st t st') (op : UnaryOp) (type : Ty) :
    Runs (lowerExpr s (.unary op e type)) st (unary op t type) st' := by
  rw [lowerExpr]
  exact runs_bind.2 ⟨t, st', h, rfl⟩

/-- A conversion to a primitive kind refers to no class. -/
theorem runs_cast {source : Ty} (htype : e.type = .ok source) (h : Runs (lowerExpr s e) st t st') (k : Prim) :
    Runs (lowerExpr s (.cast e (.prim k))) st (convert s.program source (.prim k) t) st' := by
  have hsource : Runs (typeOf e) st source st := by
    rw [typeOf, htype]
    rfl
  rw [lowerExpr]
  exact runs_bind.2 ⟨source, st, hsource, runs_bind.2 ⟨t, st', h, rfl⟩⟩

end Expressions

/-! ### Bodies -/

/-- The state in which the lowering of a body starts. -/
def startState (site : BodySite) (unit : UnitState) : State := ⟨unit.literals, unit.refs, { own := site.own }⟩

/-- A body that is lowered is a run of its statements. -/
theorem runs_of_lowerBody {p : Program} {options : GenOptions} {site : BodySite} {body : Body} {unit : UnitState}
    {result : Target.Body} (h : (lowerBody p options site body unit).1 = .ok result) :
    ∃ last, Runs (lowerStmt (scopeOf p options site body) body.tree) (startState site unit) result.stmts last := by
  unfold lowerBody at h
  rcases hrun : (lowerStmt (scopeOf p options site body) body.tree).run.run (startState site unit) with ⟨e | t, last⟩
  · rw [scopeOf, startState] at hrun
    simp only [hrun] at h
    cases h
  · rw [scopeOf, startState] at hrun
    simp only [hrun] at h
    cases h
    exact ⟨last, hrun⟩

end HaxeBackend.Lowering
