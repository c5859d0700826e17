import HaxeBackend.Proofs.Generation.Functions
import HaxeBackend.Proofs.Hierarchy.Implementation
import HaxeBackend.Proofs.Lowering.Adapters
import Mathlib.Logic.Relation

/-!
# References of bodies

A body refers to methods, fields and classes by name.  Lowering looks up every reference that it meets, with two
exceptions: of a captured method only the interface is looked up and not the method that it stands for, and the
receiver of a call of a superclass method is never looked at.  What is met is `checked_of_evaluates`; the main result
is that all references of a lowered body resolve exactly when these two kinds do (`references_resolve_iff`).
-/

namespace HaxeBackend

/-! ### References -/

/-- What a body refers to by name. -/
inductive Reference where
  /-- A method that is called; a `special` call is not virtual. -/
  | method (r : MethodRef) (special : Bool)
  | field (r : FieldRef)
  /-- A class that objects are made of. -/
  | allocated (className : Name)
  /-- The method of an interface that a captured method stands for. -/
  | captured (r : MethodRef)
  deriving DecidableEq

namespace Reference

/-- The reference leads to what it names.  What is captured has to be the only abstract method of its interface. -/
def Resolves (p : Program) : Reference → Prop
  | method r special => (p.resolve? r special).isSome = true
  | field r => (p.getField? r.owner r.name r.type).isSome = true
  | allocated className => (p.find? className).isSome = true
  | captured r =>
    (p.getMethod? r.owner r.name r.type).isSome = true ∧
      (p.abstractMethods r.owner).map (fun e => (e.method.name, e.method.type)) = [(r.name, r.type)]

instance (p : Program) : DecidablePred (Resolves p)
  | method .. | field _ | allocated _ => inferInstanceAs (Decidable (_ = true))
  | captured _ => inferInstanceAs (Decidable (_ ∧ _))

/-- What is asked of a reference that is met: of a captured method, that the interface has one abstract method. -/
def Checked (p : Program) : Reference → Prop
  | captured r => (p.abstractMethods r.owner).length = 1
  | r => r.Resolves p

end Reference

/-- The references of an expression, without those of its operands. -/
def ExprKind.references {σ : Type} : ExprKind σ → List Reference
  | .call (.onObject _) target _ special => [.method target special]
  | .call .static target _ _ | .call (.super _) target _ _ => [.method target false]
  | .field _ accessed | .staticField accessed => [.field accessed]
  | .allocate className => [.allocated className]
  | .capture interfaceMethod target => [.captured interfaceMethod, .method target false]
  | .literal _ | .readLocal _ | .this | .caught | .binary .. | .unary .. | .element .. | .arrayLength _ | .newArray _
  | .instanceOf .. | .cast _ => []

/-- The references of a statement, without those of its expressions. -/
def StmtKind.references {σ : Type} : StmtKind σ → List Reference
  | .setField _ field _ | .setStatic field _ => [.field field]
  | .construct _ className constructor _ => [.allocated className, .method constructor true]
  | _ => []

/-! ### What a body reaches -/

namespace Body

/-- The positions of the expressions in a statement. -/
def stmtExprs (b : Body) (kind : StmtKind IdRange) : List Nat :=
  match kind with
  | .setField object _ value => [object, value]
  | .setElement array index value => [array, index, value]
  | .construct _ _ _ args => b.exprList args
  | .setLocal _ x | .setStatic _ x | .eval x | .throw x | .gotoIf x _ | .jumpTable x _ _ | .ite x _ _ | .loop x _
  | .switch x _ _ => [x]
  | .ret value => value.toList
  | .nop | .line _ | .label _ | .goto _ | .tryCatch .. | .rethrow | .block _ | .exitLoop | .nextLoop => []

/-- A statement of the body, at any depth. -/
inductive ReachesStmt (b : Body) : Nat → Prop where
  | root {id : Nat} (h : id ∈ b.rootList) : b.ReachesStmt id
  | inner {outer id : Nat} {kind : StmtKind IdRange} (houter : b.ReachesStmt outer) (hkind : b.stmt? outer = some kind)
    (h : id ∈ b.stmtOperands kind) : b.ReachesStmt id

/-- An expression that a statement of the body has itself. -/
def StartsExpr (b : Body) (id : Nat) : Prop :=
  ∃ stmt kind, b.ReachesStmt stmt ∧ b.stmt? stmt = some kind ∧ id ∈ b.stmtExprs kind

/-- The second expression is an operand of the first. -/
def Operand (b : Body) (outer inner : Nat) : Prop := ∃ node, b.expr? outer = some node ∧ inner ∈ b.exprOperands node

/-- The operands that are evaluated: a call of a superclass method is made on the object itself. -/
def evaluated (b : Body) (node : ExprNode IdRange) : List Nat :=
  match node.kind with
  | .call (.super _) _ args _ => b.exprList args
  | _ => b.exprOperands node

def EvaluatedOperand (b : Body) (outer inner : Nat) : Prop :=
  ∃ node, b.expr? outer = some node ∧ inner ∈ b.evaluated node

/-- An expression of the body, at any depth. -/
def ReachesExpr (b : Body) (id : Nat) : Prop := ∃ start, b.StartsExpr start ∧ Relation.ReflTransGen b.Operand start id

/-- An expression of the body that is evaluated. -/
def Evaluates (b : Body) (id : Nat) : Prop :=
  ∃ start, b.StartsExpr start ∧ Relation.ReflTransGen b.EvaluatedOperand start id

/-- The receiver of a call of a superclass method. -/
def IsSuperReceiver (b : Body) (receiver : Nat) : Prop :=
  ∃ id node method args special, b.Evaluates id ∧ b.expr? id = some node ∧
    node.kind = .call (.super receiver) method args special

/-- The expression has the reference itself. -/
def ExprRefers (b : Body) (id : Nat) (r : Reference) : Prop := ∃ node, b.expr? id = some node ∧ r ∈ node.kind.references

/-- The body refers to this somewhere. -/
def RefersTo (b : Body) (r : Reference) : Prop :=
  (∃ id kind, b.ReachesStmt id ∧ b.stmt? id = some kind ∧ r ∈ kind.references) ∨
    ∃ id, b.ReachesExpr id ∧ b.ExprRefers id r

variable {b : Body} {id inner receiver : Nat}

theorem Evaluates.reaches (h : b.Evaluates id) : b.ReachesExpr id := by
  obtain ⟨start, hstart, hpath⟩ := h
  refine ⟨start, hstart, Relation.ReflTransGen.mono ?_ _ _ hpath⟩
  rintro outer inner ⟨node, hnode, hinner⟩
  refine ⟨node, hnode, ?_⟩
  unfold evaluated at hinner
  split at hinner
  · rename_i hkind
    simp only [exprOperands, hkind]
    exact List.mem_cons_of_mem _ hinner
  · exact hinner

/-- An operand is evaluated unless it is the receiver of a call of a superclass method. -/
private theorem evaluated_or_receiver {node : ExprNode IdRange} (h : inner ∈ b.exprOperands node) :
    inner ∈ b.evaluated node ∨ ∃ method args special, node.kind = .call (.super inner) method args special := by
  unfold evaluated
  split
  · rename_i hkind
    simp only [exprOperands, hkind, List.mem_cons] at h
    rcases h with rfl | h
    · exact .inr ⟨_, _, _, hkind⟩
    · exact .inl h
  · exact .inl h

/-- What is reached is evaluated, or it is below the receiver of a call of a superclass method. -/
theorem ReachesExpr.evaluates_or_below (h : b.ReachesExpr id) :
    b.Evaluates id ∨ ∃ receiver, b.IsSuperReceiver receiver ∧ Relation.ReflTransGen b.Operand receiver id := by
  obtain ⟨start, hstart, hpath⟩ := h
  induction hpath with
  | refl => exact .inl ⟨start, hstart, .refl⟩
  | @tail outer inner _ hstep ih =>
    rcases ih with houter | ⟨receiver, hreceiver, hbelow⟩
    · obtain ⟨node, hnode, hinner⟩ := hstep
      rcases evaluated_or_receiver hinner with hinner | ⟨method, args, special, hkind⟩
      · obtain ⟨start, hstart, hpath⟩ := houter
        exact .inl ⟨start, hstart, hpath.tail ⟨node, hnode, hinner⟩⟩
      · exact .inr ⟨inner, ⟨outer, node, method, args, special, houter, hnode, hkind⟩, .refl⟩
    · exact .inr ⟨receiver, hreceiver, hbelow.tail hstep⟩

theorem IsSuperReceiver.reaches (h : b.IsSuperReceiver receiver) (hbelow : Relation.ReflTransGen b.Operand receiver id) :
    b.ReachesExpr id := by
  obtain ⟨outer, node, method, args, special, houter, hnode, hkind⟩ := h
  obtain ⟨start, hstart, hpath⟩ := houter.reaches
  have hoperand : receiver ∈ b.exprOperands node := by
    simp only [exprOperands, hkind]
    exact List.mem_cons_self
  exact ⟨start, hstart, (hpath.tail ⟨node, hnode, hoperand⟩).trans hbelow⟩

end Body

namespace Lowering

variable {α β : Type} {s : Scope} {b : Body} {id : Nat} {r : Reference}

/-! ### Steps that succeed -/

/-- The step succeeds from some state. -/
def Succeeds (x : LowerM α) : Prop := ∃ st a st', Runs x st a st'

theorem Succeeds.bind {x : LowerM α} {f : α → LowerM β} (h : Succeeds (x >>= f)) :
    Succeeds x ∧ ∃ a, (∃ st st', Runs x st a st') ∧ Succeeds (f a) := by
  obtain ⟨st, c, st', h⟩ := h
  obtain ⟨a, mid, hx, hf⟩ := runs_bind.1 h
  exact ⟨⟨st, a, mid, hx⟩, a, ⟨st, mid, hx⟩, mid, c, st', hf⟩

theorem Succeeds.first {x : LowerM α} {f : α → LowerM β} (h : Succeeds (x >>= f)) : Succeeds x := h.bind.1

theorem Succeeds.rest {x : LowerM α} {f : α → LowerM β} (h : Succeeds (x >>= f)) : ∃ a, Succeeds (f a) := by
  obtain ⟨-, a, -, hf⟩ := h.bind
  exact ⟨a, hf⟩

private theorem not_succeeds_fault {f : BodyFault} : ¬Succeeds (fault f : LowerM α) := by
  rintro ⟨st, a, st', h⟩
  exact runs_fault h

private theorem Succeeds.resolves_method {method : MethodRef} {special : Bool}
    (h : Succeeds (s.resolveMethod method special)) : (Reference.method method special).Resolves s.program := by
  obtain ⟨st, entry, st', h⟩ := h
  exact Option.isSome_iff_exists.2 ⟨entry, (runs_resolveMethod.1 h).1⟩

private theorem Succeeds.resolves_field {field : FieldRef} (h : Succeeds (s.resolveField field)) :
    (Reference.field field).Resolves s.program := by
  obtain ⟨st, entry, st', h⟩ := h
  exact Option.isSome_iff_exists.2 ⟨entry, (runs_resolveField.1 h).1⟩

private theorem Succeeds.resolves_class {className : Name} (h : Succeeds (s.requireClass className)) :
    (Reference.allocated className).Resolves s.program := by
  obtain ⟨st, c, st', h⟩ := h
  exact Option.isSome_iff_exists.2 ⟨c, (runs_requireClass.1 h).1⟩

private theorem length_of_dispatch {p : Program} {c : ClassModel} (h : p.dispatch c = .adapter) :
    (p.abstractMethods c.name).length = 1 := by
  unfold Program.dispatch at h
  split at h
  · rename_i hsingle
    rw [Bool.and_eq_true, beq_iff_eq] at hsingle
    exact hsingle.2
  · cases h

/-- A captured method has an interface with one abstract method, and its target resolves. -/
private theorem Succeeds.checked_capture {interfaceMethod target : MethodRef}
    (h : Succeeds (capture s interfaceMethod target)) :
    (Reference.captured interfaceMethod).Checked s.program ∧ (Reference.method target false).Resolves s.program := by
  rw [capture_eq] at h
  obtain ⟨-, interface, ⟨st, st', hclass⟩, h⟩ := h.bind
  obtain ⟨hfind, -⟩ := runs_requireClass.1 hclass
  obtain ⟨-, hname⟩ := Program.mem_of_find? hfind
  split at h
  · rename_i hdispatch
    refine ⟨?_, h.first.resolves_method⟩
    show (s.program.abstractMethods interfaceMethod.owner).length = 1
    rw [← hname]
    exact length_of_dispatch hdispatch
  · obtain ⟨st, a, st', hthrow⟩ := h
    exact absurd hthrow runs_throw

private theorem Succeeds.of_lowerExprs {es : List Expr} (h : Succeeds (lowerExprs s es)) :
    ∀ e ∈ es, Succeeds (lowerExpr s e) := by
  induction es with
  | nil => exact fun e he => absurd he List.not_mem_nil
  | cons e es ih =>
    rw [lowerExprs] at h
    obtain ⟨_, hrest⟩ := h.rest
    intro e' he'
    rcases List.mem_cons.1 he' with rfl | he'
    · exact h.first
    · exact ih hrest.first e' he'

/-! ### Expressions -/

/-- What the lowering of an expression asks of its references, and that it lowers the operands. -/
private structure Opens (s : Scope) (refs : List Reference) (operands : List Expr) : Prop where
  checked : ∀ r ∈ refs, r.Checked s.program
  succeeds : ∀ e ∈ operands, Succeeds (lowerExpr s e)

private theorem Opens.nil : Opens s [] [] := ⟨fun _ h => absurd h List.not_mem_nil, fun _ h => absurd h List.not_mem_nil⟩

private theorem Opens.cons_ref {refs : List Reference} {operands : List Expr} (hr : r.Checked s.program)
    (h : Opens s refs operands) : Opens s (r :: refs) operands :=
  ⟨List.forall_mem_cons.2 ⟨hr, h.checked⟩, h.succeeds⟩

private theorem Opens.cons {refs : List Reference} {e : Expr} {operands : List Expr} (he : Succeeds (lowerExpr s e))
    (h : Opens s refs operands) : Opens s refs (e :: operands) :=
  ⟨h.checked, List.forall_mem_cons.2 ⟨he, h.succeeds⟩⟩

private theorem Opens.ofList {es : List Expr} (h : Succeeds (lowerExprs s es)) : Opens s [] es :=
  ⟨Opens.nil.checked, h.of_lowerExprs⟩

private theorem opens_exprOf (operand : Nat → Expr) {node : ExprNode IdRange}
    (h : Succeeds (lowerExpr s (b.exprOf operand node))) :
    Opens s node.kind.references ((b.evaluated node).map operand) := by
  obtain ⟨kind, type⟩ := node
  -- each kind of expression meets its own references and lowers the operands that it evaluates
  cases kind with
  | literal value => exact .nil
  | readLocal id => exact .nil
  | this => exact .nil
  | caught => exact .nil
  | binary op left right =>
    rw [Body.exprOf, lowerExpr] at h
    obtain ⟨_, hright⟩ := h.rest
    exact .cons h.first (.cons hright.first .nil)
  | unary op x =>
    rw [Body.exprOf, lowerExpr] at h
    exact .cons h.first .nil
  | call kind method args special =>
    cases kind with
    | static =>
      rw [Body.exprOf, lowerExpr] at h
      obtain ⟨_, htouch⟩ := h.rest
      obtain ⟨_, harity⟩ := htouch.rest
      obtain ⟨_, hargs⟩ := harity.rest
      exact .cons_ref h.first.resolves_method (.ofList hargs.first)
    | onObject receiver =>
      rw [Body.exprOf, lowerExpr] at h
      obtain ⟨_, hreceiver⟩ := h.rest
      obtain ⟨_, harity⟩ := hreceiver.rest
      obtain ⟨_, hargs⟩ := harity.rest
      exact .cons_ref h.first.resolves_method (.cons hreceiver.first (.ofList hargs.first))
    | super receiver =>
      rw [Body.exprOf, lowerExpr] at h
      obtain ⟨_, harity⟩ := h.rest
      obtain ⟨_, hargs⟩ := harity.rest
      exact .cons_ref h.first.resolves_method (.ofList hargs.first)
  | field object field =>
    rw [Body.exprOf, lowerExpr] at h
    obtain ⟨_, hfield⟩ := h.rest
    exact .cons_ref hfield.first.resolves_field (.cons h.first .nil)
  | staticField field =>
    rw [Body.exprOf, lowerExpr, lowerStaticField] at h
    exact .cons_ref h.first.resolves_field .nil
  | element array index =>
    rw [Body.exprOf, lowerExpr] at h
    obtain ⟨_, harray⟩ := h.rest
    obtain ⟨_, hindex⟩ := harray.rest
    exact .cons harray.first (.cons hindex.first .nil)
  | arrayLength array =>
    rw [Body.exprOf, lowerExpr] at h
    obtain ⟨_, harray⟩ := h.rest
    exact .cons harray.first .nil
  | allocate className =>
    rw [Body.exprOf, lowerExpr, allocate] at h
    exact .cons_ref h.first.resolves_class .nil
  | newArray counts =>
    rw [Body.exprOf, lowerExpr] at h
    exact .ofList h.first
  | instanceOf x check =>
    rw [Body.exprOf, lowerExpr] at h
    exact .cons h.first .nil
  | cast x =>
    rw [Body.exprOf, lowerExpr] at h
    obtain ⟨_, hx⟩ := h.rest
    exact .cons hx.first .nil
  | capture interfaceMethod target =>
    rw [Body.exprOf, lowerExpr] at h
    obtain ⟨hinterface, htarget⟩ := h.checked_capture
    exact .cons_ref hinterface (.cons_ref htarget .nil)

/-- The expression at a position is lowered, to some depth of its tree. -/
private def LowersExpr (s : Scope) (b : Body) (id : Nat) : Prop :=
  ∃ depth, Succeeds (lowerExpr s (b.exprArena.treeAt depth id))

/-- A step of the walk over the expressions: the node is there, and what is evaluated of it is lowered. -/
private theorem LowersExpr.step (h : LowersExpr s b id) :
    ∃ node, b.expr? id = some node ∧ (∀ r ∈ node.kind.references, r.Checked s.program) ∧
      ∀ inner ∈ b.evaluated node, LowersExpr s b inner := by
  obtain ⟨depth, h⟩ := h
  cases depth with
  | zero =>
    rw [Arena.treeAt, Body.exprArena, lowerExpr] at h
    exact absurd h not_succeeds_fault
  | succ depth =>
    rw [Arena.treeAt] at h
    cases hnode : b.exprArena.nodes[id]? with
    | none =>
      rw [hnode, Body.exprArena, lowerExpr] at h
      exact absurd h not_succeeds_fault
    | some node =>
      rw [hnode] at h
      have hopens := opens_exprOf _ h
      exact ⟨node, hnode, hopens.checked, fun inner hinner => ⟨depth, hopens.succeeds _ (List.mem_map_of_mem hinner)⟩⟩

private theorem lowersExpr_of_path {start : Nat} (h : LowersExpr s b start)
    (hpath : Relation.ReflTransGen b.EvaluatedOperand start id) : LowersExpr s b id := by
  induction hpath with
  | refl => exact h
  | tail _ hstep ih =>
    obtain ⟨node, hnode, hinner⟩ := hstep
    obtain ⟨node', hnode', -, hoperands⟩ := ih.step
    obtain rfl : node = node' := Option.some_inj.1 (hnode.symm.trans hnode')
    exact hoperands _ hinner

/-! ### Statements -/

private theorem Succeeds.of_lowerStmt_ofList {stmts : List Stmt} (h : Succeeds (lowerStmt s (.ofList stmts))) :
    ∀ stmt ∈ stmts, Succeeds (lowerStmt s stmt) := by
  induction stmts with
  | nil => exact fun stmt hstmt => absurd hstmt List.not_mem_nil
  | cons stmt stmts ih =>
    rw [Stmt.ofList, lowerStmt] at h
    obtain ⟨_, hrest⟩ := h.rest
    intro stmt' hstmt'
    rcases List.mem_cons.1 hstmt' with rfl | hstmt'
    · exact h.first
    · exact ih hrest.first stmt' hstmt'

private theorem Succeeds.of_lowerConstruct {local_ : Nat} {className : Name} {constructor : MethodRef} {args : List Expr}
    (h : Succeeds (lowerConstruct s local_ className constructor args)) :
    Opens s [.allocated className, .method constructor true] args := by
  unfold lowerConstruct at h
  obtain ⟨_, hclass⟩ := h.rest
  obtain ⟨_, hmethod⟩ := hclass.rest
  obtain ⟨_, harity⟩ := hmethod.rest
  obtain ⟨_, hargs⟩ := harity.rest
  exact .cons_ref hclass.first.resolves_class (.cons_ref hmethod.first.resolves_method (.ofList hargs.first))

private theorem Succeeds.of_lowerArm {values : List Int32} {body : Stmt} (h : Succeeds (lowerStmt s (.arm values body))) :
    Succeeds (lowerStmt s body) := by
  rw [lowerStmt] at h
  dsimp only at h
  split at h
  · exact absurd h.first not_succeeds_fault
  · exact h.first

/-- What the lowering of a statement asks of its references, and that it lowers the expressions and statements in
it. -/
private structure OpensStmt (s : Scope) (refs : List Reference) (exprs : List Expr) (stmts : List Stmt) : Prop
    extends Opens s refs exprs where
  inner : ∀ stmt ∈ stmts, Succeeds (lowerStmt s stmt)

private theorem Opens.stmt {refs : List Reference} {exprs : List Expr} (h : Opens s refs exprs) :
    OpensStmt s refs exprs [] := ⟨h, fun _ hmem => absurd hmem List.not_mem_nil⟩

private theorem OpensStmt.headed {e : Expr} {stmts : List Stmt} (he : Succeeds (lowerExpr s e))
    (hstmts : ∀ stmt ∈ stmts, Succeeds (lowerStmt s stmt)) : OpensStmt s [] [e] stmts := ⟨.cons he .nil, hstmts⟩

private theorem opens_stmtOf (expr : Nat → Expr) (stmt : Nat → Stmt) {kind : StmtKind IdRange}
    (h : Succeeds (lowerStmt s (b.stmtOf expr stmt kind))) :
    OpensStmt s kind.references ((b.stmtExprs kind).map expr) ((b.stmtOperands kind).map stmt) := by
  cases kind with
  | nop | line _ | label _ | goto _ | rethrow | exitLoop | nextLoop => exact Opens.nil.stmt
  | gotoIf condition label =>
    rw [Body.stmtOf, lowerStmt] at h
    obtain ⟨_, hcondition⟩ := h.rest
    exact (Opens.cons hcondition.first .nil).stmt
  | jumpTable subject cases default =>
    rw [Body.stmtOf, lowerStmt] at h
    obtain ⟨_, hdefault⟩ := h.rest
    obtain ⟨_, hsubject⟩ := hdefault.rest
    exact (Opens.cons hsubject.first .nil).stmt
  | setLocal id value =>
    rw [Body.stmtOf, lowerStmt] at h
    obtain ⟨_, hvalue⟩ := h.rest
    exact (Opens.cons hvalue.first .nil).stmt
  | setField object field value =>
    rw [Body.stmtOf, lowerStmt] at h
    obtain ⟨_, hfield⟩ := h.rest
    obtain ⟨_, hvalue⟩ := hfield.rest
    exact (Opens.cons_ref (r := .field field) hfield.first.resolves_field (.cons h.first (.cons hvalue.first .nil))).stmt
  | setStatic field value =>
    rw [Body.stmtOf, lowerStmt] at h
    obtain ⟨_, hvalue⟩ := h.rest
    have hfield := h.first
    rw [lowerStaticField] at hfield
    exact (Opens.cons_ref (r := .field field) hfield.first.resolves_field (.cons hvalue.first .nil)).stmt
  | setElement array index value =>
    rw [Body.stmtOf, lowerStmt] at h
    obtain ⟨_, helement⟩ := h.rest
    obtain ⟨_, harray⟩ := helement.rest
    obtain ⟨_, hindex⟩ := harray.rest
    obtain ⟨_, hvalue⟩ := hindex.rest
    exact (Opens.cons harray.first (.cons hindex.first (.cons hvalue.first .nil))).stmt
  | construct id className constructor args =>
    rw [Body.stmtOf, lowerStmt] at h
    exact h.of_lowerConstruct.stmt
  | eval x | throw x =>
    rw [Body.stmtOf, lowerStmt] at h
    exact (Opens.cons h.first .nil).stmt
  | ret value =>
    cases value with
    | none => exact Opens.nil.stmt
    | some value =>
      rw [Body.stmtOf, Option.map_some, lowerStmt] at h
      exact (Opens.cons h.first .nil).stmt
  | tryCatch body handler =>
    rw [Body.stmtOf, lowerStmt] at h
    obtain ⟨_, hbody⟩ := h.rest
    obtain ⟨_, hhandler⟩ := hbody.rest
    exact ⟨.nil, List.forall_mem_cons.2 ⟨hbody.first, List.forall_mem_singleton.2 hhandler.first⟩⟩
  | block stmts => exact ⟨.nil, h.of_lowerStmt_ofList⟩
  | ite condition thenBranch elseBranch =>
    cases elseBranch with
    | none =>
      rw [Body.stmtOf, lowerStmt] at h
      obtain ⟨_, htake⟩ := h.rest
      obtain ⟨_, hthen⟩ := htake.rest
      exact .headed h.first (List.forall_mem_singleton.2 hthen.first)
    | some elseBranch =>
      rw [Body.stmtOf, lowerStmt] at h
      obtain ⟨_, htake⟩ := h.rest
      obtain ⟨_, hthen⟩ := htake.rest
      obtain ⟨_, helse⟩ := hthen.rest
      exact .headed h.first (List.forall_mem_cons.2 ⟨hthen.first, List.forall_mem_singleton.2 helse.first⟩)
  | loop condition body =>
    rw [Body.stmtOf, lowerStmt] at h
    obtain ⟨_, htake⟩ := h.rest
    obtain ⟨_, hbody⟩ := htake.rest
    exact .headed h.first (List.forall_mem_singleton.2 hbody.first)
  | switch subject cases default =>
    rw [Body.stmtOf, lowerStmt] at h
    obtain ⟨_, htake⟩ := h.rest
    obtain ⟨_, harms⟩ := htake.rest
    have hall := harms.first.of_lowerStmt_ofList
    refine .headed h.first fun inner hinner => ?_
    -- the bodies of the arms stand in front of that of the default
    simp only [Body.stmtOperands, List.map_append, List.map_map, List.mem_append, List.mem_map, List.map_cons,
      List.map_nil, List.mem_singleton] at hinner
    rcases hinner with ⟨arm, harm, rfl⟩ | rfl
    · exact (hall (.arm arm.1 (stmt arm.2)) (List.mem_append_left _ (List.mem_map_of_mem harm))).of_lowerArm
    · have hdefault := hall (.otherwise (stmt default)) (List.mem_append_right _ List.mem_cons_self)
      rw [lowerStmt] at hdefault
      exact hdefault.first

/-- The trees of the expressions in a body. -/
def exprTree (b : Body) : Nat → Expr := b.exprArena.lookIn b.exprArena.trees

/-- The statement at a position is lowered, to some depth of its tree. -/
def LowersStmt (s : Scope) (b : Body) (id : Nat) : Prop :=
  ∃ depth, Succeeds (lowerStmt s ((b.stmtArena (exprTree b)).treeAt depth id))

/-- There is a statement at a position that is lowered. -/
theorem LowersStmt.node (h : LowersStmt s b id) :
    ∃ kind depth, b.stmt? id = some kind ∧
      Succeeds (lowerStmt s (b.stmtOf (exprTree b) ((b.stmtArena (exprTree b)).treeAt depth) kind)) := by
  obtain ⟨depth, h⟩ := h
  cases depth with
  | zero =>
    rw [Arena.treeAt, Body.stmtArena, lowerStmt] at h
    exact absurd h not_succeeds_fault
  | succ depth =>
    rw [Arena.treeAt] at h
    cases hkind : (b.stmtArena (exprTree b)).nodes[id]? with
    | none =>
      rw [hkind, Body.stmtArena, lowerStmt] at h
      exact absurd h not_succeeds_fault
    | some kind =>
      rw [hkind] at h
      exact ⟨kind, depth, hkind, h⟩

/-- A step of the walk over the statements. -/
private theorem LowersStmt.step (h : LowersStmt s b id) :
    ∃ kind, b.stmt? id = some kind ∧ (∀ r ∈ kind.references, r.Checked s.program) ∧
      (∀ start ∈ b.stmtExprs kind, LowersExpr s b start) ∧ ∀ inner ∈ b.stmtOperands kind, LowersStmt s b inner := by
  obtain ⟨kind, depth, hkind, h⟩ := h.node
  have hopens := opens_stmtOf _ _ h
  refine ⟨kind, hkind, hopens.checked, fun start hstart => ⟨b.exprArena.depth, ?_⟩, fun inner hinner =>
    ⟨depth, hopens.inner _ (List.mem_map_of_mem hinner)⟩⟩
  rw [← Arena.lookIn_trees]
  exact hopens.succeeds _ (List.mem_map_of_mem hstart)

theorem lowersStmt_of_reaches (h : Succeeds (lowerStmt s b.tree)) (hid : b.ReachesStmt id) :
    LowersStmt s b id := by
  induction hid with
  | @root id hroot =>
    refine ⟨(b.stmtArena (exprTree b)).depth, ?_⟩
    rw [← Arena.lookIn_trees]
    exact h.of_lowerStmt_ofList _ (List.mem_map_of_mem hroot)
  | inner _ hkind hinner ih =>
    obtain ⟨kind, hkind', -, -, hoperands⟩ := ih.step
    obtain rfl := Option.some_inj.1 (hkind.symm.trans hkind')
    exact hoperands _ hinner

/-! ### Bodies -/

private theorem lowersExpr_of_evaluates (h : Succeeds (lowerStmt s b.tree)) (hid : b.Evaluates id) :
    LowersExpr s b id := by
  obtain ⟨start, ⟨stmt, kind, hstmt, hkind, hstart⟩, hpath⟩ := hid
  obtain ⟨kind', hkind', -, hexprs, -⟩ := (lowersStmt_of_reaches h hstmt).step
  obtain rfl : kind = kind' := Option.some_inj.1 (hkind.symm.trans hkind')
  exact lowersExpr_of_path (hexprs start hstart) hpath

variable {p : Program} {options : GenOptions} {site : BodySite} {body : Body} {unit : UnitState} {result : Target.Body}

theorem succeeds_of_lowerBody (h : (lowerBody p options site body unit).1 = .ok result) :
    Succeeds (lowerStmt (scopeOf p options site body) body.tree) := by
  obtain ⟨last, hrun⟩ := runs_of_lowerBody h
  exact ⟨_, _, _, hrun⟩

/-- In a body that is lowered, the references of every statement resolve. -/
theorem resolves_of_reachesStmt (h : (lowerBody p options site body unit).1 = .ok result) {kind : StmtKind IdRange}
    (hid : body.ReachesStmt id) (hkind : body.stmt? id = some kind) (hr : r ∈ kind.references) : r.Resolves p := by
  obtain ⟨kind', hkind', hchecked, -⟩ := (lowersStmt_of_reaches (succeeds_of_lowerBody h) hid).step
  obtain rfl : kind = kind' := Option.some_inj.1 (hkind.symm.trans hkind')
  have hr' : r.Checked p := hchecked r hr
  cases r with
  | captured _ => cases kind <;> simp [StmtKind.references] at hr
  | method _ _ | field _ | allocated _ => exact hr'

/-- In a body that is lowered, the references of every expression that is evaluated are checked. -/
theorem checked_of_evaluates (h : (lowerBody p options site body unit).1 = .ok result) (hid : body.Evaluates id)
    (hr : body.ExprRefers id r) : r.Checked p := by
  obtain ⟨node, hnode, hr⟩ := hr
  obtain ⟨node', hnode', hchecked, -⟩ := (lowersExpr_of_evaluates (succeeds_of_lowerBody h) hid).step
  obtain rfl : node = node' := Option.some_inj.1 (hnode.symm.trans hnode')
  exact hchecked r hr

/-- The interface has one abstract method, so what is captured resolves when the interface has such a method. -/
private theorem resolves_captured_iff {m : MethodRef} (h : (Reference.captured m).Checked p) :
    (Reference.captured m).Resolves p ↔
      ∃ e ∈ p.abstractMethods m.owner, e.method.hasSignature m.name m.type = true := by
  obtain ⟨e, he⟩ := List.length_eq_one_iff.1 (show (p.abstractMethods m.owner).length = 1 from h)
  constructor
  · rintro ⟨-, hsignature⟩
    rw [he, List.map_singleton, List.singleton_inj] at hsignature
    obtain ⟨hname, htype⟩ := Prod.mk.inj hsignature
    exact ⟨e, by rw [he]; exact List.mem_cons_self, Method.hasSignature_iff.2 ⟨hname, htype⟩⟩
  · rintro ⟨e', he', hsignature⟩
    have hrequired : e' ∈ p.methodsToImplement m.owner := (List.mem_filter.1 he').1
    rw [he, List.mem_singleton] at he'
    subst he'
    refine ⟨?_, ?_⟩
    · obtain ⟨d, hd⟩ := ClassModel.exists_findMethod? (Program.of_mem_methodsToImplement hrequired).2.1
      obtain ⟨hname, htype⟩ := Method.hasSignature_iff.1 hsignature
      rw [hname, htype] at hd
      rw [Program.getMethod?, List.findSome?_isSome_iff]
      exact ⟨e'.owner, Program.owner_mem_ancestors_of_mem_methodsToImplement hrequired, by rw [hd]; rfl⟩
    · obtain ⟨hname, htype⟩ := Method.hasSignature_iff.1 hsignature
      rw [he, List.map_singleton, hname, htype]

/-- In a body that is lowered all references resolve, except where a captured method stands for a method that its
interface does not have, or where a receiver that is never evaluated refers to what is not there. -/
theorem references_resolve_iff (h : (lowerBody p options site body unit).1 = .ok result) :
    (∀ r, body.RefersTo r → r.Resolves p) ↔
      (∀ id m, body.Evaluates id → body.ExprRefers id (.captured m) →
        ∃ e ∈ p.abstractMethods m.owner, e.method.hasSignature m.name m.type = true) ∧
      ∀ receiver id r, body.IsSuperReceiver receiver → Relation.ReflTransGen body.Operand receiver id →
        body.ExprRefers id r → r.Resolves p := by
  constructor
  · intro hall
    refine ⟨fun id m hid hm => ?_, fun receiver id r hreceiver hbelow hr => ?_⟩
    · exact (resolves_captured_iff (checked_of_evaluates h hid hm)).1 (hall _ (.inr ⟨id, hid.reaches, hm⟩))
    · exact hall r (.inr ⟨id, hreceiver.reaches hbelow, hr⟩)
  · rintro ⟨hcaptured, hreceivers⟩ r (⟨id, kind, hid, hkind, hr⟩ | ⟨id, hid, hr⟩)
    · exact resolves_of_reachesStmt h hid hkind hr
    · rcases hid.evaluates_or_below with hid | ⟨receiver, hreceiver, hbelow⟩
      · have hchecked := checked_of_evaluates h hid hr
        cases r with
        | captured m => exact (resolves_captured_iff hchecked).2 (hcaptured id m hid hr)
        | method _ _ | field _ | allocated _ => exact hchecked
      · exact hreceivers receiver id r hreceiver hbelow hr

section Listener

open Generation (bareClass bareMethod)

private def runRef (owner name : Name) : MethodRef := ⟨owner, name, ⟨[], .void⟩⟩

/-- A class with a method to inherit, an interface with one abstract method, and a method to capture for it. -/
private def listenerProgram : Program where
  classes := [
    bareClass "Base" .plain none [] [bareMethod 1 "run" ⟨0x0001⟩ (some {})],
    bareClass "Listener" .interface none [] [bareMethod 2 "heard" ⟨0x0401⟩ none],
    bareClass "Main" .plain (some "Base") [] [bareMethod 3 "work" ⟨0x0009⟩ (some {})]]
  distinct := by decide

private def listenerSite : BodySite := ⟨[], false, some "Main", .own⟩

/-- Calls the inherited method on `receiver` and captures a method for one of this name. -/
private def listenerBody (receiver : ExprKind IdRange) (heard : Name) : Body where
  exprs := #[⟨receiver, .void⟩, ⟨.call (.super 0) (runRef "Base" "run") ⟨0, 0⟩ false, .void⟩,
    ⟨.capture (runRef "Listener" heard) (runRef "Main" "work"), .ref "Listener"⟩]
  stmts := #[.eval 1, .eval 2]
  stmtLists := #[0, 1]
  root := ⟨0, 2⟩

/-- A method that no class has. -/
private def strayRef : MethodRef := runRef "Nowhere" "gone"

private def strayBody : Body := listenerBody (.call .static strayRef ⟨0, 0⟩ false) "missed"

private theorem startsExpr_listener {receiver : ExprKind IdRange} {heard : Name} :
    (listenerBody receiver heard).StartsExpr 1 ∧ (listenerBody receiver heard).StartsExpr 2 :=
  ⟨⟨0, .eval 1, .root List.mem_cons_self, rfl, List.mem_cons_self⟩,
    ⟨1, .eval 2, .root (List.mem_cons_of_mem _ List.mem_cons_self), rfl, List.mem_cons_self⟩⟩

/-- The body is lowered although neither the method captured for nor the receiver's method exists. -/
theorem references_skipped_stray :
    (∃ result, (lowerBody listenerProgram {} listenerSite strayBody {}).1 = .ok result) ∧
    (strayBody.RefersTo (.captured (runRef "Listener" "missed")) ∧
      ¬(Reference.captured (runRef "Listener" "missed")).Resolves listenerProgram) ∧
    strayBody.RefersTo (.method strayRef false) ∧ ¬(Reference.method strayRef false).Resolves listenerProgram := by
  refine ⟨⟨_, by with_unfolding_all rfl⟩, ⟨.inr ⟨2, ⟨2, startsExpr_listener.2, .refl⟩, _, rfl, List.mem_cons_self⟩, ?_⟩,
    .inr ⟨0, ⟨1, startsExpr_listener.1, .single ⟨_, rfl, List.mem_cons_self⟩⟩, _, rfl, List.mem_cons_self⟩, ?_⟩
  · with_unfolding_all decide
  · with_unfolding_all decide

/-- With the object itself as the receiver and the method that the interface has, every reference resolves. -/
theorem references_resolve_iff_listener :
    (∃ result, (lowerBody listenerProgram {} listenerSite (listenerBody .this "heard") {}).1 = .ok result) ∧
      ∀ r, (listenerBody .this "heard").RefersTo r → r.Resolves listenerProgram := by
  have hlowered : ∃ result,
      (lowerBody listenerProgram {} listenerSite (listenerBody .this "heard") {}).1 = .ok result :=
    ⟨_, by with_unfolding_all rfl⟩
  obtain ⟨result, hlowered⟩ := hlowered
  refine ⟨⟨result, hlowered⟩, (references_resolve_iff hlowered).2 ⟨?_, ?_⟩⟩
  · rintro id m - ⟨node, hnode, hm⟩
    have hall : ∀ node ∈ (listenerBody .this "heard").exprs, ∀ m, Reference.captured m ∈ node.kind.references →
        m = runRef "Listener" "heard" := by simp [listenerBody, ExprKind.references]
    rw [hall node (Array.mem_of_getElem? hnode) m hm]
    with_unfolding_all decide
  · rintro receiver id r ⟨outer, node, method, args, special, -, hnode, hkind⟩ hbelow ⟨leaf, hleaf, hr⟩
    have hall : ∀ node ∈ (listenerBody .this "heard").exprs, ∀ receiver method args special,
        node.kind = .call (.super receiver) method args special → receiver = 0 := by simp [listenerBody]
    obtain rfl := hall node (Array.mem_of_getElem? hnode) receiver method args special hkind
    -- the receiver has no operands and no references
    rcases hbelow.cases_head with rfl | ⟨_, ⟨_, ⟨⟩, hinner⟩, -⟩
    · cases hleaf
      cases hr
    · cases hinner

end Listener

end Lowering

end HaxeBackend
