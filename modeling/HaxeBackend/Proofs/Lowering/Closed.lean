import HaxeBackend.Proofs.Lowering.Leaves
import HaxeBackend.Proofs.Lowering.Variables
import HaxeBackend.Proofs.Target.Closed

/-!
# Closed bodies

Which lowered bodies are closed.  Every variable that one names is declared once or a parameter, but the slot for caught
values is only declared for the sake of statements, and a jump is only checked against the number of labels
(`closed_of_lowerBody_iff`).
-/

namespace HaxeBackend

namespace Stmt

/-- The labels, in order. -/
def labels : Stmt → List Nat
  | .label id => [id]
  | .seq first rest | .tryCatch first rest | .ite _ first rest => first.labels ++ rest.labels
  | .when _ body | .loop _ body | .switch _ body | .arm _ body | .otherwise body => body.labels
  | _ => []

/-- The labels that are jumped to, in order. -/
def jumps : Stmt → List Nat
  | .goto id | .gotoIf _ id => [id]
  | .jumpTable _ cases default => cases.map Prod.snd ++ [default]
  | .seq first rest | .tryCatch first rest | .ite _ first rest => first.jumps ++ rest.jumps
  | .when _ body | .loop _ body | .switch _ body | .arm _ body | .otherwise body => body.jumps
  | _ => []

/-- Whether there is a `try` in the statement. -/
def catches : Stmt → Bool
  | .tryCatch .. => true
  | .seq first rest | .ite _ first rest => first.catches || rest.catches
  | .when _ body | .loop _ body | .switch _ body | .arm _ body | .otherwise body => body.catches
  | _ => false

private theorem catches_ofList {stmts : List Stmt} (h : (ofList stmts).catches = true) :
    ∃ stmt ∈ stmts, stmt.catches = true := by
  induction stmts with
  | nil => cases h
  | cons stmt rest ih =>
    rcases Bool.or_eq_true_iff.1 h with h | h
    · exact ⟨stmt, List.mem_cons_self, h⟩
    · obtain ⟨inner, hmem, hinner⟩ := ih h
      exact ⟨inner, List.mem_cons_of_mem _ hmem, hinner⟩

end Stmt

/-! ### The statements of a body -/

namespace Body

variable {body : Body}

/-- A statement that has a `try` is one, or has a statement with a `try`. -/
private theorem stmtOf_catches {expr : Nat → Expr} {stmt : Nat → Stmt} {kind : StmtKind IdRange}
    (h : (body.stmtOf expr stmt kind).catches = true) : kind.isTrap = true ∨ ∃ id, (stmt id).catches = true := by
  cases kind with
  | tryCatch => exact .inl rfl
  | block stmts =>
    obtain ⟨inner, hmem, hinner⟩ := Stmt.catches_ofList h
    obtain ⟨id, -, rfl⟩ := List.mem_map.1 hmem
    exact .inr ⟨id, hinner⟩
  | ite condition thenBranch elseBranch =>
    cases elseBranch with
    | none => exact .inr ⟨thenBranch, h⟩
    | some elseBranch =>
      rcases Bool.or_eq_true_iff.1 h with h | h
      · exact .inr ⟨thenBranch, h⟩
      · exact .inr ⟨elseBranch, h⟩
  | loop condition inner => exact .inr ⟨inner, h⟩
  | switch subject cases default =>
    obtain ⟨inner, hmem, hinner⟩ := Stmt.catches_ofList h
    rcases List.mem_append.1 hmem with hmem | hmem
    · obtain ⟨⟨values, id⟩, -, rfl⟩ := List.mem_map.1 hmem
      exact .inr ⟨id, hinner⟩
    · cases List.mem_singleton.1 hmem
      exact .inr ⟨default, hinner⟩
  | _ => cases h

/-- A body with a `try` has a statement that traps. -/
theorem hasTraps_of_catches (h : body.tree.catches = true) : body.hasTraps = true := by
  have htrees : ∀ expr depth id, ((body.stmtArena expr).treeAt depth id).catches = true → body.hasTraps = true := by
    intro expr depth
    induction depth with
    | zero => intro id h; cases h
    | succ depth ih =>
      intro id h
      rw [Arena.treeAt] at h
      split at h
      · cases h
      · rename_i kind hkind
        rcases stmtOf_catches h with htrap | ⟨inner, hinner⟩
        · exact Array.any_eq_true'.2 ⟨kind, Array.mem_of_getElem? hkind, htrap⟩
        · exact ih inner hinner
  obtain ⟨stmt, hmem, hcatches⟩ := Stmt.catches_ofList h
  obtain ⟨id, -, rfl⟩ := List.mem_map.1 hmem
  rw [Arena.lookIn_trees] at hcatches
  exact htrees _ _ id hcatches

end Body

namespace Lowering

variable {s : Scope}

/-! ### Expressions -/

/-- The local that a leaf reads. -/
private def localLeaf : Expr → List Nat
  | .readLocal id _ => [id]
  | _ => []

private theorem passedOn_freeVars : PassedOn Target.Expr.freeVars where
  int := fun _ => rfl
  num := fun _ _ => Target.Expr.freeVarsList_eq _
  natives := fun _ _ => Target.Expr.freeVarsList_eq _
  invoke := fun base _ args => congrArg (base.freeVars ++ ·) (Target.Expr.freeVarsList_eq args)
  binary := fun _ _ _ => rfl
  negate := fun _ => rfl
  not := fun _ => rfl
  complement := fun _ => rfl
  castTo := fun _ _ => rfl
  template := fun _ _ => rfl

/-- A method reference names no variable of the function around. -/
private theorem always_capture_freeVars (interfaceMethod target : MethodRef) :
    Always (capture s interfaceMethod target) fun t => t.freeVars = [] := by
  intro st t st' hrun
  have hpassed := passedOn_freeVars.filter fun name => name ∉ (positional interfaceMethod.type.args).map Prod.fst
  have hparams : ∀ x ∈ positional interfaceMethod.type.args,
      (Target.Expr.var x.1).freeVars.filter (fun name => name ∉ (positional interfaceMethod.type.args).map Prod.fst) =
        [] := by
    intro x hx
    refine List.filter_eq_nil_iff.2 fun name hname => ?_
    obtain rfl := List.mem_singleton.1 hname
    simpa using ⟨x.2, hx⟩
  obtain ⟨className, params, ret, guard, call, result, rfl, hparams, hcall⟩ :=
    always_capture hpassed (fun _ => rfl) interfaceMethod target hparams st t st' hrun
  rw [Target.Expr.freeVars, hparams]
  exact hcall

private theorem keepsLeaves_freeVars (s : Scope) :
    KeepsLeaves s (fun id name => s.locals[id]? = some name) localLeaf Target.Expr.freeVars where
  toPassedOn := passedOn_freeVars
  readLocal := fun _ _ _ hname => .cons hname .nil
  caught := fun _ => .nil
  constant := by
    intro t ht
    cases t <;> first
      | rfl
      | exact ht.elim
  capture := always_capture_freeVars
  member := fun _ _ => rfl
  isOfType := fun _ _ => rfl
  construct := fun _ _ => Target.Expr.freeVarsList_eq _
  list := fun _ => Target.Expr.freeVarsList_eq _

/-- The names are locals of the scope. -/
private abbrev AreLocal (s : Scope) (names : List String) : Prop := ∀ name ∈ names, name ∈ s.locals

private theorem areLocal_of_leaves {ids : List Nat} {names : List String}
    (h : List.Forall₂ (fun id name => s.locals[id]? = some name) ids names) : AreLocal s names := by
  induction h with
  | nil => exact fun _ hname => absurd hname List.not_mem_nil
  | cons hname _ ih => exact List.forall_mem_cons.2 ⟨List.mem_of_getElem? hname, ih⟩

private theorem always_lowerExpr_areLocal (e : Expr) : Always (lowerExpr s e) fun t => AreLocal s t.freeVars :=
  fun st t st' hrun => areLocal_of_leaves ((keepsLeaves_freeVars s).always_lowerExpr e st t st' hrun)

private theorem always_lowerExprs_areLocal (es : List Expr) :
    Always (lowerExprs s es) fun ts => AreLocal s (ts.flatMap Target.Expr.freeVars) ∧ ts.length = es.length := by
  intro st ts st' hrun
  obtain ⟨hleaves, hlength⟩ := (keepsLeaves_freeVars s).always_lowerExprs es st ts st' hrun
  exact ⟨areLocal_of_leaves hleaves, hlength⟩

/-! ### Statements -/

/-- A lowered statement has the labels, jumps and clauses of its source, and its variables are locals. -/
private structure Resembles (s : Scope) (stmt : Stmt) (t : Target.Stmt) : Prop where
  vars : ∀ e ∈ t.exprs, AreLocal s e.freeVars
  labels : t.labels = stmt.labels
  jumps : t.jumps = stmt.jumps
  catches : t.catches = stmt.catches

variable {stmt first rest : Stmt} {t a b : Target.Stmt}

private theorem resembles_seq (ha : Resembles s first a) (hb : Resembles s rest b) :
    Resembles s (.seq first rest) (.seq a b) where
  vars := List.forall_mem_append.2 ⟨ha.vars, hb.vars⟩
  labels := congrArg₂ _ ha.labels hb.labels
  jumps := congrArg₂ _ ha.jumps hb.jumps
  catches := congrArg₂ _ ha.catches hb.catches

/-- A statement behind the guards that it asked for. -/
private theorem resembles_behind {holders : List String} (h : Resembles s stmt t) :
    Resembles s stmt (.seq (.ofList (holders.map .guard)) t) := by
  induction holders with
  | nil => exact ⟨h.vars, h.labels, h.jumps, h.catches⟩
  | cons holder holders ih => exact ⟨ih.vars, ih.labels, ih.jumps, ih.catches⟩

private theorem always_guarded_resembles (h : Resembles s stmt t) : Always (guarded s t) (Resembles s stmt) :=
  always_skip fun _ => always_pure (resembles_behind h)

private theorem always_assignment_resembles {target value : Target.Expr} (htarget : AreLocal s target.freeVars)
    (hvalue : AreLocal s value.freeVars) (hlabels : stmt.labels = []) (hjumps : stmt.jumps = [])
    (hcatches : stmt.catches = false) : Always (guarded s (assignment target value)) (Resembles s stmt) := by
  refine always_guarded_resembles ?_
  unfold assignment
  split
  · exact ⟨nofun, hlabels.symm, hjumps.symm, hcatches.symm⟩
  · exact ⟨List.forall_mem_cons.2 ⟨htarget, List.forall_mem_singleton.2 hvalue⟩, hlabels.symm, hjumps.symm,
      hcatches.symm⟩

private theorem always_lowerConstruct_resembles (id : Nat) (className : Name) (constructor : MethodRef)
    (args : List Expr) :
    Always (lowerConstruct s id className constructor args)
      (Resembles s (.construct id className constructor args)) := by
  unfold lowerConstruct
  refine (looks_localName id).always.bind fun name hname => always_skip fun _ => always_skip fun entry =>
    (looks_checkArity _ _).always.bind fun _ harity => (always_lowerExprs_areLocal args).bind fun ts hts => ?_
  have htarget : AreLocal s (Target.Expr.var name).freeVars :=
    List.forall_mem_singleton.2 (List.mem_of_getElem? hname)
  dsimp only
  split
  · refine always_skip fun _ => always_guarded_resembles ⟨?_, rfl, rfl, rfl⟩
    refine List.forall_mem_cons.2 ⟨htarget, List.forall_mem_singleton.2 ?_⟩
    rw [Target.Expr.freeVars, Target.Expr.freeVarsList_eq,
      passedOn_freeVars.read_nativeArgs _ (hts.2.trans harity)]
    exact hts.1
  · refine always_skip fun _ => always_guarded_resembles ⟨?_, rfl, rfl, rfl⟩
    refine List.forall_mem_cons.2 ⟨htarget, List.forall_mem_cons.2 ⟨nofun, List.forall_mem_singleton.2 ?_⟩⟩
    rw [Target.Expr.freeVars, Target.Expr.freeVarsList_eq]
    exact List.forall_mem_append.2 ⟨htarget, hts.1⟩

private theorem always_lowerStmt_resembles (s : Scope) (stmt : Stmt) :
    Always (lowerStmt s stmt) (Resembles s stmt) := by
  -- guards and dropped assignments have no label, jump or handler and read no local
  induction stmt with
  | missing id => rw [lowerStmt]; exact always_throw
  | skip => rw [lowerStmt]; exact always_pure ⟨nofun, rfl, rfl, rfl⟩
  | seq first rest ihfirst ihrest =>
    rw [lowerStmt]
    exact ihfirst.bind fun a ha => ihrest.bind_pure fun b hb => resembles_seq ha hb
  | line number => rw [lowerStmt]; exact always_pure ⟨nofun, rfl, rfl, rfl⟩
  | label id => rw [lowerStmt]; exact always_skip fun _ => always_pure ⟨nofun, rfl, rfl, rfl⟩
  | goto label => rw [lowerStmt]; exact always_skip fun _ => always_pure ⟨nofun, rfl, rfl, rfl⟩
  | gotoIf condition label =>
    rw [lowerStmt]
    exact always_skip fun _ => (always_lowerExpr_areLocal condition).bind fun c hc =>
      always_guarded_resembles ⟨List.forall_mem_singleton.2 hc, rfl, rfl, rfl⟩
  | jumpTable subject cases default =>
    rw [lowerStmt]
    exact always_skip fun _ => always_skip fun _ => (always_lowerExpr_areLocal subject).bind fun x hx =>
      always_guarded_resembles ⟨List.forall_mem_singleton.2 hx, rfl, rfl, rfl⟩
  | setLocal id value =>
    rw [lowerStmt]
    refine (looks_localName id).always.bind fun name hname => (always_lowerExpr_areLocal value).bind fun v hv => ?_
    have htarget : AreLocal s (Target.Expr.var name).freeVars :=
      List.forall_mem_singleton.2 (List.mem_of_getElem? hname)
    exact always_assignment_resembles htarget hv rfl rfl rfl
  | setField object field value =>
    rw [lowerStmt]
    refine (always_lowerExpr_areLocal object).bind fun base hbase => always_skip fun entry =>
      (always_lowerExpr_areLocal value).bind fun v hv => ?_
    have htarget : AreLocal s (Target.Expr.member base (s.fieldName entry)).freeVars := hbase
    exact always_assignment_resembles htarget hv rfl rfl rfl
  | setStatic field value =>
    rw [lowerStmt]
    refine ((keepsLeaves_freeVars s).always_lowerStaticField field).bind fun target hnone =>
      (always_lowerExpr_areLocal value).bind fun v hv => ?_
    have htarget : AreLocal s target.freeVars := by
      rw [hnone]
      exact nofun
    exact always_assignment_resembles htarget hv rfl rfl rfl
  | setElement array index value =>
    rw [lowerStmt]
    refine always_skip fun _ => always_skip fun _ => (always_lowerExpr_areLocal array).bind fun base hbase =>
      (always_lowerExpr_areLocal index).bind fun i hi => (always_lowerExpr_areLocal value).bind fun v hv =>
      always_guarded_resembles ⟨List.forall_mem_singleton.2 ?_, rfl, rfl, rfl⟩
    rw [passedOn_freeVars.invoke, passedOn_freeVars.read_asArray, List.flatMap_cons, List.flatMap_singleton]
    exact List.forall_mem_append.2 ⟨hbase, List.forall_mem_append.2 ⟨hi, hv⟩⟩
  | construct id className constructor args =>
    rw [lowerStmt]
    exact always_lowerConstruct_resembles id className constructor args
  | eval expr =>
    rw [lowerStmt]
    exact (always_lowerExpr_areLocal expr).bind fun x hx =>
      always_guarded_resembles ⟨List.forall_mem_singleton.2 hx, rfl, rfl, rfl⟩
  | ret value =>
    cases value with
    | none =>
      rw [lowerStmt]
      refine always_guarded_resembles ?_
      split
      · exact ⟨List.forall_mem_singleton.2 nofun, rfl, rfl, rfl⟩
      · exact ⟨nofun, rfl, rfl, rfl⟩
    | some value =>
      rw [lowerStmt]
      exact (always_lowerExpr_areLocal value).bind fun v hv =>
        always_guarded_resembles ⟨List.forall_mem_singleton.2 hv, rfl, rfl, rfl⟩
  | throw value =>
    rw [lowerStmt]
    exact (always_lowerExpr_areLocal value).bind fun v hv =>
      always_guarded_resembles ⟨List.forall_mem_singleton.2 hv, rfl, rfl, rfl⟩
  | tryCatch body handler ihbody ihhandler =>
    rw [lowerStmt]
    refine always_skip fun _ => ihbody.bind fun b hb => ihhandler.bind_pure fun h hh => resembles_behind ?_
    obtain ⟨hvars, hlabels, hjumps, -⟩ := resembles_seq hb hh
    exact ⟨hvars, hlabels, hjumps, rfl⟩
  | rethrow => rw [lowerStmt]; exact always_guarded_resembles ⟨List.forall_mem_singleton.2 nofun, rfl, rfl, rfl⟩
  | «when» condition body ih | loop condition body ih | switch condition body ih =>
    rw [lowerStmt]
    exact (always_lowerExpr_areLocal condition).bind fun c hc => always_skip fun _ => ih.bind_pure fun b hb =>
      resembles_behind ⟨List.forall_mem_cons.2 ⟨hc, hb.vars⟩, hb.labels, hb.jumps, hb.catches⟩
  | ite condition thenBranch elseBranch ihthen ihelse =>
    rw [lowerStmt]
    refine (always_lowerExpr_areLocal condition).bind fun c hc => always_skip fun _ => ihthen.bind fun a ha =>
      ihelse.bind_pure fun b hb => resembles_behind ?_
    obtain ⟨hvars, hlabels, hjumps, hcatches⟩ := resembles_seq ha hb
    exact ⟨List.forall_mem_cons.2 ⟨hc, hvars⟩, hlabels, hjumps, hcatches⟩
  | arm values body ih =>
    rw [lowerStmt]
    split
    · exact always_skip fun _ => ih.bind_pure fun b hb => ⟨hb.vars, hb.labels, hb.jumps, hb.catches⟩
    · exact ih.bind_pure fun b hb => ⟨hb.vars, hb.labels, hb.jumps, hb.catches⟩
  | otherwise body ih =>
    rw [lowerStmt]
    exact ih.bind_pure fun b hb => ⟨hb.vars, hb.labels, hb.jumps, hb.catches⟩
  | exitLoop => rw [lowerStmt]; exact always_guarded_resembles ⟨nofun, rfl, rfl, rfl⟩
  | nextLoop => rw [lowerStmt]; exact always_guarded_resembles ⟨nofun, rfl, rfl, rfl⟩

/-! ### Bodies -/

variable {p : Program} {options : GenOptions} {site : BodySite} {body : Body} {unit : UnitState}
  {result : Target.Body}

private theorem resembles_of_lowerBody (h : (lowerBody p options site body unit).1 = .ok result) :
    Resembles (scopeOf p options site body) body.tree result.stmts := by
  obtain ⟨last, hrun⟩ := runs_of_lowerBody h
  exact always_lowerStmt_resembles _ _ _ _ _ hrun

/-- The slot for caught values is declared when the body has a statement that traps. -/
private theorem count_caughtSlot (h : (lowerBody p options site body unit).1 = .ok result) :
    (result.decls.map Target.VarDecl.name).count Target.caughtSlot = if body.hasTraps then 1 else 0 := by
  have hlocals : Target.caughtSlot ∉ result.locals.map Target.VarDecl.name := by
    rw [(decls_of_lowerBody h).1]
    intro hmem
    obtain ⟨-, hdecls, -⟩ := declareLocals_spec (p := p) site.params.reverse body.locals.toList
    exact caughtSlot_not_mem_declareLocals _ _ (hdecls _ hmem).2
  rw [Target.Body.decls, List.map_append, List.count_append, List.count_eq_zero.2 hlocals, (decls_of_lowerBody h).2]
  split
  · exact rfl
  · exact rfl

/-- Every variable that a lowered body names is a parameter or declared once. -/
private theorem declared_of_mem_freeVars (h : (lowerBody p options site body unit).1 = .ok result) {name : String}
    (hname : name ∈ result.stmts.freeVars) :
    name ∈ site.params.map Prod.fst ∨ (result.decls.map Target.VarDecl.name).count name = 1 := by
  obtain ⟨hnodup, hdecls, hnames⟩ := declareLocals_spec (p := p) site.params.reverse body.locals.toList
  obtain ⟨e, he, hname⟩ := List.mem_flatMap.1 hname
  have hlocal : name ∈ (declareLocals p site.params.reverse body.locals.toList).1 :=
    (resembles_of_lowerBody h).vars e he name hname
  rcases hnames name hlocal with hparam | hdecl
  · left
    rwa [List.map_reverse, List.mem_reverse] at hparam
  · right
    have hne : name ≠ Target.caughtSlot := by
      rintro rfl
      exact caughtSlot_not_mem_declareLocals _ _ hlocal
    rw [← (decls_of_lowerBody h).1] at hdecl hnodup
    rw [Target.Body.decls, List.map_append, List.count_append, hnodup.count, if_pos hdecl]
    have hslot : name ∉ (if result.catches then [Target.caughtDecl] else []).map Target.VarDecl.name := by
      split
      · exact mt List.mem_singleton.1 hne
      · exact List.not_mem_nil
    rw [List.count_eq_zero.2 hslot]

/-- A lowered body is closed exactly when an expression reads the slot for caught values only where a statement of the
body traps, and every label that is jumped to stands in one place. -/
theorem closed_of_lowerBody_iff (h : (lowerBody p options site body unit).1 = .ok result) :
    result.IsClosed (site.params.map Prod.fst) ↔
      (result.stmts.ReadsCaught → body.hasTraps = true) ∧
        ∀ id ∈ body.tree.jumps, body.tree.labels.count id = 1 := by
  have hresembles := resembles_of_lowerBody h
  -- the slot is declared once, exactly for a body with traps
  have hslot : (result.decls.map Target.VarDecl.name).count Target.caughtSlot = 1 ↔ body.hasTraps = true := by
    rw [count_caughtSlot h]
    split
    · simp [*]
    · simp [*]
  constructor
  · intro hclosed
    refine ⟨fun hreads => hslot.1 (hclosed.slot (.inr hreads)), fun id hid => ?_⟩
    rw [← hresembles.labels]
    rw [← hresembles.jumps] at hid
    exact hclosed.jumps id hid
  · rintro ⟨hreads, hlabels⟩
    refine ⟨fun name hname => declared_of_mem_freeVars h hname, fun hused => hslot.2 ?_, fun id hid => ?_⟩
    · rcases hused with hcatches | hread
      · rw [hresembles.catches] at hcatches
        exact Body.hasTraps_of_catches hcatches
      · exact hreads hread
    · rw [hresembles.labels]
      rw [hresembles.jumps] at hid
      exact hlabels id hid

section Bodies

private def staticSite : BodySite := ⟨[("n", .prim .int)], false, none, .own⟩

private def withJumps : GenOptions := { nativeGoto := true }

/-- Assigns to a local in a `try`, reads what is caught, and starts again. -/
private def retryBody : Body where
  exprs := #[⟨.readLocal 0, .prim .int⟩, ⟨.caught, .ref "java.lang.Throwable"⟩]
  stmts := #[.label 0, .setLocal 1 0, .eval 1, .tryCatch 1 2, .goto 0]
  stmtLists := #[0, 3, 4]
  locals := #[⟨"n", .prim .int⟩, ⟨"total", .prim .int⟩]
  labelCount := 1
  root := ⟨0, 3⟩

private def retryStmts : Target.Stmt :=
  .seq (.label 0) (.seq
    (.seq .skip (.tryCatch (.seq .skip (.assign (.var "total") (.var "n"))) (.seq .skip (.eval .caught))))
    (.seq (.goto 0) .skip))

theorem closed_of_lowerBody_retry :
    (lowerBody .empty withJumps staticSite retryBody {}).1 = .ok ⟨[⟨"total", "Int", "0"⟩], true, retryStmts⟩ ∧
      Target.Body.IsClosed ["n"] ⟨[⟨"total", "Int", "0"⟩], true, retryStmts⟩ := by
  have hlowered : (lowerBody .empty withJumps staticSite retryBody {}).1 =
      .ok ⟨[⟨"total", "Int", "0"⟩], true, retryStmts⟩ := by
    with_unfolding_all rfl
  have htraps : retryBody.hasTraps = true := by with_unfolding_all rfl
  have hjumps : retryBody.tree.jumps = [0] := by with_unfolding_all rfl
  have hlabels : retryBody.tree.labels = [0] := by with_unfolding_all rfl
  refine ⟨hlowered, (closed_of_lowerBody_iff hlowered).2 ⟨fun _ => htraps, ?_⟩⟩
  rw [hjumps, hlabels]
  decide

/-- Returns the caught value of no clause. -/
private def lostBody : Body where
  exprs := #[⟨.caught, .ref "java.lang.Throwable"⟩]
  stmts := #[.ret (some 0)]
  stmtLists := #[0]
  root := ⟨0, 1⟩

/-- Jumps to a label that is counted but stands nowhere. -/
private def lostJumpBody : Body where
  stmts := #[.goto 0]
  stmtLists := #[0]
  labelCount := 1
  root := ⟨0, 1⟩

/-- The slot is not declared where only an expression uses it, and a jump may lead nowhere. -/
theorem lowerBody_not_closed :
    (∃ result, (lowerBody .empty {} staticSite lostBody {}).1 = .ok result ∧ ¬result.IsClosed ["n"]) ∧
      ∃ result, (lowerBody .empty withJumps staticSite lostJumpBody {}).1 = .ok result ∧
        ¬result.IsClosed ["n"] := by
  have hlost : (lowerBody .empty {} staticSite lostBody {}).1 =
      .ok ⟨[], false, .seq (.seq .skip (.ret (some .caught))) .skip⟩ := by
    with_unfolding_all rfl
  have hlostJump : (lowerBody .empty withJumps staticSite lostJumpBody {}).1 =
      .ok ⟨[], false, .seq (.goto 0) .skip⟩ := by
    with_unfolding_all rfl
  refine ⟨⟨_, hlost, fun hclosed => ?_⟩, ⟨_, hlostJump, fun hclosed => ?_⟩⟩
  · exact absurd (hclosed.slot (.inr ⟨.caught, List.mem_cons_self, List.cons_ne_nil _ _⟩)) (by decide)
  · exact absurd (hclosed.jumps 0 List.mem_cons_self) (by decide)

end Bodies

end Lowering

end HaxeBackend
