import Mathlib.Data.List.Forall2
import HaxeBackend.Proofs.Model.Building

/-!
# Bodies of listed nodes

A node whose positions are listed becomes a node with a range of the shared positions.  Lists of later nodes are put
behind that range, so a body that is made of listed nodes has each of them at its place, with the positions that it
lists (`listedExpr?_ofLists`, `listedStmt?_ofLists`).
-/

namespace HaxeBackend

namespace Body

variable {b b' b'' : Body}

/-- The expression at a position, with the positions that it lists. -/
def listedExpr? (b : Body) (id : Nat) : Option (ExprNode (List Nat)) :=
  (b.expr? id).map fun node => ⟨node.kind.mapList b.exprList, node.type⟩

/-- The statement at a position, with the positions that it lists. -/
def listedStmt? (b : Body) (id : Nat) : Option (StmtKind (List Nat)) :=
  (b.stmt? id).map fun kind => kind.mapList b.exprList b.stmtList

/-- The node is the listed one with a range for its list. -/
def SpellsExpr (b : Body) (node : ExprNode IdRange) (listed : ExprNode (List Nat)) : Prop :=
  ∃ range, node = ⟨listed.kind.mapList fun _ => range, listed.type⟩ ∧
    ∀ ids ∈ listed.kind.list?, b.Has (.exprList range ids)

/-- The statement is the listed one with a range for its list. -/
def SpellsStmt (b : Body) (kind : StmtKind IdRange) (listed : StmtKind (List Nat)) : Prop :=
  ∃ exprs stmts, kind = listed.mapList (fun _ => exprs) (fun _ => stmts) ∧
    (∀ ids ∈ listed.exprList?, b.Has (.exprList exprs ids)) ∧ ∀ ids ∈ listed.stmtList?, b.Has (.stmtList stmts ids)

theorem SpellsExpr.of_extends {node : ExprNode IdRange} {listed : ExprNode (List Nat)} (h : b.SpellsExpr node listed)
    (hextends : b.Extends b') : b'.SpellsExpr node listed := by
  obtain ⟨range, hnode, hlist⟩ := h
  exact ⟨range, hnode, fun ids hids => (hlist ids hids).of_extends hextends⟩

theorem SpellsStmt.of_extends {kind : StmtKind IdRange} {listed : StmtKind (List Nat)} (h : b.SpellsStmt kind listed)
    (hextends : b.Extends b') : b'.SpellsStmt kind listed := by
  obtain ⟨exprs, stmts, hkind, hexprs, hstmts⟩ := h
  exact ⟨exprs, stmts, hkind, fun ids hids => (hexprs ids hids).of_extends hextends,
    fun ids hids => (hstmts ids hids).of_extends hextends⟩

theorem SpellsExpr.eq {node : ExprNode IdRange} {listed : ExprNode (List Nat)} (h : b.SpellsExpr node listed) :
    (⟨node.kind.mapList b.exprList, node.type⟩ : ExprNode (List Nat)) = listed := by
  obtain ⟨range, rfl, hlist⟩ := h
  rw [ExprKind.mapList_mapList, ExprKind.mapList_eq_self fun ids hids => (hlist ids hids).2]

theorem SpellsStmt.eq {kind : StmtKind IdRange} {listed : StmtKind (List Nat)} (h : b.SpellsStmt kind listed) :
    kind.mapList b.exprList b.stmtList = listed := by
  obtain ⟨exprs, stmts, rfl, hexprs, hstmts⟩ := h
  rw [StmtKind.mapList_mapList,
    StmtKind.mapList_eq_self (fun ids hids => (hexprs ids hids).2) fun ids hids => (hstmts ids hids).2]

/-- The second body has what the first one has and then the listed nodes, in their order. -/
structure Lists (b b' : Body) (exprs : List (ExprNode (List Nat))) (stmts : List (StmtKind (List Nat))) : Prop where
  extending : b.Extends b'
  locals : b'.locals = b.locals
  exprs : ∃ nodes, b'.exprs.toList = b.exprs.toList ++ nodes ∧ List.Forall₂ b'.SpellsExpr nodes exprs
  stmts : ∃ kinds, b'.stmts.toList = b.stmts.toList ++ kinds ∧ List.Forall₂ b'.SpellsStmt kinds stmts

theorem Lists.refl (b : Body) : b.Lists b [] [] where
  extending := .refl b
  locals := rfl
  exprs := ⟨[], (List.append_nil _).symm, .nil⟩
  stmts := ⟨[], (List.append_nil _).symm, .nil⟩

theorem Lists.trans {exprs exprs' : List (ExprNode (List Nat))} {stmts stmts' : List (StmtKind (List Nat))}
    (h : b.Lists b' exprs stmts) (h' : b'.Lists b'' exprs' stmts') :
    b.Lists b'' (exprs ++ exprs') (stmts ++ stmts') where
  extending := h.extending.trans h'.extending
  locals := h'.locals.trans h.locals
  exprs := by
    obtain ⟨nodes, heq, hnodes⟩ := h.exprs
    obtain ⟨nodes', heq', hnodes'⟩ := h'.exprs
    refine ⟨nodes ++ nodes', by rw [heq', heq, List.append_assoc], List.rel_append ?_ hnodes'⟩
    exact hnodes.imp fun _ _ hnode => hnode.of_extends h'.extending
  stmts := by
    obtain ⟨kinds, heq, hkinds⟩ := h.stmts
    obtain ⟨kinds', heq', hkinds'⟩ := h'.stmts
    refine ⟨kinds ++ kinds', by rw [heq', heq, List.append_assoc], List.rel_append ?_ hkinds'⟩
    exact hkinds.imp fun _ _ hkind => hkind.of_extends h'.extending

theorem lists_addExpr {range : IdRange} {listed : ExprNode (List Nat)}
    (h : ∀ ids ∈ listed.kind.list?, b.Has (.exprList range ids)) :
    b.Lists (b.addExpr ⟨listed.kind.mapList fun _ => range, listed.type⟩).2 [listed] [] where
  extending := extends_addExpr _ _
  locals := rfl
  exprs := by
    refine ⟨_, Array.toList_push, .cons ⟨range, rfl, fun ids hids => ?_⟩ .nil⟩
    exact (h ids hids).of_extends (extends_addExpr _ _)
  stmts := ⟨[], (List.append_nil _).symm, .nil⟩

theorem lists_addStmt {exprs stmts : IdRange} {listed : StmtKind (List Nat)}
    (hexprs : ∀ ids ∈ listed.exprList?, b.Has (.exprList exprs ids))
    (hstmts : ∀ ids ∈ listed.stmtList?, b.Has (.stmtList stmts ids)) :
    b.Lists (b.addStmt (listed.mapList (fun _ => exprs) fun _ => stmts)).2 [] [listed] where
  extending := extends_addStmt _ _
  locals := rfl
  exprs := ⟨[], (List.append_nil _).symm, .nil⟩
  stmts := by
    refine ⟨_, Array.toList_push, .cons ⟨exprs, stmts, rfl, fun ids hids => ?_, fun ids hids => ?_⟩ .nil⟩
    · exact (hexprs ids hids).of_extends (extends_addStmt _ _)
    · exact (hstmts ids hids).of_extends (extends_addStmt _ _)

private theorem Extends.lists (h : b.Extends b') (hlocals : b'.locals = b.locals) (hexprs : b'.exprs = b.exprs)
    (hstmts : b'.stmts = b.stmts) : b.Lists b' [] [] where
  extending := h
  locals := hlocals
  exprs := ⟨[], by rw [hexprs, List.append_nil], .nil⟩
  stmts := ⟨[], by rw [hstmts, List.append_nil], .nil⟩

theorem lists_addExprList (b : Body) (ids : List Nat) : b.Lists (b.addExprList ids).2 [] [] :=
  (b.extends_addExprList ids).lists rfl rfl rfl

theorem lists_addStmtList (b : Body) (ids : List Nat) : b.Lists (b.addStmtList ids).2 [] [] :=
  (b.extends_addStmtList ids).lists rfl rfl rfl

/-! ### Listed nodes one by one -/

private theorem forall_of_eq_some {α : Type} {P : α → Prop} {x : Option α} {a : α} (hx : x = some a) (h : P a) :
    ∀ a' ∈ x, P a' := by
  intro a' ha'
  rw [hx] at ha'
  exact Option.some_inj.1 ha' ▸ h

private theorem forall_of_eq_none {α : Type} {P : α → Prop} {x : Option α} (hx : x = none) : ∀ a ∈ x, P a := by
  intro a ha
  rw [hx] at ha
  cases ha

theorem extends_addListedExpr (b : Body) (listed : ExprNode (List Nat)) : b.Extends (b.addListedExpr listed) := by
  unfold addListedExpr
  split
  · exact (b.extends_addExprList _).trans (extends_addExpr _ _)
  · exact b.extends_addExpr _

theorem extends_addListedStmt (b : Body) (listed : StmtKind (List Nat)) : b.Extends (b.addListedStmt listed) := by
  unfold addListedStmt
  split
  · exact (b.extends_addExprList _).trans (extends_addStmt _ _)
  · exact (b.extends_addStmtList _).trans (extends_addStmt _ _)
  · exact b.extends_addStmt _

theorem lists_addListedExpr {listed : ExprNode (List Nat)} (h : (b.addListedExpr listed).ListsFit) :
    b.Lists (b.addListedExpr listed) [listed] [] := by
  revert h
  unfold addListedExpr
  split
  · rename_i ids hids
    intro h
    have hhas : (b.addExprList ids).2.Has (.exprList (b.addExprList ids).1 ids) := has_addExprList h.exprLists
    exact (b.lists_addExprList ids).trans (lists_addExpr (forall_of_eq_some hids hhas))
  · rename_i hnone
    exact fun _ => lists_addExpr (forall_of_eq_none hnone)

/-- No kind of statement has both kinds of lists. -/
private theorem stmtList?_of_exprList? {σ : Type} {kind : StmtKind σ} {ids : σ} (h : kind.exprList? = some ids) :
    kind.stmtList? = none := by
  cases kind with
  | construct => rfl
  | _ => cases h

theorem lists_addListedStmt {listed : StmtKind (List Nat)} (h : (b.addListedStmt listed).ListsFit) :
    b.Lists (b.addListedStmt listed) [] [listed] := by
  revert h
  unfold addListedStmt
  split
  · rename_i ids hids
    intro h
    have hhas : (b.addExprList ids).2.Has (.exprList (b.addExprList ids).1 ids) := has_addExprList h.exprLists
    have hnone := stmtList?_of_exprList? hids
    exact (b.lists_addExprList ids).trans (lists_addStmt (forall_of_eq_some hids hhas) (forall_of_eq_none hnone))
  · rename_i ids hnone hids
    intro h
    have hhas : (b.addStmtList ids).2.Has (.stmtList (b.addStmtList ids).1 ids) := has_addStmtList h.stmtLists
    exact (b.lists_addStmtList ids).trans (lists_addStmt (forall_of_eq_none hnone) (forall_of_eq_some hids hhas))
  · rename_i hnone hnone'
    exact fun _ => lists_addStmt (forall_of_eq_none hnone) (forall_of_eq_none hnone')

/-! ### Whole bodies -/

theorem lists_foldl_addListedExpr {listed : List (ExprNode (List Nat))} (h : (listed.foldl addListedExpr b).ListsFit) :
    b.Lists (listed.foldl addListedExpr b) listed [] := by
  induction listed generalizing b with
  | nil => exact .refl b
  | cons first listed ih =>
    have hfirst := lists_addListedExpr (h.of_extends (extends_foldl extends_addListedExpr _ listed))
    exact hfirst.trans (ih h)

theorem lists_foldl_addListedStmt {listed : List (StmtKind (List Nat))} (h : (listed.foldl addListedStmt b).ListsFit) :
    b.Lists (listed.foldl addListedStmt b) [] listed := by
  induction listed generalizing b with
  | nil => exact .refl b
  | cons first listed ih =>
    have hfirst := lists_addListedStmt (h.of_extends (extends_foldl extends_addListedStmt _ listed))
    exact hfirst.trans (ih h)

variable {locals : List LocalVar} {labelCount : Nat} {exprs : List (ExprNode (List Nat))}
  {stmts : List (StmtKind (List Nat))} {root : List Nat}

/-- A body of listed nodes has them all, in their order. -/
theorem lists_ofLists (h : (ofLists locals labelCount exprs stmts root).ListsFit) :
    Lists { locals := locals.toArray, labelCount := labelCount } (ofLists locals labelCount exprs stmts root)
      exprs stmts := by
  have hstmts := h.of_extends (extends_finish _ root)
  have hexprs := hstmts.of_extends (extends_foldl extends_addListedStmt _ stmts)
  have hnodes := (lists_foldl_addListedExpr hexprs).trans (lists_foldl_addListedStmt hstmts)
  have hfinish := (extends_finish (stmts.foldl addListedStmt (exprs.foldl addListedExpr
    { locals := locals.toArray, labelCount := labelCount })) root).lists rfl rfl rfl
  have hall := hnodes.trans hfinish
  rw [List.append_nil, List.append_nil, List.append_nil, List.nil_append] at hall
  exact hall

theorem rootList_ofLists (h : (ofLists locals labelCount exprs stmts root).ListsFit) :
    (ofLists locals labelCount exprs stmts root).rootList = root :=
  (has_addStmtList h.stmtLists).2

theorem local?_ofLists (h : (ofLists locals labelCount exprs stmts root).ListsFit) (k : Nat) :
    (ofLists locals labelCount exprs stmts root).local? k = locals[k]? := by
  rw [local?, (lists_ofLists h).locals, List.getElem?_toArray]

theorem listedExpr?_ofLists (h : (ofLists locals labelCount exprs stmts root).ListsFit) (k : Nat) :
    (ofLists locals labelCount exprs stmts root).listedExpr? k = exprs[k]? := by
  obtain ⟨nodes, heq, hnodes⟩ := (lists_ofLists h).exprs
  have hlisted := List.forall₂_map_left_iff.2 (hnodes.imp fun _ _ hnode => hnode.eq)
  rw [List.forall₂_eq_eq_eq] at hlisted
  rw [listedExpr?, expr?, ← Array.getElem?_toList, heq, ← List.getElem?_map]
  exact congrArg (·[k]?) hlisted

theorem listedStmt?_ofLists (h : (ofLists locals labelCount exprs stmts root).ListsFit) (k : Nat) :
    (ofLists locals labelCount exprs stmts root).listedStmt? k = stmts[k]? := by
  obtain ⟨kinds, heq, hkinds⟩ := (lists_ofLists h).stmts
  have hlisted := List.forall₂_map_left_iff.2 (hkinds.imp fun _ _ hkind => hkind.eq)
  rw [List.forall₂_eq_eq_eq] at hlisted
  rw [listedStmt?, stmt?, ← Array.getElem?_toList, heq, ← List.getElem?_map]
  exact congrArg (·[k]?) hlisted

end Body

end HaxeBackend
