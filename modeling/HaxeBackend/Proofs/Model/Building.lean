import HaxeBackend.Model.Body.Builder

/-!
# Bodies that are built

A body that is being built only grows at the ends of its arrays (`extends_step`), so what a body has it keeps
(`Has.of_extends`).  As long as positions can be told apart, a body holds exactly what was put there, everything at the
position that was given out for it (`gains_after`), and the finished body has it all and nothing else
(`isFaithful_ofSteps`).
-/

namespace HaxeBackend

/-- What is done with a body that is being built. -/
inductive BuildStep where
  | addLocal (v : LocalVar)
  | addLabel
  | addExpr (node : ExprNode IdRange)
  | addStmt (kind : StmtKind IdRange)
  | addExprList (ids : List Nat)
  | addStmtList (ids : List Nat)
  | addBlock (ids : List Nat)
  | addInt (value : Int32)
  | addLong (value : Int64)
  | addBool (value : Bool)
  | addNull (type : Ty)
  | addString (text : Name) (type : Ty)
  | addReadLocal (id : Nat)

namespace Body

/-- What was put into a body, with the position or the range that was given out for it. -/
inductive Entry where
  | localVar (id : Nat) (v : LocalVar)
  | expr (id : Nat) (node : ExprNode IdRange)
  | stmt (id : Nat) (kind : StmtKind IdRange)
  | exprList (range : IdRange) (ids : List Nat)
  | stmtList (range : IdRange) (ids : List Nat)
  deriving DecidableEq

namespace Entry

def localVar? : Entry → Option (LocalVar × Nat)
  | localVar id v => some (v, id)
  | _ => none

def expr? : Entry → Option (ExprNode IdRange × Nat)
  | expr id node => some (node, id)
  | _ => none

def stmt? : Entry → Option (StmtKind IdRange × Nat)
  | stmt id kind => some (kind, id)
  | _ => none

/-- The positions that are listed for expressions. -/
def exprIds : Entry → List Nat
  | exprList _ ids => ids
  | _ => []

/-- The positions that are listed for statements. -/
def stmtIds : Entry → List Nat
  | stmtList _ ids => ids
  | _ => []

end Entry

variable {b b' b'' : Body}

/-- The position or the range leads to what it was given out for. -/
def Has (b : Body) : Entry → Prop
  | .localVar id v => b.local? id = some v
  | .expr id node => b.expr? id = some node
  | .stmt id kind => b.stmt? id = some kind
  | .exprList range ids => range.start + range.length ≤ b.exprLists.size ∧ b.exprList range = ids
  | .stmtList range ids => range.start + range.length ≤ b.stmtLists.size ∧ b.stmtList range = ids

/-! ### Growth -/

/-- The second body has everything where the first one has it, and perhaps more behind. -/
structure Extends (b b' : Body) : Prop where
  locals : b.locals.toList <+: b'.locals.toList
  exprs : b.exprs.toList <+: b'.exprs.toList
  stmts : b.stmts.toList <+: b'.stmts.toList
  exprLists : b.exprLists.toList <+: b'.exprLists.toList
  stmtLists : b.stmtLists.toList <+: b'.stmtLists.toList

theorem Extends.refl (b : Body) : b.Extends b where
  locals := List.prefix_rfl
  exprs := List.prefix_rfl
  stmts := List.prefix_rfl
  exprLists := List.prefix_rfl
  stmtLists := List.prefix_rfl

theorem Extends.trans (h : b.Extends b') (h' : b'.Extends b'') : b.Extends b'' where
  locals := h.locals.trans h'.locals
  exprs := h.exprs.trans h'.exprs
  stmts := h.stmts.trans h'.stmts
  exprLists := h.exprLists.trans h'.exprLists
  stmtLists := h.stmtLists.trans h'.stmtLists

theorem extends_foldl {α : Type} {f : Body → α → Body} (h : ∀ (b : Body) x, b.Extends (f b x)) (b : Body)
    (xs : List α) : b.Extends (xs.foldl f b) := by
  induction xs generalizing b with
  | nil => exact .refl b
  | cons x xs ih => exact (h b x).trans (ih _)

/-- What an array has at a position, a longer one has there too. -/
private theorem getElem?_of_prefix {α : Type} {xs ys : Array α} {a : α} {id : Nat} (h : xs.toList <+: ys.toList)
    (ha : xs[id]? = some a) : ys[id]? = some a := by
  obtain ⟨more, hmore⟩ := h
  obtain ⟨hlt, -⟩ := Array.getElem?_eq_some_iff.1 ha
  rw [← Array.getElem?_toList] at ha ⊢
  rw [← hmore, List.getElem?_append_left (by simpa using hlt), ha]

/-- A range that lies in the stored positions has them in order. -/
private theorem slice_eq {range : IdRange} {ids : Array Nat} (h : range.start + range.length ≤ ids.size) :
    range.slice ids = (ids.toList.drop range.start).take range.length := by
  rw [IdRange.slice, if_pos h, Array.toList_extract, List.extract_eq_take_drop, Nat.add_sub_cancel_left]

private theorem slice_eq_nil {range : IdRange} {ids : Array Nat} (h : ids.size < range.start + range.length) :
    range.slice ids = [] := if_neg (Nat.not_le_of_lt h)

/-- Later positions do not change what a range has. -/
private theorem slice_of_prefix {range : IdRange} {ids ids' : Array Nat} (h : ids.toList <+: ids'.toList)
    (hrange : range.start + range.length ≤ ids.size) :
    range.start + range.length ≤ ids'.size ∧ range.slice ids' = range.slice ids := by
  have hlength : ids.size ≤ ids'.size := h.length_le
  have hrange' := Nat.le_trans hrange hlength
  obtain ⟨more, hmore⟩ := h
  rw [← Array.length_toList] at hrange
  refine ⟨hrange', ?_⟩
  rw [slice_eq hrange', slice_eq hrange, ← hmore, List.drop_append_of_le_length (by omega),
    List.take_append_of_le_length (by rw [List.length_drop]; omega)]

/-- What a body has, it keeps. -/
theorem Has.of_extends {e : Entry} (he : b.Has e) (h : b.Extends b') : b'.Has e := by
  cases e with
  | localVar id v => exact getElem?_of_prefix h.locals he
  | expr id node => exact getElem?_of_prefix h.exprs he
  | stmt id kind => exact getElem?_of_prefix h.stmts he
  | exprList range ids =>
    obtain ⟨hrange, heq⟩ := slice_of_prefix h.exprLists he.1
    exact ⟨hrange, heq.trans he.2⟩
  | stmtList range ids =>
    obtain ⟨hrange, heq⟩ := slice_of_prefix h.stmtLists he.1
    exact ⟨hrange, heq.trans he.2⟩

/-! ### Operations -/

theorem extends_addLocal (b : Body) (v : LocalVar) : b.Extends (b.addLocal v).2 :=
  { Extends.refl b with locals := by simp [addLocal] }

theorem extends_addLabel (b : Body) : b.Extends b.addLabel.2 := { Extends.refl b with }

theorem extends_addExpr (b : Body) (node : ExprNode IdRange) : b.Extends (b.addExpr node).2 :=
  { Extends.refl b with exprs := by simp [addExpr] }

theorem extends_addStmt (b : Body) (kind : StmtKind IdRange) : b.Extends (b.addStmt kind).2 :=
  { Extends.refl b with stmts := by simp [addStmt] }

theorem extends_addExprList (b : Body) (ids : List Nat) : b.Extends (b.addExprList ids).2 :=
  { Extends.refl b with exprLists := by simp [addExprList] }

theorem extends_addStmtList (b : Body) (ids : List Nat) : b.Extends (b.addStmtList ids).2 :=
  { Extends.refl b with stmtLists := by simp [addStmtList] }

theorem extends_finish (b : Body) (root : List Nat) : b.Extends (b.finish root) :=
  { b.extends_addStmtList root with }

/-- The range of positions that are put at the end. -/
private theorem slice_nextRange {ids : Array Nat} {more : List Nat} (h : (ids ++ more).size < UInt32.size) :
    (nextRange ids.size more.length).start + (nextRange ids.size more.length).length ≤ (ids ++ more).size ∧
      (nextRange ids.size more.length).slice (ids ++ more) = more := by
  have hsize : (ids ++ more).size = ids.size + more.length := by
    rw [← Array.length_toList, Array.toList_appendList, List.length_append, Array.length_toList]
  rw [hsize] at h
  rw [nextRange_eq h]
  have hle : ids.size + more.length ≤ (ids ++ more).size := Nat.le_of_eq hsize.symm
  refine ⟨hle, ?_⟩
  rw [slice_eq hle, Array.toList_appendList, ← Array.length_toList, List.drop_left, List.take_length]

/-- A list is at its range, as long as there is room for it. -/
theorem has_addExprList {ids : List Nat} (h : (b.addExprList ids).2.exprLists.size < UInt32.size) :
    (b.addExprList ids).2.Has (.exprList (b.addExprList ids).1 ids) := slice_nextRange h

theorem has_addStmtList {ids : List Nat} (h : (b.addStmtList ids).2.stmtLists.size < UInt32.size) :
    (b.addStmtList ids).2.Has (.stmtList (b.addStmtList ids).1 ids) := slice_nextRange h

/-! ### What a body holds -/

/-- Fewer positions are listed than there are positions. -/
structure ListsFit (b : Body) : Prop where
  exprLists : b.exprLists.size < UInt32.size
  stmtLists : b.stmtLists.size < UInt32.size

/-- There are fewer things of each kind than positions. -/
structure Fits (b : Body) : Prop extends ListsFit b where
  locals : b.locals.size < UInt32.size
  exprs : b.exprs.size < UInt32.size
  stmts : b.stmts.size < UInt32.size

theorem ListsFit.of_extends (h : b'.ListsFit) (hextends : b.Extends b') : b.ListsFit where
  exprLists := Nat.lt_of_le_of_lt hextends.exprLists.length_le h.exprLists
  stmtLists := Nat.lt_of_le_of_lt hextends.stmtLists.length_le h.stmtLists

theorem Fits.of_extends (h : b'.Fits) (hextends : b.Extends b') : b.Fits where
  toListsFit := h.toListsFit.of_extends hextends
  locals := Nat.lt_of_le_of_lt hextends.locals.length_le h.locals
  exprs := Nat.lt_of_le_of_lt hextends.exprs.length_le h.exprs
  stmts := Nat.lt_of_le_of_lt hextends.stmts.length_le h.stmts

/-- The second body has what the first one has and then the new entries, in their order, and what was given out for
them leads to them. -/
structure Gains (b b' : Body) (new : List Entry) : Prop where
  extending : b.Extends b'
  locals : b'.locals.toList.zipIdx = b.locals.toList.zipIdx ++ new.filterMap Entry.localVar?
  exprs : b'.exprs.toList.zipIdx = b.exprs.toList.zipIdx ++ new.filterMap Entry.expr?
  stmts : b'.stmts.toList.zipIdx = b.stmts.toList.zipIdx ++ new.filterMap Entry.stmt?
  exprLists : b'.exprLists.toList = b.exprLists.toList ++ new.flatMap Entry.exprIds
  stmtLists : b'.stmtLists.toList = b.stmtLists.toList ++ new.flatMap Entry.stmtIds
  has : ∀ e ∈ new, b'.Has e

theorem Gains.refl (b : Body) : b.Gains b [] where
  extending := .refl b
  locals := (List.append_nil _).symm
  exprs := (List.append_nil _).symm
  stmts := (List.append_nil _).symm
  exprLists := (List.append_nil _).symm
  stmtLists := (List.append_nil _).symm
  has _ he := nomatch he

theorem Gains.trans {new new' : List Entry} (h : b.Gains b' new) (h' : b'.Gains b'' new') :
    b.Gains b'' (new ++ new') where
  extending := h.extending.trans h'.extending
  locals := by rw [h'.locals, h.locals, List.filterMap_append, List.append_assoc]
  exprs := by rw [h'.exprs, h.exprs, List.filterMap_append, List.append_assoc]
  stmts := by rw [h'.stmts, h.stmts, List.filterMap_append, List.append_assoc]
  exprLists := by rw [h'.exprLists, h.exprLists, List.flatMap_append, List.append_assoc]
  stmtLists := by rw [h'.stmtLists, h.stmtLists, List.flatMap_append, List.append_assoc]
  has := List.forall_mem_append.2 ⟨fun e he => (h.has e he).of_extends h'.extending, h'.has⟩

private theorem zipIdx_push {α : Type} (xs : Array α) (a : α) :
    (xs.push a).toList.zipIdx = xs.toList.zipIdx ++ [(a, xs.size)] := by
  rw [Array.toList_push, List.zipIdx_append, Array.length_toList, Nat.zero_add]
  rfl

private theorem getElem?_push {α : Type} {xs : Array α} {a : α} (h : xs.size < UInt32.size) :
    (xs.push a)[nextPosition xs.size]? = some a := by
  rw [nextPosition_eq h, Array.getElem?_push_size]

theorem gains_addLocal (h : b.Fits) (v : LocalVar) :
    b.Gains (b.addLocal v).2 [.localVar (b.addLocal v).1 v] :=
  { Gains.refl b with
    extending := b.extends_addLocal v
    locals := by
      rw [addLocal, nextPosition_eq h.locals, zipIdx_push]
      rfl
    has := List.forall_mem_singleton.2 (getElem?_push h.locals) }

theorem gains_addLabel (b : Body) : b.Gains b.addLabel.2 [] :=
  { Gains.refl b with
    extending := b.extends_addLabel
    has _ he := nomatch he }

theorem gains_addExpr (h : b.Fits) (node : ExprNode IdRange) :
    b.Gains (b.addExpr node).2 [.expr (b.addExpr node).1 node] :=
  { Gains.refl b with
    extending := b.extends_addExpr node
    exprs := by
      rw [addExpr, nextPosition_eq h.exprs, zipIdx_push]
      rfl
    has := List.forall_mem_singleton.2 (getElem?_push h.exprs) }

theorem gains_addStmt (h : b.Fits) (kind : StmtKind IdRange) :
    b.Gains (b.addStmt kind).2 [.stmt (b.addStmt kind).1 kind] :=
  { Gains.refl b with
    extending := b.extends_addStmt kind
    stmts := by
      rw [addStmt, nextPosition_eq h.stmts, zipIdx_push]
      rfl
    has := List.forall_mem_singleton.2 (getElem?_push h.stmts) }

theorem gains_addExprList {ids : List Nat} (h : (b.addExprList ids).2.ListsFit) :
    b.Gains (b.addExprList ids).2 [.exprList (b.addExprList ids).1 ids] :=
  { Gains.refl b with
    extending := b.extends_addExprList ids
    exprLists := by
      rw [addExprList, Array.toList_appendList, List.flatMap_singleton]
      rfl
    has := List.forall_mem_singleton.2 (has_addExprList h.exprLists) }

theorem gains_addStmtList {ids : List Nat} (h : (b.addStmtList ids).2.ListsFit) :
    b.Gains (b.addStmtList ids).2 [.stmtList (b.addStmtList ids).1 ids] :=
  { Gains.refl b with
    extending := b.extends_addStmtList ids
    stmtLists := by
      rw [addStmtList, Array.toList_appendList, List.flatMap_singleton]
      rfl
    has := List.forall_mem_singleton.2 (has_addStmtList h.stmtLists) }

/-! ### Steps -/

/-- What a step puts into the body, and the body after it.  A block comes with its list. -/
def step (b : Body) : BuildStep → List Entry × Body
  | .addLocal v => ([.localVar (b.addLocal v).1 v], (b.addLocal v).2)
  | .addLabel => ([], b.addLabel.2)
  | .addExpr node => ([.expr (b.addExpr node).1 node], (b.addExpr node).2)
  | .addStmt kind => ([.stmt (b.addStmt kind).1 kind], (b.addStmt kind).2)
  | .addExprList ids => ([.exprList (b.addExprList ids).1 ids], (b.addExprList ids).2)
  | .addStmtList ids => ([.stmtList (b.addStmtList ids).1 ids], (b.addStmtList ids).2)
  | .addBlock ids =>
    ([.stmtList (b.addStmtList ids).1 ids, .stmt (b.addBlock ids).1 (.block (b.addStmtList ids).1)], (b.addBlock ids).2)
  | .addInt value => ([.expr (b.addInt value).1 ⟨.literal (.int value), .prim .int⟩], (b.addInt value).2)
  | .addLong value => ([.expr (b.addLong value).1 ⟨.literal (.long value), .prim .long⟩], (b.addLong value).2)
  | .addBool value => ([.expr (b.addBool value).1 ⟨.literal (.bool value), .bool⟩], (b.addBool value).2)
  | .addNull type => ([.expr (b.addNull type).1 ⟨.literal .null, type⟩], (b.addNull type).2)
  | .addString text type =>
    ([.expr (b.addString text type).1 ⟨.literal (.string text), type⟩], (b.addString text type).2)
  | .addReadLocal id => ([.expr (b.addReadLocal id).1 ⟨.readLocal id, b.readType id⟩], (b.addReadLocal id).2)

/-- The body after steps in order. -/
def after (b : Body) (steps : List BuildStep) : Body := steps.foldl (fun b x => (b.step x).2) b

/-- What steps put into the body. -/
def entries (b : Body) : List BuildStep → List Entry
  | [] => []
  | x :: steps => (b.step x).1 ++ (b.step x).2.entries steps

/-- The finished body after steps from a new one. -/
def ofSteps (steps : List BuildStep) (root : List Nat) : Body := (after {} steps).finish root

theorem extends_step (b : Body) (x : BuildStep) : b.Extends (b.step x).2 := by
  cases x with
  | addLocal v => exact b.extends_addLocal v
  | addLabel => exact b.extends_addLabel
  | addStmt kind => exact b.extends_addStmt kind
  | addExprList ids => exact b.extends_addExprList ids
  | addStmtList ids => exact b.extends_addStmtList ids
  | addBlock ids => exact (b.extends_addStmtList ids).trans (extends_addStmt _ _)
  | addExpr | addInt | addLong | addBool | addNull | addString | addReadLocal => exact b.extends_addExpr _

theorem extends_after (b : Body) (steps : List BuildStep) : b.Extends (b.after steps) :=
  extends_foldl extends_step b steps

/-- A step that leaves room puts its entries into the body. -/
theorem gains_step {x : BuildStep} (h : (b.step x).2.Fits) : b.Gains (b.step x).2 (b.step x).1 := by
  have hfit := h.of_extends (b.extends_step x)
  cases x with
  | addLocal v => exact gains_addLocal hfit v
  | addLabel => exact gains_addLabel b
  | addStmt kind => exact gains_addStmt hfit kind
  | addExprList ids => exact gains_addExprList h.toListsFit
  | addStmtList ids => exact gains_addStmtList h.toListsFit
  | addBlock ids =>
    have hlisted : (b.addStmtList ids).2.Fits := h.of_extends (extends_addStmt _ _)
    exact (gains_addStmtList hlisted.toListsFit).trans (gains_addStmt hlisted _)
  | addExpr | addInt | addLong | addBool | addNull | addString | addReadLocal => exact gains_addExpr hfit _

/-- Whatever comes later leaves what a step put into the body where it was given out. -/
theorem gains_after {steps : List BuildStep} (h : (b.after steps).Fits) :
    b.Gains (b.after steps) (b.entries steps) := by
  induction steps generalizing b with
  | nil => exact .refl b
  | cons x steps ih =>
    have hstep : (b.step x).2.Fits := h.of_extends (extends_after _ steps)
    exact (gains_step hstep).trans (ih h)

/-! ### Finished bodies -/

/-- The body has exactly what was put there.  Variables, expressions and statements are at the positions that were given
out for them, which are those of an array; every list is at its range; the top-level statements are those of the root;
and no other position or range leads anywhere. -/
structure IsFaithful (b : Body) (entries : List Entry) (root : List Nat) : Prop where
  locals : entries.filterMap Entry.localVar? = b.locals.toList.zipIdx
  exprs : entries.filterMap Entry.expr? = b.exprs.toList.zipIdx
  stmts : entries.filterMap Entry.stmt? = b.stmts.toList.zipIdx
  has : ∀ e ∈ entries, b.Has e
  rootList : b.rootList = root
  noLocal : ∀ id, (entries.filterMap Entry.localVar?).length ≤ id → b.local? id = none
  noExpr : ∀ id, (entries.filterMap Entry.expr?).length ≤ id → b.expr? id = none
  noStmt : ∀ id, (entries.filterMap Entry.stmt?).length ≤ id → b.stmt? id = none
  noExprList : ∀ range, (entries.flatMap Entry.exprIds).length < range.start + range.length → b.exprList range = []
  noStmtList : ∀ range, (entries.flatMap Entry.stmtIds ++ root).length < range.start + range.length →
    b.stmtList range = []

private theorem getElem?_of_zipIdx {α : Type} {xs : Array α} {indexed : List (α × Nat)} {id : Nat}
    (h : indexed = xs.toList.zipIdx) (hid : indexed.length ≤ id) : xs[id]? = none := by
  rw [h, List.length_zipIdx, Array.length_toList] at hid
  exact Array.getElem?_eq_none hid

private theorem slice_of_toList {range : IdRange} {xs : Array Nat} {ids : List Nat} (h : xs.toList = ids)
    (hrange : ids.length < range.start + range.length) : range.slice xs = [] := by
  rw [← h, Array.length_toList] at hrange
  exact slice_eq_nil hrange

/-- What any steps that leave room put into a body is there when it is finished. -/
theorem isFaithful_ofSteps {steps : List BuildStep} {root : List Nat} (h : (ofSteps steps root).Fits) :
    (ofSteps steps root).IsFaithful (entries {} steps) root := by
  have hgains := gains_after (h.of_extends (extends_finish _ root))
  have hlistsFit : ((after {} steps).addStmtList root).2.ListsFit := ⟨h.exprLists, h.stmtLists⟩
  have hroot := gains_addStmtList hlistsFit
  have hlists := (hgains.trans hroot).stmtLists
  rw [List.flatMap_append, List.flatMap_singleton] at hlists
  exact {
    locals := hgains.locals.symm
    exprs := hgains.exprs.symm
    stmts := hgains.stmts.symm
    has := fun e he => (hgains.has e he).of_extends (extends_finish _ root)
    rootList := (List.forall_mem_singleton.1 hroot.has).2
    noLocal := fun id => getElem?_of_zipIdx hgains.locals.symm
    noExpr := fun id => getElem?_of_zipIdx hgains.exprs.symm
    noStmt := fun id => getElem?_of_zipIdx hgains.stmts.symm
    noExprList := fun range => slice_of_toList hgains.exprLists
    noStmtList := fun range => slice_of_toList hlists }

end Body

end HaxeBackend
