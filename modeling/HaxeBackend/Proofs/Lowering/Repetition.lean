import HaxeBackend.Proofs.Lowering.Pool

/-!
# Lowering an expression again

An expression that has been lowered once is lowered to the same again (`repeats_lowerExpr`): its literals have their
numbers, and nothing else that the state accumulates matters.
-/

namespace HaxeBackend

variable {α β : Type}

namespace LiteralPool

theorem prefix_intern (t : LiteralPool) (text : Name) : t.texts <+: (t.intern text).2.texts := by
  unfold intern
  cases t.texts.idxOf? text with
  | some n => exact List.prefix_refl _
  | none => exact List.prefix_append _ _

theorem mem_intern (t : LiteralPool) (text : Name) : text ∈ (t.intern text).2.texts := by
  unfold intern
  cases hfind : t.texts.idxOf? text with
  | some n => exact List.isSome_idxOf?.1 (Option.isSome_of_eq_some hfind)
  | none => exact List.mem_append_right _ (List.mem_singleton_self text)

/-- A pool that has a text keeps its number. -/
theorem intern_of_prefix {t later : LiteralPool} {text : Name} (h : (t.intern text).2.texts <+: later.texts) :
    later.intern text = ((t.intern text).1, later) := by
  have hindex : (t.intern text).1 = later.texts.idxOf text := by
    obtain ⟨rest, hrest⟩ := h
    rw [intern_index, ← hrest, List.idxOf_append, if_pos (mem_intern t text)]
  have hmem : text ∈ later.texts := h.subset (mem_intern t text)
  obtain ⟨n, hn⟩ := Option.isSome_iff_exists.1 (List.isSome_idxOf?.2 hmem)
  rw [hindex, List.idxOf_eq_getD_idxOf?, intern, hn]
  rfl

end LiteralPool

namespace Lowering

variable {s : Scope} {st st' later : State}

/-- The later state has the literals of the earlier one, and the same class needs no guard. -/
structure State.Grows (st later : State) : Prop where
  literals : st.literals.texts <+: later.literals.texts
  own : st.guards.own = later.guards.own

theorem State.Grows.refl (st : State) : st.Grows st := ⟨List.prefix_refl _, rfl⟩

theorem State.Grows.trans (h : st.Grows st') (h' : st'.Grows later) : st.Grows later :=
  ⟨h.literals.trans h'.literals, h.own.trans h'.own⟩

/-- What the step gives it gives again, whatever has been added to the state since then. -/
def Repeats (x : LowerM α) : Prop :=
  ∀ st a st', Runs x st a st' → st.Grows st' ∧ ∀ later, st'.Grows later → ∃ last, Runs x later a last

theorem repeats_pure (a : α) : Repeats (pure a : LowerM α) := by
  intro st b st' hrun
  obtain ⟨rfl, rfl⟩ := runs_pure.1 hrun
  exact ⟨State.Grows.refl st, fun later _ => ⟨later, runs_pure.2 ⟨rfl, rfl⟩⟩⟩

theorem repeats_throw (e : GenError) : Repeats (throw e : LowerM α) := fun _ _ _ hrun => absurd hrun runs_throw

theorem Repeats.bind {x : LowerM α} {f : α → LowerM β} (hx : Repeats x) (hf : ∀ a, Repeats (f a)) :
    Repeats (x >>= f) := by
  intro st b st' hrun
  obtain ⟨a, mid, hfirst, hrest⟩ := runs_bind.1 hrun
  obtain ⟨hgrows, hagain⟩ := hx st a mid hfirst
  obtain ⟨hgrows', hagain'⟩ := hf a mid b st' hrest
  refine ⟨hgrows.trans hgrows', fun later hlater => ?_⟩
  obtain ⟨last, hlast⟩ := hagain later (hgrows'.trans hlater)
  obtain ⟨last', hlast'⟩ := hagain' last (hlater.trans (hx later a last hlast).1)
  exact ⟨last', runs_bind.2 ⟨a, last, hlast, hlast'⟩⟩

theorem repeats_modify {f : State → State} (hf : ∀ st, State.Grows st (f st)) : Repeats (modify f : LowerM PUnit) := by
  intro st u st' hrun
  obtain rfl := runs_modify.1 hrun
  exact ⟨hf st, fun later _ => ⟨f later, runs_modify.2 rfl⟩⟩

/-- A step that reads what does not change. -/
theorem repeats_get_bind {f : State → LowerM α} (hf : ∀ st, Repeats (f st))
    (hsame : ∀ st later, State.Grows st later → f st = f later) : Repeats (get >>= f) := by
  have hget : ∀ {st a st'}, Runs (get >>= f) st a st' ↔ Runs (f st) st a st' := by
    intro st a st'
    rw [runs_bind]
    constructor
    · rintro ⟨_, _, hget, hrun⟩
      obtain ⟨rfl, rfl⟩ := runs_get.1 hget
      exact hrun
    · exact fun hrun => ⟨st, st, runs_get.2 ⟨rfl, rfl⟩, hrun⟩
  intro st a st' hrun
  obtain ⟨hgrows, hagain⟩ := hf st st a st' (hget.1 hrun)
  refine ⟨hgrows, fun later hlater => ?_⟩
  obtain ⟨last, hlast⟩ := hagain later hlater
  exact ⟨last, hget.2 (hsame st later (hgrows.trans hlater) ▸ hlast)⟩

/-! ### Steps of lowering -/

private theorem repeats_refer (name : Name) : Repeats (refer name) :=
  repeats_modify fun _ => ⟨List.prefix_refl _, rfl⟩

private theorem repeats_referType (type : Ty) : Repeats (referType type) :=
  repeats_modify fun _ => ⟨List.prefix_refl _, rfl⟩

private theorem repeats_touch (name : Name) : Repeats (s.touch name) := by
  have htouch : ∀ g : Guards, g.own = (g.touch name).own := by
    intro g
    unfold Guards.touch
    split <;> rfl
  unfold Scope.touch
  dsimp only
  split
  · exact repeats_refer name
  · have hguards : ∀ st : State, State.Grows st { st with guards := st.guards.touch name } :=
      fun st => ⟨List.prefix_refl _, htouch st.guards⟩
    exact (repeats_modify hguards).bind fun _ => repeats_refer name

/-- A look-up in the scope. -/
private theorem repeats_of_iff {x : LowerM α} {P : α → Prop}
    (h : ∀ {st a st'}, Runs x st a st' ↔ P a ∧ st = st') : Repeats x := by
  intro st a st' hrun
  obtain ⟨ha, rfl⟩ := h.1 hrun
  exact ⟨State.Grows.refl st, fun later _ => ⟨later, h.2 ⟨ha, rfl⟩⟩⟩

private theorem repeats_localName (id : Nat) : Repeats (s.localName id) := repeats_of_iff runs_localName

private theorem repeats_resolveMethod (r : MethodRef) (special : Bool) : Repeats (s.resolveMethod r special) :=
  repeats_of_iff runs_resolveMethod

private theorem repeats_resolveField (r : FieldRef) : Repeats (s.resolveField r) := repeats_of_iff runs_resolveField

private theorem repeats_requireClass (name : Name) : Repeats (s.requireClass name) := repeats_of_iff runs_requireClass

private theorem repeats_checkArity (m : Method) (given : Nat) : Repeats (Scope.checkArity m given) :=
  repeats_of_iff runs_checkArity

private theorem repeats_typeOf (e : Expr) : Repeats (typeOf e) := by
  unfold typeOf
  split
  · exact repeats_pure _
  · exact repeats_throw _

private theorem runs_interned {text : Name} {index : Nat} : Runs (interned text) st index st' ↔
    (st.literals.intern text).1 = index ∧ { st with literals := (st.literals.intern text).2 } = st' := by
  constructor
  · intro hrun
    cases hrun
    exact ⟨rfl, rfl⟩
  · rintro ⟨rfl, rfl⟩
    rfl

private theorem repeats_interned (text : Name) : Repeats (interned text) := by
  intro st index st' hrun
  obtain ⟨rfl, rfl⟩ := runs_interned.1 hrun
  refine ⟨⟨st.literals.prefix_intern text, rfl⟩, fun later hlater => ⟨later, runs_interned.2 ?_⟩⟩
  rw [LiteralPool.intern_of_prefix hlater.literals]
  exact ⟨rfl, rfl⟩

/-! ### Expressions -/

private theorem repeats_lowerString (text : Name) : Repeats (lowerString s text) := by
  rw [lowerString_eq]
  refine (repeats_interned text).bind fun index => ?_
  split
  · exact repeats_pure _
  · exact (repeats_touch _).bind fun _ => repeats_pure _

private theorem repeats_lowerLiteral (value : Literal) : Repeats (lowerLiteral s value) := by
  cases value with
  | string text => exact repeats_lowerString text
  | classRef type => exact (repeats_referType type).bind fun _ => repeats_pure _
  | null | bool _ | int _ | long _ | float _ | double _ => exact repeats_pure _

private theorem repeats_lowerStaticField (r : FieldRef) : Repeats (lowerStaticField s r) :=
  (repeats_resolveField r).bind fun _ => (repeats_touch _).bind fun _ => repeats_pure _

private theorem repeats_newArray (type : Ty) (counts : List Target.Expr) : Repeats (newArray type counts) := by
  rcases newArray_cases type counts with ⟨t, heq, -⟩ | heq
  · rw [heq]
    exact repeats_pure t
  · rw [heq]
    exact repeats_throw _

private theorem repeats_forwarded (interfaceMethod target : MethodRef) (entry : MethodEntry) :
    Repeats (forwarded s interfaceMethod target entry) := by
  rcases forwarded_cases s interfaceMethod target entry with ⟨t, heq, -⟩ | ⟨f, heq⟩
  · rw [heq]
    exact repeats_pure t
  · rw [heq]
    exact repeats_throw _

private theorem repeats_capture (interfaceMethod target : MethodRef) : Repeats (capture s interfaceMethod target) := by
  rw [capture_eq]
  refine (repeats_requireClass _).bind fun interface => ?_
  split
  · refine (repeats_resolveMethod _ _).bind fun entry => (repeats_refer _).bind fun _ => (repeats_refer _).bind fun _ =>
      repeats_get_bind (fun st => ?_) fun st later hgrows => ?_
    · exact (repeats_forwarded _ _ entry).bind fun call => repeats_pure _
    · have howns : st.guards.owns entry.owner.name = later.guards.owns entry.owner.name := by
        rw [Guards.owns, Guards.owns, hgrows.own]
      rw [howns]
  · exact repeats_throw _

mutual

/-- An expression that has been lowered once is lowered to the same again. -/
theorem repeats_lowerExpr : (e : Expr) → Repeats (lowerExpr s e)
  | .missing id => by
    rw [lowerExpr]
    exact repeats_throw _
  | .literal value _ => by
    rw [lowerExpr]
    exact repeats_lowerLiteral value
  | .readLocal id _ => by
    rw [lowerExpr]
    exact (repeats_localName id).bind fun _ => repeats_pure _
  | .this _ | .caught _ => by
    rw [lowerExpr]
    exact repeats_pure _
  | .binary op left right type => by
    rw [lowerExpr]
    exact (repeats_lowerExpr left).bind fun _ => (repeats_lowerExpr right).bind fun _ => repeats_pure _
  | .unary op operand type => by
    rw [lowerExpr]
    exact (repeats_lowerExpr operand).bind fun _ => repeats_pure _
  | .staticCall method args _ => by
    rw [lowerExpr]
    exact (repeats_resolveMethod _ _).bind fun _ => (repeats_touch _).bind fun _ =>
      (repeats_checkArity _ _).bind fun _ => (repeats_lowerExprs args).bind fun _ => repeats_pure _
  | .call receiver method args special _ => by
    rw [lowerExpr]
    exact (repeats_resolveMethod _ _).bind fun _ => (repeats_lowerExpr receiver).bind fun _ =>
      (repeats_checkArity _ _).bind fun _ => (repeats_lowerExprs args).bind fun _ => repeats_pure _
  | .superCall _ method args _ => by
    rw [lowerExpr]
    exact (repeats_resolveMethod _ _).bind fun _ => (repeats_checkArity _ _).bind fun _ =>
      (repeats_lowerExprs args).bind fun _ => repeats_pure _
  | .field object r _ => by
    rw [lowerExpr]
    exact (repeats_lowerExpr object).bind fun _ => (repeats_resolveField r).bind fun _ => repeats_pure _
  | .staticField r _ => by
    rw [lowerExpr]
    exact repeats_lowerStaticField r
  | .element array index _ => by
    rw [lowerExpr]
    exact (repeats_typeOf array).bind fun _ => (repeats_lowerExpr array).bind fun _ =>
      (repeats_lowerExpr index).bind fun _ => repeats_pure _
  | .arrayLength array _ => by
    rw [lowerExpr]
    exact (repeats_typeOf array).bind fun _ => (repeats_lowerExpr array).bind fun _ => repeats_pure _
  | .allocate className _ => by
    rw [lowerExpr]
    exact (repeats_requireClass _).bind fun _ => (repeats_touch _).bind fun _ => repeats_pure _
  | .newArray counts type => by
    rw [lowerExpr]
    exact (repeats_lowerExprs counts).bind fun _ => (repeats_referType type).bind fun _ => repeats_newArray type _
  | .instanceOf operand check _ => by
    rw [lowerExpr]
    exact (repeats_lowerExpr operand).bind fun _ => (repeats_referType check).bind fun _ => repeats_pure _
  | .cast operand type => by
    rw [lowerExpr]
    exact (repeats_typeOf operand).bind fun _ => (repeats_lowerExpr operand).bind fun _ =>
      (repeats_referType type).bind fun _ => repeats_pure _
  | .capture interfaceMethod target _ => by
    rw [lowerExpr]
    exact repeats_capture interfaceMethod target

private theorem repeats_lowerExprs : (es : List Expr) → Repeats (lowerExprs s es)
  | [] => by
    rw [lowerExprs]
    exact repeats_pure _
  | e :: es => by
    rw [lowerExprs]
    exact (repeats_lowerExpr e).bind fun _ => (repeats_lowerExprs es).bind fun _ => repeats_pure _

end

end Lowering

end HaxeBackend
