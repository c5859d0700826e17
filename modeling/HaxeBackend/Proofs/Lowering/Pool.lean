import HaxeBackend.Proofs.FirstUse
import HaxeBackend.Proofs.Lowering.Adapters
import HaxeBackend.Proofs.Lowering.Variables
import HaxeBackend.Proofs.Naming.Members
import HaxeBackend.Proofs.Target.Pool

/-!
# Literals of a body

The string literals of a body, in the order in which lowering meets them.  Lowering pools these, or those up to the
place where it fails, and a lowered body reads the literal of each text by its place in the pool, whatever is pooled
later (`pools_lowerBody`).  Only a dropped assignment leaves literals unread.
-/

namespace HaxeBackend

/-! ### Literals in order -/

mutual

/-- The texts of the string literals of an expression.  The receiver of a super call is never lowered. -/
def Expr.strings : Expr → List Name
  | .literal (.string text) _ => [text]
  | .literal .. | .missing _ | .readLocal .. | .this _ | .caught _ | .staticField .. | .allocate .. | .capture .. => []
  | .binary _ left right _ | .element left right _ => left.strings ++ right.strings
  | .unary _ operand _ | .field operand _ _ | .arrayLength operand _ | .instanceOf operand _ _ | .cast operand _ =>
    operand.strings
  | .staticCall _ args _ | .superCall _ _ args _ | .newArray args _ => Expr.stringsList args
  | .call receiver _ args _ _ => receiver.strings ++ Expr.stringsList args

def Expr.stringsList : List Expr → List Name
  | [] => []
  | e :: rest => e.strings ++ Expr.stringsList rest

end

namespace Stmt

/-- The texts of the string literals of a statement. -/
def strings : Stmt → List Name
  | .missing _ | .skip | .line _ | .label _ | .goto _ | .ret none | .rethrow | .exitLoop | .nextLoop => []
  | .seq first rest => first.strings ++ rest.strings
  | .gotoIf x _ | .jumpTable x _ _ | .setLocal _ x | .setStatic _ x | .eval x | .ret (some x) | .throw x => x.strings
  | .setField object _ value => object.strings ++ value.strings
  | .setElement array index value => array.strings ++ (index.strings ++ value.strings)
  | .construct _ _ _ args => Expr.stringsList args
  | .tryCatch body handler => body.strings ++ handler.strings
  | .when condition body | .loop condition body | .switch condition body => condition.strings ++ body.strings
  | .ite condition thenBranch elseBranch => condition.strings ++ (thenBranch.strings ++ elseBranch.strings)
  | .arm _ body | .otherwise body => body.strings

/-- The number of assignments. -/
def assignCount : Stmt → Nat
  | .setLocal .. | .setField .. | .setStatic .. | .construct .. => 1
  | .seq first rest => first.assignCount + rest.assignCount
  | .tryCatch body handler => body.assignCount + handler.assignCount
  | .when _ body | .loop _ body | .switch _ body | .arm _ body | .otherwise body => body.assignCount
  | .ite _ thenBranch elseBranch => thenBranch.assignCount + elseBranch.assignCount
  | .missing _ | .skip | .line _ | .label _ | .goto _ | .gotoIf .. | .jumpTable .. | .setElement .. | .eval _ | .ret _
  | .throw _ | .rethrow | .exitLoop | .nextLoop => 0

end Stmt

/-! ### Pools -/

namespace LiteralPool

variable {t : LiteralPool} {text : Name} {seen : List Name}

/-- A pool has each text once, in the order of first use. -/
theorem texts_intern (h : t.texts = seen.eraseDups) (text : Name) :
    (t.intern text).2.texts = (seen ++ [text]).eraseDups := by
  unfold intern
  cases hfind : t.texts.idxOf? text with
  | some n =>
    have hmem : text ∈ seen := by
      have hsome := List.isSome_idxOf?.1 (Option.isSome_of_eq_some hfind)
      rwa [h, List.mem_eraseDups] at hsome
    rw [eraseDups_concat_of_mem hmem, h]
  | none =>
    have hmem : text ∉ seen := by
      have hnone := List.idxOf?_eq_none_iff.1 hfind
      rwa [h, List.mem_eraseDups] at hnone
    rw [eraseDups_concat_of_not_mem hmem, h]

theorem intern_index : (t.intern text).1 = (t.intern text).2.texts.idxOf text := by
  unfold intern
  cases hfind : t.texts.idxOf? text with
  | some n =>
    rw [List.idxOf_eq_getD_idxOf?, hfind]
    rfl
  | none =>
    have hmem : text ∉ t.texts := List.idxOf?_eq_none_iff.1 hfind
    simp [size, List.idxOf_append, hmem]

/-- The number of a text is its place, whatever is pooled later. -/
theorem intern_eq_idxOf (hseen : t.texts = seen.eraseDups) {pool : List Name}
    (hpool : (t.intern text).2.texts <+: pool) : (t.intern text).1 = pool.idxOf text := by
  have hmem : text ∈ (t.intern text).2.texts := by
    rw [texts_intern hseen text, List.mem_eraseDups]
    simp
  obtain ⟨later, rfl⟩ := hpool
  rw [intern_index, List.idxOf_append, if_pos hmem]

end LiteralPool

namespace Lowering

open Target (PoolRef poolIndex? nameRefs nameRefs_eq_nil)

variable {α β : Type} {s : Scope} {strings strings' : List Name}

/-! ### Names that are no literals -/

private theorem poolIndex?_escapeMember (text : Name) : poolIndex? (Naming.escapeMember text) = none := by
  rw [Target.poolIndex?_eq_none]
  intro index h
  have hlist := congrArg String.toList h
  rw [Target.toList_poolIdent_eq] at hlist
  unfold Naming.escapeMember at hlist
  dsimp only at hlist
  split at hlist
  · -- a reserved word ends in an underscore, the name of a literal in a digit
    rw [String.toList_ofList] at hlist
    have hlast := congrArg List.getLast? hlist
    rw [List.getLast?_append, List.getLast?_append] at hlast
    cases hdigits : (Nat.toDigits 10 index).getLast? with
    | none => simp at hdigits
    | some c =>
      have hdigit := Nat.isDigit_of_mem_toDigits (by decide) (by decide) (List.mem_of_getLast? hdigits)
      rw [hdigits] at hlast
      obtain rfl : '_' = c := Option.some.inj hlast
      exact absurd hdigit (by decide)
  · rename_i hreserved
    rw [String.toList_ofList] at hlist
    apply hreserved
    rw [hlist]
    unfold Naming.isReserved
    simp

private theorem isDigit_of_mem_repr {n : Nat} {c : Char} (h : c ∈ (toString n).toList) : c.isDigit = true := by
  rw [Nat.toString_eq_ofList_toDigits, String.toList_ofList] at h
  exact Nat.isDigit_of_mem_toDigits (by decide) (by decide) h

private theorem poolIndex?_numbered (base : String) (n : Nat) : poolIndex? s!"{base}_{n}" = none := by
  rw [Target.poolIndex?_eq_none]
  intro index h
  have hlist : base.toList ++ '_' :: (toString n).toList =
      '_' :: '_' :: 's' :: 't' :: 'r' :: Nat.toDigits 10 index := by
    have htoList := congrArg String.toList h
    rw [Target.toList_poolIdent_eq] at htoList
    simpa [Target.poolStem, toString] using htoList
  have hdigit : ∀ c ∈ (toString n).toList, c.isDigit = true := fun c hc => isDigit_of_mem_repr hc
  -- the underscore in front of the number is none of those in the stem
  rcases hbase : base.toList with _ | ⟨a, _ | ⟨b, _ | ⟨c, _ | ⟨d, _ | ⟨e, tail⟩⟩⟩⟩⟩ <;>
    simp only [hbase, List.cons_append, List.nil_append, List.cons.injEq] at hlist
  · exact absurd (hdigit '_' (by rw [hlist.2]; simp)) (by decide)
  · exact absurd (hdigit 's' (by rw [hlist.2.2]; simp)) (by decide)
  · exact absurd hlist.2.2.1 (by decide)
  · exact absurd hlist.2.2.2.1 (by decide)
  · exact absurd hlist.2.2.2.2.1 (by decide)
  · have hmem : '_' ∈ Nat.toDigits 10 index := by
      rw [← hlist.2.2.2.2.2]
      simp
    exact absurd (Nat.isDigit_of_mem_toDigits (by decide) (by decide) hmem) (by decide)

/-- No variable of a body is called like a literal. -/
private theorem poolIndex?_of_mem_declareLocals {p : Program} {declared : List (String × Ty)} {vars : List LocalVar}
    {name : String} (h : name ∈ (declareLocals p declared vars).1) : poolIndex? name = none := by
  obtain ⟨v, -, rfl | ⟨n, rfl⟩⟩ := exists_of_mem_declareLocals h
  · exact poolIndex?_escapeMember v.name
  · exact poolIndex?_numbered _ n

/-- No parameter of a synthesized function is called like a literal. -/
theorem poolIndex?_of_mem_positional {types : List Ty} {param : String × Ty} (h : param ∈ positional types) :
    poolIndex? param.1 = none := by
  obtain ⟨⟨i, type⟩, -, rfl⟩ := List.mem_map.1 h
  rw [Target.poolIndex?_eq_none]
  intro index hname
  have hlist := congrArg String.toList hname
  rw [Target.toList_poolIdent_eq] at hlist
  simp [Target.poolStem, toString] at hlist

/-- No member of a scope is called like a literal. -/
private theorem poolIndex?_fieldName (entry : FieldEntry) : poolIndex? (s.fieldName entry) = none := by
  unfold Scope.fieldName
  split
  · exact poolIndex?_escapeMember _
  · exact Target.poolIndex?_eq_none.2 Naming.isFree_field.2.2

/-! ### Operators -/

@[simp]
private theorem poolRefs_num (helper : String) (args : List Target.Expr) :
    (Target.Expr.num helper args).poolRefs = args.flatMap Target.Expr.poolRefs :=
  Target.Expr.poolRefsList_eq args

@[simp]
private theorem poolRefs_natives (helper : String) (args : List Target.Expr) :
    (Target.Expr.natives helper args).poolRefs = args.flatMap Target.Expr.poolRefs :=
  Target.Expr.poolRefsList_eq args

@[simp]
private theorem poolRefs_construct (className : String) (args : List Target.Expr) :
    (Target.Expr.construct className args).poolRefs = args.flatMap Target.Expr.poolRefs :=
  Target.Expr.poolRefsList_eq args

@[simp]
private theorem poolRefs_invoke (base : Target.Expr) (name : String) (args : List Target.Expr) :
    (Target.Expr.invoke base name args).poolRefs = base.poolRefs ++ args.flatMap Target.Expr.poolRefs :=
  congrArg (base.poolRefs ++ ·) (Target.Expr.poolRefsList_eq args)

@[simp]
private theorem poolRefs_list (items : List Target.Expr) :
    (Target.Expr.list items).poolRefs = items.flatMap Target.Expr.poolRefs := Target.Expr.poolRefsList_eq items

private theorem passedOn_poolRefs : PassedOn Target.Expr.poolRefs where
  int := fun _ => rfl
  num := poolRefs_num
  natives := poolRefs_natives
  invoke := poolRefs_invoke
  binary := fun _ _ _ => rfl
  negate := fun _ => rfl
  not := fun _ => rfl
  complement := fun _ => rfl
  castTo := fun _ _ => rfl
  template := fun _ _ => rfl

/-! ### Steps -/

/-- The step pools these texts. -/
private abbrev Pools (x : LowerM α) (strings : List Name) (Q : α → List Name → Prop) : Prop :=
  Collects (fun st seen => st.literals.texts = seen.eraseDups) x strings Q

/-- A step that leaves the literals as they are. -/
private theorem pools_quiet {x : LowerM α} {Q : α → Prop}
    (h : ∀ st, (x.run.run st).2.literals = st.literals ∧ ∀ a, (x.run.run st).1 = .ok a → Q a) :
    Pools x [] fun a _ => Q a :=
  collects_quiet fun st _ hseen => ⟨(congrArg LiteralPool.texts (h st).1).trans hseen, (h st).2⟩

private theorem pools_refer (name : Name) : Pools (refer name) [] fun _ _ => True :=
  pools_quiet fun _ => ⟨rfl, fun _ _ => trivial⟩

private theorem pools_referType (type : Ty) : Pools (referType type) [] fun _ _ => True :=
  pools_quiet fun _ => ⟨rfl, fun _ _ => trivial⟩

private theorem pools_touch (name : Name) : Pools (s.touch name) [] fun _ _ => True := by
  refine pools_quiet fun st => ⟨?_, fun _ _ => trivial⟩
  unfold Scope.touch
  dsimp only
  split <;> rfl

private theorem pools_takeGuards : Pools s.takeGuards [] fun _ _ => True :=
  pools_quiet fun _ => ⟨rfl, fun _ _ => trivial⟩

/-! ### Expressions -/

/-- What string literals are read through. -/
def PoolAccess.holder (p : Program) : PoolAccess → Option String
  | .own => none
  | .through className => some (Naming.staticHolder p className)

/-- The read of the literal with this text. -/
def refTo (p : Program) (access : PoolAccess) (pool : List Name) (text : Name) : PoolRef :=
  ⟨access.holder p, pool.idxOf text⟩

/-- The expression reads the literals of these texts. -/
private def Reads (s : Scope) (strings : List Name) (t : Target.Expr) (pool : List Name) : Prop :=
  t.poolRefs = strings.map (refTo s.program s.pool pool)

/-- The number of a text, which is pooled if it is new. -/
def interned (text : Name) : LowerM Nat := do
  let st ← get
  let (index, literals) := st.literals.intern text
  set { st with literals := literals }
  return index

private theorem pools_interned (text : Name) :
    Pools (interned text) [text] fun index pool => index = pool.idxOf text := by
  intro st seen hseen
  have htexts := LiteralPool.texts_intern hseen text
  refine ⟨[text], List.prefix_refl _, htexts, fun index hindex => ⟨rfl, fun pool hpool => ?_⟩⟩
  obtain rfl : (st.literals.intern text).1 = index := Except.ok.inj hindex
  refine LiteralPool.intern_eq_idxOf hseen ?_
  rw [htexts]
  exact hpool

theorem lowerString_eq (text : Name) : lowerString s text = interned text >>= fun index =>
    match s.pool with
    | .own => pure (.pooled index)
    | .through className => do
      s.touch className
      return .member (.path (Naming.staticHolder s.program className)) (Target.poolIdent index) := rfl

private theorem pools_lowerString (text : Name) : Pools (lowerString s text) [text] (Reads s [text]) := by
  rw [lowerString_eq]
  refine (pools_interned text).bind_quiet fun index => ?_
  cases haccess : s.pool with
  | own =>
    refine collects_pure fun pool hindex => ?_
    show [PoolRef.mk none index] = [refTo s.program s.pool pool text]
    rw [refTo, haccess, hindex]
    rfl
  | through className =>
    refine (pools_touch className).bind_pure fun _ pool _ hindex => ?_
    show nameRefs (some (Naming.staticHolder s.program className)) (Target.poolIdent index) =
      [refTo s.program s.pool pool text]
    rw [Target.nameRefs_poolIdent, refTo, haccess, hindex]
    rfl

private theorem pools_lowerLiteral (value : Literal) (type : Ty) :
    Pools (lowerLiteral s value) (Expr.literal value type).strings (Reads s (Expr.literal value type).strings) := by
  cases value with
  | string text =>
    rw [Expr.strings]
    exact pools_lowerString text
  | classRef type => exact (pools_referType type).bind_pure fun _ _ _ => poolRefs_natives _ _
  | long value => exact collects_pure fun _ => passedOn_poolRefs.read_long value
  | null | bool _ | int _ | float _ | double _ => exact collects_pure fun _ => rfl

private theorem pools_lowerStaticField (r : FieldRef) : Pools (lowerStaticField s r) [] (Reads s []) := by
  unfold lowerStaticField
  refine collects_look (looks_resolveField r) fun entry _ => (pools_touch _).bind_pure fun _ pool _ => ?_
  show [] ++ nameRefs _ _ = []
  rw [nameRefs_eq_nil (poolIndex?_fieldName entry), List.append_nil]

private theorem pools_allocate (className : Name) : Pools (allocate s className) [] (Reads s []) := by
  unfold allocate
  exact collects_look (looks_requireClass className) fun _ _ => (pools_touch className).bind_pure fun _ _ _ =>
    poolRefs_construct _ _

private theorem pools_newArray (type : Ty) (counts : List Target.Expr) :
    Pools (newArray type counts) [] fun t _ => t.poolRefs = counts.flatMap Target.Expr.poolRefs := by
  have hquoted : (Target.Expr.quoted type.descriptor).poolRefs = [] := rfl
  have hpath : (Target.Expr.path Target.objectArray).poolRefs = [] := rfl
  refine (looks_newArray type counts).collects.imp fun t _ ht => ?_
  cases ht with
  | plain => simp
  | described => simp [hquoted]
  | nested => simp [hquoted, hpath]

private theorem pools_capture (interfaceMethod target : MethodRef) :
    Pools (capture s interfaceMethod target) [] (Reads s []) := by
  have hparams : ∀ x ∈ positional interfaceMethod.type.args, (Target.Expr.var x.1).poolRefs = [] :=
    fun x hx => nameRefs_eq_nil (poolIndex?_of_mem_positional hx)
  rw [capture_eq]
  refine collects_look (looks_requireClass _) fun interface _ => ?_
  split
  · refine collects_look (looks_resolveMethod _ _) fun entry _ => (pools_refer _).bind fun _ =>
      (pools_refer _).bind fun _ => collects_look looks_get fun st _ =>
      collects_look (looks_forwarded _ _ entry) fun call hcall => collects_pure fun _ _ _ => ?_
    obtain ⟨value, result, heq, hvalue, -⟩ := adapterOf_eq s interface interfaceMethod entry
      (st.guards.owns entry.owner.name) call
    have hread : call.poolRefs = [] := (passedOn_poolRefs.read_isForward hcall hparams).elim id id
    rw [Reads, heq]
    rcases hvalue with rfl | rfl
    · exact hread
    · exact (passedOn_poolRefs.read_convert _ _ _ _).trans hread
  · exact collects_throw _ _ _

mutual

/-- A lowered expression reads its literals from left to right. -/
private theorem pools_lowerExpr (hlocals : ∀ name ∈ s.locals, poolIndex? name = none) :
    (e : Expr) → Pools (lowerExpr s e) e.strings (Reads s e.strings)
  | .missing id => by
    rw [lowerExpr]
    exact collects_throw _ _ _
  | .literal value type => by
    rw [lowerExpr]
    exact pools_lowerLiteral value type
  | .readLocal id _ => by
    rw [lowerExpr, Expr.strings]
    exact collects_look (looks_localName id) fun name hname => collects_pure fun _ =>
      nameRefs_eq_nil (hlocals name (List.mem_of_getElem? hname))
  | .this _ | .caught _ => by
    rw [lowerExpr, Expr.strings]
    exact collects_pure fun _ => rfl
  | .binary op left right type => by
    rw [lowerExpr, Expr.strings]
    refine (pools_lowerExpr hlocals left).bind fun l => (pools_lowerExpr hlocals right).bind_pure ?_
    intro r pool hr hl
    rw [Reads, passedOn_poolRefs.read_binary, hl, hr, List.map_append]
  | .unary op operand type => by
    rw [lowerExpr, Expr.strings]
    exact (pools_lowerExpr hlocals operand).bind_pure fun t _ ht => (passedOn_poolRefs.read_unary op t type).trans ht
  | .staticCall method args _ => by
    rw [lowerExpr, Expr.strings]
    refine collects_look (looks_resolveMethod method false) fun entry _ => (pools_touch _).bind fun _ =>
      collects_look (looks_checkArity _ _) fun _ harity => (pools_lowerExprs hlocals args).bind_pure ?_
    intro ts pool hts _
    rw [Reads, passedOn_poolRefs.read_callOf _ (hts.2.trans harity), ← hts.1]
    rfl
  | .call receiver method args special _ => by
    rw [lowerExpr, Expr.strings]
    refine collects_look (looks_resolveMethod method special) fun entry _ => (pools_lowerExpr hlocals receiver).bind
      fun base => collects_look (looks_checkArity _ _) fun _ harity => (pools_lowerExprs hlocals args).bind_pure ?_
    intro ts pool hts hbase
    rw [Reads, passedOn_poolRefs.read_callOf _ (hts.2.trans harity), hts.1, hbase, List.map_append]
  | .superCall _ method args _ => by
    rw [lowerExpr, Expr.strings]
    refine collects_look (looks_resolveMethod method false) fun entry _ =>
      collects_look (looks_checkArity _ _) fun _ harity => (pools_lowerExprs hlocals args).bind_pure ?_
    intro ts pool hts
    rw [Reads, passedOn_poolRefs.read_callOf _ (hts.2.trans harity), ← hts.1]
    rfl
  | .field object r _ => by
    rw [lowerExpr, Expr.strings]
    refine (pools_lowerExpr hlocals object).bind_quiet fun base => collects_look (looks_resolveField r) fun entry _ =>
      collects_pure fun pool hbase => ?_
    rw [Reads, Target.Expr.poolRefs, nameRefs_eq_nil (poolIndex?_fieldName entry), hbase, List.append_nil]
  | .staticField r _ => by
    rw [lowerExpr, Expr.strings]
    exact pools_lowerStaticField r
  | .element array index _ => by
    rw [lowerExpr, Expr.strings]
    refine collects_look (looks_typeOf array) fun type _ => (pools_lowerExpr hlocals array).bind fun base =>
      (pools_lowerExpr hlocals index).bind_pure ?_
    intro i pool hi hbase
    rw [Reads, poolRefs_invoke, passedOn_poolRefs.read_asArray, hbase, List.flatMap_singleton, hi, List.map_append]
  | .arrayLength array _ => by
    rw [lowerExpr, Expr.strings]
    refine collects_look (looks_typeOf array) fun type _ => (pools_lowerExpr hlocals array).bind_pure ?_
    intro base pool hbase
    rw [Reads, Target.Expr.poolRefs, passedOn_poolRefs.read_asArray, hbase, nameRefs_eq_nil (by decide), List.append_nil]
  | .allocate className _ => by
    rw [lowerExpr, Expr.strings]
    exact pools_allocate className
  | .newArray counts type => by
    rw [lowerExpr, Expr.strings]
    refine (pools_lowerExprs hlocals counts).bind_quiet fun ts => (pools_referType type).bind fun _ => ?_
    exact (pools_newArray type ts).imp fun t pool ht _ hts => ht.trans hts.1
  | .instanceOf operand check _ => by
    rw [lowerExpr, Expr.strings]
    exact (pools_lowerExpr hlocals operand).bind_quiet fun t => (pools_referType check).bind_pure fun _ _ _ ht => ht
  | .cast operand type => by
    rw [lowerExpr, Expr.strings]
    refine collects_look (looks_typeOf operand) fun source _ => (pools_lowerExpr hlocals operand).bind_quiet fun t =>
      (pools_referType type).bind_pure ?_
    intro _ pool _ ht
    exact (passedOn_poolRefs.read_convert _ _ _ _).trans ht
  | .capture interfaceMethod target _ => by
    rw [lowerExpr, Expr.strings]
    exact pools_capture interfaceMethod target

private theorem pools_lowerExprs (hlocals : ∀ name ∈ s.locals, poolIndex? name = none) :
    (es : List Expr) → Pools (lowerExprs s es) (Expr.stringsList es) fun ts pool =>
      ts.flatMap Target.Expr.poolRefs = (Expr.stringsList es).map (refTo s.program s.pool pool) ∧ ts.length = es.length
  | [] => by
    rw [lowerExprs, Expr.stringsList]
    exact collects_pure fun _ => ⟨rfl, rfl⟩
  | e :: es => by
    rw [lowerExprs, Expr.stringsList]
    refine (pools_lowerExpr hlocals e).bind fun t => (pools_lowerExprs hlocals es).bind_pure ?_
    intro ts pool hts ht
    rw [List.flatMap_cons, hts.1, ht, List.map_append, List.length_cons, hts.2, List.length_cons]
    exact ⟨rfl, rfl⟩

end

/-! ### Statements -/

/-- Reads and assignments of a lowered statement against those of its source: a dropped assignment takes its reads with
it. -/
structure Covers (refs full : List PoolRef) (written count : Nat) : Prop where
  sublist : refs.Sublist full
  le : written ≤ count
  eq : written = count → refs = full

private theorem Covers.of_eq {refs full : List PoolRef} {n : Nat} (h : refs = full) : Covers refs full n n :=
  ⟨h ▸ List.Sublist.refl _, Nat.le_refl _, fun _ => h⟩

private theorem Covers.append {refs refs' full full' : List PoolRef} {written written' count count' : Nat}
    (h : Covers refs full written count) (h' : Covers refs' full' written' count') :
    Covers (refs ++ refs') (full ++ full') (written + written') (count + count') := by
  refine ⟨h.sublist.append h'.sublist, Nat.add_le_add h.le h'.le, fun hcount => ?_⟩
  have hle := h.le
  have hle' := h'.le
  rw [h.eq (by omega), h'.eq (by omega)]

/-- The lowered statement reads what its source does. -/
private def CoversStmt (s : Scope) (stmt : Stmt) (t : Target.Stmt) (pool : List Name) : Prop :=
  Covers t.poolRefs (stmt.strings.map (refTo s.program s.pool pool)) t.assignCount stmt.assignCount

/-- The second statement is the first one behind guards. -/
private def Behind (t u : Target.Stmt) : Prop := u.poolRefs = t.poolRefs ∧ u.assignCount = t.assignCount

private theorem behind_guards (holders : List String) (t : Target.Stmt) :
    Behind t (.seq (.ofList (holders.map .guard)) t) := by
  constructor
  · show (Target.Stmt.ofList (holders.map .guard)).poolRefs ++ t.poolRefs = t.poolRefs
    rw [Target.Stmt.poolRefs_guards, List.nil_append]
  · show (Target.Stmt.ofList (holders.map .guard)).assignCount + t.assignCount = t.assignCount
    rw [Target.Stmt.assignCount_guards, Nat.zero_add]

private theorem Behind.covers {t u : Target.Stmt} {full : List PoolRef} {count : Nat} (hu : Behind t u)
    (h : Covers t.poolRefs full t.assignCount count) : Covers u.poolRefs full u.assignCount count := by
  rw [hu.1, hu.2]
  exact h

private theorem pools_guarded (t : Target.Stmt) : Pools (guarded s t) [] fun u _ => Behind t u :=
  pools_takeGuards.bind_pure fun holders _ _ => behind_guards holders t

private theorem covers_assignment {target value : Target.Expr} {full : List PoolRef}
    (h : target.poolRefs ++ value.poolRefs = full) :
    Covers (assignment target value).poolRefs full (assignment target value).assignCount 1 := by
  unfold assignment
  split
  · exact ⟨List.nil_sublist _, Nat.zero_le _, fun h => nomatch h⟩
  · exact .of_eq h

private theorem pools_lowerConstruct (hlocals : ∀ name ∈ s.locals, poolIndex? name = none) (id : Nat)
    (className : Name) (constructor : MethodRef) (args : List Expr) :
    Pools (lowerConstruct s id className constructor args) (Expr.stringsList args)
      (CoversStmt s (.construct id className constructor args)) := by
  unfold lowerConstruct
  refine collects_look (looks_localName id) fun name hname => collects_look (looks_requireClass className) fun _ _ =>
    collects_look (looks_resolveMethod constructor true) fun entry _ => collects_look (looks_checkArity _ _)
    fun _ harity => (pools_lowerExprs hlocals args).bind_quiet fun ts => ?_
  have hvar : (Target.Expr.var name).poolRefs = [] := nameRefs_eq_nil (hlocals name (List.mem_of_getElem? hname))
  dsimp only
  split
  · refine (pools_refer className).bind fun _ => (pools_guarded _).imp ?_
    intro u pool hu _ hts
    refine hu.covers (.of_eq ?_)
    rw [Target.Stmt.poolRefs, hvar, List.nil_append, poolRefs_construct,
      passedOn_poolRefs.read_nativeArgs _ (hts.2.trans harity)]
    exact hts.1
  · refine (pools_touch className).bind fun _ => (pools_guarded _).imp ?_
    intro u pool hu _ hts
    refine hu.covers (.of_eq ?_)
    rw [Target.Stmt.poolRefs, Target.Stmt.poolRefs, Target.Stmt.poolRefs, poolRefs_invoke, poolRefs_construct,
      hvar]
    exact hts.1

/-- A lowered statement reads its literals in order, those of dropped assignments aside. -/
private theorem pools_lowerStmt (hlocals : ∀ name ∈ s.locals, poolIndex? name = none) (stmt : Stmt) :
    Pools (lowerStmt s stmt) stmt.strings (CoversStmt s stmt) := by
  -- what a statement pools is read in front of it or in it, so guards and operands keep the order
  induction stmt with
  | missing id => exact collects_throw _ _ _
  | skip | line _ => exact collects_pure fun _ => .of_eq rfl
  | seq first rest hfirst hrest =>
    rw [lowerStmt]
    refine hfirst.bind fun a => hrest.bind_pure fun b pool hb ha => ?_
    rw [CoversStmt, Stmt.strings, List.map_append]
    exact ha.append hb
  | label id | goto id =>
    rw [lowerStmt]
    exact collects_look (looks_checkJump _ _) fun _ _ => collects_pure fun _ => .of_eq rfl
  | gotoIf condition label =>
    rw [lowerStmt]
    refine collects_look (looks_checkJump _ _) fun _ _ => (pools_lowerExpr hlocals condition).bind_quiet fun c =>
      (pools_guarded _).imp ?_
    exact fun u pool hu hc => hu.covers (.of_eq hc)
  | jumpTable subject cases default =>
    rw [lowerStmt]
    refine collects_look (looks_forM fun _ => looks_checkJump _ _) fun _ _ => collects_look (looks_checkJump _ _)
      fun _ _ => (pools_lowerExpr hlocals subject).bind_quiet fun x => (pools_guarded _).imp ?_
    exact fun u pool hu hx => hu.covers (.of_eq hx)
  | setLocal id value =>
    rw [lowerStmt]
    refine collects_look (looks_localName id) fun name hname => (pools_lowerExpr hlocals value).bind_quiet fun v =>
      (pools_guarded _).imp ?_
    intro u pool hu hv
    -- the text of a dropped assignment is pooled all the same
    refine hu.covers (covers_assignment ?_)
    rw [Target.Expr.poolRefs, nameRefs_eq_nil (hlocals name (List.mem_of_getElem? hname))]
    exact hv
  | setField object r value =>
    rw [lowerStmt]
    refine (pools_lowerExpr hlocals object).bind fun base => collects_look (looks_resolveField r) fun entry _ =>
      (pools_lowerExpr hlocals value).bind_quiet fun v => (pools_guarded _).imp ?_
    intro u pool hu hv hbase
    refine hu.covers (covers_assignment ?_)
    rw [Target.Expr.poolRefs, nameRefs_eq_nil (poolIndex?_fieldName entry), hbase, hv, List.append_nil, Stmt.strings,
      List.map_append]
  | setStatic r value =>
    rw [lowerStmt]
    refine (pools_lowerStaticField r).bind fun target => (pools_lowerExpr hlocals value).bind_quiet fun v =>
      (pools_guarded _).imp ?_
    intro u pool hu hv htarget
    refine hu.covers (covers_assignment ?_)
    rw [htarget, hv]
    rfl
  | setElement array index value =>
    rw [lowerStmt]
    refine collects_look (looks_typeOf array) fun type _ => collects_look (looks_elementType _ _) fun _ _ =>
      (pools_lowerExpr hlocals array).bind fun base => (pools_lowerExpr hlocals index).bind fun i =>
      (pools_lowerExpr hlocals value).bind_quiet fun v => (pools_guarded _).imp ?_
    intro u pool hu hv hi hbase
    refine hu.covers (.of_eq ?_)
    rw [Target.Stmt.poolRefs, poolRefs_invoke, passedOn_poolRefs.read_asArray, hbase, List.flatMap_cons,
      List.flatMap_singleton, hi, hv, Stmt.strings, List.map_append, List.map_append]
  | construct id className constructor args =>
    rw [lowerStmt]
    exact pools_lowerConstruct hlocals id className constructor args
  | eval expr | throw expr =>
    rw [lowerStmt]
    refine (pools_lowerExpr hlocals expr).bind_quiet fun x => (pools_guarded _).imp ?_
    exact fun u pool hu hx => hu.covers (.of_eq hx)
  | ret value =>
    cases value with
    | none =>
      rw [lowerStmt]
      refine (pools_guarded _).imp fun u pool hu => hu.covers (.of_eq ?_)
      split <;> rfl
    | some value =>
      rw [lowerStmt]
      refine (pools_lowerExpr hlocals value).bind_quiet fun v => (pools_guarded _).imp ?_
      intro u pool hu hv
      refine hu.covers (.of_eq ?_)
      rw [Target.Stmt.poolRefs, Option.toList_some, List.flatMap_singleton]
      exact hv
  | tryCatch body handler hbody hhandler =>
    rw [lowerStmt]
    refine pools_takeGuards.bind fun holders => hbody.bind fun b => hhandler.bind_pure ?_
    intro h pool hh hb _
    rw [CoversStmt, Stmt.strings, List.map_append]
    exact (behind_guards holders _).covers (hb.append hh)
  | rethrow | exitLoop | nextLoop => exact (pools_guarded _).imp fun u pool hu => hu.covers (.of_eq rfl)
  | «when» condition body hbody | loop condition body hbody | switch condition body hbody =>
    rw [lowerStmt]
    refine (pools_lowerExpr hlocals condition).bind fun c => pools_takeGuards.bind fun holders => hbody.bind_pure ?_
    intro b pool hb _ hc
    rw [CoversStmt, Stmt.strings, List.map_append]
    have hboth := (Covers.of_eq (n := 0) hc).append hb
    rw [Nat.zero_add, Nat.zero_add] at hboth
    exact (behind_guards holders _).covers hboth
  | ite condition thenBranch elseBranch hthen helse =>
    rw [lowerStmt]
    refine (pools_lowerExpr hlocals condition).bind fun c => pools_takeGuards.bind fun holders =>
      hthen.bind fun a => helse.bind_pure ?_
    intro b pool hb ha _ hc
    rw [CoversStmt, Stmt.strings, List.map_append, List.map_append]
    have hall := (Covers.of_eq (n := 0) hc).append (ha.append hb)
    rw [Nat.zero_add, Nat.zero_add] at hall
    exact (behind_guards holders _).covers hall
  | arm values body hbody =>
    rw [lowerStmt]
    dsimp only
    split
    · rw [fault_bind]
      exact collects_throw _ _ _
    · exact hbody.bind_pure fun b pool hb => hb
  | otherwise body hbody =>
    rw [lowerStmt]
    exact hbody.bind_pure fun b pool hb => hb

/-! ### Bodies -/

/-- Lowering a body pools the literals of its statements, or those up to the place where it fails; a lowered body reads
them by their places, whatever is pooled later. -/
theorem pools_lowerBody (p : Program) (options : GenOptions) (site : BodySite) (body : Body) {unit : UnitState}
    {seen : List Name} (hseen : unit.literals.texts = seen.eraseDups) :
    ∃ met, met <+: body.tree.strings ∧
      (lowerBody p options site body unit).2.literals.texts = (seen ++ met).eraseDups ∧
      ∀ result, (lowerBody p options site body unit).1 = .ok result →
        met = body.tree.strings ∧ ∀ pool, (seen ++ met).eraseDups <+: pool →
          Covers result.stmts.poolRefs (met.map (refTo p site.pool pool))
            result.stmts.assignCount body.tree.assignCount := by
  have hlocals : ∀ name ∈ (scopeOf p options site body).locals, poolIndex? name = none :=
    fun name hname => poolIndex?_of_mem_declareLocals hname
  obtain ⟨met, hmet, htexts, hresult⟩ := pools_lowerStmt hlocals body.tree (startState site unit) seen hseen
  refine ⟨met, hmet, htexts, fun result hlowered => ?_⟩
  obtain ⟨last, hrun⟩ := runs_of_lowerBody hlowered
  obtain ⟨rfl, hcovers⟩ := hresult result.stmts (by rw [hrun])
  exact ⟨rfl, hcovers⟩

end Lowering

end HaxeBackend
