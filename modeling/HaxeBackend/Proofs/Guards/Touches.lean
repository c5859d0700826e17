import HaxeBackend.Proofs.Lowering.Adapters

/-!
# What an expression touches

`touches` says which classes the evaluation of an expression touches, in order: the owners of static fields and
methods, allocated classes, and the class that string literals are reached through.  The key facts: lowering an
expression notes exactly these for the guards (`notes_lowerExpr`), and of what is noted each class that needs a
guard is kept once, in the order of first touch (`noteAll_clean`).
-/

namespace HaxeBackend.Lowering

/-- The owner of the method that a static call runs. -/
def calledOwner (s : Scope) (r : MethodRef) : List Name :=
  ((s.program.resolve? r false).map fun entry => entry.owner.name).toList

/-- The owner of a static field. -/
def fieldOwner (s : Scope) (r : FieldRef) : List Name :=
  ((s.program.getField? r.owner r.name r.type).map fun entry => entry.owner.name).toList

/-- The class that string literals are reached through. -/
def poolOwner (s : Scope) : List Name :=
  match s.pool with
  | .own => []
  | .through className => [className]

mutual

/-- The classes that an expression touches, in order and with repetitions.  The receiver of a super call is left out: it
is never translated, the call is written on `super` whatever the receiver is. -/
def touches (s : Scope) : Expr → List Name
  | .literal (.string _) _ => poolOwner s
  | .literal .. | .missing _ | .readLocal .. | .this _ | .caught _ | .capture .. => []
  | .binary _ left right _ => touches s left ++ touches s right
  | .unary _ operand _ => touches s operand
  | .staticCall method args _ => calledOwner s method ++ touchesAll s args
  | .call receiver _ args _ _ => touches s receiver ++ touchesAll s args
  | .superCall _ _ args _ => touchesAll s args
  | .field object _ _ => touches s object
  | .staticField r _ => fieldOwner s r
  | .element array index _ => touches s array ++ touches s index
  | .arrayLength array _ => touches s array
  | .allocate className _ => [className]
  | .newArray counts _ => touchesAll s counts
  | .instanceOf operand _ _ => touches s operand
  | .cast operand _ => touches s operand

def touchesAll (s : Scope) : List Expr → List Name
  | [] => []
  | e :: rest => touches s e ++ touchesAll s rest

end

/-! ### Notes of touches -/

/-- The guards after a class was touched; existing target types need none. -/
def note (p : Program) (g : Guards) (name : Name) : Guards :=
  if Naming.isNative p name then g else g.touch name

def noteAll (p : Program) (g : Guards) (names : List Name) : Guards := names.foldl (note p) g

theorem noteAll_append (p : Program) (g : Guards) (xs ys : List Name) :
    noteAll p g (xs ++ ys) = noteAll p (noteAll p g xs) ys := List.foldl_append

variable {α β : Type} {s : Scope}

/-! ### Steps that touch nothing -/

/-- A step that leaves the guards as they are. -/
def Keeps (x : LowerM α) : Prop := ∀ st a st', Runs x st a st' → st'.guards = st.guards

theorem Keeps.bind {x : LowerM α} {f : α → LowerM β} (hx : Keeps x) (hf : ∀ a, Keeps (f a)) : Keeps (x >>= f) := by
  intro st b st' h
  obtain ⟨a, mid, hmid, h⟩ := runs_bind.1 h
  rw [hf a mid b st' h, hx st a mid hmid]

theorem keeps_pure (a : α) : Keeps (pure a : LowerM α) := by
  intro st b st' h
  rw [(runs_pure.1 h).2]

private theorem keeps_throw (e : GenError) : Keeps (throw e : LowerM α) := fun _ _ _ h => absurd h runs_throw

theorem keeps_fault (f : BodyFault) : Keeps (fault f : LowerM α) := keeps_throw _

/-- What is only looked up touches nothing. -/
theorem keeps_look {x : LowerM α} {P : α → Prop} (h : Looks x P) : Keeps x := by
  intro st a st' hrun
  rw [(h.runs hrun).2]

theorem keeps_refer (name : Name) : Keeps (refer name) := by
  intro st u st' h
  rw [runs_modify.1 h]

private theorem keeps_referType (type : Ty) : Keeps (referType type) := by
  intro st u st' h
  rw [runs_modify.1 h]

/-- An adapter initializes the class that it calls itself. -/
private theorem keeps_capture (interfaceMethod target : MethodRef) : Keeps (capture s interfaceMethod target) := by
  rw [capture_eq]
  refine (keeps_look (looks_requireClass _)).bind fun interface => ?_
  split
  · exact (keeps_look (looks_resolveMethod _ _)).bind fun entry => (keeps_refer _).bind fun _ =>
      (keeps_refer _).bind fun _ => (keeps_look looks_get).bind fun _ =>
      (keeps_look (looks_forwarded _ _ entry)).bind fun _ => keeps_pure _
  · exact keeps_throw _

/-! ### Steps that touch classes -/

/-- A step that notes these classes. -/
def Notes (p : Program) (x : LowerM α) (names : List Name) : Prop :=
  ∀ st a st', Runs x st a st' → st'.guards = noteAll p st.guards names

theorem Notes.bind {p : Program} {x : LowerM α} {f : α → LowerM β} {xs ys : List Name} (hx : Notes p x xs)
    (hf : ∀ a, Notes p (f a) ys) : Notes p (x >>= f) (xs ++ ys) := by
  intro st b st' h
  obtain ⟨a, mid, hmid, h⟩ := runs_bind.1 h
  rw [hf a mid b st' h, hx st a mid hmid, noteAll_append]

/-- Steps that touch nothing may come first or last. -/
theorem Notes.bind_keeps {p : Program} {x : LowerM α} {f : α → LowerM β} {xs : List Name} (hx : Notes p x xs)
    (hf : ∀ a, Keeps (f a)) : Notes p (x >>= f) xs := by
  intro st b st' h
  obtain ⟨a, mid, hmid, h⟩ := runs_bind.1 h
  rw [hf a mid b st' h, hx st a mid hmid]

theorem Keeps.bind_notes {p : Program} {x : LowerM α} {f : α → LowerM β} {ys : List Name} (hx : Keeps x)
    (hf : ∀ a, Notes p (f a) ys) : Notes p (x >>= f) ys := by
  intro st b st' h
  obtain ⟨a, mid, hmid, h⟩ := runs_bind.1 h
  rw [hf a mid b st' h, hx st a mid hmid]

theorem notes_touch (name : Name) : Notes s.program (s.touch name) [name] := by
  intro st u st' h
  unfold Scope.touch at h
  dsimp only at h
  show st'.guards = note s.program st.guards name
  rw [note]
  cases hnative : Naming.isNative s.program name with
  | true =>
    rw [hnative] at h
    exact keeps_refer name st u st' h
  | false =>
    rw [hnative] at h
    obtain ⟨_, mid, hmid, h⟩ := runs_bind.1 h
    rw [keeps_refer name mid u st' h, runs_modify.1 hmid]
    rfl

private theorem notes_lowerString (text : Name) : Notes s.program (lowerString s text) (poolOwner s) := by
  intro st t st' h
  unfold lowerString at h
  obtain ⟨before, mid, hget, h⟩ := runs_bind.1 h
  obtain ⟨rfl, rfl⟩ := runs_get.1 hget
  obtain ⟨_, mid, hset, h⟩ := runs_bind.1 h
  obtain rfl := runs_set.1 hset
  unfold poolOwner
  cases hpool : s.pool with
  | own =>
    rw [hpool] at h
    rw [keeps_pure _ _ _ _ h]
    rfl
  | through className =>
    rw [hpool] at h
    rw [(notes_touch className).bind_keeps (fun _ => keeps_pure _) _ _ _ h]

private theorem notes_lowerLiteral (value : Literal) (type : Ty) :
    Notes s.program (lowerLiteral s value) (touches s (.literal value type)) := by
  cases value with
  | string text =>
    rw [touches]
    exact notes_lowerString text
  | classRef type => exact (keeps_referType type).bind fun _ => keeps_pure _
  | null | bool _ | int _ | long _ | float _ | double _ => exact keeps_pure _

theorem notes_lowerStaticField (r : FieldRef) : Notes s.program (lowerStaticField s r) (fieldOwner s r) := by
  intro st t st' h
  unfold lowerStaticField at h
  obtain ⟨entry, mid, hfield, h⟩ := runs_bind.1 h
  obtain ⟨hentry, rfl⟩ := runs_resolveField.1 hfield
  have howner : fieldOwner s r = [entry.owner.name] := by
    rw [fieldOwner, hentry]
    rfl
  rw [howner]
  exact (notes_touch _).bind_keeps (fun _ => keeps_pure _) _ _ _ h

private theorem notes_allocate (className : Name) : Notes s.program (allocate s className) [className] := by
  unfold allocate
  exact (keeps_look (looks_requireClass _)).bind_notes fun _ => (notes_touch _).bind_keeps fun _ => keeps_pure _

/-! ### Expressions -/

mutual

/-- Lowering an expression notes what the expression touches. -/
theorem notes_lowerExpr : (e : Expr) → Notes s.program (lowerExpr s e) (touches s e)
  | .missing id => by
    rw [lowerExpr]
    exact keeps_fault _
  | .literal value type => by
    rw [lowerExpr]
    exact notes_lowerLiteral value type
  | .readLocal id _ => by
    rw [lowerExpr, touches]
    exact (keeps_look (looks_localName id)).bind fun _ => keeps_pure _
  | .this _ => by
    rw [lowerExpr]
    exact keeps_pure _
  | .caught _ => by
    rw [lowerExpr]
    exact keeps_pure _
  | .binary _ left right _ => by
    rw [lowerExpr, touches]
    exact (notes_lowerExpr left).bind fun _ => (notes_lowerExpr right).bind_keeps fun _ => keeps_pure _
  | .unary _ operand _ => by
    rw [lowerExpr, touches]
    exact (notes_lowerExpr operand).bind_keeps fun _ => keeps_pure _
  | .staticCall method args _ => by
    rw [lowerExpr, touches]
    intro st t st' h
    obtain ⟨entry, mid, hresolve, h⟩ := runs_bind.1 h
    obtain ⟨hentry, rfl⟩ := runs_resolveMethod.1 hresolve
    -- the owner that is touched is the one that resolving finds
    have howner : calledOwner s method = [entry.owner.name] := by
      rw [calledOwner, hentry]
      rfl
    rw [howner]
    refine ((notes_touch _).bind fun _ => (keeps_look (looks_checkArity _ _)).bind_notes fun _ => ?_) _ _ _ h
    exact (notes_lowerExprs args).bind_keeps fun _ => keeps_pure _
  | .call receiver method args special _ => by
    rw [lowerExpr, touches]
    refine (keeps_look (looks_resolveMethod _ _)).bind_notes fun entry => (notes_lowerExpr receiver).bind fun base => ?_
    refine (keeps_look (looks_checkArity _ _)).bind_notes fun _ => ?_
    exact (notes_lowerExprs args).bind_keeps fun _ => keeps_pure _
  | .superCall _ method args _ => by
    rw [lowerExpr, touches]
    refine (keeps_look (looks_resolveMethod _ _)).bind_notes fun entry => ?_
    refine (keeps_look (looks_checkArity _ _)).bind_notes fun _ => ?_
    exact (notes_lowerExprs args).bind_keeps fun _ => keeps_pure _
  | .field object r _ => by
    rw [lowerExpr, touches]
    exact (notes_lowerExpr object).bind_keeps fun _ => (keeps_look (looks_resolveField r)).bind fun _ => keeps_pure _
  | .staticField r _ => by
    rw [lowerExpr, touches]
    exact notes_lowerStaticField r
  | .element array index _ => by
    rw [lowerExpr, touches]
    refine (keeps_look (looks_typeOf array)).bind_notes fun _ => (notes_lowerExpr array).bind fun _ => ?_
    exact (notes_lowerExpr index).bind_keeps fun _ => keeps_pure _
  | .arrayLength array _ => by
    rw [lowerExpr, touches]
    exact (keeps_look (looks_typeOf array)).bind_notes fun _ => (notes_lowerExpr array).bind_keeps fun _ => keeps_pure _
  | .allocate className _ => by
    rw [lowerExpr, touches]
    exact notes_allocate className
  | .newArray counts type => by
    rw [lowerExpr, touches]
    exact (notes_lowerExprs counts).bind_keeps fun _ => (keeps_referType type).bind fun _ =>
      keeps_look (looks_newArray _ _)
  | .instanceOf operand check _ => by
    rw [lowerExpr, touches]
    exact (notes_lowerExpr operand).bind_keeps fun _ => (keeps_referType check).bind fun _ => keeps_pure _
  | .cast operand type => by
    rw [lowerExpr, touches]
    refine (keeps_look (looks_typeOf operand)).bind_notes fun _ => (notes_lowerExpr operand).bind_keeps fun _ => ?_
    exact (keeps_referType type).bind fun _ => keeps_pure _
  | .capture interfaceMethod target _ => by
    rw [lowerExpr, touches]
    exact keeps_capture _ _

theorem notes_lowerExprs : (es : List Expr) → Notes s.program (lowerExprs s es) (touchesAll s es)
  | [] => by
    rw [lowerExprs, touchesAll]
    exact keeps_pure _
  | e :: rest => by
    rw [lowerExprs, touchesAll]
    exact (notes_lowerExpr e).bind fun _ => (notes_lowerExprs rest).bind_keeps fun _ => keeps_pure _

end

/-! ### First touches -/

/-- Whether a class needs a guard in a body: it stands for no existing target type and is not the body's own. -/
def needsGuard (p : Program) (own : Option Name) (name : Name) : Bool := !Naming.isNative p name && own != some name

/-- The classes that need a guard, each once and in the order of first touch. -/
def firstTouches (p : Program) (own : Option Name) (names : List Name) : List Name :=
  (names.filter (needsGuard p own)).eraseDups

private theorem note_eq (p : Program) (own : Option Name) (pending : List Name) (name : Name) :
    note p ⟨own, pending⟩ name =
      if needsGuard p own name && !pending.contains name then ⟨own, pending ++ [name]⟩ else ⟨own, pending⟩ := by
  unfold note needsGuard Guards.touch Guards.owns
  cases Naming.isNative p name <;> cases hown : own == some name <;> cases hmem : pending.contains name <;>
    simp_all [bne]

/-- What is noted is what was pending and then what is touched for the first time. -/
private theorem noteAll_eq (p : Program) (own : Option Name) (pending names : List Name) :
    noteAll p ⟨own, pending⟩ names =
      ⟨own, pending ++ (names.filter fun n => needsGuard p own n && !pending.contains n).eraseDups⟩ := by
  induction names generalizing pending with
  | nil => simp [noteAll]
  | cons name rest ih =>
    show noteAll p (note p ⟨own, pending⟩ name) rest = _
    rw [note_eq]
    cases hnew : needsGuard p own name && !pending.contains name with
    | false =>
      rw [List.filter_cons, hnew]
      exact ih pending
    | true =>
      have hfilter : (rest.filter fun n => needsGuard p own n && !pending.contains n).filter (fun n => !n == name) =
          rest.filter fun n => needsGuard p own n && !(pending ++ [name]).contains n := by
        rw [List.filter_filter]
        congr 1
        funext n
        simp only [List.contains_append, List.contains_cons, List.contains_nil, Bool.or_false, Bool.not_or]
        cases needsGuard p own n <;> cases pending.contains n <;> simp
      rw [List.filter_cons, hnew, if_pos rfl, if_pos rfl, List.eraseDups_cons, hfilter, ih]
      simp

theorem noteAll_clean (p : Program) (own : Option Name) (names : List Name) :
    noteAll p ⟨own, []⟩ names = ⟨own, firstTouches p own names⟩ := by
  rw [noteAll_eq, firstTouches]
  simp

end HaxeBackend.Lowering
