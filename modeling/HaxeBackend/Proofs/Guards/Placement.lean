import HaxeBackend.Lowering.Body
import HaxeBackend.Proofs.Guards.Touches

/-!
# Where guards are written

Every statement of a body is written behind the guards of the classes that its own expressions touch for the first
time, and no guard is written anywhere else.  `Placed` says so of a statement and what is written for it.  The
invariant that carries the induction is that nothing is pending when the lowering of a statement starts; then
nothing is pending when it ends (`placed_lowerStmt`).  The key fact is `lowerBody_places_guards`.
-/

namespace HaxeBackend.Lowering

open Target (Step)

/-! ### What is written -/

/-- A step of writing, where the lines that are guards are told from all others. -/
inductive Written where
  /-- The line that runs the static initializer of the class that has its statics in `holder`. -/
  | guard (holder : String)
  | other (step : Step)

def Written.step : Written → Step
  | .guard holder => .line (Target.guardText holder)
  | .other step => step

/-- Steps none of which is a guard. -/
def others (steps : List Step) : List Written := steps.map .other

/-- What is written for a statement. -/
def written : Target.Stmt → List Written
  | .seq first rest => written first ++ written rest
  | .guard holder => [.guard holder]
  | .tryCatch body handler =>
    .other (.openBlock "try") :: (written body ++
      (others [.reopenBlock s!"catch ({Target.catchBinding}:Dynamic)",
        .line s!"{Target.caughtSlot} = {Target.catchBinding};"] ++ (written handler ++ others [.closeBlock])))
  | .when condition body =>
    .other (.openBlock s!"if ({condition.text})") :: (written body ++ others [.closeBlock])
  | .ite condition thenBranch elseBranch =>
    .other (.openBlock s!"if ({condition.text})") :: (written thenBranch ++
      (others [.reopenBlock "else"] ++ (written elseBranch ++ others [.closeBlock])))
  | .loop condition body =>
    .other (.openBlock s!"while ({condition.text})") :: (written body ++ others [.closeBlock])
  | .switch subject arms =>
    .other (.openBlock s!"switch ({subject.text})") :: (written arms ++ others [.closeBlock])
  | .arm values body =>
    .other (.line s!"case {Target.argumentList (values.map Target.intText)}:") ::
      (others [.indent] ++ (written body ++ others [.dedent]))
  | .otherwise body => .other (.line "default:") :: (others [.indent] ++ (written body ++ others [.dedent]))
  | stmt => others stmt.code.steps

private theorem map_step_others (steps : List Step) : (others steps).map Written.step = steps := by
  rw [others, List.map_map]
  exact List.map_id steps

/-- Without the distinction it is the code of the statement. -/
theorem map_step_written (t : Target.Stmt) : (written t).map Written.step = t.code.steps := by
  induction t with
  | guard holder => rfl
  | seq first rest ihFirst ihRest =>
    rw [written, List.map_append, ihFirst, ihRest]
    rfl
  | tryCatch body handler ihBody ihHandler =>
    simp only [written, List.map_append, List.map_cons, ihBody, ihHandler]
    rfl
  | «when» condition body ih =>
    simp only [written, List.map_append, List.map_cons, ih]
    rfl
  | ite condition thenBranch elseBranch ihThen ihElse =>
    simp only [written, List.map_append, List.map_cons, ihThen, ihElse]
    rfl
  | loop condition body ih | switch subject body ih | arm values body ih | otherwise body ih =>
    simp only [written, List.map_append, List.map_cons, ih]
    rfl
  | _ => exact map_step_others _

/-! ### Placement -/

/-- The classes that the expressions of a statement touch; those of the statements inside it are not its own. -/
def ownTouches (s : Scope) : Stmt → List Name
  | .gotoIf condition _ => touches s condition
  | .jumpTable subject _ _ => touches s subject
  | .setLocal _ value => touches s value
  | .setField object _ value => touches s object ++ touches s value
  | .setStatic r value => fieldOwner s r ++ touches s value
  | .setElement array index value => touches s array ++ (touches s index ++ touches s value)
  | .construct _ className _ args => touchesAll s args ++ [className]
  | .eval expr => touches s expr
  | .ret (some value) => touches s value
  | .throw value => touches s value
  | .when condition _ | .ite condition _ _ | .loop condition _ => touches s condition
  | .switch subject _ => touches s subject
  | _ => []

/-- The guards of touched classes: one for each class that needs it, in the order of first touch. -/
def guardsFor (s : Scope) (own : Option Name) (names : List Name) : List Written :=
  (firstTouches s.program own names).map fun name => .guard (Naming.staticHolder s.program name)

/-- The statements in the blocks of a statement. -/
def blocks : Stmt → List Stmt
  | .tryCatch body handler => [body, handler]
  | .ite _ thenBranch elseBranch => [thenBranch, elseBranch]
  | .when _ body | .loop _ body | .switch _ body | .arm _ body | .otherwise body => [body]
  | _ => []

/-- Whether this is a row of statements rather than a statement. -/
def isRow : Stmt → Bool
  | .seq .. => true
  | _ => false

/-- Guards are written for a statement where they belong: those of its own expressions in front of its first line,
and those of the statements in its blocks inside the blocks. -/
inductive Placed (s : Scope) (own : Option Name) : Stmt → List Written → Prop where
  | row {first rest : Stmt} {u v : List Written} (hfirst : Placed s own first u) (hrest : Placed s own rest v) :
    Placed s own (.seq first rest) (u ++ v)
  | plain {stmt : Stmt} (hrow : isRow stmt = false) (hblocks : blocks stmt = []) (lines : List Step) :
    Placed s own stmt (guardsFor s own (ownTouches s stmt) ++ others lines)
  | block {stmt body : Stmt} {u : List Written} (hblocks : blocks stmt = [body]) (hbody : Placed s own body u)
    (first : Step) (before after : List Step) :
    Placed s own stmt (guardsFor s own (ownTouches s stmt) ++
      .other first :: (others before ++ (u ++ others after)))
  | twoBlocks {stmt body more : Stmt} {u v : List Written} (hblocks : blocks stmt = [body, more])
    (hbody : Placed s own body u) (hmore : Placed s own more v) (first : Step) (between after : List Step) :
    Placed s own stmt (guardsFor s own (ownTouches s stmt) ++
      .other first :: (u ++ (others between ++ (v ++ others after))))

/-! ### Plain statements -/

/-- Nothing is pending. -/
def Clean (own : Option Name) (st : State) : Prop := st.guards = ⟨own, []⟩

/-- The target statement has no guards. -/
private def Quiet (t : Target.Stmt) : Prop := ∃ lines, written t = others lines

private theorem quiet_assignment (target value : Target.Expr) : Quiet (assignment target value) := by
  unfold assignment
  split
  · exact ⟨[], rfl⟩
  · exact ⟨_, rfl⟩

private theorem written_guards (holders : List String) :
    written (.ofList (holders.map .guard)) = holders.map Written.guard := by
  induction holders with
  | nil => rfl
  | cons holder rest ih =>
    show written (.guard holder) ++ written (.ofList (rest.map .guard)) = _
    rw [ih]
    rfl

variable {α : Type} {s : Scope} {own : Option Name} {st st' : State}

/-- Taking the guards writes those of everything touched and leaves nothing pending. -/
private theorem takeGuards_of_noted {names : List Name} {holders : List String}
    (hst : st.guards = noteAll s.program ⟨own, []⟩ names) (h : Runs s.takeGuards st holders st') :
    Clean own st' ∧ written (.ofList (holders.map .guard)) = guardsFor s own names := by
  unfold Scope.takeGuards at h
  obtain ⟨before, mid, hget, h⟩ := runs_bind.1 h
  obtain ⟨rfl, rfl⟩ := runs_get.1 hget
  obtain ⟨_, mid, hset, h⟩ := runs_bind.1 h
  obtain rfl := runs_set.1 hset
  obtain ⟨rfl, rfl⟩ := runs_pure.1 h
  rw [noteAll_clean] at hst
  refine ⟨?_, ?_⟩
  · show st.guards.clear = ⟨own, []⟩
    rw [hst]
    rfl
  · rw [written_guards, Guards.holders, hst, guardsFor, List.map_map]
    rfl

/-- A step that ends a plain statement: behind what was touched already, it touches these classes and writes the
statement with all its guards. -/
private def Ends (s : Scope) (own : Option Name) (x : LowerM Target.Stmt) (names : List Name) : Prop :=
  ∀ before st t st', st.guards = noteAll s.program ⟨own, []⟩ before → Runs x st t st' →
    Clean own st' ∧ ∃ lines, written t = guardsFor s own (before ++ names) ++ others lines

private theorem ends_guarded {t : Target.Stmt} (ht : Quiet t) : Ends s own (guarded s t) [] := by
  intro before st r st' hst h
  unfold guarded at h
  obtain ⟨holders, mid, htake, h⟩ := runs_bind.1 h
  obtain ⟨rfl, rfl⟩ := runs_pure.1 h
  obtain ⟨hclean, hguards⟩ := takeGuards_of_noted hst htake
  obtain ⟨lines, hlines⟩ := ht
  refine ⟨hclean, lines, ?_⟩
  rw [written, hguards, hlines, List.append_nil]

private theorem Notes.ends {x : LowerM α} {f : α → LowerM Target.Stmt} {xs ys : List Name}
    (hx : Notes s.program x xs) (hf : ∀ a, Ends s own (f a) ys) : Ends s own (x >>= f) (xs ++ ys) := by
  intro before st t st' hst h
  obtain ⟨a, mid, hmid, h⟩ := runs_bind.1 h
  have hnoted : mid.guards = noteAll s.program ⟨own, []⟩ (before ++ xs) := by
    rw [hx st a mid hmid, hst, noteAll_append]
  rw [← List.append_assoc]
  exact hf a (before ++ xs) mid t st' hnoted h

private theorem Keeps.ends {x : LowerM α} {f : α → LowerM Target.Stmt} {ys : List Name} (hx : Keeps x)
    (hf : ∀ a, Ends s own (f a) ys) : Ends s own (x >>= f) ys := by
  intro before st t st' hst h
  obtain ⟨a, mid, hmid, h⟩ := runs_bind.1 h
  exact hf a before mid t st' (by rw [hx st a mid hmid, hst]) h

/-- The last expression of a statement and the statement. -/
private theorem Notes.ends_guarded {x : LowerM α} {f : α → Target.Stmt} {xs : List Name} (hx : Notes s.program x xs)
    (hf : ∀ a, Quiet (f a)) : Ends s own (x >>= fun a => guarded s (f a)) xs := by
  have h : Ends s own (x >>= fun a => guarded s (f a)) (xs ++ []) := hx.ends fun a => Lowering.ends_guarded (hf a)
  rw [List.append_nil] at h
  exact h

/-- An existing target type is noted without a guard. -/
private theorem notes_refer {name : Name} (h : Naming.isNative s.program name) :
    Notes s.program (refer name) [name] := by
  intro st u st' hrun
  show st'.guards = note s.program st.guards name
  rw [note, if_pos h]
  exact keeps_refer name st u st' hrun

private theorem ends_lowerConstruct (id : Nat) (className : Name) (constructor : MethodRef) (args : List Expr) :
    Ends s own (lowerConstruct s id className constructor args) (touchesAll s args ++ [className]) := by
  unfold lowerConstruct
  refine (keeps_look (looks_localName id)).ends fun _ => (keeps_look (looks_requireClass className)).ends fun _ => ?_
  refine (keeps_look (looks_resolveMethod _ _)).ends fun entry => (keeps_look (looks_checkArity _ _)).ends fun _ => ?_
  refine (notes_lowerExprs args).ends fun values => ?_
  split
  · rename_i hnative
    exact (notes_refer hnative).ends_guarded fun _ => ⟨_, rfl⟩
  · exact (notes_touch className).ends_guarded fun _ => ⟨[_, _], rfl⟩

/-- A plain statement is written behind its guards. -/
private def WritesPlain (s : Scope) (own : Option Name) (stmt : Stmt) : Prop :=
  ∀ st t st', Clean own st → Runs (lowerStmt s stmt) st t st' →
    Clean own st' ∧ ∃ lines, written t = guardsFor s own (ownTouches s stmt) ++ others lines

private theorem Ends.writesPlain {stmt : Stmt} (h : Ends s own (lowerStmt s stmt) (ownTouches s stmt)) :
    WritesPlain s own stmt := fun st t st' hclean hrun => h [] st t st' hclean hrun

/-- Statements without expressions that are written as they are. -/
private theorem writesPlain_of_pure {stmt : Stmt} {x : LowerM α} {r : Target.Stmt}
    (hstmt : lowerStmt s stmt = x >>= fun _ => pure r) (hx : Keeps x) (hr : Quiet r)
    (htouches : ownTouches s stmt = []) :
    WritesPlain s own stmt := by
  intro st t st' hclean hrun
  rw [hstmt] at hrun
  obtain ⟨_, mid, hmid, hrun⟩ := runs_bind.1 hrun
  obtain ⟨rfl, rfl⟩ := runs_pure.1 hrun
  obtain ⟨lines, hlines⟩ := hr
  refine ⟨(hx _ _ _ hmid).trans hclean, lines, ?_⟩
  rw [htouches, hlines]
  rfl

private theorem writesPlain {stmt : Stmt} (hrow : isRow stmt = false) (hblocks : blocks stmt = []) :
    WritesPlain s own stmt := by
  -- a plain statement has no blocks, so all that it touches is guarded in front of it
  cases stmt with
  | missing id =>
    intro st t st' _ hrun
    rw [lowerStmt] at hrun
    exact absurd hrun runs_fault
  | skip => exact writesPlain_of_pure (x := pure ()) (by rw [lowerStmt]; rfl) (keeps_pure _) ⟨[], rfl⟩ rfl
  | line number => exact writesPlain_of_pure (x := pure ()) (by rw [lowerStmt]; rfl) (keeps_pure _) ⟨_, rfl⟩ rfl
  | label id => exact writesPlain_of_pure (by rw [lowerStmt]) (keeps_look (looks_checkJump _ _)) ⟨_, rfl⟩ rfl
  | goto label => exact writesPlain_of_pure (by rw [lowerStmt]) (keeps_look (looks_checkJump _ _)) ⟨_, rfl⟩ rfl
  | gotoIf condition label =>
    apply Ends.writesPlain
    rw [lowerStmt]
    exact (keeps_look (looks_checkJump _ _)).ends fun _ => (notes_lowerExpr condition).ends_guarded fun _ => ⟨_, rfl⟩
  | jumpTable subject cases default =>
    apply Ends.writesPlain
    rw [lowerStmt]
    refine (keeps_look (looks_forM fun _ => looks_checkJump _ _)).ends fun _ => ?_
    refine (keeps_look (looks_checkJump _ _)).ends fun _ => ?_
    exact (notes_lowerExpr subject).ends_guarded fun _ => ⟨_, rfl⟩
  | setLocal id value =>
    apply Ends.writesPlain
    rw [lowerStmt]
    refine (keeps_look (looks_localName id)).ends fun _ => ?_
    exact (notes_lowerExpr value).ends_guarded fun _ => quiet_assignment _ _
  | setField object r value =>
    apply Ends.writesPlain
    rw [lowerStmt]
    refine (notes_lowerExpr object).ends fun _ => (keeps_look (looks_resolveField r)).ends fun _ => ?_
    exact (notes_lowerExpr value).ends_guarded fun _ => quiet_assignment _ _
  | setStatic r value =>
    apply Ends.writesPlain
    rw [lowerStmt]
    exact (notes_lowerStaticField r).ends fun _ => (notes_lowerExpr value).ends_guarded fun _ => quiet_assignment _ _
  | setElement array index value =>
    apply Ends.writesPlain
    rw [lowerStmt]
    refine (keeps_look (looks_typeOf array)).ends fun _ => (keeps_look (looks_elementType _ value)).ends fun _ => ?_
    refine (notes_lowerExpr array).ends fun _ => (notes_lowerExpr index).ends fun _ => ?_
    exact (notes_lowerExpr value).ends_guarded fun _ => ⟨_, rfl⟩
  | construct id className constructor args =>
    apply Ends.writesPlain
    rw [lowerStmt]
    exact ends_lowerConstruct id className constructor args
  | eval expr =>
    apply Ends.writesPlain
    rw [lowerStmt]
    exact (notes_lowerExpr expr).ends_guarded fun _ => ⟨_, rfl⟩
  | ret value =>
    apply Ends.writesPlain
    cases value with
    | none =>
      rw [lowerStmt]
      exact ends_guarded ⟨_, rfl⟩
    | some value =>
      rw [lowerStmt]
      exact (notes_lowerExpr value).ends_guarded fun _ => ⟨_, rfl⟩
  | throw value =>
    apply Ends.writesPlain
    rw [lowerStmt]
    exact (notes_lowerExpr value).ends_guarded fun _ => ⟨_, rfl⟩
  | rethrow | exitLoop | nextLoop =>
    apply Ends.writesPlain
    rw [lowerStmt]
    exact ends_guarded ⟨_, rfl⟩
  | seq => cases hrow
  | tryCatch | «when» | ite | loop | switch | arm | otherwise => cases hblocks

/-! ### All statements -/

/-- Guards taken where nothing was touched. -/
private theorem takeGuards_of_clean {holders : List String} (hclean : Clean own st)
    (h : Runs s.takeGuards st holders st') : Clean own st' ∧ written (.ofList (holders.map .guard)) = [] :=
  takeGuards_of_noted (show st.guards = noteAll s.program ⟨own, []⟩ [] from hclean) h

/-- Guards taken behind the expression that a statement with blocks starts with. -/
private theorem takeGuards_of_head {head : Expr} {t : Target.Expr} {mid : State} {holders : List String}
    (hclean : Clean own st) (hhead : Runs (lowerExpr s head) st t mid) (h : Runs s.takeGuards mid holders st') :
    Clean own st' ∧ written (.ofList (holders.map .guard)) = guardsFor s own (touches s head) := by
  refine takeGuards_of_noted ?_ h
  rw [notes_lowerExpr head st t mid hhead, hclean]

/-- Lowering a statement with nothing pending places its guards and leaves nothing pending. -/
theorem placed_lowerStmt {stmt : Stmt} {t : Target.Stmt} (hclean : Clean own st)
    (h : Runs (lowerStmt s stmt) st t st') :
    Clean own st' ∧ Placed s own stmt (written t) := by
  induction stmt generalizing st t st' with
  | seq first rest ihFirst ihRest =>
    rw [lowerStmt] at h
    obtain ⟨a, mid, hfirst, h⟩ := runs_bind.1 h
    obtain ⟨b, after, hrest, h⟩ := runs_bind.1 h
    obtain ⟨rfl, rfl⟩ := runs_pure.1 h
    -- the first statement leaves nothing pending, so the rest starts as it did
    obtain ⟨hmid, hplaced⟩ := ihFirst hclean hfirst
    obtain ⟨hafter, hplaced'⟩ := ihRest hmid hrest
    exact ⟨hafter, .row hplaced hplaced'⟩
  | tryCatch body handler ihBody ihHandler =>
    rw [lowerStmt] at h
    obtain ⟨holders, taken, htake, h⟩ := runs_bind.1 h
    obtain ⟨b, mid, hbody, h⟩ := runs_bind.1 h
    obtain ⟨c, after, hhandler, h⟩ := runs_bind.1 h
    obtain ⟨rfl, rfl⟩ := runs_pure.1 h
    -- the guards are taken, but there is no expression that could have touched a class
    obtain ⟨htaken, hguards⟩ := takeGuards_of_clean hclean htake
    obtain ⟨hmid, hplaced⟩ := ihBody htaken hbody
    obtain ⟨hafter, hplaced'⟩ := ihHandler hmid hhandler
    refine ⟨hafter, ?_⟩
    rw [written, hguards]
    exact .twoBlocks rfl hplaced hplaced' _ _ _
  | ite condition thenBranch elseBranch ihThen ihElse =>
    rw [lowerStmt] at h
    obtain ⟨c, noted, hcondition, h⟩ := runs_bind.1 h
    obtain ⟨holders, taken, htake, h⟩ := runs_bind.1 h
    obtain ⟨a, mid, hthen, h⟩ := runs_bind.1 h
    obtain ⟨b, after, helse, h⟩ := runs_bind.1 h
    obtain ⟨rfl, rfl⟩ := runs_pure.1 h
    obtain ⟨htaken, hguards⟩ := takeGuards_of_head hclean hcondition htake
    obtain ⟨hmid, hplaced⟩ := ihThen htaken hthen
    obtain ⟨hafter, hplaced'⟩ := ihElse hmid helse
    refine ⟨hafter, ?_⟩
    rw [written, hguards]
    exact .twoBlocks rfl hplaced hplaced' _ _ _
  | «when» condition body ih | loop condition body ih | switch condition body ih =>
    rw [lowerStmt] at h
    obtain ⟨c, noted, hcondition, h⟩ := runs_bind.1 h
    obtain ⟨holders, taken, htake, h⟩ := runs_bind.1 h
    obtain ⟨b, after, hbody, h⟩ := runs_bind.1 h
    obtain ⟨rfl, rfl⟩ := runs_pure.1 h
    obtain ⟨htaken, hguards⟩ := takeGuards_of_head hclean hcondition htake
    obtain ⟨hafter, hplaced⟩ := ih htaken hbody
    refine ⟨hafter, ?_⟩
    rw [written, hguards]
    exact .block rfl hplaced _ [] _
  | arm values body ih =>
    -- the only form with a block that does not take the guards: an arm starts clean
    rw [lowerStmt] at h
    dsimp only at h
    split at h
    · obtain ⟨_, mid, hfault, -⟩ := runs_bind.1 h
      exact absurd hfault runs_fault
    · obtain ⟨b, after, hbody, h⟩ := runs_bind.1 h
      obtain ⟨rfl, rfl⟩ := runs_pure.1 h
      obtain ⟨hafter, hplaced⟩ := ih hclean hbody
      exact ⟨hafter, .block rfl hplaced _ _ _⟩
  | otherwise body ih =>
    rw [lowerStmt] at h
    obtain ⟨b, after, hbody, h⟩ := runs_bind.1 h
    obtain ⟨rfl, rfl⟩ := runs_pure.1 h
    obtain ⟨hafter, hplaced⟩ := ih hclean hbody
    exact ⟨hafter, .block rfl hplaced _ _ _⟩
  | _ =>
    obtain ⟨hafter, lines, hlines⟩ := writesPlain rfl rfl _ _ _ hclean h
    refine ⟨hafter, ?_⟩
    rw [hlines]
    exact .plain rfl rfl lines

/-! ### The statements of a body -/

/-- The expression that a statement with blocks starts with, and its first block. -/
def head? : Stmt → Option (Expr × Stmt)
  | .when condition body | .loop condition body | .switch condition body | .ite condition body _ =>
    some (condition, body)
  | _ => none

/-- The lowering of a statement from a state comes to lower a statement inside it from another state. -/
inductive Enters (s : Scope) : Stmt → State → Stmt → State → Prop where
  | first {first rest : Stmt} {st : State} : Enters s (.seq first rest) st first st
  | rest {first rest : Stmt} {st mid : State} {t : Target.Stmt} (hfirst : Runs (lowerStmt s first) st t mid) :
    Enters s (.seq first rest) st rest mid
  | body {body handler : Stmt} {st taken : State} {holders : List String} (htake : Runs s.takeGuards st holders taken) :
    Enters s (.tryCatch body handler) st body taken
  | handler {body handler : Stmt} {st taken mid : State} {holders : List String} {t : Target.Stmt}
    (htake : Runs s.takeGuards st holders taken) (hbody : Runs (lowerStmt s body) taken t mid) :
    Enters s (.tryCatch body handler) st handler mid
  | elseBranch {condition : Expr} {thenBranch elseBranch : Stmt} {st noted taken mid : State} {c : Target.Expr}
    {holders : List String} {t : Target.Stmt} (hcondition : Runs (lowerExpr s condition) st c noted)
    (htake : Runs s.takeGuards noted holders taken) (hthen : Runs (lowerStmt s thenBranch) taken t mid) :
    Enters s (.ite condition thenBranch elseBranch) st elseBranch mid
  | headed {condition : Expr} {outer inner : Stmt} {st noted taken : State} {c : Target.Expr} {holders : List String}
    (hhead : head? outer = some (condition, inner))
    (hcondition : Runs (lowerExpr s condition) st c noted) (htake : Runs s.takeGuards noted holders taken) :
    Enters s outer st inner taken
  | arm {values : List Int32} {body : Stmt} {st : State} : Enters s (.arm values body) st body st
  | otherwise {body : Stmt} {st : State} : Enters s (.otherwise body) st body st

/-- A statement that is met, at any depth, when the lowering of another starts from a state, and the state in which
its own lowering starts. -/
inductive Reaches (s : Scope) (root : Stmt) (start : State) : Stmt → State → Prop where
  | root : Reaches s root start root start
  | step {outer inner : Stmt} {st st' : State} (houter : Reaches s root start outer st)
    (h : Enters s outer st inner st') : Reaches s root start inner st'

/-- Where the lowering of a statement succeeds from a state with nothing pending, so does that of a statement
inside. -/
private theorem Enters.runs {outer inner : Stmt} {t : Target.Stmt} {last : State}
    (henters : Enters s outer st inner st') (hclean : Clean own st) (h : Runs (lowerStmt s outer) st t last) :
    Clean own st' ∧ ∃ t' last', Runs (lowerStmt s inner) st' t' last' := by
  -- the run of the outer statement passes through the state that the inner one is entered in, by determinism
  cases henters with
  | first =>
    rw [lowerStmt] at h
    obtain ⟨a, mid, hfirst, -⟩ := runs_bind.1 h
    exact ⟨hclean, a, mid, hfirst⟩
  | rest hfirst =>
    rw [lowerStmt] at h
    obtain ⟨a, mid, hfirst', h⟩ := runs_bind.1 h
    obtain ⟨b, after, hrest, -⟩ := runs_bind.1 h
    obtain ⟨-, rfl⟩ := hfirst'.unique hfirst
    exact ⟨(placed_lowerStmt hclean hfirst).1, b, after, hrest⟩
  | body htake =>
    rw [lowerStmt] at h
    obtain ⟨holders, taken, htake', h⟩ := runs_bind.1 h
    obtain ⟨b, mid, hbody, -⟩ := runs_bind.1 h
    obtain ⟨-, rfl⟩ := htake'.unique htake
    exact ⟨(takeGuards_of_clean hclean htake).1, b, mid, hbody⟩
  | handler htake hbody =>
    rw [lowerStmt] at h
    obtain ⟨holders, taken, htake', h⟩ := runs_bind.1 h
    obtain ⟨b, mid, hbody', h⟩ := runs_bind.1 h
    obtain ⟨c, after, hhandler, -⟩ := runs_bind.1 h
    obtain ⟨-, rfl⟩ := htake'.unique htake
    obtain ⟨-, rfl⟩ := hbody'.unique hbody
    exact ⟨(placed_lowerStmt (takeGuards_of_clean hclean htake).1 hbody).1, c, after, hhandler⟩
  | elseBranch hcondition htake hthen =>
    rw [lowerStmt] at h
    obtain ⟨c, noted, hcondition', h⟩ := runs_bind.1 h
    obtain ⟨holders, taken, htake', h⟩ := runs_bind.1 h
    obtain ⟨a, mid, hthen', h⟩ := runs_bind.1 h
    obtain ⟨b, after, helse, -⟩ := runs_bind.1 h
    obtain ⟨-, rfl⟩ := hcondition'.unique hcondition
    obtain ⟨-, rfl⟩ := htake'.unique htake
    obtain ⟨-, rfl⟩ := hthen'.unique hthen
    exact ⟨(placed_lowerStmt (takeGuards_of_head hclean hcondition htake).1 hthen).1, b, after, helse⟩
  -- the four statements with a condition in front of a body are entered in the same way
  | headed hhead hcondition htake =>
    refine ⟨(takeGuards_of_head hclean hcondition htake).1, ?_⟩
    cases outer with
    | «when» condition body | loop condition body | switch condition body | ite condition body other =>
      cases hhead
      rw [lowerStmt] at h
      obtain ⟨c, noted, hcondition', h⟩ := runs_bind.1 h
      obtain ⟨holders, taken, htake', h⟩ := runs_bind.1 h
      obtain ⟨b, after, hbody, -⟩ := runs_bind.1 h
      obtain ⟨-, rfl⟩ := hcondition'.unique hcondition
      obtain ⟨-, rfl⟩ := htake'.unique htake
      exact ⟨b, after, hbody⟩
    | _ => cases hhead
  | arm =>
    rw [lowerStmt] at h
    dsimp only at h
    split at h
    · obtain ⟨_, mid, hfault, -⟩ := runs_bind.1 h
      exact absurd hfault runs_fault
    · obtain ⟨b, after, hbody, -⟩ := runs_bind.1 h
      exact ⟨hclean, b, after, hbody⟩
  | otherwise =>
    rw [lowerStmt] at h
    obtain ⟨b, after, hbody, -⟩ := runs_bind.1 h
    exact ⟨hclean, b, after, hbody⟩

private theorem Reaches.runs {root stmt : Stmt} {start last : State} {t : Target.Stmt}
    (hreaches : Reaches s root start stmt st) (hclean : Clean own start) (h : Runs (lowerStmt s root) start t last) :
    Clean own st ∧ ∃ t' last', Runs (lowerStmt s stmt) st t' last' := by
  induction hreaches with
  | root => exact ⟨hclean, t, last, h⟩
  | step _ henters ih =>
    obtain ⟨hst, t', last', hrun⟩ := ih
    exact henters.runs hst hrun

/-- The steps that declare the variables of a body. -/
def declSteps (b : Target.Body) : List Step :=
  (Target.Code.ofList (b.decls.map fun d => (Target.Stmt.declare d.name d.tag d.value).code)).steps

/-- In a body that is lowered, guards are written where they belong and nowhere else, and nothing is pending behind
any statement that is reached from its root. -/
theorem lowerBody_places_guards {p : Program} {options : GenOptions} {site : BodySite} {body : Body} {unit : UnitState}
    {result : Target.Body} (h : (lowerBody p options site body unit).1 = .ok result) :
    result.code.steps = declSteps result ++ (written result.stmts).map Written.step ∧
    Placed (scopeOf p options site body) site.own body.tree (written result.stmts) ∧
    ∀ stmt st, Reaches (scopeOf p options site body) body.tree (startState site unit) stmt st →
      ∃ t st', Runs (lowerStmt (scopeOf p options site body) stmt) st t st' ∧
        Placed (scopeOf p options site body) site.own stmt (written t) ∧ st'.guards.pending = [] := by
  obtain ⟨last, hrun⟩ := runs_of_lowerBody h
  have hclean : Clean site.own (startState site unit) := rfl
  refine ⟨?_, (placed_lowerStmt hclean hrun).2, ?_⟩
  · rw [map_step_written]
    rfl
  · intro stmt st hreaches
    obtain ⟨hst, t, st', ht⟩ := hreaches.runs hclean hrun
    obtain ⟨hst', hplaced⟩ := placed_lowerStmt hst ht
    exact ⟨t, st', ht, hplaced, by rw [hst']⟩

/-- A class with a static counter. -/
private def counterClass : ClassModel where
  name := "Counter"
  kind := .plain
  superclass := none
  interfaces := []
  modifiers := ClassKind.plain.modifiers
  markers := {}
  nativeName := none
  sourceFile := none
  annotations := []
  fields := [⟨"n", .prim .int, ⟨0x0009⟩, none, []⟩]
  methods := []

private def counterProgram : Program := ⟨[counterClass], by decide⟩

private def counterField : FieldRef := ⟨"Counter", "n", .prim .int⟩

/-- A loop whose condition reads the counter twice and whose body assigns the counter to itself. -/
private def counterBody : Body where
  exprs := #[⟨.staticField counterField, .prim .int⟩, ⟨.binary .ne 0 0, .bool⟩]
  stmts := #[.setStatic counterField 0, .loop 1 0]
  stmtLists := #[1]
  root := ⟨0, 1⟩

private def counterSite : BodySite := ⟨[], false, some "Main", .own⟩

private def counterRead : Target.Expr := .member (.path "Counter") "n"

private def counterGuard : Target.Stmt := .seq (.guard "Counter") .skip

private def counterResult : Target.Body :=
  ⟨[], false, .seq (.seq counterGuard (.loop (.num "ne" [counterRead, counterRead]) (.seq counterGuard .skip))) .skip⟩

/-- The condition is guarded once in front of the loop, and the assignment once inside it although it is dropped. -/
theorem lowerBody_places_guards_counter :
    (lowerBody counterProgram {} counterSite counterBody {}).1 = .ok counterResult ∧
    written counterResult.stmts =
      [.guard "Counter", .other (.openBlock "while (N.ne(Counter.n, Counter.n))"), .guard "Counter",
        .other .closeBlock] ∧
    Placed (scopeOf counterProgram {} counterSite counterBody) (some "Main") counterBody.tree
      (written counterResult.stmts) ∧
    ∀ stmt st, Reaches (scopeOf counterProgram {} counterSite counterBody) counterBody.tree
        (startState counterSite {}) stmt st →
      ∃ t st', Runs (lowerStmt (scopeOf counterProgram {} counterSite counterBody) stmt) st t st' ∧
        Placed (scopeOf counterProgram {} counterSite counterBody) (some "Main") stmt (written t) ∧
        st'.guards.pending = [] := by
  have hlowered : (lowerBody counterProgram {} counterSite counterBody {}).1 = .ok counterResult := by
    with_unfolding_all rfl
  exact ⟨hlowered, by with_unfolding_all rfl, (lowerBody_places_guards hlowered).2⟩

end HaxeBackend.Lowering
