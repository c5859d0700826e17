import HaxeBackend.Proofs.Lowering.Scope
import HaxeBackend.Proofs.Target.Balance

/-!
# Lowering that writes as it goes

Code is laid out when a unit is complete, so a body that fails writes nothing.  Here the same lowering writes each
statement where it is met (`writeBody`): a block is opened before the statements inside are lowered and stays open when
one of them fails.  What is written until then leaves only what it entered, and a body that does not fail has written
its own code (`writes_writeBody`).
-/

namespace HaxeBackend

open Target (Step Level IsPaired nestAll?)

/-- What a writer was given until it was finished or dropped. -/
structure Draft where
  steps : List Step
  finished : Bool

/-- A dropped writer has left only what it entered, a finished one everything. -/
structure Draft.IsSound (d : Draft) : Prop where
  nests : (nestAll? [] d.steps).isSome = true
  paired : d.finished = true → IsPaired d.steps

/-- The writers of a run: the one at hand and those that were put away. -/
structure WriterLog where
  current : List Step := []
  drafts : List Draft := []

/-- Steps that write. -/
abbrev WriteM (σ : Type) := ExceptT GenError (StateM (σ × WriterLog))

namespace WriteM

variable {σ α β : Type}

def put (steps : List Step) : WriteM σ Unit :=
  modify fun (st, log) => (st, { log with current := log.current ++ steps })

/-- A step that writes nothing. -/
def lift (x : ExceptT GenError (StateM σ) α) : WriteM σ α := ExceptT.mk fun (st, log) =>
  let (result, last) := x.run.run st
  (result, last, log)

/-- Writes on a fresh writer, which is put away, and gives what it was given. -/
def aside (x : WriteM σ α) : WriteM σ (α × List Step) := ExceptT.mk fun (st, log) =>
  let (result, last, inner) := x.run.run (st, { log with current := [] })
  (result.map fun a => (a, inner.current), last,
    { log with drafts := inner.drafts ++ [⟨inner.current, result.isOk⟩] })

/-- Goes on behind a failure. -/
def attempt (x : WriteM σ α) : WriteM σ (Except GenError α) := ExceptT.mk fun st =>
  let (result, last) := x.run.run st
  (.ok result, last)

end WriteM

open WriteM (put lift aside attempt)

/-! ### Writing beside a computation -/

section Streams

variable {σ α β : Type} {Q : α → List Step → Prop} {R : β → List Step → Prop} {levels levels' : List Level}
  {y : ExceptT GenError (StateM σ) α} {x : WriteM σ α}

/-- The writing computation has the outcome of the other, leaves only what it entered, and writes what `Q` says when
it succeeds. -/
def Streams (Q : α → List Step → Prop) (levels : List Level) (y : ExceptT GenError (StateM σ) α) (x : WriteM σ α) :
    Prop :=
  ∀ st log, ∃ steps drafts,
    x.run.run (st, log) = ((y.run.run st).1, (y.run.run st).2, ⟨log.current ++ steps, log.drafts ++ drafts⟩) ∧
      (nestAll? levels steps).isSome = true ∧ (∀ d ∈ drafts, d.IsSound) ∧
      ∀ a, (y.run.run st).1 = .ok a → Q a steps

/-- The writing computation writes the code of its result. -/
abbrev Writes (code : α → Target.Code) (levels : List Level) (y : ExceptT GenError (StateM σ) α) (x : WriteM σ α) :
    Prop :=
  Streams (fun a steps => steps = (code a).steps) levels y x

theorem streams_pure {a : α} (h : Q a []) : Streams Q levels (pure a : ExceptT GenError (StateM σ) α) (pure a) := by
  intro st log
  refine ⟨[], [], by rw [List.append_nil, List.append_nil]; rfl, rfl, nofun, ?_⟩
  rintro a' ⟨⟩
  exact h

theorem streams_throw {e : GenError} : Streams Q levels (throw e : ExceptT GenError (StateM σ) α) (throw e) := by
  intro st log
  exact ⟨[], [], by rw [List.append_nil, List.append_nil]; rfl, rfl, nofun, nofun⟩

theorem streams_lift (y : ExceptT GenError (StateM σ) α) : Streams (fun _ steps => steps = []) levels y (lift y) := by
  intro st log
  exact ⟨[], [], by rw [List.append_nil, List.append_nil]; rfl, rfl, nofun, fun _ _ => rfl⟩

theorem Streams.mono {Q' : α → List Step → Prop} (hx : Streams Q levels y x) (h : ∀ a steps, Q a steps → Q' a steps) :
    Streams Q' levels y x := by
  intro st log
  obtain ⟨steps, drafts, hrun, hnest, hsound, hQ⟩ := hx st log
  exact ⟨steps, drafts, hrun, hnest, hsound, fun a ha => h a steps (hQ a ha)⟩

theorem Streams.bind {g : α → ExceptT GenError (StateM σ) β} {f : α → WriteM σ β} (hx : Streams Q levels y x)
    (hf : ∀ a steps levels', Q a steps → nestAll? levels steps = some levels' →
      Streams (fun b more => R b (steps ++ more)) levels' (g a) (f a)) :
    Streams R levels (y >>= g) (x >>= f) := by
  intro st log
  obtain ⟨steps, drafts, hrun, hnest, hsound, hQ⟩ := hx st log
  obtain ⟨levels', hnest'⟩ := Option.isSome_iff_exists.1 hnest
  rw [run_bind, run_bind, hrun]
  generalize y.run.run st = r at hQ ⊢
  obtain ⟨e | a, mid⟩ := r
  · exact ⟨steps, drafts, rfl, hnest, hsound, nofun⟩
  · obtain ⟨more, drafts', hrun', hmore, hsound', hR⟩ := hf a steps levels' (hQ a rfl) hnest' mid
      ⟨log.current ++ steps, log.drafts ++ drafts⟩
    refine ⟨steps ++ more, drafts ++ drafts', ?_, ?_, List.forall_mem_append.2 ⟨hsound, hsound'⟩, hR⟩
    · rw [← List.append_assoc, ← List.append_assoc]
      exact hrun'
    · rwa [Target.nestAll?_append, hnest']

/-- Nothing is written behind an error. -/
theorem streams_throw_bind {e : GenError} {g : α → ExceptT GenError (StateM σ) β} {f : α → WriteM σ β} :
    Streams R levels (throw e >>= g) (throw e >>= f) :=
  Streams.bind (streams_throw (Q := fun _ _ => False)) fun _ _ _ h _ => h.elim

/-- Behind a step that writes nothing. -/
theorem Streams.lift_bind {g : α → ExceptT GenError (StateM σ) β} {f : α → WriteM σ β}
    (hf : ∀ a, Streams R levels (g a) (f a)) : Streams R levels (y >>= g) (lift y >>= f) := by
  refine (streams_lift y).bind fun a steps levels' hsteps hnest => ?_
  subst hsteps
  cases hnest
  exact hf a

/-- Behind a step that writes code. -/
theorem Writes.bind {code : α → Target.Code} {g : α → ExceptT GenError (StateM σ) β} {f : α → WriteM σ β}
    (hx : Writes code levels y x)
    (hf : ∀ a, Streams (fun b more => R b ((code a).steps ++ more)) levels (g a) (f a)) :
    Streams R levels (y >>= g) (x >>= f) := by
  refine Streams.bind hx fun a steps levels' hsteps hnest => ?_
  subst hsteps
  rw [Target.nestAll?_steps] at hnest
  cases hnest
  exact hf a

theorem Streams.put_bind {steps : List Step} (hnest : nestAll? levels steps = some levels')
    (hx : Streams (fun a more => Q a (steps ++ more)) levels' y x) :
    Streams Q levels y (put steps >>= fun _ => x) := by
  have hput : Streams (fun _ more => more = steps) levels (pure () : ExceptT GenError (StateM σ) Unit) (put steps) := by
    intro st log
    exact ⟨steps, [], by rw [List.append_nil]; rfl, by rw [hnest]; rfl, nofun, fun _ _ => rfl⟩
  have hbind : Streams Q levels (pure () >>= fun _ => y) (put steps >>= fun _ => x) := by
    refine hput.bind fun _ more levels'' hmore hnest' => ?_
    subst hmore
    obtain rfl := Option.some_inj.1 (hnest.symm.trans hnest')
    exact hx
  rwa [pure_bind] at hbind

/-- Behind code that is written. -/
theorem Streams.code_bind {code : Target.Code} (hx : Streams (fun a more => Q a (code.steps ++ more)) levels y x) :
    Streams Q levels y (put code.steps >>= fun _ => x) := hx.put_bind (Target.nestAll?_steps code levels)

/-- A fresh writer that was put away has the code of the result, or it was dropped. -/
private theorem run_aside {code : α → Target.Code} (hx : Writes code [] y x) (st : σ) (log : WriterLog) :
    ∃ drafts, (aside x).run.run (st, log) =
        ((y.run.run st).1.map fun a => (a, (code a).steps), (y.run.run st).2, ⟨log.current, log.drafts ++ drafts⟩) ∧
      ∀ d ∈ drafts, d.IsSound := by
  obtain ⟨steps, drafts, hrun, hnest, hsound, hsteps⟩ := hx st { log with current := [] }
  have haside : (aside x).run.run (st, log) =
      let r := x.run.run (st, { log with current := [] })
      (r.1.map fun a => (a, r.2.2.current), r.2.1, ⟨log.current, r.2.2.drafts ++ [⟨r.2.2.current, r.1.isOk⟩]⟩) := rfl
  refine ⟨drafts ++ [⟨steps, (y.run.run st).1.isOk⟩], ?_, List.forall_mem_append.2 ⟨hsound, ?_⟩⟩
  · rw [haside, hrun, ← List.append_assoc]
    cases hresult : (y.run.run st).1 with
    | error e => rfl
    | ok a => simp only [Except.map, ← hsteps a hresult, List.nil_append]
  · refine List.forall_mem_singleton.2 ⟨hnest, fun hfinished => ?_⟩
    cases hresult : (y.run.run st).1 with
    | error e =>
      rw [hresult] at hfinished
      cases hfinished
    | ok a => exact hsteps a hresult ▸ (code a).isPaired_steps

/-- Behind a step on a fresh writer. -/
theorem Writes.aside_bind {code : α → Target.Code} {g : α → ExceptT GenError (StateM σ) β}
    {f : α × List Step → WriteM σ β} (hx : Writes code [] y x)
    (hf : ∀ a, Streams R levels (g a) (f (a, (code a).steps))) : Streams R levels (y >>= g) (aside x >>= f) := by
  intro st log
  obtain ⟨drafts, hrun, hsound⟩ := run_aside hx st log
  rw [run_bind, run_bind, hrun]
  generalize y.run.run st = r
  obtain ⟨e | a, mid⟩ := r
  · exact ⟨[], drafts, by rw [List.append_nil]; rfl, rfl, hsound, nofun⟩
  · obtain ⟨more, drafts', hrun', hmore, hsound', hR⟩ := hf a mid ⟨log.current, log.drafts ++ drafts⟩
    refine ⟨more, drafts ++ drafts', ?_, hmore, List.forall_mem_append.2 ⟨hsound, hsound'⟩, hR⟩
    rw [← List.append_assoc]
    exact hrun'

/-- The outcome of a step, whichever it is. -/
def outcome (y : ExceptT GenError (StateM σ) α) : ExceptT GenError (StateM σ) (Except GenError α) :=
  ExceptT.mk fun st =>
    let (result, last) := y.run.run st
    (.ok result, last)

/-- Behind a step on a fresh writer, also when it failed. -/
theorem Writes.attempt_bind {code : α → Target.Code} {g : Except GenError α → ExceptT GenError (StateM σ) β}
    {f : Except GenError (α × List Step) → WriteM σ β} (hx : Writes code [] y x)
    (hok : ∀ a, Streams R levels (g (.ok a)) (f (.ok (a, (code a).steps))))
    (herror : ∀ e, Streams R levels (g (.error e)) (f (.error e))) :
    Streams R levels (outcome y >>= g) (attempt (aside x) >>= f) := by
  intro st log
  obtain ⟨drafts, hrun, hsound⟩ := run_aside hx st log
  have hattempt : (attempt (aside x)).run.run (st, log) =
      (.ok ((aside x).run.run (st, log)).1, ((aside x).run.run (st, log)).2) := rfl
  have houtcome : (outcome y).run.run st = (.ok (y.run.run st).1, (y.run.run st).2) := rfl
  rw [run_bind, run_bind, hattempt, hrun, houtcome]
  generalize y.run.run st = r
  have hrest : Streams R levels (g r.1) (f (r.1.map fun a => (a, (code a).steps))) := by
    cases r.1 with
    | error e => exact herror e
    | ok a => exact hok a
  obtain ⟨more, drafts', hrun', hmore, hsound', hR⟩ := hrest r.2 ⟨log.current, log.drafts ++ drafts⟩
  refine ⟨more, drafts ++ drafts', ?_, hmore, List.forall_mem_append.2 ⟨hsound, hsound'⟩, hR⟩
  rw [← List.append_assoc]
  exact hrun'

end Streams

namespace Lowering

/-! ### Statements -/

/-- The guards in front of a statement. -/
def guardsOf (holders : List String) : Target.Stmt := .ofList (holders.map .guard)

/-- Writes a block around what is inside. -/
def writeBlock (before : Target.Code) (header : String) (body : WriteM State Target.Stmt) :
    WriteM State Target.Stmt := do
  put before.steps
  put [.openBlock header]
  let b ← body
  put [.closeBlock]
  return b

/-- Writes two blocks, the second starting on the line where the first ends. -/
def writeChain (before : Target.Code) (header : String) (body : WriteM State Target.Stmt) (nextHeader : String)
    (start : Target.Code) (nextBody : WriteM State Target.Stmt) : WriteM State (Target.Stmt × Target.Stmt) := do
  put before.steps
  put [.openBlock header]
  let a ← body
  put [.reopenBlock nextHeader]
  put start.steps
  let b ← nextBody
  put [.closeBlock]
  return (a, b)

/-- Writes a line and what is indented below. -/
def writeBelow (line : String) (body : WriteM State Target.Stmt) : WriteM State Target.Stmt := do
  put [.line line, .indent]
  let b ← body
  put [.dedent]
  return b

/-- Lowers a statement and writes it: a structured one around what is inside, any other when it is lowered. -/
def writeStmt (s : Scope) : Stmt → WriteM State Target.Stmt
  | .seq first rest => do
    let a ← writeStmt s first
    let b ← writeStmt s rest
    return .seq a b
  | .tryCatch body handler => do
    let before ← lift s.takeGuards
    let (b, h) ← writeChain (guardsOf before).code "try" (writeStmt s body) s!"catch ({Target.catchBinding}:Dynamic)"
      (.line s!"{Target.caughtSlot} = {Target.catchBinding};") (writeStmt s handler)
    return .seq (guardsOf before) (.tryCatch b h)
  | .when condition body => do
    let c ← lift (lowerExpr s condition)
    let before ← lift s.takeGuards
    let b ← writeBlock (guardsOf before).code s!"if ({c.text})" (writeStmt s body)
    return .seq (guardsOf before) (.when c b)
  | .ite condition thenBranch elseBranch => do
    let c ← lift (lowerExpr s condition)
    let before ← lift s.takeGuards
    let (a, b) ← writeChain (guardsOf before).code s!"if ({c.text})" (writeStmt s thenBranch) "else" .empty
      (writeStmt s elseBranch)
    return .seq (guardsOf before) (.ite c a b)
  | .loop condition body => do
    let c ← lift (lowerExpr s condition)
    let before ← lift s.takeGuards
    let b ← writeBlock (guardsOf before).code s!"while ({c.text})" (writeStmt s body)
    return .seq (guardsOf before) (.loop c b)
  | .switch subject arms => do
    let x ← lift (lowerExpr s subject)
    let before ← lift s.takeGuards
    let a ← writeBlock (guardsOf before).code s!"switch ({x.text})" (writeStmt s arms)
    return .seq (guardsOf before) (.switch x a)
  | .arm values body => do
    if values.isEmpty then throw (.ofFault .emptyCase)
    let b ← writeBelow s!"case {Target.argumentList (values.map Target.intText)}:" (writeStmt s body)
    return .arm values b
  | .otherwise body => do
    let b ← writeBelow "default:" (writeStmt s body)
    return .otherwise b
  | stmt => do
    let t ← lift (lowerStmt s stmt)
    put t.code.steps
    return t

section Statements

variable {s : Scope} {levels : List Level} {before start : Target.Code} {header nextHeader line : String}
  {y z : LowerM Target.Stmt} {x x' : WriteM State Target.Stmt}

private theorem writes_leaf (y : LowerM Target.Stmt) :
    Writes Target.Stmt.code levels y (lift y >>= fun t => put t.code.steps >>= fun _ => pure t) := by
  have hbind : Writes Target.Stmt.code levels (y >>= pure) (lift y >>= fun t => put t.code.steps >>= fun _ => pure t) :=
    .lift_bind fun t => .code_bind (streams_pure (List.append_nil _))
  rwa [bind_pure] at hbind

private theorem writes_writeBlock (hx : ∀ levels, Writes Target.Stmt.code levels y x) :
    Writes (fun b => before ++ .block header b.code) levels y (writeBlock before header x) := by
  have hbind : Writes (fun b => before ++ .block header b.code) levels (y >>= pure) (writeBlock before header x) :=
    .code_bind <| .put_bind rfl <| (hx _).bind fun b => .put_bind rfl <| streams_pure (by simp [Target.Code.steps])
  rwa [bind_pure] at hbind

private theorem streams_writeChain_bind {β : Type} {R : β → List Step → Prop}
    {g : Target.Stmt → Target.Stmt → LowerM β} {f : Target.Stmt × Target.Stmt → WriteM State β}
    (hx : ∀ levels, Writes Target.Stmt.code levels y x) (hx' : ∀ levels, Writes Target.Stmt.code levels z x')
    (hf : ∀ a b, Streams
      (fun c more => R c ((before ++ .chain header a.code nextHeader (start ++ b.code)).steps ++ more)) levels
      (g a b) (f (a, b))) :
    Streams R levels (y >>= fun a => z >>= fun b => g a b) (writeChain before header x nextHeader start x' >>= f) := by
  have hchain : Writes (fun p => before ++ .chain header p.1.code nextHeader (start ++ p.2.code)) levels
      (y >>= fun a => z >>= fun b => pure (a, b)) (writeChain before header x nextHeader start x') :=
    .code_bind <| .put_bind rfl <| (hx _).bind fun a => .put_bind rfl <| .code_bind <| (hx' _).bind fun b =>
      .put_bind rfl <| streams_pure (by simp [Target.Code.steps])
  have hbind : Streams R levels ((y >>= fun a => z >>= fun b => pure (a, b)) >>= fun p => g p.1 p.2)
      (writeChain before header x nextHeader start x' >>= f) := hchain.bind fun p => hf p.1 p.2
  simpa only [bind_assoc, pure_bind] using hbind

private theorem writes_writeBelow (hx : ∀ levels, Writes Target.Stmt.code levels y x) :
    Writes (fun b => .line line ++ .indented b.code) levels y (writeBelow line x) := by
  have hbind : Writes (fun b => .line line ++ .indented b.code) levels (y >>= pure) (writeBelow line x) :=
    .put_bind rfl <| (hx _).bind fun b => .put_bind rfl <| streams_pure (by simp [Target.Code.steps])
  rwa [bind_pure] at hbind

/-- A statement that is lowered has written its code; one that fails has left only what it entered. -/
theorem writes_writeStmt (stmt : Stmt) (levels : List Level) :
    Writes Target.Stmt.code levels (lowerStmt s stmt) (writeStmt s stmt) := by
  -- the levels are those entered around the statement, which its parts are written below
  induction stmt generalizing levels with
  | seq first rest hfirst hrest =>
    rw [lowerStmt, writeStmt]
    exact (hfirst levels).bind fun a => (hrest levels).bind fun b => streams_pure (by simp [Target.Stmt.code])
  | tryCatch body handler hbody hhandler =>
    rw [lowerStmt, writeStmt]
    exact .lift_bind fun before => streams_writeChain_bind hbody hhandler fun b h => streams_pure (List.append_nil _)
  | «when» condition body hbody =>
    rw [lowerStmt, writeStmt]
    exact .lift_bind fun c => .lift_bind fun before => (writes_writeBlock hbody).bind fun b =>
      streams_pure (List.append_nil _)
  | ite condition thenBranch elseBranch hthen helse =>
    rw [lowerStmt, writeStmt]
    exact .lift_bind fun c => .lift_bind fun before => streams_writeChain_bind hthen helse fun a b =>
      streams_pure (List.append_nil _)
  | loop condition body hbody =>
    rw [lowerStmt, writeStmt]
    exact .lift_bind fun c => .lift_bind fun before => (writes_writeBlock hbody).bind fun b =>
      streams_pure (List.append_nil _)
  | switch subject arms harms =>
    rw [lowerStmt, writeStmt]
    exact .lift_bind fun c => .lift_bind fun before => (writes_writeBlock harms).bind fun b =>
      streams_pure (List.append_nil _)
  | arm values body hbody =>
    rw [lowerStmt, writeStmt]
    dsimp only
    split
    · exact streams_throw_bind
    · exact (writes_writeBelow hbody).bind fun b => streams_pure (List.append_nil _)
  | otherwise body hbody =>
    rw [lowerStmt, writeStmt]
    exact (writes_writeBelow hbody).bind fun b => streams_pure (List.append_nil _)
  | _ => exact writes_leaf _

end Statements

/-! ### Bodies -/

/-- The lowering of a body as a step of its unit. -/
def bodyStep (p : Program) (options : GenOptions) (site : BodySite) (body : Body) :
    ExceptT GenError (StateM UnitState) Target.Body := ExceptT.mk (lowerBody p options site body)

/-- The declarations in front of the statements of a body. -/
def declarations (p : Program) (site : BodySite) (body : Body) : Target.Code :=
  let front : Target.Body := ⟨(declareLocals p site.params.reverse body.locals.toList).2, body.hasTraps, .skip⟩
  .ofList (front.decls.map fun d => (Target.Stmt.declare d.name d.tag d.value).code)

/-- Writes the declarations of a body, then lowers its statements and writes them. -/
def writeStmts (p : Program) (options : GenOptions) (site : BodySite) (body : Body) : WriteM State Target.Stmt := do
  put (declarations p site body).steps
  writeStmt (scopeOf p options site body) body.tree

/-- Lowers a body and writes it. -/
def writeBody (p : Program) (options : GenOptions) (site : BodySite) (body : Body) : WriteM UnitState Target.Body :=
  ExceptT.mk fun (unit, log) =>
    let (result, last, log) := (writeStmts p options site body).run.run (startState site unit, log)
    (result.map fun stmts => ⟨(declareLocals p site.params.reverse body.locals.toList).2, body.hasTraps, stmts⟩,
      { unit with literals := last.literals, refs := last.refs }, log)

/-- A body that is lowered has written its code. -/
theorem writes_writeBody (p : Program) (options : GenOptions) (site : BodySite) (body : Body) (levels : List Level) :
    Writes Target.Body.code levels (bodyStep p options site body) (writeBody p options site body) := by
  have hstmts : Streams (fun stmts steps => steps = (declarations p site body).steps ++ stmts.code.steps) levels
      (lowerStmt (scopeOf p options site body) body.tree) (writeStmts p options site body) :=
    .code_bind ((writes_writeStmt body.tree levels).mono fun _ _ hsteps => congrArg _ hsteps)
  intro unit log
  obtain ⟨steps, drafts, hrun, hnest, hsound, hsteps⟩ := hstmts (startState site unit) log
  refine ⟨steps, drafts, ?_, hnest, hsound, ?_⟩
  · have hwrite : (writeBody p options site body).run.run (unit, log) =
        let r := (writeStmts p options site body).run.run (startState site unit, log)
        (r.1.map fun stmts => ⟨(declareLocals p site.params.reverse body.locals.toList).2, body.hasTraps, stmts⟩,
          { unit with literals := r.2.1.literals, refs := r.2.1.refs }, r.2.2) := rfl
    rw [hwrite, hrun]
    rfl
  · intro b hb
    have hmap : (((lowerStmt (scopeOf p options site body) body.tree).run.run (startState site unit)).1.map fun stmts =>
        ⟨(declareLocals p site.params.reverse body.locals.toList).2, body.hasTraps, stmts⟩) = .ok b := hb
    generalize ((lowerStmt (scopeOf p options site body) body.tree).run.run (startState site unit)).1 = r at hmap hsteps
    cases r with
    | error e => cases hmap
    | ok stmts =>
      cases hmap
      exact hsteps stmts rfl

end Lowering

end HaxeBackend
