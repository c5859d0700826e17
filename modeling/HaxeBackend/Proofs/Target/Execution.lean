import HaxeBackend.Support.Computation
import HaxeBackend.Target.Stmt

/-!
# Execution of structured statements

How statements run, as far as caught values are concerned.  A function has one slot for them: a clause stores what it
catches in the slot, and every use of a caught value reads it there.  Constants and the slot have their values, and
other expressions give or throw anything.  A run is watched up to any point, so that endless loops have runs, too;
jumps have none.

The slot holds what was caught last, so a read gives what the clause around it was entered with only as long as no other
clause has caught another value since (`Exec.value_eq_iff`).
-/

namespace HaxeBackend

namespace Support.RunState

/-- What a use of the caught value gives. -/
def current (st : RunState) : Value := st.slot.getD .null

/-- The slot holds what was caught last. -/
def IsCurrent (st : RunState) : Prop := st.slot = st.caught.getLast?

theorem isCurrent_enter (st : RunState) (f : Fault) : (st.enter f).IsCurrent := by simp [IsCurrent, enter]

end Support.RunState

namespace Target

open Support (Fault RunState Value)

/-! ### Expressions -/

namespace Expr

mutual

/-- The uses of the caught value, from left to right. -/
def caughts : Expr → List Expr
  | caught => [caught]
  | num _ args | natives _ args | construct _ args | list args => caughtsList args
  | binary _ left right => left.caughts ++ right.caughts
  | negate operand | not operand | complement operand | member operand _ | isOfType operand _ | castTo operand _
  | template _ operand => operand.caughts
  | invoke object _ args => object.caughts ++ caughtsList args
  | adapter _ _ _ _ call _ => call.caughts
  | null | bool _ | int _ | single _ | double _ | quoted _ | var _ | this | super | path _ | pooled _ => []

def caughtsList : List Expr → List Expr
  | [] => []
  | e :: rest => e.caughts ++ caughtsList rest

end

theorem caughtsList_eq (es : List Expr) : caughtsList es = es.flatMap caughts := by
  induction es with
  | nil => rfl
  | cons e es ih => rw [caughtsList, ih, List.flatMap_cons]

/-- What an expression may give where the slot holds `current`. -/
def Evaluates (current : Value) : Expr → Except Fault Value → Prop
  | caught, result => result = .ok current
  | null, result => result = .ok .null
  | bool value, result => result = .ok (.bool value)
  | int value, result => result = .ok (.int value)
  | _, _ => True

end Expr

/-! ### Runs -/

/-- How the run of a statement ends. -/
inductive Ending where
  | normal
  | exited
  | continued
  | returned
  | thrown (f : Fault)
  /-- The run is not watched any longer. -/
  | unwatched

namespace Ending

/-- The ending of a statement that evaluates an expression first. -/
def after (next : Ending) : Except Fault Value → Ending
  | .ok _ => next
  | .error f => thrown f

def throwing : Except Fault Value → Ending
  | .ok v => thrown (.thrown v)
  | .error f => thrown f

/-- How a loop ends when its body ends so, unless it goes on. -/
def ofLoop? : Ending → Option Ending
  | normal | continued => none
  | exited => some normal
  | returned => some returned
  | thrown f => some (thrown f)
  | unwatched => some unwatched

end Ending

/-- A clause of a run. -/
structure Entry where
  /-- What it was entered with. -/
  value : Value
  /-- How many clauses had been entered by then, this one included. -/
  count : Nat

/-- The clause is one of those that were entered when this had been caught. -/
private def Entry.In (entered : Entry) (caught : List Value) : Prop :=
  ∃ before, before ++ [entered.value] <+: caught ∧ entered.count = before.length + 1

/-- A use of the caught value in a run. -/
structure Read where
  /-- The innermost clause around it. -/
  clause : Option Entry
  /-- What had been caught by then. -/
  caught : List Value
  value : Value
  /-- Whether the value is thrown again. -/
  rethrows : Bool

namespace Read

/-- No clause was entered between the one around the read and the read. -/
def Undisturbed (r : Read) : Prop := ∀ e, r.clause = some e → r.caught.length = e.count

/-- The read is made in this clause and this state. -/
private def At (r : Read) (clause : Option Entry) (st : RunState) : Prop :=
  r.clause = clause ∧ r.caught = st.caught ∧ r.value = st.current

/-- The read gives what was caught last, and the clause around it was entered before. -/
private def Sound (r : Read) : Prop :=
  r.value = r.caught.getLast?.getD .null ∧ ∀ entered, r.clause = some entered → entered.In r.caught

private theorem At.sound {r : Read} {c : Option Entry} {st : RunState} (h : r.At c st) (hst : st.IsCurrent)
    (hc : ∀ entered, c = some entered → entered.In st.caught) : r.Sound := by
  obtain ⟨rfl, hcaught, hvalue⟩ := h
  refine ⟨?_, fun entered hentered => ?_⟩
  · rw [hvalue, hcaught, RunState.current, hst]
  · rw [hcaught]
    exact hc entered hentered

end Read

/-- The clause that catches a fault. -/
def entry (st : RunState) (f : Fault) : Entry := ⟨f.caughtValue st.cell, st.caught.length + 1⟩

def Expr.reads (clause : Option Entry) (st : RunState) (rethrows : Bool) (x : Expr) : List Read :=
  x.caughts.map fun _ => ⟨clause, st.caught, st.current, rethrows⟩

namespace Stmt

/-- The expressions of a statement, with those of the statements inside it. -/
def exprs : Stmt → List Expr
  | seq first rest | tryCatch first rest => first.exprs ++ rest.exprs
  | gotoIf x _ | jumpTable x _ _ | eval x | throw x => [x]
  | assign target value => [target, value]
  | ret value => value.toList
  | when condition body | loop condition body | switch condition body => condition :: body.exprs
  | ite condition thenBranch elseBranch => condition :: (thenBranch.exprs ++ elseBranch.exprs)
  | arm _ body | otherwise body => body.exprs
  | skip | mark _ | guard _ | label _ | goto _ | declare .. | exitLoop | nextLoop => []

def isRethrow : Stmt → Bool
  | throw .caught => true
  | _ => false

def reads (clause : Option Entry) (st : RunState) (t : Stmt) : List Read :=
  t.exprs.flatMap (Expr.reads clause st t.isRethrow)

/-- How a statement ends that has no statements inside. -/
def Ends (current : Value) : Stmt → Ending → Prop
  | skip, ending | mark _, ending | declare .., ending => ending = .normal
  | guard _, ending | assign .., ending => ending = .normal ∨ ∃ f, ending = .thrown f
  | eval x, ending => ∃ result, x.Evaluates current result ∧ ending = .after .normal result
  | ret none, ending => ending = .returned
  | ret (some x), ending => ∃ result, x.Evaluates current result ∧ ending = .after .returned result
  | throw x, ending => ∃ result, x.Evaluates current result ∧ ending = .throwing result
  | exitLoop, ending => ending = .exited
  | nextLoop, ending => ending = .continued
  | _, _ => False

/-- The expression that decides how a statement goes on. -/
def condition? : Stmt → Option Expr
  | when condition _ | ite condition _ _ | loop condition _ | switch condition _ => some condition
  | _ => none

/-- The arm for a number. -/
def armFor? (n : Int32) : Stmt → Option Stmt
  | seq first rest => (first.armFor? n).or (rest.armFor? n)
  | arm values body => if n ∈ values then some body else none
  | otherwise body => some body
  | _ => none

/-- What a statement does once its condition is decided; the body of a loop is no branch. -/
def branch? : Stmt → Value → Option Stmt
  | when _ body, .bool value => some (if value then body else skip)
  | ite _ thenBranch elseBranch, .bool value => some (if value then thenBranch else elseBranch)
  | loop _ _, .bool false => some skip
  | switch _ arms, .int n => some ((arms.armFor? n).getD skip)
  | _, _ => none

/-- The handlers of all clauses inside, at any depth. -/
def handlers : Stmt → List Stmt
  | seq first rest | ite _ first rest => first.handlers ++ rest.handlers
  | tryCatch body handler => body.handlers ++ handler :: handler.handlers
  | when _ body | loop _ body | switch _ body | arm _ body | otherwise body => body.handlers
  | _ => []

/-- No clause has a clause inside. -/
def isFlat (t : Stmt) : Prop := ∀ handler ∈ t.handlers, handler.handlers = []

private theorem handlers_subset_of_armFor? {n : Int32} {t t' : Stmt} (h : t.armFor? n = some t') :
    t'.handlers ⊆ t.handlers := by
  induction t with
  | seq first rest ihfirst ihrest =>
    rw [armFor?, Option.or_eq_some_iff] at h
    rcases h with hfirst | ⟨-, hrest⟩
    · exact List.Subset.trans (ihfirst hfirst) (List.subset_append_left _ _)
    · exact List.Subset.trans (ihrest hrest) (List.subset_append_right _ _)
  | arm values body =>
    rw [armFor?] at h
    split at h
    · cases h
      exact List.Subset.refl _
    · cases h
  | otherwise body =>
    cases h
    exact List.Subset.refl _
  | _ => cases h

private theorem handlers_subset_of_branch? {v : Value} {t t' : Stmt} (h : t.branch? v = some t') :
    t'.handlers ⊆ t.handlers := by
  unfold branch? at h
  split at h
  · cases h
    split
    · exact List.Subset.refl _
    · exact List.nil_subset _
  · cases h
    split
    · exact List.subset_append_left _ _
    · exact List.subset_append_right _ _
  · cases h
    exact List.nil_subset _
  · rename_i arms n
    cases h
    show _ ⊆ arms.handlers
    cases harm : arms.armFor? n with
    | none => exact List.nil_subset _
    | some body => exact handlers_subset_of_armFor? harm
  · cases h

end Stmt

/-- The run of a statement in a clause: the state it starts in, its reads, how it ends, and the state then. -/
inductive Exec : Option Entry → Stmt → RunState → List Read → Ending → RunState → Prop
  | unwatched {c t st} : Exec c t st [] .unwatched st
  | leaf {c t st e} (h : t.Ends st.current e) : Exec c t st (t.reads c st) e st
  | seq {c a b st mid st' l l' e} (first : Exec c a st l .normal mid) (rest : Exec c b mid l' e st') :
      Exec c (.seq a b) st (l ++ l') e st'
  | seqEnds {c a b st st' l e} (first : Exec c a st l e st') (h : e ≠ .normal) : Exec c (.seq a b) st l e st'
  | tryEnds {c body handler st st' l e} (inner : Exec c body st l e st') (h : ∀ f, e ≠ .thrown f) :
      Exec c (.tryCatch body handler) st l e st'
  | catches {c body handler st mid st' l l' f e} (inner : Exec c body st l (.thrown f) mid)
      (outer : Exec (some (entry mid f)) handler (mid.enter f) l' e st') :
      Exec c (.tryCatch body handler) st (l ++ l') e st'
  | fails {c t x st f} (hx : t.condition? = some x) (h : x.Evaluates st.current (.error f)) :
      Exec c t st (x.reads c st false) (.thrown f) st
  | branches {c t t' x v st st' l e} (hx : t.condition? = some x) (h : x.Evaluates st.current (.ok v))
      (ht : t.branch? v = some t') (inner : Exec c t' st l e st') : Exec c t st (x.reads c st false ++ l) e st'
  | repeats {c x body st mid st' l l' e e'} (h : x.Evaluates st.current (.ok (.bool true)))
      (inner : Exec c body st l e mid) (he : e.ofLoop? = none) (rest : Exec c (.loop x body) mid l' e' st') :
      Exec c (.loop x body) st (x.reads c st false ++ l ++ l') e' st'
  | loopEnds {c x body st st' l e e'} (h : x.Evaluates st.current (.ok (.bool true)))
      (inner : Exec c body st l e st') (he : e.ofLoop? = some e') :
      Exec c (.loop x body) st (x.reads c st false ++ l) e' st'

namespace Exec

variable {c : Option Entry} {t : Stmt} {st st' : RunState} {l : List Read} {e : Ending} {r : Read}

private theorem at_of_mem_reads {x : Expr} {rethrows : Bool} (h : r ∈ x.reads c st rethrows) : r.At c st := by
  obtain ⟨_, -, rfl⟩ := List.mem_map.1 h
  exact ⟨rfl, rfl, rfl⟩

private theorem at_of_mem_stmt_reads (h : r ∈ t.reads c st) : r.At c st := by
  obtain ⟨x, -, hr⟩ := List.mem_flatMap.1 h
  exact at_of_mem_reads hr

/-! ### What was caught -/

/-- What was caught stays, and the slot follows. -/
theorem caught_prefix (h : Exec c t st l e st') : st.caught <+: st'.caught := by
  induction h with
  | unwatched | leaf | fails => exact List.prefix_refl _
  | seq _ _ ihfirst ihrest => exact ihfirst.trans ihrest
  | seqEnds _ _ ih | tryEnds _ _ ih => exact ih
  | catches _ _ ihinner ihouter => exact ihinner.trans ((List.prefix_append _ _).trans ihouter)
  | branches _ _ _ _ ih | loopEnds _ _ _ ih => exact ih
  | repeats _ _ _ _ ihinner ihrest => exact ihinner.trans ihrest

theorem isCurrent (h : Exec c t st l e st') (hst : st.IsCurrent) : st'.IsCurrent := by
  induction h with
  | unwatched | leaf | fails => exact hst
  | seq _ _ ihfirst ihrest => exact ihrest (ihfirst hst)
  | seqEnds _ _ ih | tryEnds _ _ ih => exact ih hst
  | catches _ _ _ ihouter => exact ihouter (RunState.isCurrent_enter _ _)
  | branches _ _ _ _ ih | loopEnds _ _ _ ih => exact ih hst
  | repeats _ _ _ _ ihinner ihrest => exact ihrest (ihinner hst)

/-- A clause that was entered stays one. -/
private theorem enteredIn (h : Exec c t st l e st') (hc : ∀ entered, c = some entered → entered.In st.caught) :
    ∀ entered, c = some entered → entered.In st'.caught := by
  intro entered hentered
  obtain ⟨before, hbefore, hcount⟩ := hc entered hentered
  exact ⟨before, hbefore.trans h.caught_prefix, hcount⟩

/-! ### Reads -/

/-- Every read is made where the slot holds what was caught last, in a clause that was entered before. -/
private theorem reads_sound (h : Exec c t st l e st') (hst : st.IsCurrent)
    (hc : ∀ entered, c = some entered → entered.In st.caught) : ∀ r ∈ l, r.Sound := by
  induction h with
  | unwatched => exact fun _ hr => absurd hr List.not_mem_nil
  | leaf => exact fun r hr => (at_of_mem_stmt_reads hr).sound hst hc
  | fails => exact fun r hr => (at_of_mem_reads hr).sound hst hc
  | seq first _ ihfirst ihrest =>
    exact List.forall_mem_append.2 ⟨ihfirst hst hc, ihrest (first.isCurrent hst) (first.enteredIn hc)⟩
  | seqEnds _ _ ih | tryEnds _ _ ih => exact ih hst hc
  | catches inner _ ihinner ihouter =>
    refine List.forall_mem_append.2 ⟨ihinner hst hc, ihouter (RunState.isCurrent_enter _ _) ?_⟩
    intro entered hentered
    obtain rfl := Option.some_inj.1 hentered
    exact ⟨_, List.prefix_refl _, rfl⟩
  | branches _ _ _ _ ih | loopEnds _ _ _ ih =>
    exact List.forall_mem_append.2 ⟨fun r hr => (at_of_mem_reads hr).sound hst hc, ih hst hc⟩
  | repeats _ inner _ _ ihinner ihrest =>
    refine List.forall_mem_append.2 ⟨List.forall_mem_append.2 ⟨?_, ihinner hst hc⟩, ?_⟩
    · exact fun r hr => (at_of_mem_reads hr).sound hst hc
    · exact ihrest (inner.isCurrent hst) (inner.enteredIn hc)

/-- A read gives what was caught last. -/
theorem value_eq_last (h : Exec none t {} l e st') (hr : r ∈ l) : r.value = r.caught.getLast?.getD .null :=
  (h.reads_sound rfl (fun _ hc => nomatch hc) r hr).1

/-- A read gives what the clause around it was entered with when that is also what was caught last since. -/
theorem value_eq_iff (h : Exec none t {} l e st') (hr : r ∈ l) {entered : Entry} (hclause : r.clause = some entered) :
    ∃ before since, r.caught = before ++ entered.value :: since ∧ entered.count = before.length + 1 ∧
      (r.value = entered.value ↔ ∀ v ∈ since.getLast?, v = entered.value) := by
  obtain ⟨hvalue, hentered⟩ := h.reads_sound rfl (fun _ hc => nomatch hc) r hr
  obtain ⟨before, ⟨since, hcaught⟩, hcount⟩ := hentered entered hclause
  rw [List.append_assoc, List.singleton_append] at hcaught
  refine ⟨before, since, hcaught.symm, hcount, ?_⟩
  have hlast : r.value = since.getLast?.getD entered.value := by
    rw [hvalue, ← hcaught, List.getLast?_append, List.getLast?_cons]
    rfl
  rw [hlast]
  cases since.getLast? with
  | none => simp
  | some v => simp

/-- A read gives what the clause around it was entered with where no other clause was entered in between. -/
theorem value_eq (h : Exec none t {} l e st') (hr : r ∈ l) (hundisturbed : r.Undisturbed) {entered : Entry}
    (hclause : r.clause = some entered) : r.value = entered.value := by
  obtain ⟨before, since, hcaught, hcount, hiff⟩ := h.value_eq_iff hr hclause
  have hlength := congrArg List.length hcaught
  rw [hundisturbed entered hclause, hcount, List.length_append, List.length_cons] at hlength
  have hsince : since = [] := List.eq_nil_of_length_eq_zero (by omega)
  exact hiff.2 (by simp [hsince])

/-! ### Handlers without handlers -/

/-- A statement without clauses catches nothing, and all its reads are made where it starts. -/
private theorem of_handlers_eq_nil (h : Exec c t st l e st') (ht : t.handlers = []) :
    st' = st ∧ ∀ r ∈ l, r.At c st := by
  induction h with
  | unwatched => exact ⟨rfl, fun _ hr => absurd hr List.not_mem_nil⟩
  | leaf => exact ⟨rfl, fun r hr => at_of_mem_stmt_reads hr⟩
  | fails => exact ⟨rfl, fun r hr => at_of_mem_reads hr⟩
  | seq _ _ ihfirst ihrest =>
    obtain ⟨hfirst, hrest⟩ := List.append_eq_nil_iff.1 ht
    obtain ⟨rfl, hreads⟩ := ihfirst hfirst
    obtain ⟨rfl, hreads'⟩ := ihrest hrest
    exact ⟨rfl, List.forall_mem_append.2 ⟨hreads, hreads'⟩⟩
  | seqEnds _ _ ih => exact ih (List.append_eq_nil_iff.1 ht).1
  | tryEnds | catches => exact absurd (List.append_eq_nil_iff.1 ht).2 (List.cons_ne_nil _ _)
  | branches _ _ hbranch _ ih =>
    obtain ⟨rfl, hreads⟩ := ih (List.subset_nil.1 (ht ▸ Stmt.handlers_subset_of_branch? hbranch))
    exact ⟨rfl, List.forall_mem_append.2 ⟨fun r hr => at_of_mem_reads hr, hreads⟩⟩
  | loopEnds _ _ _ ih =>
    obtain ⟨rfl, hreads⟩ := ih ht
    exact ⟨rfl, List.forall_mem_append.2 ⟨fun r hr => at_of_mem_reads hr, hreads⟩⟩
  | repeats _ _ _ _ ihinner ihrest =>
    obtain ⟨rfl, hreads⟩ := ihinner ht
    obtain ⟨rfl, hreads'⟩ := ihrest ht
    refine ⟨rfl, List.forall_mem_append.2 ⟨List.forall_mem_append.2 ⟨fun r hr => ?_, hreads⟩, hreads'⟩⟩
    exact at_of_mem_reads hr

/-- Where no clause has a clause inside, only the clause around the whole statement can be disturbed. -/
private theorem clause_eq_or_undisturbed (h : Exec c t st l e st') (ht : t.isFlat) :
    ∀ r ∈ l, r.clause = c ∨ r.Undisturbed := by
  induction h with
  | unwatched => exact fun _ hr => absurd hr List.not_mem_nil
  | leaf => exact fun r hr => .inl (at_of_mem_stmt_reads hr).1
  | fails => exact fun r hr => .inl (at_of_mem_reads hr).1
  | seq _ _ ihfirst ihrest =>
    obtain ⟨hfirst, hrest⟩ := List.forall_mem_append.1 ht
    exact List.forall_mem_append.2 ⟨ihfirst hfirst, ihrest hrest⟩
  | seqEnds _ _ ih => exact ih (List.forall_mem_append.1 ht).1
  | tryEnds _ _ ih => exact ih (List.forall_mem_append.1 ht).1
  | catches _ outer ihinner _ =>
    obtain ⟨hinner, houter⟩ := List.forall_mem_append.1 ht
    refine List.forall_mem_append.2 ⟨ihinner hinner, fun r hr => .inr fun entered hentered => ?_⟩
    -- the clause itself catches nothing more
    obtain ⟨hclause, hcaught, -⟩ := (outer.of_handlers_eq_nil (houter _ List.mem_cons_self)).2 r hr
    obtain rfl := Option.some_inj.1 (hclause.symm.trans hentered)
    rw [hcaught]
    exact List.length_append
  | branches _ _ hbranch _ ih =>
    exact List.forall_mem_append.2 ⟨fun r hr => .inl (at_of_mem_reads hr).1,
      ih fun handler hmem => ht handler (Stmt.handlers_subset_of_branch? hbranch hmem)⟩
  | loopEnds _ _ _ ih => exact List.forall_mem_append.2 ⟨fun r hr => .inl (at_of_mem_reads hr).1, ih ht⟩
  | repeats _ _ _ _ ihinner ihrest =>
    refine List.forall_mem_append.2 ⟨List.forall_mem_append.2 ⟨fun r hr => ?_, ihinner ht⟩, ihrest ht⟩
    exact .inl (at_of_mem_reads hr).1

theorem undisturbed_of_isFlat (h : Exec none t st l e st') (ht : t.isFlat) : ∀ r ∈ l, r.Undisturbed := by
  intro r hr
  rcases h.clause_eq_or_undisturbed ht r hr with hclause | hundisturbed
  · exact fun entered hentered => nomatch hclause.symm.trans hentered
  · exact hundisturbed

end Exec

end Target

end HaxeBackend
