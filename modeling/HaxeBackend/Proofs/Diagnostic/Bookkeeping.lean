import HaxeBackend.Proofs.Diagnostic.Order

/-!
# Bookkeeping of a queue

A queue keeps counters and a record of what it compared beside the diagnostics that it holds.  Every step keeps them
true to what is held (`Faithful.add`), and the errors that it refuses are counted exactly (`dropped_extend`).  Emptying
it leaves it as new, so a queue is what came since it was last emptied (`ofSteps_eq`).  Together they give the books of
any sequence of steps (`books_ofSteps`).
-/

namespace HaxeBackend

/-! ### Steps -/

/-- What is done with a queue. -/
inductive QueueStep where
  | add (d : Diagnostic)
  | extend (ds : List Diagnostic)
  | emitError (d : Diagnostic) (isError : d.isError = true)
  | flush

namespace QueueStep

/-- What the step brings, and nothing for the step that empties the queue. -/
def offered : QueueStep → List Diagnostic
  | add d | emitError d _ => [d]
  | extend ds => ds
  | flush => []

/-- What was brought before the step and is not given out by it, and what it brings. -/
def offeredAfter (before : List Diagnostic) : QueueStep → List Diagnostic
  | flush => []
  | step => before ++ step.offered

/-- What the steps brought since the last that emptied the queue. -/
def offeredSinceFlush (steps : List QueueStep) : List Diagnostic := steps.foldl offeredAfter []

end QueueStep

namespace DiagnosticQueue

open Diagnostic (InOrder)

variable {q : DiagnosticQueue} {d : Diagnostic}

/-- The queue after a step. -/
def after (q : DiagnosticQueue) : QueueStep → DiagnosticQueue
  | .add d => (q.add d).2
  | .extend ds => q.extend ds
  | .emitError d _ => (q.emitError d).2
  | .flush => q.flush.2

/-- The queue after steps from a new one. -/
def ofSteps (config : QueueConfig) (steps : List QueueStep) : DiagnosticQueue := steps.foldl after { config := config }

/-! ### What is refused -/

/-- The diagnostic is an error and comes when as many errors are held as the limit allows. -/
def refuses (q : DiagnosticQueue) (d : Diagnostic) : Bool :=
  d.isError && (0 < q.config.errorLimit && q.config.errorLimit ≤ q.queued.countP Diagnostic.isError)

/-- How many of these diagnostics are refused, one added after the other. -/
def refusals (q : DiagnosticQueue) : List Diagnostic → Nat
  | [] => 0
  | d :: ds => (if q.refuses d then 1 else 0) + (q.add d).2.refusals ds

/-! ### Counters that tell what is held -/

structure Faithful (q : DiagnosticQueue) : Prop where
  errors : q.errorCount = q.queued.countP Diagnostic.isError
  warnings : q.warningCount = q.queued.countP Diagnostic.isWarning
  limited : 0 < q.config.errorLimit → q.errorCount ≤ q.config.errorLimit
  seen : q.config.deduplicate = true → ∀ x, x ∈ q.seen ↔ x ∈ q.queued.map Diagnostic.content
  distinct : q.config.deduplicate = true → (q.queued.map Diagnostic.content).Nodup

theorem faithful_new (config : QueueConfig) : Faithful { config := config } :=
  ⟨rfl, rfl, fun _ => Nat.zero_le _, fun _ _ => Iff.rfl, fun _ => List.nodup_nil⟩

/-- The three ways in which adding a diagnostic can end. -/
theorem add_cases (q : DiagnosticQueue) (d : Diagnostic) :
    (d.isError = true ∧ q.limitReached = true ∧ q.add d = (false, { q with dropped := q.dropped + 1 })) ∨
    (¬(d.isError = true ∧ q.limitReached = true) ∧ q.config.deduplicate = true ∧ d.content ∈ q.seen ∧
      q.add d = (false, q)) ∨
    (¬(d.isError = true ∧ q.limitReached = true) ∧ (q.config.deduplicate = true → d.content ∉ q.seen) ∧
      q.add d = (true, { q with
        seen := if q.config.deduplicate then d.content :: q.seen else q.seen }.push d)) := by
  unfold add
  by_cases hlimit : d.isError = true ∧ q.limitReached = true
  · rw [if_pos (Bool.and_eq_true_iff.2 hlimit)]
    exact .inl ⟨hlimit.1, hlimit.2, rfl⟩
  · rw [if_neg (mt Bool.and_eq_true_iff.1 hlimit)]
    right
    cases hdedup : q.config.deduplicate with
    | false => exact .inr ⟨hlimit, fun h => absurd h Bool.false_ne_true, rfl⟩
    | true =>
      rw [if_pos rfl]
      by_cases hseen : d.content ∈ q.seen
      · rw [if_pos (List.contains_iff_mem.2 hseen)]
        exact .inl ⟨hlimit, rfl, hseen, rfl⟩
      · rw [if_neg (mt List.contains_iff_mem.1 hseen)]
        exact .inr ⟨hlimit, fun _ => hseen, rfl⟩

@[simp]
theorem config_add (q : DiagnosticQueue) (d : Diagnostic) : (q.add d).2.config = q.config := by
  obtain ⟨-, -, h⟩ | ⟨-, -, -, h⟩ | ⟨-, -, h⟩ := add_cases q d
  · rw [h]
  · rw [h]
  · rw [h]
    rfl

/-- What is held after adding a diagnostic: that as well, if it was taken. -/
theorem queued_add (q : DiagnosticQueue) (d : Diagnostic) :
    (q.add d).2.queued = if (q.add d).1 = true then q.queued ++ [d] else q.queued := by
  obtain ⟨-, -, h⟩ | ⟨-, -, -, h⟩ | ⟨-, -, h⟩ := add_cases q d <;> (rw [h]; rfl)

private theorem Faithful.push (h : q.Faithful) (hlimit : ¬(d.isError = true ∧ q.limitReached = true))
    (hnew : q.config.deduplicate = true → d.content ∉ q.seen) :
    Faithful ({ q with seen := if q.config.deduplicate then d.content :: q.seen else q.seen }.push d) where
  errors := by
    show (if d.isError then q.errorCount + 1 else q.errorCount) = (q.queued ++ [d]).countP Diagnostic.isError
    rw [List.countP_append, List.countP_singleton, h.errors]
    split <;> rfl
  warnings := by
    show (if !d.isError && d.isWarning then q.warningCount + 1 else q.warningCount) =
      (q.queued ++ [d]).countP Diagnostic.isWarning
    rw [List.countP_append, List.countP_singleton, h.warnings]
    -- a warning is no error, so the order of the two tests does not matter
    cases hseverity : d.severity <;> simp [Diagnostic.isError, Diagnostic.isWarning, hseverity]
  limited := by
    intro hpos
    show (if d.isError then q.errorCount + 1 else q.errorCount) ≤ q.config.errorLimit
    split
    · rename_i herror
      have hopen : ¬q.config.errorLimit ≤ q.errorCount := by
        intro hle
        exact hlimit ⟨herror, by simpa [limitReached] using ⟨hpos, hle⟩⟩
      omega
    · exact h.limited hpos
  seen := by
    intro (hdedup : q.config.deduplicate = true) x
    have hkept := h.seen hdedup x
    show x ∈ (if q.config.deduplicate then d.content :: q.seen else q.seen) ↔
      x ∈ (q.queued ++ [d]).map Diagnostic.content
    rw [if_pos hdedup, List.mem_cons, hkept, List.map_append, List.mem_append, List.map_singleton, List.mem_singleton]
    exact or_comm
  distinct := by
    intro (hdedup : q.config.deduplicate = true)
    show ((q.queued ++ [d]).map Diagnostic.content).Nodup
    have hfresh : d.content ∉ q.queued.map Diagnostic.content := mt (h.seen hdedup _).2 (hnew hdedup)
    rw [List.map_append, List.map_singleton]
    exact List.nodup_append.2 ⟨h.distinct hdedup, by simp, fun x hx y hy hxy =>
      hfresh (List.mem_singleton.1 hy ▸ hxy ▸ hx)⟩

theorem Faithful.add (h : q.Faithful) (d : Diagnostic) : (q.add d).2.Faithful := by
  obtain ⟨-, -, hadd⟩ | ⟨-, -, -, hadd⟩ | ⟨hlimit, hnew, hadd⟩ := add_cases q d
  · rw [hadd]
    exact ⟨h.errors, h.warnings, h.limited, h.seen, h.distinct⟩
  · rw [hadd]
    exact h
  · rw [hadd]
    exact h.push hlimit hnew

theorem Faithful.extend (h : q.Faithful) (ds : List Diagnostic) : (q.extend ds).Faithful := by
  induction ds generalizing q with
  | nil => exact h
  | cons d ds ih => exact ih (h.add d)

@[simp]
theorem config_extend (q : DiagnosticQueue) (ds : List Diagnostic) : (q.extend ds).config = q.config := by
  induction ds generalizing q with
  | nil => rfl
  | cons d ds ih =>
    show ((q.add d).2.extend ds).config = q.config
    rw [ih, config_add]

/-! ### Errors past the limit -/

private theorem Faithful.refuses_iff (h : q.Faithful) :
    q.refuses d = true ↔ d.isError = true ∧ q.limitReached = true := by
  rw [refuses, limitReached, h.errors, Bool.and_eq_true]

private theorem Faithful.dropped_add (h : q.Faithful) (d : Diagnostic) :
    (q.add d).2.dropped = q.dropped + if q.refuses d then 1 else 0 := by
  obtain ⟨herror, hreached, hadd⟩ | ⟨hlimit, -, -, hadd⟩ | ⟨hlimit, -, hadd⟩ := add_cases q d
  · rw [hadd, if_pos (h.refuses_iff.2 ⟨herror, hreached⟩)]
  · rw [hadd, if_neg (mt h.refuses_iff.1 hlimit)]
    rfl
  · rw [hadd, if_neg (mt h.refuses_iff.1 hlimit)]
    rfl

/-- The errors that were refused are counted, whatever else was left out. -/
theorem Faithful.dropped_extend (h : q.Faithful) (ds : List Diagnostic) :
    (q.extend ds).dropped = q.dropped + q.refusals ds := by
  induction ds generalizing q with
  | nil => rfl
  | cons d ds ih =>
    show ((q.add d).2.extend ds).dropped = _
    rw [ih (h.add d), h.dropped_add, refusals, Nat.add_assoc]

/-! ### Sequences of steps -/

theorem extend_append (q : DiagnosticQueue) (ds ds' : List Diagnostic) :
    q.extend (ds ++ ds') = (q.extend ds).extend ds' := List.foldl_append

/-- Emptying a queue leaves it as new. -/
theorem flush_snd (q : DiagnosticQueue) : q.flush.2 = { config := q.config } := rfl

private theorem after_extend {config : QueueConfig} (before : List Diagnostic) (step : QueueStep) :
    (extend { config := config } before).after step = extend { config := config } (step.offeredAfter before) := by
  cases step with
  | add d | emitError d _ => exact (extend_append _ before [d]).symm
  | extend ds => exact (extend_append _ before ds).symm
  | flush =>
    show (extend { config := config } before).flush.2 = _
    rw [flush_snd, config_extend]
    rfl

/-- A queue has what came since it was last emptied. -/
theorem ofSteps_eq (config : QueueConfig) (steps : List QueueStep) :
    ofSteps config steps = extend { config := config } (QueueStep.offeredSinceFlush steps) := by
  have hrest : ∀ before, steps.foldl after (extend { config := config } before) =
      extend { config := config } (steps.foldl QueueStep.offeredAfter before) := by
    induction steps with
    | nil => exact fun _ => rfl
    | cons step steps ih =>
      intro before
      rw [List.foldl_cons, List.foldl_cons, after_extend, ih]
  exact hrest []

/-- After any steps, the counters are the numbers of held errors and warnings, the limit is kept, no two diagnostics
that are held say the same if these are left out, adding tells exactly whether the diagnostic is held as the last, and
emptying gives out what is held in order, with the exact number of the errors that were refused since it was last done,
and leaves a new queue. -/
theorem books_ofSteps (config : QueueConfig) (steps : List QueueStep) :
    (ofSteps config steps).errorCount = (ofSteps config steps).queued.countP Diagnostic.isError ∧
    (ofSteps config steps).warningCount = (ofSteps config steps).queued.countP Diagnostic.isWarning ∧
    (0 < config.errorLimit → (ofSteps config steps).errorCount ≤ config.errorLimit) ∧
    (config.deduplicate = true → (ofSteps config steps).queued.Pairwise fun a b => a.content ≠ b.content) ∧
    (∀ d, ((ofSteps config steps).add d).2.queued =
        if ((ofSteps config steps).add d).1 = true then (ofSteps config steps).queued ++ [d]
        else (ofSteps config steps).queued) ∧
    (∃ given, InOrder (ofSteps config steps).queued given ∧ (ofSteps config steps).flush.1 = given ++
      if refusals { config := config } (QueueStep.offeredSinceFlush steps) = 0 then []
      else [Diagnostic.tooManyErrors config.errorLimit
        (refusals { config := config } (QueueStep.offeredSinceFlush steps))]) ∧
    (ofSteps config steps).flush.2 = { config := config } := by
  have hfaithful : (ofSteps config steps).Faithful := by
    rw [ofSteps_eq]
    exact (faithful_new config).extend _
  have hconfig : (ofSteps config steps).config = config := by rw [ofSteps_eq, config_extend]
  -- only what was offered since the last emptying can have been refused
  have hdropped : (ofSteps config steps).dropped =
      refusals { config := config } (QueueStep.offeredSinceFlush steps) := by
    rw [ofSteps_eq, (faithful_new config).dropped_extend, Nat.zero_add]
  refine ⟨hfaithful.errors, hfaithful.warnings, ?_, ?_, queued_add _, ⟨_, Diagnostic.inOrder_mergeSort _, ?_⟩, ?_⟩
  · intro hpos
    have hlimited := hfaithful.limited
    rw [hconfig] at hlimited
    exact hlimited hpos
  · intro hdedup
    exact List.pairwise_map.1 (hfaithful.distinct (by rw [hconfig, hdedup]))
  · rw [flush, hdropped, hconfig]
    cases refusals { config := config } (QueueStep.offeredSinceFlush steps) <;> rfl
  · rw [flush_snd, hconfig]

end DiagnosticQueue

end HaxeBackend
