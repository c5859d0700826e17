import HaxeBackend.Proofs.Diagnostic.Bookkeeping

/-!
# Guarantees of reported errors

Whoever adds an error is given a guarantee that errors were reported, whether the error was taken or not.  An error
that the limit refuses comes behind one that is held.  An error that is left out because of what it says may come behind
a warning alone, since severities are not compared.  Main result: the guarantee is right exactly when there is no such
warning or an error is held besides (`guaranteed_iff`).
-/

namespace HaxeBackend.DiagnosticQueue

variable {q : DiagnosticQueue} {d : Diagnostic}

/-! ### Errors that are held -/

def HoldsError (q : DiagnosticQueue) : Prop := ∃ e ∈ q.queued, e.isError = true

/-- Something that is held says what the diagnostic says, whatever its severity. -/
def HoldsContent (q : DiagnosticQueue) (d : Diagnostic) : Prop := ∃ e ∈ q.queued, e.content = d.content

theorem Faithful.hasErrors?_iff (h : q.Faithful) : q.hasErrors?.isSome = true ↔ q.HoldsError := by
  rw [hasErrors?, ErrorsReported.ofCount?, h.errors, Option.isSome_ite, List.countP_pos_iff]
  rfl

/-- An error is refused only behind one that is held. -/
theorem Faithful.holdsError_of_limitReached (h : q.Faithful) (hreached : q.limitReached = true) : q.HoldsError := by
  rw [limitReached, Bool.and_eq_true, decide_eq_true_eq, decide_eq_true_eq] at hreached
  refine List.countP_pos_iff.1 ?_
  rw [← h.errors]
  exact Nat.lt_of_lt_of_le hreached.1 hreached.2

/-- What is held stays where it is. -/
theorem prefix_add (q : DiagnosticQueue) (d : Diagnostic) : q.queued <+: (q.add d).2.queued := by
  rw [queued_add]
  split
  · exact List.prefix_append _ _
  · exact List.prefix_refl _

theorem prefix_extend (q : DiagnosticQueue) (ds : List Diagnostic) : q.queued <+: (q.extend ds).queued := by
  induction ds generalizing q with
  | nil => exact List.prefix_refl _
  | cons d ds ih => exact (q.prefix_add d).trans (ih _)

theorem HoldsError.extend (h : q.HoldsError) (ds : List Diagnostic) : (q.extend ds).HoldsError := by
  obtain ⟨e, he, herror⟩ := h
  exact ⟨e, (q.prefix_extend ds).subset he, herror⟩

/-- After an error came, one is held, unless the error was left out for saying what no error says. -/
theorem Faithful.holdsError_add_iff (h : q.Faithful) (herror : d.isError = true) :
    (q.add d).2.HoldsError ↔ (q.config.deduplicate = true → q.HoldsContent d → q.HoldsError) := by
  obtain ⟨-, hreached, hadd⟩ | ⟨-, hdedup, hseen, hadd⟩ | ⟨-, hnew, hadd⟩ := add_cases q d
  · have hheld := h.holdsError_of_limitReached hreached
    rw [hadd]
    exact ⟨fun _ _ _ => hheld, fun _ => hheld⟩
  · have hsame : q.HoldsContent d := List.mem_map.1 ((h.seen hdedup _).1 hseen)
    rw [hadd]
    exact ⟨fun hheld _ _ => hheld, fun hheld => hheld hdedup hsame⟩
  · rw [hadd]
    refine iff_of_true ⟨d, List.mem_append_right _ List.mem_cons_self, herror⟩ fun hdedup hsame => ?_
    exact absurd ((h.seen hdedup _).2 (List.mem_map.2 hsame)) (hnew hdedup)

/-! ### Errors that are given out -/

private theorem Faithful.holdsError_of_dropped_add (h : q.Faithful) (hbefore : 0 < q.dropped → q.HoldsError)
    (d : Diagnostic) (hpos : 0 < (q.add d).2.dropped) : (q.add d).2.HoldsError := by
  obtain ⟨-, hreached, hadd⟩ | ⟨-, -, -, hadd⟩ | ⟨-, -, hadd⟩ := add_cases q d
  · rw [hadd]
    exact h.holdsError_of_limitReached hreached
  · rw [hadd] at hpos ⊢
    exact hbefore hpos
  · rw [hadd] at hpos ⊢
    exact (hbefore hpos).imp fun e he => ⟨List.mem_append_left _ he.1, he.2⟩

/-- Errors are only counted as refused where one is held. -/
theorem Faithful.holdsError_of_dropped (h : q.Faithful) (hbefore : 0 < q.dropped → q.HoldsError) (ds : List Diagnostic)
    (hpos : 0 < (q.extend ds).dropped) : (q.extend ds).HoldsError := by
  induction ds generalizing q with
  | nil => exact hbefore hpos
  | cons d ds ih => exact ih (h.add d) (h.holdsError_of_dropped_add hbefore d) hpos

/-- Emptying gives out an error when one is held.  The summary of refused errors is one as well, but it comes with an
error that is held. -/
theorem exists_mem_flush_iff (hdropped : 0 < q.dropped → q.HoldsError) :
    (∃ e ∈ q.flush.1, e.isError = true) ↔ q.HoldsError := by
  have hgiven : ∀ e, e ∈ q.queued.mergeSort Diagnostic.locationLe ↔ e ∈ q.queued := fun e =>
    (Diagnostic.inOrder_mergeSort q.queued).perm.mem_iff
  constructor
  · rintro ⟨e, he, herror⟩
    rcases List.mem_append.1 he with he | he
    · exact ⟨e, (hgiven e).1 he, herror⟩
    · by_cases hpos : 0 < q.dropped
      · exact hdropped hpos
      · rw [if_neg hpos] at he
        cases he
  · rintro ⟨e, he, herror⟩
    exact ⟨e, List.mem_append_left _ ((hgiven e).2 he), herror⟩

/-! ### Guarantees -/

/-- The queue tells that there are errors, and whatever else is added to it, it gives out an error when it is emptied. -/
def ReportsErrors (q : DiagnosticQueue) : Prop :=
  q.hasErrors?.isSome = true ∧ ∀ later, ∃ e ∈ (q.extend later).flush.1, e.isError = true

/-- After any steps, the guarantee that is given for an error is right exactly when no diagnostic that is held says what
the error says, or repetitions are not left out, or an error is held besides.  Otherwise the queue tells of no error and
gives out none. -/
theorem guaranteed_iff (config : QueueConfig) (steps : List QueueStep) (herror : d.isError = true) :
    (((ofSteps config steps).emitError d).2.ReportsErrors ↔
      (config.deduplicate = true → (ofSteps config steps).HoldsContent d → (ofSteps config steps).HoldsError)) ∧
    (¬((ofSteps config steps).emitError d).2.ReportsErrors →
      ((ofSteps config steps).emitError d).2.hasErrors? = none ∧
        ∀ e ∈ ((ofSteps config steps).emitError d).2.flush.1, e.isError = false) := by
  rw [ofSteps_eq]
  generalize QueueStep.offeredSinceFlush steps = ds
  have hfaithful := (faithful_new config).extend ds
  have hdropped := (faithful_new config).holdsError_of_dropped (fun hpos => absurd hpos (Nat.lt_irrefl 0)) (ds ++ [d])
  rw [extend_append] at hdropped
  generalize hq : extend { config := config } ds = q at *
  have hconfig : q.config = config := by rw [← hq, config_extend]
  have hiff := hfaithful.holdsError_add_iff herror
  rw [hconfig] at hiff
  have htold := (hfaithful.add d).hasErrors?_iff
  -- once an error is held no later diagnostic drives it out
  have hreports : (q.emitError d).2.ReportsErrors ↔ (q.add d).2.HoldsError := by
    constructor
    · exact fun h => htold.1 h.1
    · intro hheld
      refine ⟨htold.2 hheld, fun later => ?_⟩
      have hlater := hheld.extend later
      exact (exists_mem_flush_iff fun _ => hlater).2 hlater
  refine ⟨hreports.trans hiff, fun hnot => ?_⟩
  rw [hreports] at hnot
  refine ⟨Option.not_isSome_iff_eq_none.1 (mt htold.1 hnot), fun e he => ?_⟩
  rw [← Bool.not_eq_true]
  exact fun herror => hnot ((exists_mem_flush_iff hdropped).1 ⟨e, he, herror⟩)

/-! ### A warning that says what an error says -/

private def missing (severity : Severity) (name : String) : Diagnostic where
  code := .e1001
  severity := severity
  message := s!"unresolved class `{name}`"
  location := some ⟨"app.Job", none⟩

private def suspected : Diagnostic := missing .warning "app.Task"

private def unresolved : Diagnostic := missing .error "app.Task"

/-- The error is left out for a warning, and there is no other error. -/
theorem guarantee_fails_behind_warning :
    unresolved.isError = true ∧ ((ofSteps {} [.add suspected]).emitError unresolved).2.hasErrors? = none ∧
      ((ofSteps {} [.add suspected]).emitError unresolved).2.flush.1 = [suspected] := by
  decide +kernel

private def tight : DiagnosticQueue :=
  ofSteps ⟨1, true⟩ [.add suspected, .emitError (missing .error "app.Other") rfl]

/-- An error that the limit refuses, and that would be left out for the same warning, comes behind another error. -/
theorem guaranteed_iff_past_limit :
    unresolved.isError = true ∧ tight.HoldsContent unresolved ∧ tight.HoldsError ∧ (tight.add unresolved).1 = false ∧
      (tight.emitError unresolved).2.ReportsErrors := by
  have hheld : tight.HoldsError := ⟨missing .error "app.Other", by decide, rfl⟩
  exact ⟨rfl, ⟨suspected, by decide, by decide⟩, hheld, by decide, (guaranteed_iff _ _ rfl).1.2 fun _ _ => hheld⟩

end HaxeBackend.DiagnosticQueue
