import HaxeBackend.Proofs.Diagnostic.Bookkeeping

/-!
# Streams of diagnostics

Each location has a stream of diagnostics, and what is added to a queue is an interleaving of these streams.  A queue
without a limit treats the diagnostics of one location as if there were no others, since what is said at different
locations is never the same (`AgreeAt.extend`).  So every interleaving of the same streams leaves the same diagnostics
of each location in the same order, and they are given out alike (`flush_eq_of_interleaves`).
-/

namespace HaxeBackend

namespace Diagnostic

/-- The diagnostics of a location among others, in order. -/
def streamAt (location : Option Location) (ds : List Diagnostic) : List Diagnostic :=
  ds.filter fun d => d.location == location

/-- The list is put together from one stream for each location, and keeps the order of each. -/
def Interleaves (streams : Option Location → List Diagnostic) (ds : List Diagnostic) : Prop :=
  ∀ location, streamAt location ds = streams location

end Diagnostic

namespace DiagnosticQueue

open Diagnostic (streamAt Interleaves)

variable {q q' : DiagnosticQueue} {d : Diagnostic} {location : Option Location}

/-! ### Queues without a limit -/

/-- Repetitions are left out, and what the diagnostic says was said before. -/
def LeavesOut (q : DiagnosticQueue) (d : Diagnostic) : Prop := q.config.deduplicate = true ∧ d.content ∈ q.seen

theorem add_unlimited (hlimit : q.config.errorLimit = 0) (d : Diagnostic) :
    (q.LeavesOut d ∧ q.add d = (false, q)) ∨
    (¬q.LeavesOut d ∧ q.add d = (true, { q with
      seen := if q.config.deduplicate then d.content :: q.seen else q.seen }.push d)) := by
  obtain ⟨-, hreached, -⟩ | ⟨-, hdedup, hseen, hadd⟩ | ⟨-, hnew, hadd⟩ := add_cases q d
  · simp [limitReached, hlimit] at hreached
  · exact .inl ⟨⟨hdedup, hseen⟩, hadd⟩
  · exact .inr ⟨fun hout => hnew hout.1 hout.2, hadd⟩

theorem dropped_extend_unlimited (hlimit : q.config.errorLimit = 0) (ds : List Diagnostic) :
    (q.extend ds).dropped = q.dropped := by
  induction ds generalizing q with
  | nil => rfl
  | cons d ds ih =>
    have hrest := ih (q := (q.add d).2) (by rw [config_add, hlimit])
    refine hrest.trans ?_
    obtain ⟨-, hadd⟩ | ⟨-, hadd⟩ := add_unlimited hlimit d
    · rw [hadd]
    · rw [hadd]
      rfl

/-! ### One location -/

/-- Two queues that have done the same with the diagnostics of a location. -/
structure AgreeAt (location : Option Location) (q q' : DiagnosticQueue) : Prop where
  config_eq : q.config = q'.config
  queued_eq : streamAt location q.queued = streamAt location q'.queued
  seen_iff : ∀ x : Diagnostic.Content, x.location = location → (x ∈ q.seen ↔ x ∈ q'.seen)

namespace AgreeAt

theorem refl (q : DiagnosticQueue) : AgreeAt location q q := ⟨rfl, rfl, fun _ _ => Iff.rfl⟩

/-- A diagnostic of the location that is added to both. -/
theorem add (h : AgreeAt location q q') (hlimit : q.config.errorLimit = 0) (hd : d.location = location) :
    AgreeAt location (q.add d).2 (q'.add d).2 := by
  have hout : q.LeavesOut d ↔ q'.LeavesOut d := by rw [LeavesOut, LeavesOut, h.config_eq, h.seen_iff _ hd]
  have hlimit' : q'.config.errorLimit = 0 := h.config_eq ▸ hlimit
  obtain ⟨hleaves, hadd⟩ | ⟨hleaves, hadd⟩ := add_unlimited hlimit d
  · obtain ⟨-, hadd'⟩ | ⟨hleaves', -⟩ := add_unlimited hlimit' d
    · rw [hadd, hadd']
      exact h
    · exact absurd (hout.1 hleaves) hleaves'
  · obtain ⟨hleaves', -⟩ | ⟨-, hadd'⟩ := add_unlimited hlimit' d
    · exact absurd (hout.2 hleaves') hleaves
    · rw [hadd, hadd']
      refine ⟨h.config_eq, ?_, fun x hx => ?_⟩
      · show streamAt location (q.queued ++ [d]) = streamAt location (q'.queued ++ [d])
        rw [streamAt, streamAt, List.filter_append, List.filter_append]
        exact congrArg (· ++ _) h.queued_eq
      · show x ∈ (if q.config.deduplicate then d.content :: q.seen else q.seen) ↔
          x ∈ (if q'.config.deduplicate then d.content :: q'.seen else q'.seen)
        rw [h.config_eq]
        split
        · rw [List.mem_cons, List.mem_cons, h.seen_iff x hx]
        · exact h.seen_iff x hx

/-- A diagnostic of another location that is added to one of them. -/
theorem add_other (h : AgreeAt location q q') (hlimit : q.config.errorLimit = 0) (hd : d.location ≠ location) :
    AgreeAt location (q.add d).2 q' := by
  obtain ⟨-, hadd⟩ | ⟨-, hadd⟩ := add_unlimited hlimit d
  · rw [hadd]
    exact h
  · rw [hadd]
    refine ⟨h.config_eq, ?_, fun x hx => ?_⟩
    · show streamAt location (q.queued ++ [d]) = streamAt location q'.queued
      rw [← h.queued_eq, streamAt, List.filter_append, List.filter_cons_of_neg (by simpa using hd)]
      exact List.append_nil _
    · show x ∈ (if q.config.deduplicate then d.content :: q.seen else q.seen) ↔ x ∈ q'.seen
      have hne : x ≠ d.content := fun heq => hd (by rw [← hx, heq]; rfl)
      rw [← h.seen_iff x hx]
      split
      · rw [List.mem_cons, or_iff_right hne]
      · exact Iff.rfl

/-- A queue does with the diagnostics of a location what it does when only they are added. -/
theorem extend (h : AgreeAt location q q') (hlimit : q.config.errorLimit = 0) (ds : List Diagnostic) :
    AgreeAt location (q.extend ds) (q'.extend (streamAt location ds)) := by
  induction ds generalizing q q' with
  | nil => exact h
  | cons d ds ih =>
    have hlimit' : (q.add d).2.config.errorLimit = 0 := by rw [config_add, hlimit]
    by_cases hd : d.location = location
    · have hstream : streamAt location (d :: ds) = d :: streamAt location ds :=
        List.filter_cons_of_pos (by simpa using hd)
      rw [hstream]
      exact ih (h.add hlimit hd) hlimit'
    · have hstream : streamAt location (d :: ds) = streamAt location ds :=
        List.filter_cons_of_neg (by simpa using hd)
      rw [hstream]
      exact ih (h.add_other hlimit hd) hlimit'

end AgreeAt

/-! ### All locations -/

/-- What is given out does not depend on the order in which the streams of different locations came in. -/
theorem flush_eq_of_interleaves {config : QueueConfig} (hlimit : config.errorLimit = 0)
    {streams : Option Location → List Diagnostic} {steps steps' : List QueueStep}
    (h : Interleaves streams (QueueStep.offeredSinceFlush steps))
    (h' : Interleaves streams (QueueStep.offeredSinceFlush steps')) :
    (ofSteps config steps).flush.1 = (ofSteps config steps').flush.1 := by
  rw [ofSteps_eq, ofSteps_eq]
  generalize QueueStep.offeredSinceFlush steps = ds at h
  generalize QueueStep.offeredSinceFlush steps' = ds' at h'
  have hgiven : ∀ ds, (extend { config := config } ds).flush.1 =
      (extend { config := config } ds).queued.mergeSort Diagnostic.locationLe := by
    intro ds
    rw [flush, dropped_extend_unlimited (q := { config := config }) hlimit]
    exact List.append_nil _
  rw [hgiven, hgiven]
  refine (Diagnostic.inOrder_mergeSort _).unique (Diagnostic.inOrder_mergeSort _) fun location => ?_
  have hnew : AgreeAt location { config := config } { config := config } := .refl _
  have hone := (hnew.extend hlimit ds).queued_eq
  have hother := (hnew.extend hlimit ds').queued_eq
  rw [h location] at hone
  rw [h' location] at hother
  exact hone.trans hother.symm

/-! ### Two classes -/

private def jobClass : Location := ⟨"app.Job", none⟩

private def taskClass : Location := ⟨"app.Task", none⟩

private def stubbed (severity : Severity) (location : Location) : Diagnostic where
  code := .w1001
  severity := severity
  message := "stubbed"
  location := some location

private def internal : Diagnostic := ⟨.e9001, .error, "internal", none, [], []⟩

/-- The diagnostics of two classes, two of which say the same, and one without a location. -/
private def classStreams : Option Location → List Diagnostic
  | none => [internal]
  | some location =>
    if location = jobClass then [stubbed .warning jobClass, stubbed .note jobClass]
    else if location = taskClass then [stubbed .warning taskClass]
    else []

private theorem interleaves_classStreams {ds : List Diagnostic}
    (hlocations : ∀ d ∈ ds, d.location ∈ [none, some jobClass, some taskClass])
    (h : ∀ location ∈ [none, some jobClass, some taskClass], streamAt location ds = classStreams location) :
    Interleaves classStreams ds := by
  intro location
  by_cases hlocation : location ∈ [none, some jobClass, some taskClass]
  · exact h location hlocation
  · have hempty : streamAt location ds = [] :=
      List.filter_eq_nil_iff.2 fun d hd heq => hlocation (beq_iff_eq.1 heq ▸ hlocations d hd)
    rw [hempty]
    cases location with
    | none => exact absurd List.mem_cons_self hlocation
    | some l =>
      simp only [List.mem_cons, Option.some.injEq, List.not_mem_nil, or_false, not_or] at hlocation
      rw [classStreams, if_neg hlocation.2.1, if_neg hlocation.2.2]

private def jobFirst : List QueueStep :=
  [.flush, .extend [stubbed .warning jobClass, stubbed .note jobClass], .add (stubbed .warning taskClass),
    .emitError internal rfl]

private def taskFirst : List QueueStep :=
  [.extend [stubbed .warning taskClass, stubbed .warning jobClass], .emitError internal rfl,
    .add (stubbed .note jobClass)]

/-- What the queue holds is not the same, but what it gives out. -/
theorem flush_eq_of_interleaves_classes :
    Interleaves classStreams (QueueStep.offeredSinceFlush jobFirst) ∧
    Interleaves classStreams (QueueStep.offeredSinceFlush taskFirst) ∧
    (ofSteps ⟨0, true⟩ jobFirst).queued = [stubbed .warning jobClass, stubbed .warning taskClass, internal] ∧
    (ofSteps ⟨0, true⟩ taskFirst).queued = [stubbed .warning taskClass, stubbed .warning jobClass, internal] ∧
    (ofSteps ⟨0, true⟩ jobFirst).flush.1 = (ofSteps ⟨0, true⟩ taskFirst).flush.1 := by
  have hjob : Interleaves classStreams (QueueStep.offeredSinceFlush jobFirst) :=
    interleaves_classStreams (by decide) (by decide)
  have htask : Interleaves classStreams (QueueStep.offeredSinceFlush taskFirst) :=
    interleaves_classStreams (by decide) (by decide)
  exact ⟨hjob, htask, by decide, by decide, flush_eq_of_interleaves rfl hjob htask⟩

end DiagnosticQueue

end HaxeBackend
