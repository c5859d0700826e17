import HaxeBackend.Diagnostic.Basic

/-!
# Queued diagnostics

A queue collects diagnostics and gives them out in the order of their locations, whatever the order in which
classes were generated.  It can leave out what it already holds, and errors past a limit, which it counts.
-/

namespace HaxeBackend

structure QueueConfig where
  /-- The number of errors that are held; zero is no limit. -/
  errorLimit : Nat := 50
  /-- Leave out what is already held. -/
  deduplicate : Bool := true
  deriving DecidableEq, Repr

def QueueConfig.unlimited : QueueConfig := ⟨0, false⟩

namespace Diagnostic

/-- What a diagnostic says.  Two diagnostics with the same code, location and message say the same. -/
structure Content where
  code : DiagnosticCode
  location : Option Location
  message : String
  deriving DecidableEq, Repr

def content (d : Diagnostic) : Content := ⟨d.code, d.location, d.message⟩

/-- The order by location; a diagnostic without one comes first. -/
def locationLe (a b : Diagnostic) : Bool :=
  match a.location, b.location with
  | none, _ => true
  | some _, none => false
  | some l, some l' => l.le l'

end Diagnostic

structure DiagnosticQueue where
  config : QueueConfig := {}
  /-- What is held, in the order of insertion. -/
  queued : List Diagnostic := []
  /-- What the diagnostics said that were compared and not left out. -/
  seen : List Diagnostic.Content := []
  errorCount : Nat := 0
  warningCount : Nat := 0
  /-- How many errors came past the limit. -/
  dropped : Nat := 0
  deriving DecidableEq, Repr

namespace DiagnosticQueue

/-- What is given out for the errors that are held. -/
def hasErrors? (q : DiagnosticQueue) : Option ErrorsReported := ErrorsReported.ofCount? q.errorCount

def limitReached (q : DiagnosticQueue) : Bool :=
  0 < q.config.errorLimit && q.config.errorLimit ≤ q.errorCount

/-- Holds a diagnostic and counts it. -/
def push (q : DiagnosticQueue) (d : Diagnostic) : DiagnosticQueue :=
  { q with
    queued := q.queued ++ [d]
    errorCount := if d.isError then q.errorCount + 1 else q.errorCount
    warningCount := if !d.isError && d.isWarning then q.warningCount + 1 else q.warningCount }

/-- Adds a diagnostic, and tells whether it was taken. -/
def add (q : DiagnosticQueue) (d : Diagnostic) : Bool × DiagnosticQueue :=
  if d.isError && q.limitReached then (false, { q with dropped := q.dropped + 1 })
  else if q.config.deduplicate then
    if q.seen.contains d.content then (false, q)
    else (true, { q with seen := d.content :: q.seen }.push d)
  else (true, q.push d)

/-- Adds an error, which counts as reported whether it was taken or not. -/
def emitError (q : DiagnosticQueue) (d : Diagnostic) : ErrorsReported × DiagnosticQueue := ({}, (q.add d).2)

def extend (q : DiagnosticQueue) (ds : List Diagnostic) : DiagnosticQueue :=
  ds.foldl (fun q d => (q.add d).2) q

/-- Gives out what is held, in the order of locations and then of insertion, with a summary of the errors past the
limit, and empties the queue. -/
def flush (q : DiagnosticQueue) : List Diagnostic × DiagnosticQueue :=
  let sorted := q.queued.mergeSort Diagnostic.locationLe
  let summary := if 0 < q.dropped then [Diagnostic.tooManyErrors q.config.errorLimit q.dropped] else []
  (sorted ++ summary, { q with queued := [], seen := [], errorCount := 0, warningCount := 0, dropped := 0 })

end DiagnosticQueue

end HaxeBackend
