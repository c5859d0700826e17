import HaxeBackend.Support.Num

/-!
# Computations that throw and catch

A method has one slot for the value it caught last.  A catch clause stores what was thrown there and then runs its
handler, and a rethrow throws what the slot holds.  The body of a `tryCatch` is a method of its own, with a slot of
its own.
-/

namespace HaxeBackend.Support

inductive Computation where
  | value (v : Value)
  | throw (v : Value)
  /-- The value of the slot, or null. -/
  | current
  | rethrow
  /-- Stores a value in the slot. -/
  | bind (v : Value)
  | fail (f : Fault)
  /-- A numeric helper. -/
  | num (helper : String) (args : List Operand)
  | unbox (kind : Value.UnboxKind) (v : Value)
  /-- Runs in order up to the first fault, with the value of the last. -/
  | seq (parts : List Computation)
  | tryCatch (body handler : Computation)

/-- What a run changes. -/
structure RunState where
  /-- The value caught last, if any was. -/
  slot : Option Value := none
  /-- What the handlers received, in order. -/
  caught : List Value := []
  /-- The next cell for a string. -/
  cell : Nat := 0
  deriving DecidableEq, Repr

/-- The slot's value, thrown again. -/
def rethrown (slot : Option Value) : Fault := .thrown (slot.getD .null)

/-- The state in which a handler starts. -/
def RunState.enter (st : RunState) (f : Fault) : RunState :=
  let v := f.caughtValue st.cell
  { slot := some v, caught := st.caught ++ [v], cell := st.cell + 1 }

/-- The result of a helper as a value; a call that no helper takes gives null. -/
def helperResult (helper : String) (args : List Operand) : Except Fault Value :=
  match Num.call? helper args with
  | some result => result.map fun x => x.value?.getD .null
  | none => .ok .null

namespace Computation

mutual

def run : Computation → RunState → Except Fault Value × RunState
  | value v, st => (.ok v, st)
  | throw v, st => (.error (.thrown v), st)
  | current, st => (.ok (st.slot.getD .null), st)
  | rethrow, st => (.error (rethrown st.slot), st)
  | bind v, st => (.ok .null, { st with slot := some v })
  | fail f, st => (.error f, st)
  | num helper args, st => (helperResult helper args, st)
  | unbox kind v, st => (v.unbox kind, st)
  | seq parts, st => runAll parts .null st
  | tryCatch body handler, st =>
    match run body { st with slot := none } with
    | (.ok v, inner) => (.ok v, { inner with slot := st.slot })
    | (.error f, inner) => run handler ({ inner with slot := st.slot }.enter f)

/-- Runs in order; `last` is the value so far. -/
def runAll : List Computation → Value → RunState → Except Fault Value × RunState
  | [], last, st => (.ok last, st)
  | part :: rest, _, st =>
    match run part st with
    | (.ok v, st') => runAll rest v st'
    | (.error f, st') => (.error f, st')

end

end Computation

end HaxeBackend.Support
