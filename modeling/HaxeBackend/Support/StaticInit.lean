/-!
# Static initialization

Every class has a flag and an initializer.  Touching a class sets its flag and runs its initializer, unless the flag
is set already; the flag is set first, so a class that is reached again from its own initializer is left alone.
-/

namespace HaxeBackend.Support

/-- A step of an initializer. -/
inductive InitStep where
  /-- Initializes a class if that has not begun. -/
  | touch (className : String)
  | set (target : String) (value : Int)
  /-- Sets a variable to another one plus an amount; a variable that was never set is zero. -/
  | add (target source : String) (amount : Int)
  deriving DecidableEq, Repr

/-- What happens on a run. -/
inductive InitEvent where
  /-- The initializer of the class starts. -/
  | enter (className : String)
  /-- A touch is over: whether the flag was set before it, and whether it ran the initializer. -/
  | touched (className : String) (before ran : Bool)
  deriving DecidableEq, Repr

def InitEvent.text : InitEvent → String
  | enter className => s!"enter {className}"
  | touched className before ran => s!"touched {className} before={before} ran={ran}"

structure InitState where
  /-- The classes whose flag is set. -/
  initialized : List String := []
  vars : List (String × Int) := []
  log : List InitEvent := []
  deriving DecidableEq, Repr

namespace InitState

def isInitialized (st : InitState) (className : String) : Bool := st.initialized.contains className

def get (st : InitState) (name : String) : Int := (st.vars.lookup name).getD 0

def set (st : InitState) (name : String) (value : Int) : InitState :=
  { st with vars := (name, value) :: st.vars.filter fun v => v.1 != name }

def note (st : InitState) (event : InitEvent) : InitState := { st with log := st.log ++ [event] }

end InitState

/-- The initializers of classes, by name. -/
abbrev Initializers := List (String × List InitStep)

/-- Runs a step.  Initializers inside initializers are at most as deep as there are classes; past `fuel` there is no
answer. -/
def runStep (classes : Initializers) : Nat → InitStep → InitState → Option InitState
  | _, .set target value, st => some (st.set target value)
  | _, .add target source amount, st => some (st.set target (st.get source + amount))
  | fuel, .touch className, st =>
    if st.isInitialized className then some (st.note (.touched className true false))
    else
      match fuel with
      | 0 => none
      | fuel + 1 =>
        let begun := { st with initialized := st.initialized ++ [className] }.note (.enter className)
        let steps := (classes.lookup className).getD []
        (steps.foldlM (fun st step => runStep classes fuel step st) begun).map
          (·.note (.touched className false true))

/-- Runs steps in order. -/
def runSteps (classes : Initializers) (fuel : Nat) (steps : List InitStep) (st : InitState) : Option InitState :=
  steps.foldlM (fun st step => runStep classes fuel step st) st

/-- Runs steps from the start. -/
def runInitializers (classes : Initializers) (steps : List InitStep) : Option InitState :=
  runSteps classes (classes.length + 1) steps {}

end HaxeBackend.Support
