import HaxeBackend.Target.Code

/-!
# Balanced blocks

A writer leaves an indentation only where it entered one.  `Writer.run?` is a writer that gives up when a step leaves
an indentation at depth zero, and `nestAll?` follows what steps enter and leave without writing anything: steps that
leave only what they entered are written to the end, at the depth of what is still entered (`run?_of_nestAll?`).  The
steps of code leave everything that they enter (`nestAll?_steps`).
-/

namespace HaxeBackend.Target

/-! ### Writers that give up -/

namespace Writer

/-- Leaves an indentation, unless there is none. -/
def dedent? (w : Writer) : Option Writer := if w.depth = 0 then none else some w.dedent

mutual

/-- A step on a writer that gives up when an indentation is left that was never entered. -/
def step? (w : Writer) : Step → Option Writer
  | .line text => some (w.line text)
  | .openBlock header => some (w.openBlock header)
  | .reopenBlock header => w.dedent?.map fun w => (w.row ("\x7d " ++ header ++ " \x7b")).indent
  | .closeBlock => w.dedent?.map fun w => w.row "\x7d"
  | .blank => some w.blank
  | .indent => some w.indent
  | .dedent => w.dedent?
  | .mark source => some (w.mark source)
  | .append steps => (run? {} steps).map w.append

/-- Runs steps in order. -/
def run? (w : Writer) : List Step → Option Writer
  | [] => some w
  | s :: steps => (w.step? s).bind fun w => w.run? steps

end

/-! ### Depth -/

variable (w inner : Writer) (text header : String)

@[simp]
theorem depth_line : (w.line text).depth = w.depth := by
  unfold line
  induction Text.lines text generalizing w with
  | nil => rfl
  | cons t rest ih => exact ih (w.row t)

@[simp]
theorem depth_copyLine : (w.copyLine text).depth = w.depth := by
  unfold copyLine
  split <;> rfl

@[simp]
theorem depth_append : (w.append inner).depth = w.depth := by
  show ((Text.lines inner.text).foldl copyLine w).depth = w.depth
  induction Text.lines inner.text generalizing w with
  | nil => rfl
  | cons t rest ih => rw [List.foldl_cons, ih, depth_copyLine]

theorem dedent?_eq {n : Nat} (h : w.depth = n + 1) : w.dedent? = some w.dedent := by
  rw [dedent?, h, if_neg n.succ_ne_zero]

end Writer

/-! ### What steps enter and leave -/

/-- What a writer is inside of: a block, or an indentation without braces. -/
inductive Level where
  | block
  | plain
  deriving DecidableEq, Repr

/-- Leaves a level of this kind, which has to be the innermost. -/
def Level.leave? (kind : Level) : List Level → Option (List Level)
  | [] => none
  | level :: levels => if level = kind then some levels else none

mutual

/-- The levels after a step, innermost first; nothing when the step leaves what it is not in, or appends what is not
left again. -/
def Step.nest? (levels : List Level) : Step → Option (List Level)
  | .openBlock _ => some (.block :: levels)
  | .reopenBlock _ => (Level.block.leave? levels).map (.block :: ·)
  | .closeBlock => Level.block.leave? levels
  | .indent => some (.plain :: levels)
  | .dedent => Level.plain.leave? levels
  | .append steps => if nestAll? [] steps = some [] then some levels else none
  | .line _ | .blank | .mark _ => some levels

/-- The levels after steps in order. -/
def nestAll? (levels : List Level) : List Step → Option (List Level)
  | [] => some levels
  | s :: steps => (s.nest? levels).bind fun levels => nestAll? levels steps

end

/-- Every block and indentation that the steps enter is left exactly once, and none else is. -/
def IsPaired (steps : List Step) : Prop := nestAll? [] steps = some []

instance (steps : List Step) : Decidable (IsPaired steps) := inferInstanceAs (Decidable (_ = _))

variable {w : Writer} {levels levels' : List Level} {steps steps' : List Step}

@[simp]
theorem nestAll?_nil : nestAll? levels [] = some levels := rfl

@[simp]
theorem nestAll?_cons (s : Step) : nestAll? levels (s :: steps) = (s.nest? levels).bind (nestAll? · steps) := rfl

theorem nestAll?_append : nestAll? levels (steps ++ steps') = (nestAll? levels steps).bind (nestAll? · steps') := by
  induction steps generalizing levels with
  | nil => rfl
  | cons s steps ih => simp [Option.bind_assoc, ih]

theorem Level.leave?_eq_some {kind : Level} (h : kind.leave? levels = some levels') : levels = kind :: levels' := by
  cases levels with
  | nil => cases h
  | cons level levels =>
    rw [leave?, Option.ite_none_right_eq_some] at h
    obtain ⟨rfl, h⟩ := h
    cases h
    rfl

private theorem dedent?_of_leave? {kind : Level} (h : kind.leave? levels = some levels')
    (hdepth : w.depth = levels.length) : w.dedent? = some w.dedent ∧ w.dedent.depth = levels'.length := by
  obtain rfl := Level.leave?_eq_some h
  exact ⟨w.dedent?_eq hdepth, by rw [Writer.dedent, hdepth]; rfl⟩

mutual

/-- A step that leaves only what was entered is written, and the depth is the number of levels again. -/
theorem step?_of_nest? (s : Step) {w : Writer} {levels levels' : List Level} (hdepth : w.depth = levels.length)
    (h : s.nest? levels = some levels') : w.step? s = some (w.step s) ∧ (w.step s).depth = levels'.length := by
  match s with
  | .openBlock header =>
    cases h
    exact ⟨rfl, congrArg (· + 1) hdepth⟩
  | .reopenBlock header =>
    rw [Step.nest?, Option.map_eq_some_iff] at h
    obtain ⟨outer, hleave, rfl⟩ := h
    obtain ⟨hdedent, houter⟩ := dedent?_of_leave? hleave hdepth
    rw [Writer.step?, hdedent]
    exact ⟨rfl, congrArg (· + 1) houter⟩
  | .closeBlock =>
    obtain ⟨hdedent, houter⟩ := dedent?_of_leave? h hdepth
    rw [Writer.step?, hdedent]
    exact ⟨rfl, houter⟩
  | .indent =>
    cases h
    exact ⟨rfl, congrArg (· + 1) hdepth⟩
  | .dedent => exact dedent?_of_leave? h hdepth
  | .append steps =>
    rw [Step.nest?] at h
    split at h
    · rename_i hpaired
      cases h
      obtain ⟨hrun, -⟩ := run?_of_nestAll? steps (w := {}) rfl hpaired
      rw [Writer.step?, hrun, Writer.step]
      exact ⟨rfl, (w.depth_append _).trans hdepth⟩
    · cases h
  | .line text =>
    cases h
    exact ⟨rfl, (w.depth_line text).trans hdepth⟩
  | .blank =>
    cases h
    exact ⟨rfl, hdepth⟩
  | .mark source =>
    cases h
    exact ⟨rfl, hdepth⟩

/-- Steps that leave only what was entered are written to the end. -/
theorem run?_of_nestAll? (steps : List Step) {w : Writer} {levels levels' : List Level}
    (hdepth : w.depth = levels.length) (h : nestAll? levels steps = some levels') :
    w.run? steps = some (w.run steps) ∧ (w.run steps).depth = levels'.length := by
  match steps with
  | [] =>
    cases h
    exact ⟨rfl, hdepth⟩
  | s :: steps =>
    rw [nestAll?_cons, Option.bind_eq_some_iff] at h
    obtain ⟨mid, hs, hsteps⟩ := h
    obtain ⟨hstep, hmid⟩ := step?_of_nest? s hdepth hs
    rw [Writer.run?, hstep, Writer.run]
    exact run?_of_nestAll? steps hmid hsteps

end

/-- Paired steps are written to the end, where the writer is at the depth at which it started. -/
theorem IsPaired.run? (h : IsPaired steps) :
    Writer.run? {} steps = some (.ofSteps steps) ∧ (Writer.ofSteps steps).depth = 0 :=
  run?_of_nestAll? steps (w := {}) rfl h

/-! ### Code -/

@[simp]
theorem Code.steps_append (c c' : Code) : (c ++ c').steps = c.steps ++ c'.steps := rfl

/-- Code leaves whatever it enters. -/
@[simp]
theorem nestAll?_steps (c : Code) (levels : List Level) : nestAll? levels c.steps = some levels := by
  induction c generalizing levels with
  | empty | line _ | blank | mark _ => rfl
  | seq first rest hfirst hrest => rw [Code.steps, nestAll?_append, hfirst, Option.bind_some, hrest]
  | block header body hbody => simp [Code.steps, nestAll?_append, Step.nest?, hbody, Level.leave?]
  | chain header body nextHeader nextBody hbody hnext =>
    simp [Code.steps, nestAll?_append, Step.nest?, hbody, hnext, Level.leave?]
  | indented body hbody => simp [Code.steps, nestAll?_append, Step.nest?, hbody, Level.leave?]
  | nested body hbody => simp [Code.steps, Step.nest?, hbody]

theorem Code.isPaired_steps (c : Code) : IsPaired c.steps := nestAll?_steps c []

end HaxeBackend.Target
