import HaxeBackend.Proofs.Target.Pool
import HaxeBackend.Support.StaticInit
import HaxeBackend.Target.SourceUnit
import Mathlib.Logic.Relation

/-!
# Static initialization

Initializers call one another, in cycles too, and a flag that is set first lets each of them start once.  `Performs`
says what a run does without a bound on its depth; the number of flags that are not set falls with every initializer
that starts, so there is such a run from every state (`exists_performs`) and as many levels as there are classes are
enough (`Performs.runSteps_eq`).  What is initialized in the end is what is reached through calls
(`Performs.explores`), and without cycles a call is over only when the initializer of its class is
(`Performs.finishesFirst`).
-/

namespace HaxeBackend.Target

/-! ### The routine of a class -/

/-- What the lines of an initialization routine do from a state of the flag: every line that takes effect, with the
flag as it is then. -/
def routineEffects (flag : Bool) : List String → List (Bool × String)
  | [] => []
  | line :: rest =>
    if line = s!"if ({initFlag}) return;" then if flag then [] else routineEffects flag rest
    else if line = s!"{initFlag} = true;" then routineEffects true rest
    else (flag, line) :: routineEffects flag rest

private theorem routineEffects_of_plain {flag : Bool} {lines : List String}
    (h : ∀ line ∈ lines, line ≠ s!"if ({initFlag}) return;" ∧ line ≠ s!"{initFlag} = true;") :
    routineEffects flag lines = lines.map fun line => (flag, line) := by
  induction lines with
  | nil => rfl
  | cons line rest ih =>
    obtain ⟨⟨hreturn, hset⟩, hrest⟩ := List.forall_mem_cons.1 h
    rw [routineEffects, if_neg hreturn, if_neg hset, ih hrest, List.map_cons]

/-- No assignment reads like the lines about the flag: in front of the semicolon is a parenthesis or a digit. -/
private theorem Statics.plain_of_mem_assignments {s : Statics} {line : String} (h : line ∈ s.assignments) :
    line ≠ s!"if ({initFlag}) return;" ∧ line ≠ s!"{initFlag} = true;" := by
  have hends : ∃ chars c, line.toList = chars ++ [c, ';'] ∧ c ≠ 'n' ∧ c ≠ 'e' := by
    unfold assignments at h
    simp only [List.mem_append, List.mem_map] at h
    rcases h with (⟨⟨index, text⟩, -, rfl⟩ | ⟨⟨field, index⟩, -, rfl⟩) | ⟨name, -, rfl⟩
    · exact ⟨(poolIdent index ++ " = " ++ numClass ++ ".str(" ++ argumentList [quote text]).toList, ')',
        by simp [numCall, toString], by decide, by decide⟩
    · obtain ⟨digits, c, hdigits⟩ : ∃ digits c, Nat.toDigits 10 index = digits ++ [c] :=
        ⟨_, _, (List.dropLast_concat_getLast Nat.toDigits_ne_nil).symm⟩
      have hmem : c ∈ Nat.toDigits 10 index := by simp [hdigits]
      have hc : c.isDigit = true := Nat.isDigit_of_mem_toDigits (by decide) (by decide) hmem
      refine ⟨field.toList ++ " = ".toList ++ poolStem.toList ++ digits, c, ?_, ?_, ?_⟩
      · simp [toString, toList_poolIdent_eq, hdigits]
      · rintro rfl
        exact absurd hc (by decide)
      · rintro rfl
        exact absurd hc (by decide)
    · exact ⟨name.toList ++ ['('], ')', by simp [toString], by decide, by decide⟩
  obtain ⟨chars, c, hline, hn, he⟩ := hends
  have hlast : line.toList.dropLast.getLast? = some c := by
    rw [hline, show chars ++ [c, ';'] = (chars ++ [c]) ++ [';'] by simp]
    simp only [List.dropLast_concat, List.getLast?_concat]
  constructor
  · rintro rfl
    exact hn (Option.some.inj hlast).symm
  · rintro rfl
    exact he (Option.some.inj hlast).symm

/-- The routine does nothing when the flag is set, and else it does everything behind a flag that is set already. -/
private theorem Statics.exists_routine (s : Statics) : ∃ front lines,
    s.code = front ++ .block s!"static public function {initRoutine}():Void" (.lines lines) ∧
      ∀ flag, routineEffects flag lines = if flag then [] else s.assignments.map fun line => (true, line) := by
  refine ⟨_, _, rfl, fun flag => ?_⟩
  have hplain : routineEffects true s.assignments = s.assignments.map fun line => (true, line) :=
    routineEffects_of_plain fun line hline => plain_of_mem_assignments hline
  cases flag with
  | false => exact hplain
  | true => rfl

end HaxeBackend.Target

namespace HaxeBackend.Support

open Relation

variable {classes : Initializers} {steps : List InitStep} {st st' : InitState} {c d : String}

/-! ### Runs without a bound -/

/-- The steps of the initializer of a class. -/
def initializer (classes : Initializers) (c : String) : List InitStep := (classes.lookup c).getD []

/-- The initializer of the first class calls the routine of the second. -/
def Calls (classes : Initializers) (c d : String) : Prop := .touch d ∈ initializer classes c

/-- The state in which the initializer of a class starts. -/
def InitState.start (st : InitState) (c : String) : InitState :=
  { st with initialized := st.initialized ++ [c] }.note (.enter c)

/-- The steps can be done from the first state and end in the second. -/
inductive Performs (classes : Initializers) : List InitStep → InitState → InitState → Prop
  | done (st : InitState) : Performs classes [] st st
  | set {target : String} {value : Int} {rest : List InitStep} {st st' : InitState}
      (hrest : Performs classes rest (st.set target value) st') : Performs classes (.set target value :: rest) st st'
  | add {target source : String} {amount : Int} {rest : List InitStep} {st st' : InitState}
      (hrest : Performs classes rest (st.set target (st.get source + amount)) st') :
      Performs classes (.add target source amount :: rest) st st'
  | again {c : String} {rest : List InitStep} {st st' : InitState} (hflag : c ∈ st.initialized)
      (hrest : Performs classes rest (st.note (.touched c true false)) st') :
      Performs classes (.touch c :: rest) st st'
  | first {c : String} {rest : List InitStep} {st mid st' : InitState} (hflag : c ∉ st.initialized)
      (hinit : Performs classes (initializer classes c) (st.start c) mid)
      (hrest : Performs classes rest (mid.note (.touched c false true)) st') :
      Performs classes (.touch c :: rest) st st'

/-- The number of classes whose flag is not set. -/
def pending (classes : Initializers) (st : InitState) : Nat := classes.countP fun entry => entry.1 ∉ st.initialized

private theorem pending_le_of_subset (h : st.initialized ⊆ st'.initialized) :
    pending classes st' ≤ pending classes st := by
  refine List.countP_mono_left fun entry _ hentry => ?_
  simp only [decide_eq_true_eq] at hentry ⊢
  exact fun hmem => hentry (h hmem)

private theorem subset_start (st : InitState) (c : String) : st.initialized ⊆ (st.start c).initialized :=
  List.subset_append_left _ _

/-- A class that starts was pending, unless it has no steps. -/
private theorem pending_start (classes : Initializers) (hflag : c ∉ st.initialized) :
    initializer classes c = [] ∨ pending classes (st.start c) < pending classes st := by
  cases hlookup : classes.lookup c with
  | none =>
    left
    rw [initializer, hlookup]
    rfl
  | some steps =>
    right
    obtain ⟨before, after, rfl, -⟩ := List.lookup_eq_some_iff.1 hlookup
    have hbefore : pending before (st.start c) ≤ pending before st := pending_le_of_subset (subset_start st c)
    have hafter : pending after (st.start c) ≤ pending after st := pending_le_of_subset (subset_start st c)
    have hmem : c ∈ (st.start c).initialized := List.mem_append_right _ List.mem_cons_self
    have hstart : pending (before ++ (c, steps) :: after) (st.start c) =
        pending before (st.start c) + pending after (st.start c) := by
      simp [pending, hmem]
    have hst : pending (before ++ (c, steps) :: after) st = pending before st + (pending after st + 1) := by
      simp [pending, hflag]
    omega

section Steps

variable {fuel : Nat}

private theorem runSteps_cons (fuel : Nat) (step : InitStep) :
    runSteps classes fuel (step :: steps) st = (runStep classes fuel step st).bind (runSteps classes fuel steps) := by
  rw [runSteps, List.foldlM_cons]
  rfl

private theorem runStep_set (target : String) (value : Int) :
    runStep classes fuel (.set target value) st = some (st.set target value) := by
  rw [runStep.eq_def]

private theorem runStep_add (target source : String) (amount : Int) :
    runStep classes fuel (.add target source amount) st = some (st.set target (st.get source + amount)) := by
  rw [runStep.eq_def]

private theorem runStep_again (hflag : c ∈ st.initialized) :
    runStep classes fuel (.touch c) st = some (st.note (.touched c true false)) := by
  have hset : st.isInitialized c = true := List.contains_iff_mem.2 hflag
  rw [runStep.eq_def]
  exact if_pos hset

private theorem runStep_first (hflag : c ∉ st.initialized) :
    runStep classes (fuel + 1) (.touch c) st =
      (runSteps classes fuel (initializer classes c) (st.start c)).map (·.note (.touched c false true)) := by
  have hset : ¬st.isInitialized c = true := mt List.contains_iff_mem.1 hflag
  rw [runStep.eq_def]
  exact if_neg hset

end Steps

namespace Performs

/-- No flag is ever taken back. -/
private theorem subset (h : Performs classes steps st st') : st.initialized ⊆ st'.initialized := by
  induction h with
  | done => exact fun c hc => hc
  | set _ ih => exact ih
  | add _ ih => exact ih
  | again _ _ ih => exact ih
  | first _ _ _ ihinit ihrest => exact fun c hc => ihrest (ihinit (subset_start _ _ hc))

/-- A run needs at most a level for every class whose flag is not set, and one more. -/
theorem runSteps_eq (h : Performs classes steps st st') {fuel : Nat} (hfuel : pending classes st < fuel) :
    runSteps classes fuel steps st = some st' := by
  induction h generalizing fuel with
  | done => rfl
  | set _ ih => rw [runSteps_cons, runStep_set, Option.bind_some, ih hfuel]
  | add _ ih => rw [runSteps_cons, runStep_add, Option.bind_some, ih hfuel]
  | again hflag _ ih => rw [runSteps_cons, runStep_again hflag, Option.bind_some, ih hfuel]
  | @first c rest st mid st' hflag hinit hrest ihinit ihrest =>
    obtain ⟨fuel, rfl⟩ := Nat.exists_eq_succ_of_ne_zero (Nat.ne_zero_of_lt hfuel)
    have hmid : runSteps classes fuel (initializer classes c) (st.start c) = some mid := by
      rcases pending_start classes hflag with hnone | hless
      · rw [hnone] at hinit ⊢
        cases hinit
        rfl
      · exact ihinit (by omega)
    have hgrown : pending classes mid ≤ pending classes st :=
      pending_le_of_subset fun d hd => hinit.subset (subset_start st c hd)
    rw [runSteps_cons, runStep_first hflag, hmid, Option.map_some, Option.bind_some]
    exact ihrest (Nat.lt_of_le_of_lt hgrown hfuel)

end Performs

/-- There is a run from every state, cycles or not. -/
theorem exists_performs (classes : Initializers) (steps : List InitStep) (st : InitState) :
    ∃ st', Performs classes steps st st' := by
  -- on the flags that are not set, and for at most as many on the steps
  have hruns : ∀ n steps st, pending classes st ≤ n → ∃ st', Performs classes steps st st' := by
    intro n
    induction n using Nat.strongRecOn with
    | ind n ihflags =>
      intro steps
      induction steps with
      | nil => exact fun st _ => ⟨st, .done st⟩
      | cons step rest ihrest =>
        intro st hpending
        cases step with
        | set target value =>
          obtain ⟨st', hst'⟩ := ihrest (st.set target value) hpending
          exact ⟨st', .set hst'⟩
        | add target source amount =>
          obtain ⟨st', hst'⟩ := ihrest (st.set target (st.get source + amount)) hpending
          exact ⟨st', .add hst'⟩
        | touch c =>
          by_cases hflag : c ∈ st.initialized
          · obtain ⟨st', hst'⟩ := ihrest (st.note (.touched c true false)) hpending
            exact ⟨st', .again hflag hst'⟩
          · obtain ⟨mid, hmid⟩ : ∃ mid, Performs classes (initializer classes c) (st.start c) mid := by
              rcases pending_start classes hflag with hnone | hless
              · rw [hnone]
                exact ⟨_, .done _⟩
              · exact ihflags _ (Nat.lt_of_lt_of_le hless hpending) _ _ (Nat.le_refl _)
            have hgrown : pending classes mid ≤ pending classes st :=
              pending_le_of_subset fun d hd => hmid.subset (subset_start st c hd)
            obtain ⟨st', hst'⟩ := ihrest (mid.note (.touched c false true)) (Nat.le_trans hgrown hpending)
            exact ⟨st', .first hflag hmid hst'⟩
  exact hruns _ steps st (Nat.le_refl _)

/-! ### What is initialized -/

/-- The initializer of the class has started and is not over. -/
def InitState.IsRunning (st : InitState) (c : String) : Prop :=
  c ∈ st.initialized ∧ .touched c false true ∉ st.log

/-- Each initializer has started as often as its flag has been set, that is once or never. -/
def InitState.IsFaithful (st : InitState) : Prop :=
  st.initialized.Nodup ∧ ∀ c, st.log.count (.enter c) = st.initialized.count c

private theorem InitState.IsFaithful.start (h : st.IsFaithful) (hflag : c ∉ st.initialized) :
    (st.start c).IsFaithful := by
  obtain ⟨hnodup, hcount⟩ := h
  refine ⟨List.nodup_append.2 ⟨hnodup, List.pairwise_singleton _ c, ?_⟩, fun d => ?_⟩
  · rintro a ha b hb rfl
    rw [List.mem_singleton.1 hb] at ha
    exact hflag ha
  · show (st.log ++ [InitEvent.enter c]).count (InitEvent.enter d) = (st.initialized ++ [c]).count d
    rw [List.count_append, List.count_append, hcount, List.count_singleton, List.count_singleton]
    simp

private theorem InitState.IsFaithful.touched (h : st.IsFaithful) (c : String) (before ran : Bool) :
    (st.note (.touched c before ran)).IsFaithful := by
  refine ⟨h.1, fun d => ?_⟩
  show (st.log ++ [InitEvent.touched c before ran]).count (InitEvent.enter d) = st.initialized.count d
  rw [List.count_append, h.2 d]
  simp

/-- What starts is no longer running when its call is over. -/
private theorem InitState.IsRunning.of_over {mid : InitState} (hmid : ∀ x, mid.IsRunning x → (st.start c).IsRunning x)
    (h : (mid.note (.touched c false true)).IsRunning d) : st.IsRunning d := by
  obtain ⟨hmem, hlog⟩ := h
  obtain ⟨hmemd, hlogd⟩ := hmid d ⟨hmem, fun hin => hlog (List.mem_append_left _ hin)⟩
  have hne : d ≠ c := by
    rintro rfl
    exact hlog (List.mem_append_right _ List.mem_cons_self)
  refine ⟨?_, fun hin => hlogd (List.mem_append_left _ hin)⟩
  rcases List.mem_append.1 hmemd with hmemd | hmemd
  · exact hmemd
  · exact absurd (List.mem_singleton.1 hmemd) hne

/-- What steps leave behind. -/
structure Explores (classes : Initializers) (steps : List InitStep) (st st' : InitState) : Prop where
  faithful : st.IsFaithful → st'.IsFaithful
  /-- No flag is taken back. -/
  grown : st.initialized ⊆ st'.initialized
  called : ∀ c, .touch c ∈ steps → c ∈ st'.initialized
  /-- What is new is reached through calls. -/
  reached : ∀ c ∈ st'.initialized,
    c ∈ st.initialized ∨ ∃ root, .touch root ∈ steps ∧ ReflTransGen (Calls classes) root c
  /-- What a new class calls is initialized, too. -/
  closed : ∀ c ∈ st'.initialized, c ∈ st.initialized ∨ ∀ d, Calls classes c d → d ∈ st'.initialized
  /-- No initializer that starts on the way is left running. -/
  running : ∀ c, st'.IsRunning c → st.IsRunning c

namespace Explores

variable {step : InitStep} {rest : List InitStep} {mid : InitState}

private theorem same (hstep : ∀ c, step ≠ .touch c) (hflags : st'.initialized = st.initialized)
    (hlog : st'.log = st.log) : Explores classes [step] st st' where
  faithful h := by
    unfold InitState.IsFaithful
    rw [hflags, hlog]
    exact h
  grown := by rw [hflags]; exact List.Subset.refl _
  called c hc := absurd (List.mem_singleton.1 hc).symm (hstep c)
  reached c hc := .inl (hflags ▸ hc)
  closed c hc := .inl (hflags ▸ hc)
  running c hc := by
    unfold InitState.IsRunning at hc ⊢
    rwa [hflags, hlog] at hc

private theorem again (hflag : c ∈ st.initialized) :
    Explores classes [.touch c] st (st.note (.touched c true false)) where
  faithful h := h.touched c true false
  grown := List.Subset.refl _
  called d hd := by
    cases List.mem_singleton.1 hd
    exact hflag
  reached d hd := .inl hd
  closed d hd := .inl hd
  running d hd := ⟨hd.1, fun hin => hd.2 (List.mem_append_left _ hin)⟩

private theorem first (hflag : c ∉ st.initialized) (h : Explores classes (initializer classes c) (st.start c) mid) :
    Explores classes [.touch c] st (mid.note (.touched c false true)) where
  faithful hst := (h.faithful (hst.start hflag)).touched c false true
  grown d hd := h.grown (subset_start st c hd)
  called d hd := by
    cases List.mem_singleton.1 hd
    exact h.grown (List.mem_append_right _ List.mem_cons_self)
  reached d hd := by
    rcases h.reached d hd with hold | ⟨root, hroot, hreach⟩
    · rcases List.mem_append.1 hold with hold | hself
      · exact .inl hold
      · rw [List.mem_singleton.1 hself]
        exact .inr ⟨c, List.mem_cons_self, .refl⟩
    · exact .inr ⟨c, List.mem_cons_self, .head hroot hreach⟩
  closed d hd := by
    rcases h.closed d hd with hold | hnew
    · rcases List.mem_append.1 hold with hold | hself
      · exact .inl hold
      · rw [List.mem_singleton.1 hself]
        exact .inr h.called
    · exact .inr hnew
  running d hd := hd.of_over h.running

private theorem cons (hstep : Explores classes [step] st mid) (hrest : Explores classes rest mid st') :
    Explores classes (step :: rest) st st' where
  faithful h := hrest.faithful (hstep.faithful h)
  grown d hd := hrest.grown (hstep.grown hd)
  called d hd := by
    rcases List.mem_cons.1 hd with hd | hd
    · exact hrest.grown (hstep.called d (List.mem_singleton.2 hd))
    · exact hrest.called d hd
  reached d hd := by
    rcases hrest.reached d hd with hold | ⟨root, hroot, hreach⟩
    · rcases hstep.reached d hold with hold | ⟨root, hroot, hreach⟩
      · exact .inl hold
      · exact .inr ⟨root, List.mem_cons.2 (.inl (List.mem_singleton.1 hroot)), hreach⟩
    · exact .inr ⟨root, List.mem_cons_of_mem _ hroot, hreach⟩
  closed d hd := by
    rcases hrest.closed d hd with hold | hnew
    · rcases hstep.closed d hold with hold | hnew
      · exact .inl hold
      · exact .inr fun x hx => hrest.grown (hnew x hx)
    · exact .inr hnew
  running d hd := hstep.running d (hrest.running d hd)

end Explores

theorem Performs.explores (h : Performs classes steps st st') : Explores classes steps st st' := by
  induction h with
  | done st =>
    refine ⟨id, List.Subset.refl _, ?_, fun c hc => .inl hc, fun c hc => .inl hc, fun c hc => hc⟩
    exact fun c hc => absurd hc List.not_mem_nil
  | @set target value rest st st' _ ih =>
    have hstep : Explores classes [.set target value] st (st.set target value) := .same nofun rfl rfl
    exact hstep.cons ih
  | @add target source amount rest st st' _ ih =>
    have hstep : Explores classes [.add target source amount] st (st.set target (st.get source + amount)) :=
      .same nofun rfl rfl
    exact hstep.cons ih
  | again hflag _ ih => exact .cons (.again hflag) ih
  | first hflag _ _ ihinit ihrest => exact .cons (.first hflag ihinit) ihrest

/-- From the start, what is initialized is closed under calls. -/
private theorem Explores.mem_initialized_iff (h : Explores classes steps {} st) (c : String) :
    c ∈ st.initialized ↔ ∃ root, .touch root ∈ steps ∧ ReflTransGen (Calls classes) root c := by
  constructor
  · intro hc
    exact (h.reached c hc).resolve_left List.not_mem_nil
  · rintro ⟨root, hroot, hreach⟩
    induction hreach with
    | refl => exact h.called root hroot
    | tail _ hcall ih => exact (h.closed _ ih).resolve_left List.not_mem_nil _ hcall

/-! ### The order of the calls -/

/-- Whenever a call is over, so is the initializer of its class. -/
def FinishesFirst (log : List InitEvent) : Prop :=
  ∀ before d flag ran, before ++ [.touched d flag ran] <+: log →
    .touched d false true ∈ before ++ [.touched d flag ran]

private theorem FinishesFirst.concat {log : List InitEvent} {event : InitEvent} (h : FinishesFirst log)
    (hevent : ∀ d flag ran, event = .touched d flag ran → .touched d false true ∈ log ++ [event]) :
    FinishesFirst (log ++ [event]) := by
  intro before d flag ran hprefix
  rcases List.prefix_concat_iff.1 hprefix with heq | hprefix
  · rw [heq]
    obtain ⟨rfl, hlast⟩ := List.append_inj' heq rfl
    exact hevent d flag ran (List.singleton_inj.1 hlast).symm
  · exact h before d flag ran hprefix

/-- Without cycles no call goes to a class that is running: every class that is running calls it. -/
theorem Performs.finishesFirst (hacyclic : ∀ c, ¬TransGen (Calls classes) c c) (h : Performs classes steps st st')
    (hrunning : ∀ c, st.IsRunning c → ∀ d, .touch d ∈ steps → TransGen (Calls classes) c d)
    (hst : FinishesFirst st.log) : FinishesFirst st'.log := by
  induction h with
  | done => exact hst
  | set _ ih => exact ih (fun c hc d hd => hrunning c hc d (List.mem_cons_of_mem _ hd)) hst
  | add _ ih => exact ih (fun c hc d hd => hrunning c hc d (List.mem_cons_of_mem _ hd)) hst
  | @again c rest st st' hflag hrest ih =>
    -- were the class still running, it would call itself
    have hover : .touched c false true ∈ st.log := by
      refine Decidable.by_contra fun hlog => ?_
      exact hacyclic c (hrunning c ⟨hflag, hlog⟩ c List.mem_cons_self)
    have hrunning' : ∀ x, (st.note (.touched c true false)).IsRunning x → st.IsRunning x :=
      fun x hx => ⟨hx.1, fun hin => hx.2 (List.mem_append_left _ hin)⟩
    refine ih (fun x hx d hd => hrunning x (hrunning' x hx) d (List.mem_cons_of_mem _ hd)) (hst.concat ?_)
    rintro d flag ran ⟨⟩
    exact List.mem_append_left _ hover
  | @first c rest st mid st' hflag hinit hrest ihinit ihrest =>
    -- while the initializer runs, what was running before calls this class and so all that it calls
    have hmid : FinishesFirst mid.log := by
      refine ihinit (fun x hx d hd => ?_) (hst.concat fun _ _ _ hevent => nomatch hevent)
      rcases List.mem_append.1 hx.1 with hold | hself
      · exact (hrunning x ⟨hold, fun hin => hx.2 (List.mem_append_left _ hin)⟩ c List.mem_cons_self).tail hd
      · rw [List.mem_singleton.1 hself]
        exact .single hd
    have hover := (Explores.first hflag hinit.explores).running
    refine ihrest (fun x hx d hd => hrunning x (hover x hx) d (List.mem_cons_of_mem _ hd)) (hmid.concat ?_)
    rintro d flag ran ⟨⟩
    exact List.mem_append_right _ List.mem_cons_self

/-- Every routine sets its flag before it does anything and does nothing once it is set.  So any calls return, however
deep the calls of initializers may nest; each initializer starts and ends once if its class is reached through calls
and never otherwise; and without cycles a call is over only when the initializer of its class is. -/
theorem initializers_run_once (classes : Initializers) (steps : List InitStep) :
    (∀ s : Target.Statics, ∃ front lines,
      s.code = front ++ .block s!"static public function {Target.initRoutine}():Void" (.lines lines) ∧
        ∀ flag, Target.routineEffects flag lines =
          if flag then [] else s.assignments.map fun line => (true, line)) ∧
    ∃ st, runInitializers classes steps = some st ∧
      (∀ fuel, classes.length < fuel → runSteps classes fuel steps {} = some st) ∧
      (∀ c, st.log.count (.enter c) = if c ∈ st.initialized then 1 else 0) ∧
      (∀ c ∈ st.initialized, .touched c false true ∈ st.log) ∧
      (∀ c, c ∈ st.initialized ↔ ∃ root, .touch root ∈ steps ∧ ReflTransGen (Calls classes) root c) ∧
      ((∀ c, ¬TransGen (Calls classes) c c) → FinishesFirst st.log) := by
  obtain ⟨st, hst⟩ := exists_performs classes steps {}
  have hfuel : ∀ fuel, classes.length < fuel → runSteps classes fuel steps {} = some st :=
    fun fuel hlt => hst.runSteps_eq (Nat.lt_of_le_of_lt List.countP_le_length hlt)
  have hexplores := hst.explores
  obtain ⟨hnodup, hcount⟩ := hexplores.faithful ⟨List.Pairwise.nil, fun _ => rfl⟩
  refine ⟨Target.Statics.exists_routine, st, hfuel _ (Nat.lt_succ_self _), hfuel, ?_, ?_,
    hexplores.mem_initialized_iff, ?_⟩
  · intro c
    rw [hcount c, hnodup.count]
  · intro c hc
    refine Decidable.by_contra fun hlog => ?_
    exact List.not_mem_nil (hexplores.running c ⟨hc, hlog⟩).1
  · intro hacyclic
    refine hst.finishesFirst hacyclic (fun c hc => absurd hc.1 List.not_mem_nil) ?_
    intro before d flag ran hprefix
    exact absurd (List.prefix_nil.1 hprefix) (by simp)

end HaxeBackend.Support
