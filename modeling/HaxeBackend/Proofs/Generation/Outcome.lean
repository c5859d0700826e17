import HaxeBackend.Proofs.Generation.Functions
import HaxeBackend.Proofs.Generation.Literals
import HaxeBackend.Proofs.Lowering.Failure
import HaxeBackend.Proofs.Naming.Words
import HaxeBackend.Proofs.Target.Declarations

/-!
# Outcomes of a run

Every step of generation reports warnings only, and the stubs it makes are counted by their warnings; it fails with
nothing but a reference that leads nowhere (`Reports`).  From this every class has one of three outcomes: it stands for
a target type and is silent, it fails with one error behind its warnings, or it has a unit (`Classified`).
-/

namespace HaxeBackend

/-- The body is the stub of a method that could not be generated. -/
def Target.FunctionBody.isErrored : Target.FunctionBody → Bool
  | .errored .. => true
  | .given _ | .lowered .. | .missing .. => false

/-- The number of functions whose body is a stub. -/
def Target.stubCount (functions : List Target.Function) : Nat := functions.countP fun f => f.body.isErrored

theorem Target.stubCount_append (fs gs : List Target.Function) :
    Target.stubCount (fs ++ gs) = Target.stubCount fs + Target.stubCount gs := List.countP_append

/-- The number of warnings about methods that were replaced by a stub. -/
def Diagnostic.stubCount (diagnostics : List Diagnostic) : Nat := diagnostics.countP fun d => d.code == .w1001

namespace Generation

variable {α β : Type} {env : Env} {p : Program} {c : ClassModel} {m : Method} {site : MethodSite} {x : GenM α}

/-! ### Steps -/

/-- The step adds warnings, fails with an unresolved reference only, and its result and the number of the stub warnings
are like this. -/
private def Reports (x : GenM α) (Q : α → Nat → Prop) : Prop :=
  ∀ st, ∃ added, (x.run.run st).2.diagnostics = st.diagnostics ++ added ∧ (∀ d ∈ added, d.isWarning = true) ∧
    match (x.run.run st).1 with
    | .ok a => Q a (Diagnostic.stubCount added)
    | .error e => e.IsUnresolved

/-- A step without stubs. -/
private abbrev Quiet (x : GenM α) (Q : α → Prop) : Prop := Reports x fun a n => Q a ∧ n = 0

private theorem Reports.bind {f : α → GenM β} {Q : α → Nat → Prop} {R : β → Nat → Prop} (hx : Reports x Q)
    (hf : ∀ a n, Q a n → Reports (f a) fun b k => R b (n + k)) : Reports (x >>= f) R := by
  intro st
  obtain ⟨added, hadded, hwarnings, hresult⟩ := hx st
  rw [run_bind]
  generalize x.run.run st = r at hadded hresult
  obtain ⟨_ | a, mid⟩ := r
  · exact ⟨added, hadded, hwarnings, hresult⟩
  · obtain ⟨added', hadded', hwarnings', hresult'⟩ := hf a _ hresult mid
    refine ⟨added ++ added', ?_, List.forall_mem_append.2 ⟨hwarnings, hwarnings'⟩, ?_⟩
    · rw [← List.append_assoc, ← hadded]
      exact hadded'
    · rw [Diagnostic.stubCount, List.countP_append]
      exact hresult'

private theorem reports_pure {a : α} {Q : α → Nat → Prop} (h : Q a 0) : Reports (pure a) Q := fun _ =>
  ⟨[], (List.append_nil _).symm, fun _ hd => absurd hd List.not_mem_nil, h⟩

private theorem Reports.bind_pure {f : α → β} {Q : α → Nat → Prop} {R : β → Nat → Prop} (hx : Reports x Q)
    (hf : ∀ a n, Q a n → R (f a) n) : Reports (x >>= fun a => pure (f a)) R :=
  hx.bind fun a n ha => reports_pure (hf a n ha)

/-- Behind a step without stubs the count starts anew. -/
private theorem Reports.andThen {f : α → GenM β} {Q : α → Prop} {R : β → Nat → Prop} (hx : Quiet x Q)
    (hf : ∀ a, Q a → Reports (f a) R) : Reports (x >>= f) R := by
  refine hx.bind fun a n ha => ?_
  obtain ⟨ha, rfl⟩ := ha
  simpa only [Nat.zero_add] using hf a ha

/-- A step that leaves the diagnostics as they are. -/
private theorem quiet_modify {f : UnitState → UnitState} (h : ∀ st, (f st).diagnostics = st.diagnostics) :
    Quiet (modify f) fun _ => True := fun st =>
  ⟨[], (h st).trans (List.append_nil _).symm, fun _ hd => absurd hd List.not_mem_nil, trivial, rfl⟩

private theorem quiet_report {d : Diagnostic} (hwarning : d.isWarning = true) (hcode : d.code ≠ .w1001) :
    Quiet (report d) fun _ => True := fun st => by
  refine ⟨[d], rfl, List.forall_mem_singleton.2 hwarning, trivial, ?_⟩
  simpa [Diagnostic.stubCount] using hcode

private theorem quiet_ignoredMark (at_ : Location) (type : Name) :
    Quiet (report (.ignoredMark at_ type)) fun _ => True :=
  quiet_report rfl (by simp [Diagnostic.ignoredMark])

private theorem quiet_requireClass (name : Name) : Quiet (requireClass p name) fun _ => True := by
  unfold requireClass
  dsimp only
  split
  · exact quiet_modify fun _ => rfl
  · exact fun _ => ⟨[], (List.append_nil _).symm, fun _ hd => absurd hd List.not_mem_nil, .inl rfl⟩

private theorem quiet_requireClasses (names : List Name) : Quiet (requireClasses p names) fun _ => True := by
  induction names with
  | nil => exact reports_pure ⟨trivial, rfl⟩
  | cons name names ih => exact (quiet_requireClass name).andThen fun _ _ => ih

/-! ### Methods -/

/-- The annotations that give bodies, alone or in a list. -/
def givenUses (m : Method) : List AnnotationUse :=
  let listed := (findUse? m.annotations Target.methodBodyListMark).bind fun list =>
    (list.get? "value").bind AnnotationValue.items?
  usesOf m.annotations Target.methodBodyMark ++ (listed.getD []).filterMap AnnotationUse.ofValue?

/-- Whether an annotation gives the text of the body, which is then not translated. -/
def isGiven (m : Method) : Bool :=
  (givenUses m).any fun use => ((use.get? "value").bind AnnotationValue.text?).isSome

private theorem quiet_bodyUses (m : Method) (at_ : Location) :
    Quiet (bodyUses m at_) fun uses => uses = givenUses m := by
  unfold bodyUses givenUses
  dsimp only
  cases findUse? m.annotations Target.methodBodyListMark with
  | none => exact reports_pure ⟨by simp, rfl⟩
  | some list =>
    dsimp only [Option.bind_some]
    cases (list.get? "value").bind AnnotationValue.items? with
    | some items => exact reports_pure ⟨rfl, rfl⟩
    | none => exact (quiet_ignoredMark _ _).andThen fun _ _ => reports_pure ⟨by simp, rfl⟩

private theorem quiet_givenBodies (at_ : Location) (uses : List AnnotationUse) :
    Quiet (givenBodies at_ uses) fun bodies =>
      bodies.isEmpty = !uses.any fun use => ((use.get? "value").bind AnnotationValue.text?).isSome := by
  induction uses with
  | nil => exact reports_pure ⟨rfl, rfl⟩
  | cons use uses ih =>
    rw [givenBodies, List.any_cons]
    cases (use.get? "value").bind AnnotationValue.text? with
    | some text => exact ih.bind_pure fun _ _ h => ⟨rfl, h.2⟩
    | none => exact (quiet_ignoredMark _ _).andThen fun _ _ => ih

private theorem quiet_givenText? (m : Method) (at_ : Location) :
    Quiet (givenText? m at_) fun text => text.isSome = isGiven m := by
  unfold givenText?
  refine (quiet_bodyUses m at_).andThen fun uses huses => (quiet_givenBodies at_ uses).andThen fun bodies hbodies => ?_
  rw [huses] at hbodies
  split
  · rename_i hempty
    rw [hempty] at hbodies
    exact reports_pure ⟨by rw [isGiven]; simpa using hbodies, rfl⟩
  · rename_i hempty
    rw [Bool.not_eq_true] at hempty
    rw [hempty] at hbodies
    exact reports_pure ⟨by rw [isGiven]; simpa using hbodies, rfl⟩

/-- The body of the method has to be translated and cannot be: this is the error, and it is not about a reference that
leads nowhere. -/
def FailsWith (env : Env) (x : MethodSite × Method) (e : GenError) : Prop :=
  ∃ body, x.2.body = some body ∧ isGiven x.2 = false ∧ e.isFatal = false ∧
    ∀ unit, (Lowering.lowerBody env.program env.options (bodySite x.1 x.2) body unit).1 = .error e

def FailsMildly (env : Env) (x : MethodSite × Method) : Prop := ∃ e, FailsWith env x e

/-- A call of a method that could not be translated fails with the error. -/
def erroredLine (x : MethodSite × Method) (e : GenError) : String :=
  let report := s!"Errored method: {x.1.owner.name}.{x.2.name ++ x.2.type.descriptor} :: {e.message}"
  s!"throw {Target.reflectClass}.erroredMethod({Target.quote report});"

/-- A call of a method without a body fails with the number of the method. -/
def missingLine (x : MethodSite × Method) : String :=
  s!"throw {Target.reflectClass}.n({Target.quote x.1.owner.name}, {x.2.id});"

/-- The function is declared as the method says, and its body is a stub exactly when the translation fails mildly. -/
structure StubsFor (env : Env) (x : MethodSite × Method) (f : Target.Function) : Prop where
  signature : f.signature = signatureOf env.program x.1 x.2
  /-- The line of the declaration tells the target name of the method. -/
  declared : Target.functionHead? f.signature.text =
    some (f.signature.modifiers, Naming.method x.1.owner.name x.2)
  errored_iff : f.body.isErrored = true ↔ FailsMildly env x
  errored_code : ∀ e, FailsWith env x e → f.code = .block f.signature.text (.line (erroredLine x e))
  missing_code : x.2.body = none → isGiven x.2 = false → f.code = .block f.signature.text (.line (missingLine x))

theorem run_lowerMethodBody {body : Body} (st : UnitState) :
    (lowerMethodBody env site m body).run.run st =
      match Lowering.lowerBody env.program env.options (bodySite site m) body st with
      | (.ok lowered, unit) => (.ok (.lowered lowered (m.isConstructor && !body.endsInExit)), unit)
      | (.error e, unit) =>
        if e.isFatal then (.error e, unit)
        else
          (.ok (.errored site.owner.name (m.name ++ m.type.descriptor) e.message),
            { unit with
              diagnostics := unit.diagnostics ++ [.erroredMethod (memberLocation site.owner m) e.message] }) := by
  have hget : (get : GenM UnitState).run.run st = (.ok st, st) := rfl
  unfold lowerMethodBody bodySite
  rw [run_bind, hget]
  dsimp only
  rcases Lowering.lowerBody env.program env.options ⟨Lowering.paramNames m, m.isConstructor, site.own, site.pool⟩ body st
    with ⟨e | lowered, unit⟩
  · dsimp only
    rw [run_bind]
    show ((if e.isFatal = true then _ else _ : GenM Target.FunctionBody).run).run unit = _
    split
    · rfl
    · rfl
  · rfl

/-- The stub of a function, as a number. -/
private def stubs (body : Target.FunctionBody) : Nat := if body.isErrored then 1 else 0

/-- The body of a function, as the method asks for it. -/
private structure BodyFor (env : Env) (x : MethodSite × Method) (b : Target.FunctionBody) : Prop where
  of_errored : b.isErrored = true → FailsMildly env x
  errored_eq : ∀ e, FailsWith env x e → b = .errored x.1.owner.name (x.2.name ++ x.2.type.descriptor) e.message
  missing_eq : x.2.body = none → isGiven x.2 = false → b = .missing x.1.owner.name x.2.id

private theorem reports_lowerMethodBody {body : Body} (hbody : m.body = some body) (hgiven : isGiven m = false) :
    Reports (lowerMethodBody env site m body) fun b n => BodyFor env (site, m) b ∧ n = stubs b := by
  have hmissing : ∀ {b : Target.FunctionBody}, m.body = none → isGiven m = false → b = .missing site.owner.name m.id :=
    fun hnone => by cases hbody.symm.trans hnone
  have herror : ∀ {unit : UnitState} {e : GenError}, FailsWith env (site, m) e →
      (Lowering.lowerBody env.program env.options (bodySite site m) body unit).1 = .error e := by
    rintro unit e ⟨body', hbody', -, -, hall⟩
    obtain rfl := Option.some_inj.1 (hbody.symm.trans hbody')
    exact hall unit
  intro st
  rw [run_lowerMethodBody]
  -- a fatal error ends the class, a mild one leaves a stub and one diagnostic
  rcases hlower : Lowering.lowerBody env.program env.options (bodySite site m) body st with ⟨e | lowered, unit⟩
  · have hresult : (Lowering.lowerBody env.program env.options (bodySite site m) body st).1 = .error e := by rw [hlower]
    have hkept : st.diagnostics = unit.diagnostics := congrArg (fun r => r.2.diagnostics) hlower
    by_cases hfatal : e.isFatal = true
    · refine ⟨[], ?_, fun _ hd => absurd hd List.not_mem_nil, ?_⟩
      · rw [List.append_nil, hkept]
        dsimp only
        rw [if_pos hfatal]
      · dsimp only
        rw [if_pos hfatal]
        exact Lowering.isUnresolved_of_lowerBody hresult hfatal
    · have hmild : e.isFatal = false := by simpa using hfatal
      refine ⟨[.erroredMethod (memberLocation site.owner m) e.message], ?_, List.forall_mem_singleton.2 rfl, ?_⟩
      · rw [hkept]
        dsimp only
        rw [if_neg hfatal]
      · dsimp only
        rw [if_neg hfatal]
        refine ⟨⟨fun _ => ⟨e, body, hbody, hgiven, hmild, Lowering.lowerBody_fails_always hresult⟩, ?_, hmissing⟩, rfl⟩
        intro e' hfails
        obtain rfl := Except.error.inj (hresult.symm.trans (herror hfails))
        rfl
  · have hkept : st.diagnostics = unit.diagnostics := congrArg (fun r => r.2.diagnostics) hlower
    refine ⟨[], ?_, fun _ hd => absurd hd List.not_mem_nil, ⟨nofun, fun e hfails => ?_, hmissing⟩, rfl⟩
    · rw [List.append_nil, hkept]
    · have hresult := @herror st e hfails
      rw [hlower] at hresult
      cases hresult

private theorem reports_methodBody :
    Reports (methodBody env site m) fun b n => BodyFor env (site, m) b ∧ n = stubs b := by
  -- a method that is not translated has no stub
  have hother : ∀ {b : Target.FunctionBody}, (isGiven m = true ∨ m.body = none) →
      ∀ e, FailsWith env (site, m) e → b = .errored site.owner.name (m.name ++ m.type.descriptor) e.message := by
    rintro b hor e ⟨body, hbody, hgiven, -⟩
    rcases hor with h | h
    · exact absurd (hgiven.symm.trans h) Bool.false_ne_true
    · cases h.symm.trans hbody
  unfold methodBody
  refine (quiet_givenText? m _).andThen fun text htext => ?_
  split
  · have hgiven : isGiven m = true := htext.symm
    exact reports_pure ⟨⟨nofun, hother (.inl hgiven), fun _ h => absurd (h.symm.trans hgiven) Bool.false_ne_true⟩, rfl⟩
  · rename_i body hbody
    exact reports_lowerMethodBody hbody htext.symm
  · rename_i hbody
    exact reports_pure ⟨⟨nofun, hother (.inr hbody), fun _ _ => rfl⟩, rfl⟩

private theorem stubsFor_of_bodyFor {x : MethodSite × Method} {body : Target.FunctionBody} (h : BodyFor env x body) :
    StubsFor env x ⟨signatureOf env.program x.1 x.2, body⟩ := by
  refine ⟨rfl, Target.Signature.functionHead?_text _ (Naming.paren_not_mem_method _ _), ⟨h.of_errored, ?_⟩, ?_, ?_⟩
  · rintro ⟨e, hfails⟩
    show body.isErrored = true
    rw [h.errored_eq e hfails]
    rfl
  · intro e hfails
    show Target.Code.block _ body.code = _
    rw [h.errored_eq e hfails]
    rfl
  · intro hbody hgiven
    show Target.Code.block _ body.code = _
    rw [h.missing_eq hbody hgiven]
    rfl

private theorem reports_method :
    Reports (method env site m) fun f n => StubsFor env (site, m) f ∧ n = Target.stubCount [f] := by
  refine reports_methodBody.bind_pure fun body n h => ⟨stubsFor_of_bodyFor h.1, ?_⟩
  rw [h.2, stubs, Target.stubCount, List.countP_singleton]

private theorem reports_methods (l : List (MethodSite × Method)) :
    Reports (methods env l) fun fs n => List.Forall₂ (StubsFor env) l fs ∧ n = Target.stubCount fs := by
  induction l with
  | nil => exact reports_pure ⟨.nil, rfl⟩
  | cons x l ih =>
    refine reports_method.bind fun f n hf => ih.bind_pure fun fs k hfs => ⟨.cons hf.1 hfs.1, ?_⟩
    rw [hf.2, hfs.2, ← Target.stubCount_append]
    rfl

/-! ### Companions and statics -/

private theorem reports_adapterMethod (c : ClassModel) (e : MethodEntry) :
    Reports (adapterMethod env c e) fun a n => n = Target.stubCount a.function?.toList := by
  unfold adapterMethod
  dsimp only
  split
  · exact reports_method.bind_pure fun f n hf => hf.2
  · exact reports_pure rfl

private theorem reports_adapterMethods (c : ClassModel) (entries : List MethodEntry) :
    Reports (adapterMethods env c entries) fun methods n =>
      n = Target.stubCount (methods.filterMap Target.AdapterMethod.function?) := by
  induction entries with
  | nil => exact reports_pure rfl
  | cons e entries ih =>
    refine (reports_adapterMethod c e).bind fun a n ha => ih.bind_pure fun methods k hmethods => ?_
    rw [ha, hmethods, ← Target.stubCount_append]
    cases a <;> rfl

private theorem reports_dispatchClass (c : ClassModel) :
    Reports (dispatchClass env c) fun d n => n = Target.stubCount d.functions := by
  have hadapter : Reports (adapterClass env c) fun a n => n = Target.stubCount a.functions := by
    unfold adapterClass
    dsimp only
    split
    · exact reports_pure rfl
    · exact (reports_adapterMethods c _).bind_pure fun methods n hmethods => hmethods
  unfold dispatchClass
  split
  · exact hadapter.bind_pure fun a n ha => ha
  · exact reports_pure rfl

private theorem quiet_classInfo (c : ClassModel) : Quiet (classInfo env c) fun _ => True := by
  intro st
  obtain ⟨info, st', dropped, hrun, -, hdropped, hall⟩ := exists_runs_classInfo env c st
  unfold Runs at hrun
  rw [hrun]
  refine ⟨dropped, hdropped, ?_, trivial, ?_⟩
  · intro d hd
    obtain ⟨at_, type, rfl⟩ := hall d hd
    rfl
  · refine List.countP_eq_zero.2 fun d hd => ?_
    obtain ⟨at_, type, rfl⟩ := hall d hd
    simp [Diagnostic.droppedUse]

private theorem quiet_markLines (c : ClassModel) (type : Name) : Quiet (markLines c type) fun _ => True := by
  unfold markLines
  split
  · exact reports_pure ⟨trivial, rfl⟩
  · split
    · exact reports_pure ⟨trivial, rfl⟩
    · exact (quiet_ignoredMark _ _).andThen fun _ _ => reports_pure ⟨trivial, rfl⟩

private theorem quiet_unitHeader (c : ClassModel) : Quiet (unitHeader c) fun _ => True :=
  (quiet_markLines c _).andThen fun _ _ => (quiet_markLines c _).andThen fun _ _ =>
    (quiet_markLines c _).andThen fun _ _ => reports_pure ⟨trivial, rfl⟩

private theorem quiet_poolConstants (c : ClassModel) (fields : List Field) :
    Quiet (poolConstants p c fields) fun _ => True := by
  induction fields with
  | nil => exact reports_pure ⟨trivial, rfl⟩
  | cons f fields ih =>
    rw [poolConstants]
    split
    · exact ih
    · rename_i text _
      intro st
      have hrest : Quiet (do
          return (Naming.field p c.name f.name, (st.literals.intern text).1) :: (← poolConstants p c fields))
          fun _ => True :=
        ih.bind_pure fun _ _ h => ⟨trivial, h.2⟩
      exact hrest { st with literals := (st.literals.intern text).2 }

private theorem quiet_statics (c : ClassModel) : Quiet (statics p c) fun _ => True :=
  (quiet_poolConstants c _).andThen fun _ _ _ =>
    ⟨[], (List.append_nil _).symm, fun _ hd => absurd hd List.not_mem_nil, trivial, rfl⟩

/-! ### Units -/

private theorem reports_classUnit (c : ClassModel) :
    Reports (classUnit env c) fun u n =>
      List.Forall₂ (StubsFor env) (classMethods env.program c) u.functions ∧ n = Target.stubCount u.functions := by
  unfold classUnit
  refine (quiet_requireClasses _).andThen fun _ _ => (quiet_requireClasses _).andThen fun _ _ =>
    (reports_methods _).bind fun functions n hfunctions => (quiet_classInfo c).andThen fun _ _ =>
    (quiet_unitHeader c).andThen fun _ _ => (quiet_markLines c _).andThen fun _ _ => (quiet_statics c).andThen fun _ _ =>
    reports_pure hfunctions

private theorem reports_interfaceUnit (c : ClassModel) :
    Reports (interfaceUnit env c) fun u n => n = Target.stubCount (u.functions ++ u.dispatch.functions) := by
  unfold interfaceUnit
  refine (quiet_requireClasses _).andThen fun _ _ => (reports_methods _).bind fun functions n hfunctions =>
    (reports_dispatchClass c).bind fun dispatch k hdispatch => (quiet_classInfo c).andThen fun _ _ =>
    (quiet_unitHeader c).andThen fun _ _ => (quiet_statics c).andThen fun _ _ => reports_pure ?_
  rw [hfunctions.2, hdispatch, Target.stubCount_append]
  rfl

/-- A unit has as many stubs as it has warnings about them, and for a class each method has its function. -/
private theorem reports_sourceUnit (env : Env) (c : ClassModel) :
    Reports (sourceUnit env c) fun u n => n = Target.stubCount u.functions ∧
      (c.isInterface = false → List.Forall₂ (StubsFor env) (classMethods env.program c) u.functions) := by
  unfold sourceUnit
  split
  · rename_i hinterface
    refine (reports_interfaceUnit c).bind_pure fun u n hu => ⟨hu, fun hclass => ?_⟩
    cases hclass.symm.trans hinterface
  · exact (reports_classUnit c).bind_pure fun u n hu => ⟨hu.2, fun _ => hu.1⟩

/-! ### Classes and programs -/

/-- What the output of a class says about how its generation went. -/
structure Classified (env : Env) (c : ClassModel) (out : ClassOutput) : Prop where
  /-- A class that is generated has no unit exactly when it has an error. -/
  fails_iff : out.unit = none ∧ c.isNative = false ↔ out.hasErrors = true
  /-- The only error stands behind the warnings and is about a reference. -/
  of_failed : out.hasErrors = true →
    ∃ warnings d, out.diagnostics = warnings ++ [d] ∧ (∀ w ∈ warnings, w.isWarning = true) ∧ d.isError = true ∧
      (d.code = .e1001 ∨ d.code = .e1002 ∨ d.code = .e1003)
  /-- A class that stands for a target type is silent. -/
  of_native : c.isNative = true → out.unit = none ∧ out.diagnostics = []
  /-- With a unit there are only warnings, one of them for each stub, and each method of a class has its function.  The
  functions stand in the text of the unit. -/
  of_unit : ∀ generated, out.unit = some generated →
    ∃ u, unit? env c = some u ∧ generated = generatedUnit env c u ∧ (∀ d ∈ out.diagnostics, d.isWarning = true) ∧
      Diagnostic.stubCount out.diagnostics = Target.stubCount u.functions ∧
      (c.isInterface = false → List.Forall₂ (StubsFor env) (classMethods env.program c) u.functions) ∧
      Target.StandIn (u.functions.map Target.Function.code) generated.text

private theorem isError_of_isWarning {d : Diagnostic} (h : d.isWarning = true) : d.isError = false := by
  rw [Diagnostic.isWarning, beq_iff_eq] at h
  rw [Diagnostic.isError, h]
  rfl

private theorem any_isError {diagnostics : List Diagnostic} (h : ∀ d ∈ diagnostics, d.isWarning = true) :
    diagnostics.any Diagnostic.isError = false :=
  List.any_eq_false.2 fun d hd => Bool.eq_false_iff.1 (isError_of_isWarning (h d hd))

private theorem isError_diagnostic (e : GenError) (at_ : Location) :
    (e.diagnostic at_).isError = true ∧ (e.diagnostic at_).code = e.code := by
  cases e <;> exact ⟨rfl, rfl⟩

theorem classified_generateClass (env : Env) (c : ClassModel) : Classified env c (generateClass env c) := by
  cases hnative : c.isNative with
  | true =>
    have hout : generateClass env c = { className := c.name } := by rw [generateClass, if_pos hnative]
    rw [hout]
    exact ⟨⟨fun h => absurd (hnative.symm.trans h.2) (by decide), nofun⟩, nofun, fun _ => ⟨rfl, rfl⟩, nofun⟩
  | false =>
    obtain ⟨added, hadded, hwarnings, hresult⟩ := reports_sourceUnit env c {}
    have hunit : unit? env c = ((sourceUnit env c).run.run {}).1.toOption := by
      rw [unit?, hnative, if_neg Bool.false_ne_true]
    unfold generateClass
    rw [hnative, if_neg Bool.false_ne_true]
    generalize (sourceUnit env c).run.run {} = r at *
    obtain ⟨e | u, last⟩ := r
    · -- the error that ends the class is reported behind everything that was reported before
      obtain ⟨herror, hcode⟩ := isError_diagnostic e ⟨c.name, none⟩
      have hall : last.diagnostics = added := hadded
      have hfailed : (last.diagnostics ++ [e.diagnostic ⟨c.name, none⟩]).any Diagnostic.isError = true := by
        rw [List.any_append, List.any_cons, herror, Bool.true_or, Bool.or_true]
      refine ⟨⟨fun _ => hfailed, fun _ => ⟨rfl, hnative⟩⟩, fun _ => ?_,
        fun h => absurd (hnative.symm.trans h) (by decide), nofun⟩
      refine ⟨last.diagnostics, _, rfl, by rwa [hall], herror, ?_⟩
      rw [hcode]
      exact hresult
    · have hall : last.diagnostics = added := hadded
      have honly : ∀ d ∈ last.diagnostics, d.isWarning = true := by rwa [hall]
      have hquiet : last.diagnostics.any Diagnostic.isError = false := any_isError honly
      refine ⟨⟨fun h => absurd h.1 (by simp), fun h => absurd (hquiet.symm.trans h) (by decide)⟩,
        fun h => absurd (hquiet.symm.trans h) (by decide), fun h => absurd (hnative.symm.trans h) (by decide), ?_⟩
      rintro generated ⟨⟩
      have hfunctions : u.code.Holds (u.functions.map Target.Function.code) :=
        u.holds_code.sublist (List.sublist_cons_self _ _)
      exact ⟨u, hunit, rfl, honly, (congrArg Diagnostic.stubCount hall).trans hresult.1, hresult.2,
        standIn_generatedUnit hfunctions⟩

/-- How every class of a program fares, and that a run fails exactly when one of them does. -/
theorem outcomes_classified (env : Env) :
    List.Forall₂ (Classified env) env.program.classes (generateProgram env).classes ∧
    ((∃ reported, (generateProgram env).result = .error reported) ↔
      ∃ c ∈ env.program.classes, c.isNative = false ∧ (generateClass env c).unit = none) := by
  constructor
  · exact List.forall₂_map_right_iff.2 (List.forall₂_same.2 fun c _ => classified_generateClass env c)
  · have hresult : (∃ reported, (generateProgram env).result = .error reported) ↔
        0 < (generateProgram env).errorCount := by
      unfold ProgramOutput.result ErrorsReported.ofCount?
      constructor
      · rintro ⟨reported, h⟩
        by_contra hcount
        rw [if_neg hcount] at h
        cases h
      · intro hcount
        rw [if_pos hcount]
        exact ⟨{}, rfl⟩
    rw [hresult, ProgramOutput.errorCount, List.countP_pos_iff]
    constructor
    · rintro ⟨d, hd, herror⟩
      obtain ⟨out, hout, hd⟩ := List.mem_flatMap.1 hd
      obtain ⟨c, hc, rfl⟩ := List.mem_map.1 hout
      have hfails := (classified_generateClass env c).fails_iff.2 (List.any_eq_true.2 ⟨d, hd, herror⟩)
      exact ⟨c, hc, hfails.2, hfails.1⟩
    · rintro ⟨c, hc, hnative, hunit⟩
      obtain ⟨d, hd, herror⟩ := List.any_eq_true.1 ((classified_generateClass env c).fails_iff.1 ⟨hunit, hnative⟩)
      exact ⟨d, List.mem_flatMap.2 ⟨_, List.mem_map_of_mem hc, hd⟩, herror⟩

end Generation

end HaxeBackend
