import HaxeBackend.Proofs.Generation.Uses
import HaxeBackend.Proofs.Lowering.Variables
import HaxeBackend.Proofs.Target.Heads

/-!
# Variables that hide references

A reference that starts with the name of a variable of its function does not reach the class that it is meant for.
The names of variables are made without a look at these references, and `variables_apart_iff` says for every function
when no variable hides one: no parameter or local of the source is called like a support class that is called, and none
gets the name that the references to a generated class start with.
-/

namespace HaxeBackend.Generation

open Naming (escapeMember generated headWord staticHolder IsNumbered)
open Target (caughtSlot supportClasses)

variable {env : Env} {c : ClassModel} {u : Target.SourceUnit} {x : MethodSite × Method} {f : Target.Function}

/-! ### Variables -/

/-- The names that the variables of a function have in the source: a body that is not translated declares none. -/
def sourceVariables (m : Method) : Target.FunctionBody → List Name
  | .lowered .. => m.params.map Param.name ++ m.body.elim [] fun b => b.locals.toList.map LocalVar.name
  | .given _ | .missing .. | .errored .. => m.params.map Param.name

private theorem GeneratedFor.mem_params_iff (h : GeneratedFor env x f) {name : String} :
    name ∈ f.signature.params.map Prod.fst ↔ name ∈ (Lowering.paramNames x.2).map Prod.fst := by
  rw [h.signature_eq, signatureOf]
  simp [tagged]

/-- Which names the variables of a function have. -/
private theorem GeneratedFor.mem_vars_iff (h : GeneratedFor env x f) {word : String} (hword : ¬IsNumbered word)
    (hslot : word ≠ caughtSlot) :
    word ∈ f.vars ↔ (∃ name ∈ sourceVariables x.2 f.body, escapeMember name = word) ∨ word ∈ f.body.innerVars := by
  rw [Target.Function.vars, List.mem_append, List.mem_append, h.mem_params_iff]
  refine or_congr_left ?_
  cases hbody : f.body with
  | lowered b returnsThis =>
    obtain ⟨body, unit, hsome, hlowered⟩ := h.exists_lowerBody hbody
    have hslot' : word ∉ (if b.catches then [Target.caughtDecl] else []).map Target.VarDecl.name := by
      split
      · simpa [Target.caughtDecl] using hslot
      · exact List.not_mem_nil
    rw [sourceVariables, hsome, Option.elim_some, ← Lowering.mem_variables_iff (p := env.program) hword,
      Target.FunctionBody.locals, Target.Body.decls, (Lowering.decls_of_lowerBody hlowered).1, List.map_append,
      List.mem_append, or_iff_left hslot']
    rfl
  | given | missing | errored =>
    have hparams := Lowering.mem_variables_iff (p := env.program) hword x.2 []
    simpa [sourceVariables, Target.FunctionBody.locals, Lowering.declareLocals] using hparams

/-! ### References -/

/-- The name of an existing target type that a class stands for. -/
def Foreign (p : Program) (holder : String) : Prop := ∃ c ∈ p.classes, c.nativeName = some holder

/-- References to a class that is generated start as its name does, those to the statics of an interface as well. -/
private theorem headWord_staticHolder {p : Program} {source : Name} (h : ¬Foreign p (staticHolder p source)) :
    headWord (staticHolder p source) = headWord (generated source) := by
  unfold staticHolder at h ⊢
  split at h
  · rw [if_pos ‹_›]
    exact Naming.headWord_companion source .staticHolder
  · rw [if_neg ‹_›, Naming.qualified]
    cases hnative : (p.find? source).bind ClassModel.nativeName with
    | none => rfl
    | some native =>
      obtain ⟨c, hc, hname⟩ := Option.bind_eq_some_iff.1 hnative
      refine absurd ⟨c, (Program.mem_of_find? hc).1, ?_⟩ h
      rw [Naming.qualified, hnative, hname]
      rfl

/-- What references start with. -/
private theorem mem_heads_cases (hknown : ∀ use ∈ f.body.classUses, Lowering.Known env.program use) {word : String}
    (h : word ∈ f.heads) :
    word ∈ supportClasses ∨
      ∃ source, staticHolder env.program source ∈ f.body.holders ∧
        word = headWord (staticHolder env.program source) := by
  rcases List.mem_append.1 h with h | h
  · exact .inl (f.body.supportCalls_subset word h)
  · obtain ⟨holder, hholder, rfl⟩ := List.mem_map.1 h
    obtain ⟨use, huse, heq⟩ := List.mem_filterMap.1 hholder
    have hsound := hknown use huse
    cases use with
    | access name =>
      cases heq
      rcases hsound with rfl | ⟨source, rfl⟩
      · exact .inl (by decide)
      · exact .inr ⟨source, hholder, rfl⟩
    | guard name =>
      cases heq
      obtain ⟨source, -, rfl⟩ := hsound
      exact .inr ⟨source, hholder, rfl⟩
    | construct | adapter => cases heq

/-- A variable has the name of a support class only by its own name. -/
private theorem escapeMember_eq_support {word : String} (h : word ∈ supportClasses) {name : Name} :
    escapeMember name = word ↔ name = word := by
  have hall : ∀ word ∈ supportClasses, word.toList.all Naming.isAsciiAlnum = true ∧
      Naming.needsMark word.toList = false ∧ Naming.isReserved word.toList = false := by decide
  obtain ⟨halnum, hmark, hreserved⟩ := hall word h
  exact Naming.escapeMember_eq_iff (List.all_eq_true.1 halnum) hmark hreserved

private theorem not_isNumbered_support {word : String} (h : word ∈ supportClasses) :
    ¬IsNumbered word ∧ word ≠ caughtSlot := by
  have hall : ∀ word ∈ supportClasses, '_' ∉ word.toList ∧ word ≠ caughtSlot := by decide
  exact ⟨Naming.not_isNumbered_of_not_mem (hall word h).1, (hall word h).2⟩

private theorem not_isNumbered_generated (source : Name) :
    ¬IsNumbered (headWord (generated source)) ∧ headWord (generated source) ≠ caughtSlot := by
  refine ⟨Naming.not_isNumbered_head source, fun h => Naming.head?_headWord_ne source ?_⟩
  rw [h]
  decide

/-- No variable of a function hides a reference exactly when no variable of the source has the name of a support class
that is called or gets the name that a generated class starts with, as far as no target type and no inner variable is
concerned. -/
theorem variables_apart_iff (hc : c ∈ env.program.classes) (h : unit? env c = some u)
    (hf : (x, f) ∈ (translated env.program c).zip u.functions) :
    (∀ name ∈ f.vars, name ∉ f.heads) ↔
      (∀ name ∈ sourceVariables x.2 f.body, name ∈ supportClasses → name ∉ f.heads) ∧
      (∀ source, staticHolder env.program source ∈ f.body.holders →
        ¬Foreign env.program (staticHolder env.program source) →
        ∀ name ∈ sourceVariables x.2 f.body, escapeMember name ≠ headWord (generated source)) ∧
      (∀ holder ∈ f.body.holders, Foreign env.program holder → headWord holder ∉ f.vars) ∧
      ∀ name ∈ f.body.innerVars, name ∉ f.heads := by
  have hgenerated := (List.forall₂_iff_zip.1 (forall₂_translated h)).2 hf
  have hknown := known_of_mem_functions hc h f (List.of_mem_zip hf).2
  have hhead : ∀ holder ∈ f.body.holders, headWord holder ∈ f.heads := fun holder hholder =>
    List.mem_append_right _ (List.mem_map_of_mem hholder)
  constructor
  · intro hapart
    refine ⟨fun name hname hsupport hheads => ?_, fun source hholder hforeign name hname heq => ?_,
      fun holder hholder _ hvar => hapart _ hvar (hhead holder hholder),
      fun name hname => hapart name (List.mem_append_right _ hname)⟩
    · obtain ⟨hnumbered, hslot⟩ := not_isNumbered_support hsupport
      exact hapart name ((hgenerated.mem_vars_iff hnumbered hslot).2
        (.inl ⟨name, hname, (escapeMember_eq_support hsupport).2 rfl⟩)) hheads
    · obtain ⟨hnumbered, hslot⟩ := not_isNumbered_generated source
      refine hapart _ ((hgenerated.mem_vars_iff hnumbered hslot).2 (.inl ⟨name, hname, heq⟩)) ?_
      rw [← headWord_staticHolder hforeign]
      exact hhead _ hholder
  · rintro ⟨hsupport, hholders, hforeign, hinner⟩ word hvar hheads
    -- what stands in front of a reference is a support class or what a static holder starts with
    rcases mem_heads_cases hknown hheads with hclass | ⟨source, hholder, rfl⟩
    · obtain ⟨hnumbered, hslot⟩ := not_isNumbered_support hclass
      rcases (hgenerated.mem_vars_iff hnumbered hslot).1 hvar with ⟨name, hname, heq⟩ | hparam
      · obtain rfl := (escapeMember_eq_support hclass).1 heq
        exact hsupport name hname hclass hheads
      · exact hinner word hparam hheads
    · by_cases hnative : Foreign env.program (staticHolder env.program source)
      · exact hforeign _ hholder hnative hvar
      · obtain ⟨hnumbered, hslot⟩ := not_isNumbered_generated source
        have hsame := headWord_staticHolder hnative
        rw [hsame] at hvar
        rcases (hgenerated.mem_vars_iff hnumbered hslot).1 hvar with ⟨name, hname, heq⟩ | hparam
        · exact hholders source hholder hnative name hname heq
        · exact hinner _ hparam (hsame ▸ hheads)

/-- A class with a static method that returns a number. -/
private def numberClass (name : Name) (id : Nat) (m : Name) (params : List Param) (body : Body) : ClassModel :=
  bareClass name .plain none []
    [{ bareMethod id m ⟨0x0009⟩ (some body) with params := params, ret := .prim .int }]

private def configClass : ClassModel :=
  let body : Body :=
    { exprs := #[⟨.literal (.int 2), .prim .int⟩]
      stmts := #[.ret (some 0)]
      stmtLists := #[0]
      root := ⟨0, 1⟩ }
  numberClass "app.Config" 1 "base" [] body

/-- Multiplies the number of the other class by a parameter of this name. -/
private def scaleClass (param : Name) : ClassModel :=
  let body : Body :=
    { exprs := #[⟨.call .static ⟨"app.Config", "base", ⟨[], .prim .int⟩⟩ ⟨0, 0⟩ false, .prim .int⟩,
        ⟨.readLocal 0, .prim .int⟩, ⟨.binary .mul 0 1, .prim .int⟩]
      stmts := #[.ret (some 2)]
      stmtLists := #[0]
      locals := #[⟨param, .prim .int⟩]
      root := ⟨0, 1⟩ }
  numberClass "app.Scale" 2 "scale" [⟨param, .prim .int⟩] body

private def scaleEnv (param : Name) : Env where
  program := ⟨[configClass, scaleClass param], show ["app.Config", "app.Scale"].Nodup by decide⟩
  options := { reflection := false }

/-- The parameter is the head of a reference in the function that it belongs to. -/
private def Hides (param : Name) : Prop :=
  ∃ u f, unit? (scaleEnv param) (scaleClass param) = some u ∧ f ∈ u.functions ∧ param ∈ f.vars ∧ param ∈ f.heads

private theorem hides_of_names {param : Name} {vars heads : List String}
    (h : (unit? (scaleEnv param) (scaleClass param)).map (fun u => u.functions.map fun f => (f.vars, f.heads)) =
      some [(vars, heads)]) (hvars : param ∈ vars) (hheads : param ∈ heads) : Hides param := by
  obtain ⟨u, hu, hfunctions⟩ := Option.map_eq_some_iff.1 h
  obtain ⟨f, hf, heq⟩ := List.mem_map.1 (hfunctions ▸ List.mem_singleton_self _)
  obtain ⟨rfl, rfl⟩ := Prod.mk.inj heq
  exact ⟨u, f, hu, hf, hvars, hheads⟩

/-- A parameter that is called like the support class, or like the package of the other class, hides it. -/
theorem variables_hide_scale : Hides "N" ∧ Hides "app" := by
  have hN : (unit? (scaleEnv "N") (scaleClass "N")).map (fun u => u.functions.map fun f => (f.vars, f.heads)) =
      some [(["N"], ["N", "app", "app"])] := by with_unfolding_all rfl
  have happ : (unit? (scaleEnv "app") (scaleClass "app")).map (fun u => u.functions.map fun f => (f.vars, f.heads)) =
      some [(["app"], ["N", "app", "app"])] := by with_unfolding_all rfl
  exact ⟨hides_of_names hN (by decide) (by decide), hides_of_names happ (by decide) (by decide)⟩

/-- A parameter with a name of its own leaves both references alone. -/
theorem variables_apart_iff_scale :
    ∃ u x f, unit? (scaleEnv "factor") (scaleClass "factor") = some u ∧
      (x, f) ∈ (translated (scaleEnv "factor").program (scaleClass "factor")).zip u.functions ∧
      f.heads = ["N", "app", "app"] ∧ ∀ name ∈ f.vars, name ∉ f.heads := by
  have hparts : (unit? (scaleEnv "factor") (scaleClass "factor")).map (fun u =>
      ((translated (scaleEnv "factor").program (scaleClass "factor")).zip u.functions).map fun y =>
        (sourceVariables y.1.2 y.2.body, y.2.heads, y.2.body.holders, y.2.body.innerVars)) =
      some [(["factor", "factor"], ["N", "app", "app"], ["app.Config", "app.Config"], [])] := by
    with_unfolding_all rfl
  have hnative : ∀ holder, ¬Foreign (scaleEnv "factor").program holder := by
    rintro holder ⟨c, hc, hname⟩
    rcases List.mem_cons.1 hc with rfl | hc
    · cases hname
    · obtain rfl := List.mem_singleton.1 hc
      cases hname
  obtain ⟨u, hu, hfunctions⟩ := Option.map_eq_some_iff.1 hparts
  obtain ⟨⟨x, f⟩, hf, heq⟩ := List.mem_map.1 (hfunctions ▸ List.mem_singleton_self _)
  simp only [Prod.mk.injEq] at heq
  obtain ⟨hvars, hheads, hholders, hinner⟩ := heq
  have hmem : scaleClass "factor" ∈ (scaleEnv "factor").program.classes := List.mem_cons_of_mem _ List.mem_cons_self
  refine ⟨u, x, f, hu, hf, hheads, (variables_apart_iff hmem hu hf).2 ⟨?_, ?_, ?_, ?_⟩⟩
  · rw [hvars, hheads]
    decide
  · intro source hholder hforeign
    have happ : headWord (generated source) = "app" := by
      rw [← headWord_staticHolder hforeign]
      rw [hholders, List.mem_cons, List.mem_singleton, or_self_iff] at hholder
      rw [hholder]
      decide
    rw [hvars, happ]
    decide
  · exact fun holder _ hforeign => absurd hforeign (hnative holder)
  · rw [hinner]
    exact fun _ h => absurd h List.not_mem_nil

end HaxeBackend.Generation
