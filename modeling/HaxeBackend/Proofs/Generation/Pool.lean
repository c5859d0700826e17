import HaxeBackend.Proofs.Generation.Turns
import HaxeBackend.Proofs.Generation.Uses
import HaxeBackend.Proofs.Lowering.Pool

/-!
# The literal pool of a unit

The pool of a unit is filled by the bodies that are translated into it, also by those that fail on the way, and then by
the constants of its fields.  Nothing else has to do with it, so it holds each text once in the order of first use
(`exists_pooled`).  Main result: what is declared and set is what is read, and a literal is read by the number of its
text (`literals_pooled`).
-/

namespace HaxeBackend.Generation

open Lowering (Covers refTo)

variable {α β : Type} {env : Env} {p : Program} {c : ClassModel} {u : Target.SourceUnit} {f : Target.Function}
  {x : GenM α} {seen : List Name} {st st' : UnitState}

/-! ### Methods -/

/-- The texts that the generation of a method pools: all of its body when that is translated, those up to the place
where the translation fails otherwise, and none when the body is not translated.  A translated body reads them by their
numbers. -/
def PoolsFor (env : Env) (pool : List Name) (xf : (MethodSite × Method) × Target.Function) (met : List Name) : Prop :=
  match xf.2.body with
  | .given _ | .missing .. => met = []
  | .errored .. => ∃ body, xf.1.2.body = some body ∧ met <+: body.tree.strings
  | .lowered b _ => ∃ body, xf.1.2.body = some body ∧ met = body.tree.strings ∧
      Covers b.stmts.poolRefs (met.map (refTo env.program xf.1.1.pool pool)) b.stmts.assignCount body.tree.assignCount

private theorem pools_method {x : MethodSite × Method} (h : Runs (method env x.1 x.2) st f st')
    (hseen : st.literals.texts = seen.eraseDups) :
    InTurn (fun st => st.literals.texts) (PoolsFor env) seen [(x, f)] st' := by
  obtain ⟨start, hliterals, -, hcases⟩ := method_cases h
  rw [← hliterals] at hseen
  obtain ⟨hbody, rfl⟩ | ⟨source, hsource, hlast, -, hcases⟩ := hcases
  · -- a body that is not translated leaves the pool as it is
    have hsame : st'.literals.texts = (seen ++ []).eraseDups := by rw [List.append_nil, hseen]
    refine .single hsame fun _ _ => ?_
    unfold PoolsFor
    obtain ⟨_, hbody⟩ | ⟨_, _, hbody⟩ := hbody <;> rw [hbody]
  · obtain ⟨met, hmet, htexts, hresult⟩ := Lowering.pools_lowerBody env.program env.options (bodySite x.1 x.2) source
      hseen
    rw [← hlast] at htexts
    refine .single htexts fun pool hpool => ?_
    unfold PoolsFor
    obtain ⟨_, _, _, hbody⟩ | ⟨b, _, hbody, hlowered⟩ := hcases <;> rw [hbody]
    · exact ⟨source, hsource, hmet⟩
    · obtain ⟨rfl, hcovers⟩ := hresult b hlowered
      exact ⟨source, hsource, rfl, hcovers pool (htexts ▸ hpool)⟩

/-! ### Constants of fields -/

/-- The fields that are set to a string when the class is initialized, with their texts. -/
def stringConstants (p : Program) (c : ClassModel) (fields : List Field) : List (String × Name) :=
  fields.filterMap fun field => (stringConstant? field).map fun text => (Naming.field p c.name field.name, text)

private theorem stringConstants_cons_none {field : Field} (h : stringConstant? field = none) (fields : List Field) :
    stringConstants p c (field :: fields) = stringConstants p c fields := by
  simp [stringConstants, h]

private theorem stringConstants_cons_some {field : Field} {text : Name} (h : stringConstant? field = some text)
    (fields : List Field) :
    stringConstants p c (field :: fields) =
      (Naming.field p c.name field.name, text) :: stringConstants p c fields := by
  simp [stringConstants, h]

private theorem pools_poolConstants {fields : List Field} {constants : List (String × Nat)}
    (h : Runs (poolConstants p c fields) st constants st') (hseen : st.literals.texts = seen.eraseDups) :
    st'.literals.texts = (seen ++ (stringConstants p c fields).map Prod.snd).eraseDups ∧
      ∀ pool, st'.literals.texts <+: pool →
        constants = (stringConstants p c fields).map fun constant => (constant.1, pool.idxOf constant.2) := by
  induction fields generalizing st constants seen with
  | nil =>
    obtain ⟨rfl, rfl⟩ := runs_pure.1 h
    exact ⟨by rw [hseen]; simp [stringConstants], fun _ _ => rfl⟩
  | cons field fields ih =>
    unfold poolConstants at h
    cases htext : stringConstant? field with
    | none =>
      rw [htext] at h
      rw [stringConstants_cons_none htext]
      exact ih h hseen
    | some text =>
      rw [htext] at h
      obtain ⟨_, _, hget, h⟩ := runs_bind.1 h
      obtain ⟨rfl, rfl⟩ := runs_get.1 hget
      obtain ⟨_, mid, hset, h⟩ := runs_bind.1 h
      obtain rfl := runs_set.1 hset
      obtain ⟨rest, _, hrest, h⟩ := runs_bind.1 h
      obtain ⟨rfl, rfl⟩ := runs_pure.1 h
      have htexts := LiteralPool.texts_intern hseen text
      obtain ⟨hlast, hconstants⟩ := ih hrest htexts
      rw [stringConstants_cons_some htext, List.map_cons]
      refine ⟨hlast.trans (by rw [List.append_assoc]; rfl), fun pool hpool => ?_⟩
      -- what is pooled for the fields behind keeps the number of this text
      have hbefore : (st.literals.intern text).2.texts <+: pool := by
        refine List.IsPrefix.trans ?_ hpool
        rw [htexts, hlast]
        exact eraseDups_prefix_append _ _
      rw [List.map_cons, ← hconstants pool hpool, ← LiteralPool.intern_eq_idxOf hseen hbefore]
      rfl

private theorem pools_statics {s : Target.Statics} (h : Runs (statics p c) st s st')
    (hseen : st.literals.texts = seen.eraseDups) :
    s.literals = (seen ++ (stringConstants p c (visibleFields c)).map Prod.snd).eraseDups ∧
      s.constants = (stringConstants p c (visibleFields c)).map fun constant =>
        (constant.1, s.literals.idxOf constant.2) := by
  unfold statics at h
  obtain ⟨constants, mid, hconstants, h⟩ := runs_bind.1 h
  obtain ⟨_, _, hget, h⟩ := runs_bind.1 h
  obtain ⟨rfl, rfl⟩ := runs_get.1 hget
  obtain ⟨rfl, rfl⟩ := runs_pure.1 h
  obtain ⟨htexts, hplaces⟩ := pools_poolConstants hconstants hseen
  exact ⟨htexts, hplaces _ (List.prefix_refl _)⟩

/-! ### Units -/

private theorem literals_requireClasses {names : List Name} {u : Unit} (h : Runs (requireClasses p names) st u st') :
    st'.literals = st.literals := by
  induction names generalizing st with
  | nil => rw [(runs_pure.1 h).2]
  | cons name names ih =>
    obtain ⟨_, mid, hrequire, h⟩ := runs_bind.1 h
    rw [ih h]
    unfold requireClass at hrequire
    dsimp only at hrequire
    split at hrequire
    · rw [runs_modify.1 hrequire]
    · exact absurd hrequire runs_throw

/-- How the pool of a unit is filled: its methods meet these texts, in the order of generation. -/
structure Pooled (env : Env) (c : ClassModel) (u : Target.SourceUnit) (met : List (List Name)) : Prop where
  /-- Each method pools the literals of its body, and its function reads a literal by the number of its text. -/
  methods : List.Forall₂ (PoolsFor env u.statics.literals) ((translated env.program c).zip u.functions) met
  /-- The texts are numbered in the order of first use, those of constants last. -/
  literals : u.statics.literals =
    (met.flatten ++ (stringConstants env.program c (visibleFields c)).map Prod.snd).eraseDups
  constants : u.statics.constants = (stringConstants env.program c (visibleFields c)).map fun constant =>
    (constant.1, u.statics.literals.idxOf constant.2)
  fields : u.fields = (visibleFields c).map (fieldDecl env.program c)

/-- The constants come last, so what the methods pool is in front of the whole pool. -/
private theorem exists_met {xfs : List ((MethodSite × Method) × Target.Function)} {s : Target.Statics}
    {last : UnitState} (h : InTurn (fun st => st.literals.texts) (PoolsFor env) [] xfs st)
    (hst : last.literals = st.literals) (hstatics : Runs (statics env.program c) last s st') :
    ∃ met, List.Forall₂ (PoolsFor env s.literals) xfs met ∧
      s.literals = (met.flatten ++ (stringConstants env.program c (visibleFields c)).map Prod.snd).eraseDups ∧
      s.constants = (stringConstants env.program c (visibleFields c)).map fun constant =>
        (constant.1, s.literals.idxOf constant.2) := by
  obtain ⟨met, htexts, hall⟩ := h
  rw [List.nil_append] at htexts
  obtain ⟨hliterals, hconstants⟩ := pools_statics hstatics ((congrArg LiteralPool.texts hst).trans htexts)
  refine ⟨met, hall _ ?_, hliterals, hconstants⟩
  rw [htexts, hliterals]
  exact eraseDups_prefix_append _ _

private theorem pooled_class {k : Target.ClassUnit} (hclass : c.isInterface = false)
    (h : Runs (classUnit env c) {} k st') : ∃ met, Pooled env c (.ofClass k) met := by
  have htranslated : translated env.program c = classMethods env.program c := by
    simp [translated, unitMethods, hclass]
  unfold classUnit at h
  obtain ⟨_, st₁, hsuper, h⟩ := runs_bind.1 h
  obtain ⟨_, st₂, hinterfaces, h⟩ := runs_bind.1 h
  obtain ⟨functions, st₃, hfunctions, h⟩ := runs_bind.1 h
  obtain ⟨info, st₄, hinfo, h⟩ := runs_bind.1 h
  obtain ⟨header, st₅, hheader, h⟩ := runs_bind.1 h
  obtain ⟨added, st₆, hadded, h⟩ := runs_bind.1 h
  obtain ⟨s, st₇, hstatics, h⟩ := runs_bind.1 h
  obtain ⟨rfl, -⟩ := runs_pure.1 h
  have hempty : st₂.literals.texts = ([] : List Name).eraseDups := by
    rw [literals_requireClasses hinterfaces, literals_requireClasses hsuper]
    rfl
  have hlast : st₆.literals = st₃.literals := by
    rw [(spares_markLines _ _ _ _ hadded).1, (spares_unitHeader _ _ _ hheader).1, (unpooled_classInfo hinfo).1]
  have hturn := inTurn_methods pools_method hfunctions hempty
  obtain ⟨met, hmethods, hliterals, hconstants⟩ := exists_met hturn hlast hstatics
  refine ⟨met, ?_, hliterals, hconstants, rfl⟩
  rw [htranslated]
  exact hmethods

private theorem pooled_interface {i : Target.InterfaceUnit} (hinterface : c.isInterface = true)
    (h : Runs (interfaceUnit env c) {} i st') : ∃ met, Pooled env c (.ofInterface i) met := by
  have htranslated : translated env.program c = staticMethods c ++ adapterCopies env.program c := by
    simp [translated, unitMethods, hinterface]
  unfold interfaceUnit at h
  obtain ⟨_, st₁, hparents, h⟩ := runs_bind.1 h
  obtain ⟨functions, st₂, hfunctions, h⟩ := runs_bind.1 h
  obtain ⟨dispatch, st₃, hdispatch, h⟩ := runs_bind.1 h
  obtain ⟨info, st₄, hinfo, h⟩ := runs_bind.1 h
  obtain ⟨header, st₅, hheader, h⟩ := runs_bind.1 h
  obtain ⟨s, st₆, hstatics, h⟩ := runs_bind.1 h
  obtain ⟨rfl, -⟩ := runs_pure.1 h
  have hempty : st₁.literals.texts = ([] : List Name).eraseDups := by
    rw [literals_requireClasses hparents]
    rfl
  -- between the functions and the constants nothing is pooled
  have hlast : st₅.literals = st₃.literals := by
    rw [(spares_unitHeader _ _ _ hheader).1, (unpooled_classInfo hinfo).1]
  have hturn := (inTurn_methods pools_method hfunctions hempty).append fun seen' hseen' =>
    inTurn_dispatchClass pools_method hdispatch hseen'
  obtain ⟨met, hmethods, hliterals, hconstants⟩ := exists_met hturn hlast hstatics
  refine ⟨met, ?_, hliterals, hconstants, rfl⟩
  rw [htranslated]
  show List.Forall₂ _ ((staticMethods c ++ adapterCopies env.program c).zip (functions ++ dispatch.functions)) _
  rw [List.zip_append (forall₂_methods hfunctions).length_eq]
  exact hmethods

theorem exists_pooled (h : unit? env c = some u) : ∃ met, Pooled env c u met := by
  obtain ⟨last, hruns⟩ := runs_of_unit? h
  unfold sourceUnit at hruns
  split at hruns
  · rename_i hinterface
    obtain ⟨i, _, hi, hpure⟩ := runs_bind.1 hruns
    obtain ⟨rfl, -⟩ := runs_pure.1 hpure
    exact pooled_interface hinterface hi
  · rename_i hinterface
    obtain ⟨k, _, hk, hpure⟩ := runs_bind.1 hruns
    obtain ⟨rfl, -⟩ := runs_pure.1 hpure
    exact pooled_class (Bool.eq_false_iff.2 hinterface) hk

/-! ### Reads -/

private theorem poolRefs_info? (h : unit? env c = some u) : u.info?.toList.flatMap Target.ClassInfo.poolRefs = [] := by
  obtain ⟨-, i, rfl, hparts⟩ | ⟨-, k, rfl, hparts⟩ := unit?_cases h
  · obtain ⟨_, _, hinfo⟩ := hparts.info
    exact (unpooled_classInfo hinfo).2
  · obtain ⟨_, _, hinfo⟩ := hparts.info
    exact (unpooled_classInfo hinfo).2

private theorem argRefs_eq_nil (h : unit? env c = some u) : u.argRefs = [] := by
  obtain ⟨-, i, rfl, hparts⟩ | ⟨-, k, rfl, -⟩ := unit?_cases h
  · obtain ⟨_, _, hdispatch⟩ := hparts.dispatch
    unfold dispatchClass at hdispatch
    show i.dispatch.argRefs = []
    split at hdispatch
    · obtain ⟨adapter, _, -, hpure⟩ := runs_bind.1 hdispatch
      rw [(runs_pure.1 hpure).1]
      rfl
    · rw [(runs_pure.1 hdispatch).1]
      refine List.flatMap_eq_nil_iff.2 fun m hm => List.flatMap_eq_nil_iff.2 fun e he => ?_
      obtain ⟨entry, -, rfl⟩ := List.mem_map.1 hm
      obtain ⟨param, hparam, rfl⟩ := List.mem_map.1 he
      have hname : Target.nameRefs none param.1 = [] :=
        Target.nameRefs_eq_nil (Lowering.poolIndex?_of_mem_positional hparam)
      unfold boxedParam Lowering.box
      split
      · rw [Target.Expr.poolRefs, Target.Expr.poolRefsList_eq, List.flatMap_singleton]
        exact hname
      · exact hname
  · rfl

/-- A read in a function is of a pooled text, in the class of the unit or through its holder. -/
private theorem Pooled.of_mem_function {met : List (List Name)} (h : unit? env c = some u) (hpooled : Pooled env c u met)
    (hf : f ∈ u.functions) {ref : Target.PoolRef} (href : ref ∈ f.body.poolRefs) :
    ref.index < u.statics.literals.length ∧
      (ref.holder = none ∨ ref.holder = some (Naming.staticHolder env.program c.name)) := by
  have hlength := (forall₂_translated h).length_eq
  rw [← List.map_snd_zip (Nat.le_of_eq hlength.symm)] at hf
  obtain ⟨⟨x, f⟩, hxf, rfl⟩ := List.mem_map.1 hf
  obtain ⟨texts, htexts, hpools⟩ := exists_of_mem_left hpooled.methods hxf
  unfold PoolsFor at hpools
  dsimp only at href hpools
  cases hbody : f.body with
  | given _ | missing _ _ | errored _ _ _ =>
    rw [hbody] at href
    cases href
  | lowered b returnsThis =>
    rw [hbody] at href hpools
    obtain ⟨body, -, -, hcovers⟩ := hpools
    obtain ⟨text, htext, rfl⟩ := List.mem_map.1 (hcovers.sublist.subset href)
    have hmem : text ∈ u.statics.literals := by
      rw [hpooled.literals, List.mem_eraseDups]
      exact List.mem_append_left _ (List.mem_flatten.2 ⟨texts, htexts, htext⟩)
    refine ⟨List.idxOf_lt_length_of_mem hmem, ?_⟩
    unfold refTo
    rcases pool_of_mem_translated (List.of_mem_zip hxf).1 with hown | hthrough
    · rw [hown]
      exact .inl rfl
    · rw [hthrough]
      exact .inr rfl

private theorem Pooled.closed {met : List (List Name)} (h : unit? env c = some u) (hpooled : Pooled env c u met)
    {ref : Target.PoolRef} (href : ref ∈ u.poolRefs) :
    ref.index < u.statics.literals.length ∧
      (ref.holder = none ∨ ref.holder = some (Naming.staticHolder env.program c.name)) := by
  unfold Target.SourceUnit.poolRefs at href
  rw [poolRefs_info? h, argRefs_eq_nil h, List.append_nil, List.append_nil, List.mem_append, List.mem_flatMap,
    List.mem_map] at href
  rcases href with ⟨f, hf, href⟩ | ⟨constant, hconstant, rfl⟩
  · exact hpooled.of_mem_function h hf href
  · rw [hpooled.constants] at hconstant
    obtain ⟨⟨name, text⟩, hmem, rfl⟩ := List.mem_map.1 hconstant
    refine ⟨List.idxOf_lt_length_of_mem ?_, .inl rfl⟩
    rw [hpooled.literals, List.mem_eraseDups]
    exact List.mem_append_right _ (List.mem_map.2 ⟨_, hmem, rfl⟩)

private theorem Pooled.declared {met : List (List Name)} (hpooled : Pooled env c u met) :
    u.declaredVars.filterMap Target.poolIndex? = List.range u.statics.literals.length := by
  have hfields : (u.fields.map Target.FieldDecl.name).filterMap Target.poolIndex? = [] := by
    rw [hpooled.fields, List.filterMap_eq_nil_iff]
    intro name hname
    obtain ⟨decl, hdecl, rfl⟩ := List.mem_map.1 hname
    obtain ⟨field, -, rfl⟩ := List.mem_map.1 hdecl
    exact Target.poolIndex?_eq_none.2 Naming.isFree_field.2.2
  have hpool : u.statics.pool.map Prod.fst = List.range u.statics.literals.length :=
    List.map_fst_zip (by rw [List.length_range])
  have hidents : (u.statics.pool.map fun entry => Target.poolIdent entry.1).filterMap Target.poolIndex? =
      u.statics.pool.map Prod.fst := by
    rw [List.filterMap_map, ← List.filterMap_eq_map]
    congr 1
    funext entry
    exact Target.poolIndex?_eq_some.2 rfl
  unfold Target.SourceUnit.declaredVars
  rw [List.filterMap_append, List.filterMap_append, hfields, hidents, hpool]
  simp [show Target.poolIndex? Target.initFlag = none by decide]

/-! ### The pool of a unit -/

/-- What a unit declares, sets and reads of its pool. -/
structure PoolsFaithfully (env : Env) (c : ClassModel) (u : Target.SourceUnit) (met : List (List Name)) : Prop
    extends Pooled env c u met where
  /-- Of the variables of the class, those for literals have all the numbers, each once. -/
  declared : u.declaredVars.filterMap Target.poolIndex? = List.range u.statics.literals.length
  /-- The literals are declared and then set in the order of their numbers, in front of everything else. -/
  code : u.statics.code =
    .lines ((List.range u.statics.literals.length).map fun index =>
      s!"static public var {Target.poolIdent index}:{u.statics.literalTag};") ++
    .line s!"static public var {Target.initFlag}:Bool = false;" ++
    .block s!"static public function {Target.initRoutine}():Void"
      (.lines ([s!"if ({Target.initFlag}) return;", s!"{Target.initFlag} = true;"] ++
        (List.zipWith (fun index text =>
            Target.poolIdent index ++ " = " ++ Target.numCall "str" [Target.quote text] ++ ";")
          (List.range u.statics.literals.length) u.statics.literals ++
        u.statics.constants.map (fun constant => s!"{constant.1} = {Target.poolIdent constant.2};") ++
        u.statics.initializer.toList.map fun name => s!"{name}();")))
  /-- The statics stand in the text of the unit, and behind them the functions that read them. -/
  text : Target.StandIn (u.statics.code :: u.functions.map Target.Function.code) (generatedUnit env c u).text
  /-- Every literal that is read is declared, in the class around the read or in the holder in front of it. -/
  closed : ∀ ref ∈ u.poolRefs, ref.index < u.statics.literals.length ∧
    (ref.holder = none ∨ ref.holder = some (Naming.staticHolder env.program c.name))
  /-- Two literals have the same name exactly when they have the same text. -/
  separate : ∀ text ∈ u.statics.literals, ∀ text' ∈ u.statics.literals,
    (Target.poolIdent (u.statics.literals.idxOf text) = Target.poolIdent (u.statics.literals.idxOf text') ↔
      text = text')

/-- The literal pool of every unit is closed and faithful. -/
theorem literals_pooled (h : unit? env c = some u) : ∃ met, PoolsFaithfully env c u met := by
  obtain ⟨met, hpooled⟩ := exists_pooled h
  refine ⟨met, hpooled, hpooled.declared, ?_, standIn_generatedUnit u.holds_code,
    fun ref href => hpooled.closed h href, fun text htext text' _ => ?_⟩
  · have hrange : u.statics.pool.map (fun entry =>
        s!"static public var {Target.poolIdent entry.1}:{u.statics.literalTag};") =
        (List.range u.statics.literals.length).map fun index =>
          s!"static public var {Target.poolIdent index}:{u.statics.literalTag};" := by
      have hfst : u.statics.pool.map Prod.fst = List.range u.statics.literals.length :=
        List.map_fst_zip (by rw [List.length_range])
      rw [← hfst, List.map_map]
      rfl
    unfold Target.Statics.code Target.Statics.assignments
    rw [← List.map_uncurry_zip_eq_zipWith, ← hrange]
    rfl
  · rw [Target.poolIdent_injective.eq_iff]
    exact List.idxOf_inj htext

/-- A class that greets twice and has its texts in constants too. -/
private def greeterClass : ClassModel :=
  let text := Ty.ref stringClass
  let body : Body :=
    { exprs := #[⟨.literal (.string "hi"), text⟩]
      stmts := #[.eval 0, .ret (some 0)]
      stmtLists := #[0, 1]
      root := ⟨0, 2⟩ }
  { bareClass "Greeter" .plain none [] [{ bareMethod 1 "greet" ⟨0x0009⟩ (some body) with ret := text }] with
    fields := [⟨"NAME", text, ⟨0x0009⟩, some (.string "bob"), []⟩, ⟨"WORD", text, ⟨0x0009⟩, some (.string "hi"), []⟩] }

private def greeterEnv : Env where
  program := ⟨[greeterClass], show ["Greeter"].Nodup by decide⟩
  options := { reflection := false }

/-- The two literals of the method and the second constant share a name. -/
theorem literals_pooled_greeter :
    ∃ u met, unit? greeterEnv greeterClass = some u ∧ PoolsFaithfully greeterEnv greeterClass u met ∧
      u.statics.literals = ["hi", "bob"] ∧ u.statics.constants = [("NAME", 1), ("WORD", 0)] ∧
      u.poolRefs = [⟨none, 0⟩, ⟨none, 0⟩, ⟨none, 1⟩, ⟨none, 0⟩] := by
  have hunit : (unit? greeterEnv greeterClass).map (fun u => (u.statics.literals, u.statics.constants, u.poolRefs)) =
      some (["hi", "bob"], [("NAME", 1), ("WORD", 0)], [⟨none, 0⟩, ⟨none, 0⟩, ⟨none, 1⟩, ⟨none, 0⟩]) := by
    with_unfolding_all rfl
  obtain ⟨u, hu, hparts⟩ := Option.map_eq_some_iff.1 hunit
  obtain ⟨met, hpools⟩ := literals_pooled hu
  simp only [Prod.mk.injEq] at hparts
  exact ⟨u, met, hu, hpools, hparts.1, hparts.2.1, hparts.2.2⟩

end HaxeBackend.Generation
