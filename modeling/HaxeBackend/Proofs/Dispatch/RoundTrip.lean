import HaxeBackend.Generation.ClassInfo
import HaxeBackend.Proofs.Generation.Functions
import HaxeBackend.Support.Dispatch
import Mathlib.Data.List.Nodup
import Mathlib.Data.List.Pairwise

/-!
# Calls through a proxy

A function of a proxy hands its arguments to the handler with the number of its method, and the number is looked up
among the methods that the interface registers.  A proxy has a function for every method of the interface, but an
interface registers only what it declares itself (`registered_classInfo`).  So a call of a declared method reaches
the handler (`call_of_declared`), and one of an inherited method does not (`call_of_inherited`).
-/

namespace HaxeBackend

/-! ### Numbers of methods -/

/-- No two methods have the same number, and every number is an int. -/
structure Program.IsNumbered (p : Program) : Prop where
  distinct : (p.classes.flatMap fun c => c.methods.map Method.id).Nodup
  small : ∀ c ∈ p.classes, ∀ m ∈ c.methods, m.id < 0x80000000

namespace Program.IsNumbered

variable {p : Program} {c c' : ClassModel} {m m' : Method}

/-- A number belongs to one method of one class. -/
theorem unique (h : p.IsNumbered) (hc : c ∈ p.classes) (hm : m ∈ c.methods) (hc' : c' ∈ p.classes)
    (hm' : m' ∈ c'.methods) (hid : m.id = m'.id) : c = c' ∧ m = m' := by
  obtain ⟨hwithin, hacross⟩ := List.nodup_flatMap.1 h.distinct
  have hsymm : Std.Symm (Function.onFun List.Disjoint fun c : ClassModel => c.methods.map Method.id) :=
    ⟨fun _ _ hdisjoint _ h h' => hdisjoint h' h⟩
  have hclass : c = c' := by
    by_contra hne
    exact hacross.forall hc hc' hne (List.mem_map_of_mem hm) (hid ▸ List.mem_map_of_mem hm')
  subst hclass
  exact ⟨rfl, List.inj_on_of_nodup_map (hwithin c hc) hm hm' hid⟩

theorem unique_ofNat (h : p.IsNumbered) (hc : c ∈ p.classes) (hm : m ∈ c.methods) (hc' : c' ∈ p.classes)
    (hm' : m' ∈ c'.methods) (hid : Int32.ofNat m.id = Int32.ofNat m'.id) : c = c' ∧ m = m' := by
  have hint := congrArg Int32.toInt hid
  rw [Int32.toInt_ofNat_of_lt (h.small c hc m hm), Int32.toInt_ofNat_of_lt (h.small c' hc' m' hm')] at hint
  exact h.unique hc hm hc' hm' (by omega)

end Program.IsNumbered

/-! ### Registered methods -/

/-- What a registered method is found as. -/
def Target.MemberEntry.info? : Target.MemberEntry → Option Support.MethodInfo
  | .method id _ _ name _ descriptor _ _ => some ⟨Int32.ofNat id, name, descriptor⟩
  | .field .. | .constructor .. => none

/-- The class after its members are registered one after the other. -/
def Support.ClassDescriptor.ofMembers (name : String) (members : List Target.MemberEntry) :
    Support.ClassDescriptor :=
  members.foldl (fun d member => (member.info?.map d.register).getD d) { name }

theorem Support.ClassDescriptor.methods_ofMembers (name : String) (members : List Target.MemberEntry) :
    (ofMembers name members).methods = members.filterMap Target.MemberEntry.info? := by
  have hfold : ∀ d : ClassDescriptor,
      (members.foldl (fun d member => (member.info?.map d.register).getD d) d).methods =
        d.methods ++ members.filterMap Target.MemberEntry.info? := by
    induction members with
    | nil => simp
    | cons member members ih =>
      intro d
      rw [List.foldl_cons, ih, List.filterMap_cons]
      cases member.info? with
      | none => rfl
      | some info => simp [register]
  rw [ofMembers, hfold, List.nil_append]

/-- A method as it should be found. -/
def Method.info (m : Method) : Support.MethodInfo := ⟨Int32.ofNat m.id, m.name, m.type.descriptor⟩

namespace Generation

variable {p : Program} {c : ClassModel} {e : MethodEntry}

private theorem infos_fieldEntries (at_ : Location) (slot : Nat) (fields : List Field) (st : LiteralState) :
    ((fieldEntries p at_ c slot fields).run st).1.filterMap Target.MemberEntry.info? = [] := by
  induction fields generalizing slot st with
  | nil => rfl
  | cons f fields ih => exact ih (slot + 1) _

private theorem infos_methodEntries (at_ : Location) (constructorSlot methodSlot : Nat) (methods : List Method)
    (st : LiteralState) :
    ((methodEntries p at_ c constructorSlot methodSlot methods).run st).1.filterMap Target.MemberEntry.info? =
      (methods.filter fun m => !isSpecialName m.name).map Method.info := by
  induction methods generalizing constructorSlot methodSlot st with
  | nil => rfl
  | cons m methods ih =>
    -- the annotations change the state but not which members are registered
    rw [methodEntries]
    simp only [StateT.run_bind]
    split
    · rename_i hconstructor
      have hspecial : isSpecialName m.name = true := by
        rw [beq_iff_eq.1 hconstructor]
        decide
      refine (ih (constructorSlot + 1) methodSlot _).trans ?_
      rw [List.filter_cons, hspecial]
      rfl
    · split
      · rename_i hspecial
        refine (ih constructorSlot methodSlot _).trans ?_
        rw [List.filter_cons, hspecial]
        rfl
      · rename_i hspecial
        have hkept : (!isSpecialName m.name) = true := by simpa using hspecial
        rw [List.filter_cons, if_pos hkept, List.map_cons, ← ih constructorSlot (methodSlot + 1)]
        rfl

/-- What an interface registers are the methods that it declares itself. -/
theorem registered_classInfo (env : Env) (hreflection : env.options.reflection = true) (c : ClassModel)
    (unit : UnitState) :
    ∃ info last, Runs (classInfo env c) unit (some info) last ∧
      info.members.filterMap Target.MemberEntry.info? =
        (c.methods.filter fun m => !isSpecialName m.name).map Method.info := by
  let result := (classInfoEntries env.program c).run ⟨unit.refs, unit.diagnostics, {}⟩
  refine ⟨⟨result.2.guards.holders env.program, result.1.1, result.1.2⟩,
    { unit with refs := result.2.refs, diagnostics := result.2.diagnostics }, ?_, ?_⟩
  · unfold Runs classInfo
    rw [hreflection]
    rfl
  · refine List.filterMap_append.trans ?_
    exact congrArg₂ (· ++ ·) (infos_fieldEntries _ _ _ _) (infos_methodEntries _ _ _ _ _)

/-- The registered class of an interface. -/
def descriptorOf (c : ClassModel) (info : Target.ClassInfo) : Support.ClassDescriptor :=
  .ofMembers c.name info.members

section Lookup

variable {info : Target.ClassInfo} (hregistered : info.members.filterMap Target.MemberEntry.info? =
  (c.methods.filter fun m => !isSpecialName m.name).map Method.info)

include hregistered

private theorem mem_methods {found : Support.MethodInfo} :
    found ∈ (descriptorOf c info).methods ↔
      ∃ m ∈ c.methods, isSpecialName m.name = false ∧ m.info = found := by
  rw [descriptorOf, Support.ClassDescriptor.methods_ofMembers, hregistered]
  simp only [List.mem_map, List.mem_filter, Bool.not_eq_true', and_assoc]

/-- The number of a declared method finds it. -/
theorem locate_declared (hp : p.IsNumbered) (hc : c ∈ p.classes) {m : Method} (hm : m ∈ c.methods)
    (hspecial : isSpecialName m.name = false) : (descriptorOf c info).locate (Int32.ofNat m.id) = .ok m.info := by
  have hmem : m.info ∈ (descriptorOf c info).methods := (mem_methods hregistered).2 ⟨m, hm, hspecial, rfl⟩
  unfold Support.ClassDescriptor.locate
  cases hfind : (descriptorOf c info).methods.find? fun found => found.id == Int32.ofNat m.id with
  | none =>
    rw [List.find?_eq_none] at hfind
    exact absurd (beq_self_eq_true (Int32.ofNat m.id)) (hfind m.info hmem)
  | some found =>
    obtain ⟨m', hm', -, rfl⟩ := (mem_methods hregistered).1 (List.mem_of_find?_eq_some hfind)
    have htest := List.find?_some hfind
    rw [(hp.unique_ofNat hc hm' hc hm (beq_iff_eq.1 htest)).2]

/-- The number of a method of another class finds nothing. -/
theorem locate_other (hp : p.IsNumbered) (hc : c ∈ p.classes) {c' : ClassModel} (hc' : c' ∈ p.classes)
    (hne : c' ≠ c) {m : Method} (hm : m ∈ c'.methods) :
    (descriptorOf c info).locate (Int32.ofNat m.id) = .error (.noSuchMethod (Int32.ofNat m.id)) := by
  have hnone : (descriptorOf c info).methods.find? (fun found => found.id == Int32.ofNat m.id) = none := by
    rw [List.find?_eq_none]
    intro found hfound hid
    obtain ⟨m', hm', -, rfl⟩ := (mem_methods hregistered).1 hfound
    exact hne (hp.unique_ofNat hc' hm hc hm' (beq_iff_eq.1 hid).symm).1
  unfold Support.ClassDescriptor.locate
  rw [hnone]

end Lookup

/-! ### Arguments -/

/-- What the boxing helpers are called. -/
def boxHelper? (helper : String) : Option Prim :=
  [.bool, .byte, .short, .char, .int, .long, .float, .double].find? fun kind => helper = "box" ++ Lowering.boxKind kind

/-- The value of an argument of a forwarding function, from the values of its parameters and the boxing helpers. -/
def argument (box : Prim → Support.Value → Support.Value) (frame : List (String × Support.Value)) :
    Target.Expr → Option Support.Value
  | .var name => frame.lookup name
  | .natives helper [.var name] => do return box (← boxHelper? helper) (← frame.lookup name)
  | _ => none

/-- A value as the handler takes it. -/
def boxed (box : Prim → Support.Value → Support.Value) (type : Ty) (value : Support.Value) : Support.Value :=
  (type.prim?.map (box · value)).getD value

/-- What a function of a proxy does when it is called with values for its parameters. -/
def callProxy {m : Type → Type} [Monad m] (box : Prim → Support.Value → Support.Value) (object : Support.Proxy m)
    (f : Target.ProxyMethod) (values : List Support.Value) : Option (m (Except Support.Fault Support.Value)) :=
  (f.args.mapM (argument box ((f.signature.params.map Prod.fst).zip values))).map (object.invoke (Int32.ofNat f.id))

private theorem boxHelper?_box (kind : Prim) : boxHelper? ("box" ++ Lowering.boxKind kind) = some kind := by
  cases kind <;> decide

private theorem argument_boxedParam (box : Prim → Support.Value → Support.Value) {frame : List (String × Support.Value)}
    {param : String × Ty} {value : Support.Value} (h : frame.lookup param.1 = some value) :
    argument box frame (boxedParam param) = some (boxed box param.2 value) := by
  unfold boxedParam boxed
  cases param.2.prim? with
  | none => exact h
  | some kind =>
    unfold Lowering.box argument
    simp [boxHelper?_box, h]

private theorem repr_injective {a b : Nat} (h : a.repr = b.repr) : a = b := by
  have hdigits := congrArg String.toList h
  rw [Nat.repr_eq_ofList_toDigits, Nat.repr_eq_ofList_toDigits, String.toList_ofList, String.toList_ofList] at hdigits
  rw [← Nat.ofDigitChars_ten_toDigits (n := a), hdigits, Nat.ofDigitChars_ten_toDigits]

private theorem lookup_zip {names : List String} (hnodup : names.Nodup) {values : List Support.Value} :
    ∀ pair ∈ names.zip values, (names.zip values).lookup pair.1 = some pair.2 := by
  induction names generalizing values with
  | nil => simp
  | cons name names ih =>
    cases values with
    | nil => simp
    | cons value values =>
      obtain ⟨hfresh, hnodup⟩ := List.nodup_cons.1 hnodup
      intro pair hpair
      rcases List.mem_cons.1 hpair with rfl | hrest
      · simp
      · have hne : (pair.1 == name) = false := by
          rw [beq_eq_false_iff_ne]
          rintro rfl
          exact hfresh (List.of_mem_zip hrest).1
        rw [List.zip_cons_cons, List.lookup_cons, hne]
        exact ih hnodup pair hrest

private theorem mapM_argument (box : Prim → Support.Value → Support.Value) {frame : List (String × Support.Value)}
    {params : List (String × Ty)} {values : List Support.Value} (hlength : values.length = params.length)
    (hframe : ∀ pair ∈ (params.map Prod.fst).zip values, frame.lookup pair.1 = some pair.2) :
    (params.map boxedParam).mapM (argument box frame) =
      some (List.zipWith (boxed box) (params.map Prod.snd) values) := by
  induction params generalizing values with
  | nil => simp
  | cons param params ih =>
    cases values with
    | nil => simp at hlength
    | cons value values =>
      have hfirst := argument_boxedParam box (hframe (param.1, value) (by simp))
      have hrest := ih (Nat.succ.inj hlength) fun pair hpair => hframe pair (List.mem_cons_of_mem _ hpair)
      simp [hfirst, hrest]

private theorem positionalParams_fst (m : Method) :
    (positionalParams m).map Prod.fst = (List.range m.params.length).map fun i => s!"p{i}" := by
  have hlength : m.type.args.length = m.params.length := List.length_map _
  unfold positionalParams Lowering.positional
  rw [List.map_map, hlength]
  exact (List.map_map (g := fun i => s!"p{i}") (f := Prod.fst)).symm.trans
    (congrArg _ (List.map_fst_zip (by simp [hlength])))

private theorem nodup_positionalParams (m : Method) : ((positionalParams m).map Prod.fst).Nodup := by
  rw [positionalParams_fst]
  refine List.Nodup.map ?_ List.nodup_range
  intro a b h
  have hlist := congrArg String.toList h
  rw [String.toList_append, String.toList_append] at hlist
  exact repr_injective (String.toList_inj.1 (List.append_cancel_left hlist))

private theorem positionalParams_snd (m : Method) : (positionalParams m).map Prod.snd = m.type.args := by
  unfold positionalParams Lowering.positional
  rw [List.map_map]
  exact List.map_snd_zip (by simp)

/-- The handler gets one argument for each parameter, in order. -/
theorem callProxy_proxyMethod {m : Type → Type} [Monad m] (box : Prim → Support.Value → Support.Value)
    (object : Support.Proxy m) (e : MethodEntry) {values : List Support.Value}
    (hlength : values.length = e.method.params.length) :
    callProxy box object (proxyMethod p e) values =
      some (object.invoke (Int32.ofNat e.method.id) (List.zipWith (boxed box) e.method.type.args values)) := by
  have hparams : (proxyMethod p e).signature.params.map Prod.fst = (positionalParams e.method).map Prod.fst := by
    show (tagged p (positionalParams e.method)).map Prod.fst = _
    rw [tagged, List.map_map]
    rfl
  have hcount : values.length = (positionalParams e.method).length := by
    have hnames := congrArg List.length (positionalParams_fst e.method)
    rw [List.length_map, List.length_map, List.length_range] at hnames
    rw [hlength, hnames]
  have hargs := mapM_argument box hcount (lookup_zip (nodup_positionalParams e.method))
  have hsame : (proxyMethod p e).args = (positionalParams e.method).map boxedParam := rfl
  unfold callProxy
  rw [hparams, hsame, hargs, positionalParams_snd]
  rfl

/-! ### Round trips -/

/-- Calls of the function reach the handler once, with the method and one argument for each parameter in order, and
return what the handler returns. -/
def RoundTrips (descriptor : Support.ClassDescriptor) (f : Target.ProxyMethod) (method : Method) : Prop :=
  ∀ (m : Type → Type) [Monad m] (box : Prim → Support.Value → Support.Value) (handler : Support.Handler m)
    (values : List Support.Value), values.length = method.params.length →
      callProxy box ⟨descriptor, handler⟩ f values =
        some (handler method.info (List.zipWith (boxed box) method.type.args values))

/-- Calls of the function fail for want of a method, and the handler is not asked. -/
def Misses (descriptor : Support.ClassDescriptor) (f : Target.ProxyMethod) (method : Method) : Prop :=
  ∀ (m : Type → Type) [Monad m] (box : Prim → Support.Value → Support.Value) (handler : Support.Handler m)
    (values : List Support.Value), values.length = method.params.length →
      callProxy box ⟨descriptor, handler⟩ f values = some (pure (.error (.noSuchMethod method.info.id)))

theorem Misses.not_roundTrips {descriptor : Support.ClassDescriptor} {f : Target.ProxyMethod} {method : Method}
    (h : Misses descriptor f method) : ¬RoundTrips descriptor f method := by
  intro hround
  -- a handler that answers tells the two apart
  have hlength : (List.replicate method.params.length Support.Value.null).length = method.params.length :=
    List.length_replicate
  have hfault := h Id (fun _ value => value) (fun _ _ => .ok .null) _ hlength
  rw [hround Id (fun _ value => value) (fun _ _ => .ok .null) _ hlength] at hfault
  cases hfault

section Calls

variable {info : Target.ClassInfo} (hregistered : info.members.filterMap Target.MemberEntry.info? =
  (c.methods.filter fun m => !isSpecialName m.name).map Method.info)

include hregistered

theorem roundTrips_of_declared (hp : p.IsNumbered) (hc : c ∈ p.classes) (he : e ∈ p.methodsToImplement c.name)
    (howner : e.owner = c) : RoundTrips (descriptorOf c info) (proxyMethod p e) e.method := by
  obtain ⟨-, hm, -, hspecial⟩ := Program.of_mem_methodsToImplement he
  rw [howner] at hm
  intro m _ box handler values hlength
  rw [callProxy_proxyMethod box _ e hlength, Support.Proxy.invoke, locate_declared hregistered hp hc hm hspecial]

theorem misses_of_inherited (hp : p.IsNumbered) (hc : c ∈ p.classes) (he : e ∈ p.methodsToImplement c.name)
    (howner : e.owner ≠ c) : Misses (descriptorOf c info) (proxyMethod p e) e.method := by
  obtain ⟨-, hm, -, -⟩ := Program.of_mem_methodsToImplement he
  have hother := locate_other hregistered hp hc (Program.owner_mem_of_mem_methodsToImplement he) howner hm
  intro m _ box handler values hlength
  rw [callProxy_proxyMethod box _ e hlength, Support.Proxy.invoke, hother]
  rfl

end Calls

/-- A proxy implements every method of its interface, but only calls of those that the interface declares itself
reach the handler: an inherited method is not registered with the interface. -/
theorem proxy_roundTrips_iff (env : Env) (hreflection : env.options.reflection = true)
    (hp : env.program.IsNumbered) (hc : c ∈ env.program.classes) (unit : UnitState) :
    ∃ info last, Runs (classInfo env c) unit (some info) last ∧
      ∀ e ∈ env.program.methodsToImplement c.name, proxyMethod env.program e ∈ (proxyClass env.program c).methods ∧
        (RoundTrips (descriptorOf c info) (proxyMethod env.program e) e.method ↔ e.owner = c) ∧
        (Misses (descriptorOf c info) (proxyMethod env.program e) e.method ↔ e.owner ≠ c) := by
  obtain ⟨info, last, hruns, hregistered⟩ := registered_classInfo env hreflection c unit
  refine ⟨info, last, hruns, fun e he => ⟨List.mem_map_of_mem he, ?_, ?_⟩⟩
  · constructor
    · intro hround
      by_contra howner
      exact (misses_of_inherited hregistered hp hc he howner).not_roundTrips hround
    · exact roundTrips_of_declared hregistered hp hc he
  · constructor
    · intro hmisses howner
      exact hmisses.not_roundTrips (roundTrips_of_declared hregistered hp hc he howner)
    · exact misses_of_inherited hregistered hp hc he

private def collection : ClassModel :=
  bareClass "Collection" .interface none [] [bareMethod 1 "size" .standard none]

private def firstMethod : Method := { bareMethod 2 "first" .standard none with params := [⟨"n", .prim .int⟩] }

private def sequence : ClassModel := bareClass "Sequence" .interface none ["Collection"] [firstMethod]

private def sequenceEnv : Env := ⟨⟨[collection, sequence], by decide⟩, {}⟩

private theorem isNumbered_sequenceEnv : sequenceEnv.program.IsNumbered := ⟨by decide, by decide⟩

private theorem sequence_mem : sequence ∈ sequenceEnv.program.classes := List.mem_cons_of_mem _ List.mem_cons_self

private theorem methodsToImplement_sequence :
    sequenceEnv.program.methodsToImplement sequence.name =
      [⟨sequence, firstMethod⟩, ⟨collection, bareMethod 1 "size" .standard none⟩] := by
  with_unfolding_all rfl

/-- The proxy of an interface that extends another has a function that never reaches the handler. -/
theorem proxy_misses_sequence :
    sequenceEnv.program.IsNumbered ∧ sequence ∈ sequenceEnv.program.classes ∧ sequence.isInterface = true ∧
    sequenceEnv.program.dispatch sequence = .proxy ∧ sequenceEnv.options.reflection = true ∧
    ∃ e ∈ sequenceEnv.program.methodsToImplement sequence.name, ∀ unit info last,
      Runs (classInfo sequenceEnv sequence) unit (some info) last →
        ¬RoundTrips (descriptorOf sequence info) (proxyMethod sequenceEnv.program e) e.method := by
  refine ⟨isNumbered_sequenceEnv, sequence_mem, rfl, rfl, rfl, ⟨collection, bareMethod 1 "size" .standard none⟩,
    by simp [methodsToImplement_sequence], ?_⟩
  intro unit info last hruns
  obtain ⟨info', last', hruns', hregistered⟩ := registered_classInfo sequenceEnv rfl sequence unit
  obtain ⟨heq, -⟩ := hruns.unique hruns'
  cases heq
  have hne : collection ≠ sequence := fun h => absurd (congrArg ClassModel.name h) (by decide)
  exact (misses_of_inherited hregistered isNumbered_sequenceEnv sequence_mem (by simp [methodsToImplement_sequence])
    hne).not_roundTrips

theorem proxy_roundTrips_iff_sequence :
    sequenceEnv.options.reflection = true ∧ sequenceEnv.program.IsNumbered ∧
    sequence ∈ sequenceEnv.program.classes ∧
    ∃ info last, Runs (classInfo sequenceEnv sequence) {} (some info) last ∧
      RoundTrips (descriptorOf sequence info) (proxyMethod sequenceEnv.program ⟨sequence, firstMethod⟩) firstMethod ∧
      Misses (descriptorOf sequence info)
        (proxyMethod sequenceEnv.program ⟨collection, bareMethod 1 "size" .standard none⟩)
        (bareMethod 1 "size" .standard none) := by
  obtain ⟨info, last, hruns, hcalls⟩ :=
    proxy_roundTrips_iff sequenceEnv rfl isNumbered_sequenceEnv sequence_mem {}
  have hne : collection ≠ sequence := fun h => absurd (congrArg ClassModel.name h) (by decide)
  exact ⟨rfl, isNumbered_sequenceEnv, sequence_mem, info, last, hruns,
    (hcalls ⟨sequence, firstMethod⟩ (by simp [methodsToImplement_sequence])).2.1.2 rfl,
    (hcalls ⟨collection, _⟩ (by simp [methodsToImplement_sequence])).2.2.2 hne⟩

end Generation

end HaxeBackend
