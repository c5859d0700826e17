import HaxeBackend.Proofs.Lowering.Operators
import HaxeBackend.Proofs.Lowering.Scope
import Mathlib.Tactic.SplitIfs

/-!
# Adapters

A method reference becomes an adapter around one call.  `capture_eq` takes its lowering apart: three look-ups, two
references, the call (`forwarded`) and the adapter around it (`adapterOf`).  The call is made of the parameters of the
adapter and, for a static method, of the holder (`looks_forwarded`); an adapter has nothing but that call, which may be
converted (`adapterOf_eq`).
-/

namespace HaxeBackend.Lowering

variable {s : Scope} {interfaceMethod : MethodRef} {entry : MethodEntry}

/-! ### Calls -/

/-- A call of the method that passes on parameters of the function around it. -/
def forward (s : Scope) (entry : MethodEntry) (base : Target.Expr) (supplied : List (String × Ty)) : Target.Expr :=
  .invoke base (s.methodName entry)
    (List.zipWith (fun x param => convert s.program x.2 param.type (.var x.1)) supplied entry.method.params)

/-- What a method reference calls: a static method with all parameters, another one on the first of them. -/
def forwarded (s : Scope) (interfaceMethod target : MethodRef) (entry : MethodEntry) : LowerM Target.Expr :=
  let call (base : Target.Expr) (supplied : List (String × Ty)) : LowerM Target.Expr :=
    if supplied.length = entry.method.params.length then pure (forward s entry base supplied)
    else fault (.adapterArity target.name supplied.length interfaceMethod.name)
  match entry.method.isStatic, positional interfaceMethod.type.args with
  | true, params => call (.path (Naming.staticHolder s.program entry.owner.name)) params
  | false, [] => fault (.receiverless target.name)
  | false, (name, type) :: params => call (convert s.program type (.ref entry.owner.name) (.var name)) params

/-- The call goes to the static holder or to a parameter, and has other parameters for arguments. -/
inductive IsForward (s : Scope) (interfaceMethod : MethodRef) (entry : MethodEntry) : Target.Expr → Prop where
  | static (supplied : List (String × Ty)) (h : supplied ⊆ positional interfaceMethod.type.args) :
    IsForward s interfaceMethod entry
      (forward s entry (.path (Naming.staticHolder s.program entry.owner.name)) supplied)
  | bound (x : String × Ty) (supplied : List (String × Ty)) (hx : x ∈ positional interfaceMethod.type.args)
      (h : supplied ⊆ positional interfaceMethod.type.args) :
    IsForward s interfaceMethod entry
      (forward s entry (convert s.program x.2 (.ref entry.owner.name) (.var x.1)) supplied)

/-- The scope alone decides what a method reference calls. -/
theorem forwarded_cases (s : Scope) (interfaceMethod target : MethodRef) (entry : MethodEntry) :
    (∃ t, forwarded s interfaceMethod target entry = pure t ∧ IsForward s interfaceMethod entry t) ∨
      ∃ f, forwarded s interfaceMethod target entry = fault f := by
  unfold forwarded
  dsimp only
  split
  · split
    · exact .inl ⟨_, rfl, .static _ (List.Subset.refl _)⟩
    · exact .inr ⟨_, rfl⟩
  · exact .inr ⟨_, rfl⟩
  · rename_i name type params _ hparams
    split
    · refine .inl ⟨_, rfl, .bound (name, type) params ?_ ?_⟩
      · rw [hparams]
        exact List.mem_cons_self
      · rw [hparams]
        exact List.subset_cons_self _ _
    · exact .inr ⟨_, rfl⟩

theorem looks_forwarded (interfaceMethod target : MethodRef) (entry : MethodEntry) :
    Looks (forwarded s interfaceMethod target entry) (IsForward s interfaceMethod entry) := by
  rcases forwarded_cases s interfaceMethod target entry with ⟨t, heq, ht⟩ | ⟨f, heq⟩
  · rw [heq]
    exact looks_pure ht
  · rw [heq]
    exact looks_throw

/-! ### Adapters -/

/-- The holder that an adapter initializes itself, when the function around has not done so. -/
def adapterGuard (s : Scope) (entry : MethodEntry) (owned : Bool) : Option String :=
  if entry.method.isStatic && !(Naming.isNative s.program entry.owner.name || owned) then
    some (Naming.staticHolder s.program entry.owner.name)
  else none

theorem mem_adapterGuard {owned : Bool} {holder : String} (h : holder ∈ adapterGuard s entry owned) :
    holder = Naming.staticHolder s.program entry.owner.name ∧
      Naming.isNative s.program entry.owner.name = false := by
  unfold adapterGuard at h
  split at h
  · rename_i hneeded
    cases h
    simp only [Bool.and_eq_true, Bool.not_eq_true', Bool.or_eq_false_iff] at hneeded
    exact ⟨rfl, hneeded.2.1⟩
  · cases h

/-- The adapter around a call. -/
def adapterOf (s : Scope) (interface : ClassModel) (interfaceMethod : MethodRef) (entry : MethodEntry) (owned : Bool)
    (call : Target.Expr) : Target.Expr :=
  let ret := interfaceMethod.type.ret
  let (value, result) : Target.Expr × Target.AdapterResult :=
    if ret.isVoid then (call, .discard)
    else if entry.method.ret.isVoid then (call, .constant (Naming.defaultValue ret))
    else (convert s.program entry.method.ret ret call, .value)
  .adapter (Naming.companion interface.name .adapter)
    ((positional interfaceMethod.type.args).map fun x => (x.1, Naming.typeTag s.program x.2))
    (Naming.typeTag s.program ret) (adapterGuard s entry owned) value result

/-- An adapter gives what its call gives, converted or not, or a default. -/
theorem adapterOf_eq (s : Scope) (interface : ClassModel) (interfaceMethod : MethodRef) (entry : MethodEntry)
    (owned : Bool) (call : Target.Expr) : ∃ value result,
      adapterOf s interface interfaceMethod entry owned call =
        .adapter (Naming.companion interface.name .adapter)
          ((positional interfaceMethod.type.args).map fun x => (x.1, Naming.typeTag s.program x.2))
          (Naming.typeTag s.program interfaceMethod.type.ret) (adapterGuard s entry owned) value result ∧
      (value = call ∨ value = convert s.program entry.method.ret interfaceMethod.type.ret call) ∧
      ∀ constant, result = .constant constant → constant = Naming.defaultValue interfaceMethod.type.ret := by
  unfold adapterOf
  dsimp only
  split_ifs
  · exact ⟨_, _, rfl, .inl rfl, nofun⟩
  · refine ⟨_, _, rfl, .inl rfl, fun constant h => ?_⟩
    cases h
    rfl
  · exact ⟨_, _, rfl, .inr rfl, nofun⟩

/-! ### Method references -/

theorem capture_eq (s : Scope) (interfaceMethod target : MethodRef) :
    capture s interfaceMethod target = s.requireClass interfaceMethod.owner >>= fun interface =>
      if s.program.dispatch interface = .adapter then
        s.resolveMethod target false >>= fun entry => refer interface.name >>= fun _ => refer entry.owner.name >>=
          fun _ => get >>= fun st => forwarded s interfaceMethod target entry >>= fun call =>
          pure (adapterOf s interface interfaceMethod entry (st.guards.owns entry.owner.name) call)
      else throw (.noAdapter interface.name) := by
  unfold capture
  dsimp only
  refine bind_congr fun interface => ?_
  split
  · refine bind_congr fun entry => bind_congr fun _ => bind_congr fun _ => bind_congr fun st => ?_
    unfold forwarded adapterOf adapterGuard
    generalize positional interfaceMethod.type.args = params
    -- the receiver of an instance method takes the first parameter
    cases entry.method.isStatic with
    | true =>
      dsimp only
      rw [pure_bind]
      split
      · rw [pure_bind]
        rfl
      · rfl
    | false =>
      cases params with
      | nil => rfl
      | cons x params =>
        dsimp only
        rw [pure_bind]
        split
        · rw [pure_bind]
          rfl
        · rfl
  · rfl

/-! ### Reading -/

section Reading

variable {β : Type} {read : Target.Expr → List β} {t : Target.Expr}

namespace PassedOn

private theorem read_forward (h : PassedOn read) {base : Target.Expr} {supplied : List (String × Ty)}
    (hsupplied : ∀ x ∈ supplied, read (.var x.1) = []) : read (forward s entry base supplied) = read base := by
  rw [forward, h.invoke, List.append_right_eq_self, List.flatMap_eq_nil_iff]
  intro e he
  rw [← List.map_uncurry_zip_eq_zipWith] at he
  obtain ⟨⟨x, param⟩, hmem, rfl⟩ := List.mem_map.1 he
  rw [Function.uncurry_apply_pair, h.read_convert]
  exact hsupplied x (List.of_mem_zip hmem).1

/-- Nothing is read off what an adapter calls, or it is the holder. -/
theorem read_isForward (h : PassedOn read) (ht : IsForward s interfaceMethod entry t)
    (hparams : ∀ x ∈ positional interfaceMethod.type.args, read (.var x.1) = []) :
    read t = [] ∨ read t = read (.path (Naming.staticHolder s.program entry.owner.name)) := by
  cases ht with
  | static supplied hsub => exact .inr (h.read_forward fun x hx => hparams x (hsub hx))
  | bound x supplied hx hsub =>
    rw [h.read_forward fun y hy => hparams y (hsub hy), h.read_convert]
    exact .inl (hparams x hx)

end PassedOn

end Reading

end HaxeBackend.Lowering
