import HaxeBackend.Proofs.Lowering.Variables

/-!
# Locals that share a variable

A local gets the first of its candidates that is free or has its type.  Variables are only added, so the ones there
are in the end tell which candidate that was (`exists_getElem?_localNames`), and two locals of one type share a variable
exactly when their names are escaped to one word, or when one of them gets the own name of the other (`Gets.eq_iff`).
Both happen to locals of different names.  They do not when no name is a candidate of another one (`Separated`), and
with any other set of names there are locals that share by accident (`distinctLocals_iff`).
-/

namespace HaxeBackend.Lowering

open Naming (escapeMember IsNumbered)

variable {p : Program} {m : Method} {body : Body} {declared more : List (String × Ty)} {v w : LocalVar}
variable {a b name other : String} {s t : Ty} {i j : Nat} {S : Set Name}

/-! ### What a local gets -/

/-- The variable of a name and a type: the first candidate that has the type, with no free one in front of it. -/
def Gets (declared : List (String × Ty)) (base : String) (type : Ty) (name : String) : Prop :=
  ∃ k, name = numbered base k ∧ declared.lookup name = some type ∧
    ∀ l < k, ∃ t, declared.lookup (numbered base l) = some t ∧ t ≠ type

/-- A variable is the first candidate of its own name. -/
theorem Gets.own (h : declared.lookup name = some t) : Gets declared name t name :=
  ⟨0, rfl, h, by simp⟩

theorem Gets.unique (h : Gets declared a t name) (hother : Gets declared a t other) : name = other := by
  obtain ⟨k, rfl, hk, hbefore⟩ := h
  obtain ⟨l, rfl, hl, hbefore'⟩ := hother
  rcases Nat.lt_trichotomy k l with hlt | rfl | hlt
  · obtain ⟨type, htype, hne⟩ := hbefore' k hlt
    exact absurd (Option.some.inj (htype.symm.trans hk)) hne
  · rfl
  · obtain ⟨type, htype, hne⟩ := hbefore l hlt
    exact absurd (Option.some.inj (htype.symm.trans hl)) hne

/-- It stays the same when variables are added. -/
theorem Gets.mono (h : Gets declared a t name)
    (hmore : ∀ name t, declared.lookup name = some t → more.lookup name = some t) : Gets more a t name := by
  obtain ⟨k, hname, hk, hbefore⟩ := h
  refine ⟨k, hname, hmore _ _ hk, fun l hl => ?_⟩
  obtain ⟨type, htype, hne⟩ := hbefore l hl
  exact ⟨type, hmore _ _ htype, hne⟩

/-- Two names get one variable exactly when they get it for one type and are the same name, or when the variable is
the own name of one of them. -/
theorem Gets.eq_iff (h : Gets declared a s name) (hother : Gets declared b t other) :
    name = other ↔ s = t ∧ (a = b ∨ name = b ∨ other = a) := by
  constructor
  · rintro rfl
    obtain ⟨k, hk, htype, -⟩ := h
    obtain ⟨l, hl, htype', -⟩ := hother
    refine ⟨Option.some.inj (htype.symm.trans htype'), ?_⟩
    rcases numbered_cases (hk.symm.trans hl) with ⟨hbase, -⟩ | ⟨-, hown⟩ | ⟨-, hown⟩
    · exact .inl hbase
    · exact .inr (.inr (hl.trans hown.symm))
    · exact .inr (.inl (hk.trans hown.symm))
  · rintro ⟨rfl, rfl | rfl | rfl⟩
    · exact h.unique hother
    · obtain ⟨k, -, htype, -⟩ := h
      exact (Gets.own htype).unique hother
    · obtain ⟨k, -, htype, -⟩ := hother
      exact h.unique (.own htype)

/-! ### All variables -/

theorem lookup_afterLocal (h : declared.lookup name = some t) : (afterLocal declared v).lookup name = some t := by
  unfold afterLocal
  rcases hchoice : chooseName declared v with ⟨chosen, _ | _⟩
  · exact h
  · obtain ⟨-, -, hfree, -⟩ := chooseName_spec hchoice
    have hne : (name == chosen) = false := by
      rw [beq_eq_false_iff_ne]
      rintro rfl
      rw [h] at hfree
      cases hfree
    rw [if_pos rfl, List.lookup_cons, hne]
    exact h

theorem lookup_foldl_afterLocal (vars : List LocalVar) (h : declared.lookup name = some t) :
    (vars.foldl afterLocal declared).lookup name = some t := by
  induction vars generalizing declared with
  | nil => exact h
  | cons v rest ih => exact ih (lookup_afterLocal h)

theorem gets_chooseName (declared : List (String × Ty)) (v : LocalVar) :
    Gets (afterLocal declared v) (escapeMember v.name) v.type (chooseName declared v).1 := by
  rcases hchoice : chooseName declared v with ⟨name, isNew⟩
  obtain ⟨k, hname, hlookup, hbefore⟩ := chooseName_spec hchoice
  have hvar : (afterLocal declared v).lookup name = some v.type := by
    unfold afterLocal
    rw [hchoice]
    cases isNew with
    | false => exact hlookup
    | true => exact List.lookup_cons_self
  refine ⟨k, hname, hvar, fun l hl => ?_⟩
  obtain ⟨type, htype, hne⟩ := hbefore l hl
  exact ⟨type, lookup_afterLocal htype, hne⟩

/-- What a local gets can be read off the variables there are in the end. -/
theorem forall₂_gets (p : Program) (declared : List (String × Ty)) (vars : List LocalVar) :
    List.Forall₂ (fun v => Gets (vars.foldl afterLocal declared) (escapeMember v.name) v.type) vars
      (declareLocals p declared vars).1 := by
  induction vars generalizing declared with
  | nil => exact .nil
  | cons v rest ih =>
    rw [declareLocals_cons]
    exact .cons ((gets_chooseName declared v).mono fun _ _ => lookup_foldl_afterLocal rest) (ih _)

/-- The target names of the locals of a body. -/
def localNames (p : Program) (m : Method) (body : Body) : List String :=
  (declareLocals p (paramNames m).reverse body.locals.toList).1

/-- The variables of a method with a body, with their types. -/
def allVariables (m : Method) (body : Body) : List (String × Ty) :=
  body.locals.toList.foldl afterLocal (paramNames m).reverse

private theorem exists_getElem?_of_forall₂ {α β : Type} {R : α → β → Prop} {l : List α} {l' : List β}
    (h : List.Forall₂ R l l') {x : α} (hx : l[i]? = some x) : ∃ y, l'[i]? = some y ∧ R x y := by
  induction h generalizing i with
  | nil => cases hx
  | cons hhead _ ih =>
    cases i with
    | zero =>
      cases hx
      exact ⟨_, rfl, hhead⟩
    | succ i => exact ih hx

theorem exists_getElem?_localNames (p : Program) (m : Method) (hv : body.locals[i]? = some v) :
    ∃ name, (localNames p m body)[i]? = some name ∧ Gets (allVariables m body) (escapeMember v.name) v.type name := by
  rw [← Array.getElem?_toList] at hv
  exact exists_getElem?_of_forall₂ (forall₂_gets p (paramNames m).reverse body.locals.toList) hv

/-! ### Parameters -/

/-- The name of a parameter behind others: its own, or its position behind it. -/
def paramName (seen : List (String × Ty)) (param : Param) : String :=
  if seen.any fun (n, _) => n == escapeMember param.name then s!"{escapeMember param.name}_{seen.length}"
  else escapeMember param.name

theorem paramNamesFrom_cons (seen : List (String × Ty)) (param : Param) (rest : List Param) :
    paramNamesFrom seen.length seen (param :: rest) =
      paramNamesFrom (seen ++ [(paramName seen param, param.type)]).length
        (seen ++ [(paramName seen param, param.type)]) rest := by
  rw [List.length_append]
  rfl

private theorem paramName_cases (seen : List (String × Ty)) (param : Param) :
    (paramName seen param = numbered (escapeMember param.name) 0 ∧ paramName seen param ∉ seen.map Prod.fst) ∨
      paramName seen param = numbered (escapeMember param.name) seen.length := by
  unfold paramName
  split
  · rename_i htaken
    obtain ⟨entry, hmem, -⟩ := List.any_eq_true.1 htaken
    obtain ⟨n, hn⟩ := Nat.exists_eq_add_one_of_ne_zero (Nat.ne_of_gt (List.length_pos_of_mem hmem))
    rw [hn]
    exact .inr rfl
  · rename_i hfree
    refine .inl ⟨rfl, fun hmem => hfree ?_⟩
    obtain ⟨entry, hentry, heq⟩ := List.mem_map.1 hmem
    exact List.any_eq_true.2 ⟨entry, hentry, beq_iff_eq.2 heq⟩

private theorem exists_paramNamesFrom (seen : List (String × Ty)) (params : List Param) :
    ∃ entries, paramNamesFrom seen.length seen params = seen ++ entries ∧
      List.Forall₂ (fun param entry => entry.2 = param.type ∧ ∃ k, entry.1 = numbered (escapeMember param.name) k)
        params entries := by
  induction params generalizing seen with
  | nil => exact ⟨[], (List.append_nil seen).symm, .nil⟩
  | cons param rest ih =>
    obtain ⟨entries, heq, hentries⟩ := ih (seen ++ [(paramName seen param, param.type)])
    refine ⟨(paramName seen param, param.type) :: entries, ?_, .cons ⟨rfl, ?_⟩ hentries⟩
    · rw [paramNamesFrom_cons, heq, List.append_assoc, List.singleton_append]
    · rcases paramName_cases seen param with ⟨hown, -⟩ | hnumbered
      · exact ⟨0, hown⟩
      · exact ⟨seen.length, hnumbered⟩

/-- A parameter keeps its type and is called by one of its candidates. -/
theorem exists_getElem?_paramNames {m : Method} {param : Param} (h : m.params[i]? = some param) :
    ∃ name k, (paramNames m)[i]? = some (name, param.type) ∧ name = numbered (escapeMember param.name) k := by
  obtain ⟨entries, heq, hentries⟩ := exists_paramNamesFrom [] m.params
  obtain ⟨⟨name, type⟩, hentry, htype, k, hname⟩ := exists_getElem?_of_forall₂ hentries h
  refine ⟨name, k, ?_, hname⟩
  rw [paramNames, ← List.length_nil, heq, List.nil_append, hentry]
  exact congrArg (fun t => some (name, t)) htype

/-- Parameters are variables, the last one of a name with its type. -/
theorem lookup_allVariables (body : Body) (h : (paramNames m).reverse.lookup name = some t) :
    (allVariables m body).lookup name = some t :=
  lookup_foldl_afterLocal body.locals.toList h

/-! ### Names that are told apart -/

/-- No name of a set is a candidate of another one. -/
def Separated (S : Set Name) : Prop :=
  ∀ a ∈ S, ∀ b ∈ S, ∀ k, escapeMember a = numbered (escapeMember b) k → a = b

theorem Separated.eq_of_numbered (hS : Separated S) (ha : a ∈ S) (hb : b ∈ S)
    (h : numbered (escapeMember a) i = numbered (escapeMember b) j) : a = b ∧ i = j := by
  have heq : a = b := by
    rcases numbered_cases h with ⟨hbase, -⟩ | ⟨-, hown⟩ | ⟨-, hown⟩
    · exact hS a ha b hb 0 hbase
    · exact hS a ha b hb j hown
    · exact (hS b hb a ha i hown).symm
  subst heq
  exact ⟨rfl, numbered_injective _ h⟩

/-- Names that stay apart when they are escaped, and do not look like numbered names then. -/
theorem separated_of_not_isNumbered (hinj : ∀ a ∈ S, ∀ b ∈ S, escapeMember a = escapeMember b → a = b)
    (hplain : ∀ a ∈ S, ¬IsNumbered (escapeMember a)) : Separated S := by
  intro a ha b hb k h
  cases k with
  | zero => exact hinj a ha b hb h
  | succ k => exact absurd ⟨_, k + 1, h⟩ (hplain a ha)

private theorem nodup_paramNamesFrom (hS : Separated S) (seen : List (String × Ty)) (params : List Param)
    (hparams : ∀ param ∈ params, param.name ∈ S) (hnodup : (seen.map Prod.fst).Nodup)
    (hseen : ∀ name ∈ seen.map Prod.fst, ∃ a ∈ S, ∃ k < seen.length, name = numbered (escapeMember a) k) :
    ((paramNamesFrom seen.length seen params).map Prod.fst).Nodup := by
  induction params generalizing seen with
  | nil => exact hnodup
  | cons param rest ih =>
    obtain ⟨hparam, hrest⟩ := List.forall_mem_cons.1 hparams
    have hlength : (seen ++ [(paramName seen param, param.type)]).length = seen.length + 1 := by simp
    have hcases := paramName_cases seen param
    -- a position is behind all the positions that were used before
    have hfresh : paramName seen param ∉ seen.map Prod.fst := by
      rcases hcases with ⟨-, hfree⟩ | hnumbered
      · exact hfree
      · intro hmem
        obtain ⟨a, ha, k, hk, hname⟩ := hseen _ hmem
        obtain ⟨-, hnumber⟩ := hS.eq_of_numbered hparam ha (hnumbered.symm.trans hname)
        exact Nat.ne_of_gt hk hnumber
    rw [paramNamesFrom_cons]
    refine ih _ hrest ?_ fun name hname => ?_
    · rw [List.map_append, List.map_singleton, ← List.concat_eq_append]
      exact hnodup.concat hfresh
    · rw [hlength]
      rw [List.map_append, List.map_singleton, List.mem_append, List.mem_singleton] at hname
      rcases hname with hname | rfl
      · obtain ⟨a, ha, k, hk, heq⟩ := hseen name hname
        exact ⟨a, ha, k, Nat.lt_succ_of_lt hk, heq⟩
      · rcases hcases with ⟨hown, -⟩ | hnumbered
        · exact ⟨param.name, hparam, 0, Nat.succ_pos _, hown⟩
        · exact ⟨param.name, hparam, seen.length, Nat.lt_succ_self _, hnumbered⟩

/-- The locals of a method with a body are told apart: two of them share a variable, and one of them is a parameter,
only if they have the same name and the same type. -/
structure DistinctLocals (p : Program) (m : Method) (body : Body) : Prop where
  locals : ∀ (i j : Nat) (v w : LocalVar), body.locals[i]? = some v → body.locals[j]? = some w →
    (localNames p m body)[i]? = (localNames p m body)[j]? → v.name = w.name ∧ v.type = w.type
  params : ∀ (i j : Nat) (v : LocalVar) (param : Param), body.locals[i]? = some v → m.params[j]? = some param →
    (localNames p m body)[i]? = ((paramNames m)[j]?).map Prod.fst → v.name = param.name ∧ v.type = param.type

/-- The source names of the parameters and the locals. -/
def sourceNames (m : Method) (body : Body) : List Name :=
  m.params.map Param.name ++ body.locals.toList.map LocalVar.name

private theorem mem_sourceNames_local (h : body.locals[i]? = some v) : v.name ∈ sourceNames m body :=
  List.mem_append_right _ (List.mem_map_of_mem (Array.mem_toList_iff.2 (Array.mem_of_getElem? h)))

private theorem mem_sourceNames_param {param : Param} (h : m.params[i]? = some param) :
    param.name ∈ sourceNames m body :=
  List.mem_append_left _ (List.mem_map_of_mem (List.mem_of_getElem? h))

private theorem lookup_paramNames {type : Ty} (hnodup : ((paramNames m).map Prod.fst).Nodup)
    (h : (name, type) ∈ paramNames m) : (paramNames m).reverse.lookup name = some type := by
  obtain ⟨pre, post, hsplit⟩ := List.append_of_mem (List.mem_reverse.2 h)
  have hkeys : ((paramNames m).reverse.map Prod.fst).Nodup := by
    rw [List.map_reverse]
    exact List.nodup_reverse.2 hnodup
  rw [hsplit, List.map_append, List.map_cons, List.nodup_append] at hkeys
  rw [List.lookup_eq_some_iff]
  refine ⟨pre, post, hsplit, fun entry hentry => bne_iff_ne.2 fun heq => ?_⟩
  exact hkeys.2.2 entry.1 (List.mem_map_of_mem hentry) name List.mem_cons_self heq.symm

theorem distinctLocals_of_separated (p : Program) (hS : Separated S) (hnames : ∀ name ∈ sourceNames m body, name ∈ S) :
    DistinctLocals p m body := by
  constructor
  · intro i j v w hv hw hshared
    obtain ⟨x, hx, k, hk, hlookup, -⟩ := exists_getElem?_localNames p m hv
    obtain ⟨y, hy, l, hl, hlookup', -⟩ := exists_getElem?_localNames p m hw
    obtain rfl : x = y := Option.some.inj (hx.symm.trans (hshared.trans hy))
    exact ⟨(hS.eq_of_numbered (hnames _ (mem_sourceNames_local hv)) (hnames _ (mem_sourceNames_local hw))
      (hk.symm.trans hl)).1, Option.some.inj (hlookup.symm.trans hlookup')⟩
  · intro i j v param hv hparam hshared
    obtain ⟨x, hx, k, hk, hlookup, -⟩ := exists_getElem?_localNames p m hv
    obtain ⟨y, l, hy, hl⟩ := exists_getElem?_paramNames hparam
    obtain rfl : x = y := by
      rw [hx, hy] at hshared
      exact Option.some.inj hshared
    -- no later parameter has the same target name, so the type that is found is this one's
    have hparams : ∀ param ∈ m.params, param.name ∈ S := fun param hmem =>
      hnames _ (List.mem_append_left _ (List.mem_map_of_mem hmem))
    have hnodup : ((paramNames m).map Prod.fst).Nodup := nodup_paramNamesFrom hS [] m.params hparams .nil (by simp)
    have htype := lookup_allVariables body (lookup_paramNames hnodup (List.mem_of_getElem? hy))
    exact ⟨(hS.eq_of_numbered (hnames _ (mem_sourceNames_local hv)) (hnames _ (mem_sourceNames_param hparam))
      (hk.symm.trans hl)).1, Option.some.inj (hlookup.symm.trans htype)⟩

/-! ### Names that are not told apart -/

/-- As many types as there are numbers. -/
private def arrayType (n : Nat) : Ty := .array (.prim .int) (n + 1)

private theorem arrayType_injective : Function.Injective arrayType := by
  intro n n' h
  exact Nat.succ.inj (Ty.array.inj h).2

/-- What so many locals of one name get when no two of them have the same type. -/
private def crowd (base : String) : Nat → List (String × Ty)
  | 0 => []
  | n + 1 => (numbered base n, arrayType n) :: crowd base n

private theorem lookup_crowd (base : String) (n k : Nat) :
    (crowd base n).lookup (numbered base k) = if k < n then some (arrayType k) else none := by
  induction n with
  | zero => rfl
  | succ n ih =>
    rw [crowd, List.lookup_cons]
    by_cases hk : k = n
    · subst hk
      simp
    · have hne : (numbered base k == numbered base n) = false :=
        beq_eq_false_iff_ne.2 fun h => hk (numbered_injective base h)
      have hlt : k < n + 1 ↔ k < n := by omega
      rw [hne, ih]
      simp only [hlt]

private theorem afterLocal_crowd (b : Name) (n : Nat) :
    afterLocal (crowd (escapeMember b) n) ⟨b, arrayType n⟩ = crowd (escapeMember b) (n + 1) := by
  rcases hchoice : chooseName (crowd (escapeMember b) n) ⟨b, arrayType n⟩ with ⟨name, isNew⟩
  obtain ⟨k, rfl, hlookup, hbefore⟩ := chooseName_spec hchoice
  rw [lookup_crowd] at hlookup
  -- the smaller numbers are taken by other types, and this one is free
  have hk : k = n := by
    rcases Nat.lt_trichotomy k n with hlt | rfl | hlt
    · rw [if_pos hlt] at hlookup
      cases isNew with
      | true => cases hlookup
      | false => exact arrayType_injective (Option.some.inj hlookup)
    · rfl
    · obtain ⟨t, ht, -⟩ := hbefore n hlt
      rw [lookup_crowd, if_neg (Nat.lt_irrefl n)] at ht
      cases ht
  subst hk
  rw [if_neg (Nat.lt_irrefl k)] at hlookup
  cases isNew with
  | false => cases hlookup
  | true => rw [afterLocal, hchoice]; rfl

/-- So many locals of one name, no two of them of the same type. -/
private def crowdLocals (b : Name) (n : Nat) : List LocalVar := (List.range n).map fun k => ⟨b, arrayType k⟩

private theorem foldl_crowdLocals (b : Name) (n : Nat) :
    (crowdLocals b n).foldl afterLocal [] = crowd (escapeMember b) n := by
  induction n with
  | zero => rfl
  | succ n ih =>
    rw [crowdLocals, List.range_succ, List.map_append, List.foldl_append, ← crowdLocals, ih]
    exact afterLocal_crowd b n

/-- A method without parameters. -/
private def paramless : Method where
  id := 0
  name := "m"
  params := []
  ret := .void
  modifiers := .standard
  annotations := []
  paramAnnotations := []
  defaultValue := none
  body := none

/-- Locals of one name, and behind them a local of another name that has the type of the last one. -/
private def crowdBody (a b : Name) (n : Nat) : Body where
  locals := (crowdLocals b (n + 1) ++ [(⟨a, arrayType n⟩ : LocalVar)]).toArray

private theorem eq_of_distinctLocals_crowdBody {a b : Name} {k : Nat}
    (hcandidate : escapeMember a = numbered (escapeMember b) k) (h : DistinctLocals p paramless (crowdBody a b k)) :
    a = b := by
  have hlength : (crowdLocals b (k + 1)).length = k + 1 := by simp [crowdLocals]
  have hfirst : (crowdBody a b k).locals[k]? = some ⟨b, arrayType k⟩ := by
    rw [← Array.getElem?_toList, crowdBody, List.getElem?_append_left (by omega)]
    simp [crowdLocals]
  have hsecond : (crowdBody a b k).locals[k + 1]? = some ⟨a, arrayType k⟩ := by
    rw [← Array.getElem?_toList, crowdBody, List.getElem?_append_right (by omega), hlength]
    simp
  have hvars : ∀ l ≤ k, (allVariables paramless (crowdBody a b k)).lookup (numbered (escapeMember b) l) =
      some (arrayType l) := by
    intro l hl
    have hcrowd : (crowd (escapeMember b) (k + 1)).lookup (numbered (escapeMember b) l) = some (arrayType l) := by
      rw [lookup_crowd, if_pos (Nat.lt_succ_of_le hl)]
    rw [← foldl_crowdLocals] at hcrowd
    rw [allVariables, crowdBody, List.foldl_append]
    exact lookup_foldl_afterLocal _ hcrowd
  -- the last local of the crowd has number `k`, and the other name is that very word
  have hbase : Gets (allVariables paramless (crowdBody a b k)) (escapeMember b) (arrayType k)
      (numbered (escapeMember b) k) := by
    refine ⟨k, rfl, hvars k (Nat.le_refl k), fun l hl => ⟨_, hvars l (Nat.le_of_lt hl), fun heq => ?_⟩⟩
    exact Nat.ne_of_lt hl (arrayType_injective heq)
  have hown : Gets (allVariables paramless (crowdBody a b k)) (escapeMember a) (arrayType k)
      (numbered (escapeMember b) k) := by
    rw [hcandidate]
    exact .own (hvars k (Nat.le_refl k))
  obtain ⟨x, hx, hgets⟩ := exists_getElem?_localNames p paramless hfirst
  obtain ⟨y, hy, hgets'⟩ := exists_getElem?_localNames p paramless hsecond
  have hshared : y = x := (hgets'.unique hown).trans (hgets.unique hbase).symm
  exact (h.locals (k + 1) k _ _ hsecond hfirst (by rw [hx, hy, hshared])).1

/-- Locals share a variable exactly when they have one type and one escaped name, or when one of them gets the own name
of the other.  A local shares the variable of a parameter only if it has the type of the last parameter of that name,
and then the names are related in the same way.  Locals are told apart in all methods with names from a set exactly
when the names are separated. -/
theorem distinctLocals_iff (p : Program) :
    (∀ (m : Method) (body : Body) (i j : Nat) (v w : LocalVar),
      body.locals[i]? = some v → body.locals[j]? = some w →
        ((localNames p m body)[i]? = (localNames p m body)[j]? ↔
          v.type = w.type ∧ (escapeMember v.name = escapeMember w.name ∨
            (localNames p m body)[i]? = some (escapeMember w.name) ∨
            (localNames p m body)[j]? = some (escapeMember v.name)))) ∧
    (∀ (m : Method) (body : Body) (i j : Nat) (v : LocalVar) (param : Param) (name : String),
      body.locals[i]? = some v → m.params[j]? = some param →
        (localNames p m body)[i]? = some name → ((paramNames m)[j]?).map Prod.fst = some name →
          (paramNames m).reverse.lookup name = some v.type ∧ (escapeMember v.name = escapeMember param.name ∨
            name = escapeMember param.name ∨ name = escapeMember v.name)) ∧
    ∀ S : Set Name,
      (∀ m body, (∀ name ∈ sourceNames m body, name ∈ S) → DistinctLocals p m body) ↔ Separated S := by
  refine ⟨?_, ?_, fun S => ⟨fun h a ha b hb k hcandidate => ?_, fun hS m body => distinctLocals_of_separated p hS⟩⟩
  · intro m body i j v w hv hw
    obtain ⟨x, hx, hgets⟩ := exists_getElem?_localNames p m hv
    obtain ⟨y, hy, hgets'⟩ := exists_getElem?_localNames p m hw
    rw [hx, hy, Option.some_inj, Option.some_inj, Option.some_inj]
    exact hgets.eq_iff hgets'
  · intro m body i j v param name hv hparam hname hshared
    obtain ⟨x, hx, k, hk, hlookup, -⟩ := exists_getElem?_localNames p m hv
    obtain ⟨y, l, hy, hl⟩ := exists_getElem?_paramNames hparam
    obtain rfl : x = name := Option.some.inj (hx.symm.trans hname)
    obtain rfl : y = x := by
      rw [hy] at hshared
      exact Option.some.inj hshared
    -- the type is that of the last parameter of the name, since those are looked up from the back
    refine ⟨?_, ?_⟩
    · cases htype : (paramNames m).reverse.lookup y with
      | none =>
        have hmem := List.mem_reverse.2 (List.mem_of_getElem? hy)
        exact absurd (List.lookup_eq_none_iff.1 htype _ hmem) (by simp)
      | some t => rw [← hlookup, lookup_allVariables body htype]
    · rcases numbered_cases (hk.symm.trans hl) with ⟨hbase, -⟩ | ⟨-, hown⟩ | ⟨-, hown⟩
      · exact .inl hbase
      · exact .inr (.inr (hl.trans hown.symm))
      · exact .inr (.inl (hk.trans hown.symm))
  · -- a crowd of locals of one name drives the numbers up to the one that another name spells out
    refine eq_of_distinctLocals_crowdBody hcandidate (h paramless (crowdBody a b k) fun name hname => ?_)
    have hcases : ((∃ l, l < k + 1) ∧ b = name) ∨ name = a := by
      simpa [sourceNames, paramless, crowdBody, crowdLocals] using hname
    rcases hcases with ⟨-, rfl⟩ | rfl
    · exact hb
    · exact ha

/-- A parameter, and locals of its name with and without its type. -/
private def clashMethod : Method := { paramless with params := [⟨"v", .prim .int⟩] }

private def clashBody : Body where
  locals := #[⟨"v", .prim .int⟩, ⟨"v", .bool⟩, ⟨"v", .bool⟩, ⟨"class", .prim .double⟩]

theorem distinctLocals_iff_clash :
    localNames .empty clashMethod clashBody = ["v", "v_1", "v_1", "class_"] ∧
      DistinctLocals .empty clashMethod clashBody := by
  refine ⟨by decide, ((distinctLocals_iff .empty).2.2 fun name => name = "v" ∨ name = "class").2 ?_ _ _ ?_⟩
  · refine separated_of_not_isNumbered ?_ ?_
    · rintro a (rfl | rfl) b (rfl | rfl) h
      · rfl
      · exact absurd h (by decide)
      · exact absurd h (by decide)
      · rfl
    · rintro a (rfl | rfl)
      · exact Naming.not_isNumbered_of_not_mem (by decide)
      · exact Naming.not_isNumbered_of_getLast? (c := '_') (by decide) (by decide)
  · show ∀ name ∈ ["v", "v", "v", "v", "class"], name = "v" ∨ name = "class"
    decide

/-- Names that are escaped to one word. -/
private def lossyBody : Body where
  locals := #[⟨"a$b", .prim .int⟩, ⟨"a_b", .prim .int⟩]

/-- A name that another one gets with a number. -/
private def numberedBody : Body where
  locals := #[⟨"v", .prim .int⟩, ⟨"v", .bool⟩, ⟨"v_1", .bool⟩]

private def lossyMethod : Method := { paramless with params := [⟨"a$b", .prim .int⟩] }

private def ownBody : Body where
  locals := #[⟨"a_b", .prim .int⟩]

/-- Locals of one type share a variable though their names are different, and so does a local with a parameter. -/
theorem distinctLocals_fails :
    (localNames .empty paramless lossyBody = ["a_b", "a_b"] ∧ ¬DistinctLocals .empty paramless lossyBody) ∧
      (localNames .empty paramless numberedBody = ["v", "v_1", "v_1"] ∧
        ¬DistinctLocals .empty paramless numberedBody) ∧
      localNames .empty lossyMethod ownBody = (paramNames lossyMethod).map Prod.fst ∧
        ¬DistinctLocals .empty lossyMethod ownBody := by
  have hlossy : localNames .empty paramless lossyBody = ["a_b", "a_b"] := by decide
  have hnumbered : localNames .empty paramless numberedBody = ["v", "v_1", "v_1"] := by decide
  have hparam : localNames .empty lossyMethod ownBody = (paramNames lossyMethod).map Prod.fst := by decide
  refine ⟨⟨hlossy, fun h => ?_⟩, ⟨hnumbered, fun h => ?_⟩, hparam, fun h => ?_⟩
  · have hnames := h.locals 0 1 ⟨"a$b", .prim .int⟩ ⟨"a_b", .prim .int⟩ rfl rfl (by rw [hlossy]; rfl)
    exact absurd hnames.1 (by decide)
  · have hnames := h.locals 1 2 ⟨"v", .bool⟩ ⟨"v_1", .bool⟩ rfl rfl (by rw [hnumbered]; rfl)
    exact absurd hnames.1 (by decide)
  · have hnames := h.params 0 0 ⟨"a_b", .prim .int⟩ ⟨"a$b", .prim .int⟩ rfl rfl (by rw [hparam]; rfl)
    exact absurd hnames.1 (by decide)

end HaxeBackend.Lowering
