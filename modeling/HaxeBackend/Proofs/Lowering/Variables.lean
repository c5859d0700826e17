import HaxeBackend.Lowering.Body
import HaxeBackend.Proofs.Naming.Variables

/-!
# Names of variables

A local is called by one of its candidates: its own name, or that name with a number behind it (`chooseName_spec`).  A
name that is not numbered belongs to a variable exactly when a parameter or a local has it for its own
(`mem_variables_iff`): the first one always gets it.
-/

namespace HaxeBackend.Lowering

open Naming (escapeMember IsNumbered)

variable {p : Program} {declared : List (String × Ty)} {v : LocalVar} {name a b : String} {i j : Nat}

/-! ### Candidates -/

/-- The candidates of a name, counted: the name itself has number zero. -/
def numbered (base : String) : Nat → String
  | 0 => base
  | n + 1 => s!"{base}_{n + 1}"

theorem candidates_eq_map_numbered (base : String) (taken : Nat) :
    candidates base taken = (List.range (taken + 1)).map (numbered base) := by
  rw [List.range_succ_eq_map, List.map_cons, List.map_map]
  rfl

/-- A candidate of two names is the same candidate of the same name, or one name is a candidate of the other. -/
theorem numbered_cases (h : numbered a i = numbered b j) :
    (a = b ∧ i = j) ∨ (i = 0 ∧ a = numbered b j) ∨ (j = 0 ∧ b = numbered a i) := by
  cases i with
  | zero => exact .inr (.inl ⟨rfl, h⟩)
  | succ i =>
    cases j with
    | zero => exact .inr (.inr ⟨rfl, h.symm⟩)
    | succ j => exact .inl (Naming.numbered_inj h)

theorem numbered_injective (base : String) : Function.Injective (numbered base) := by
  intro i j h
  rcases numbered_cases h with ⟨-, hnumber⟩ | ⟨rfl, hown⟩ | ⟨rfl, hown⟩
  · exact hnumber
  · cases j with
    | zero => rfl
    | succ j => exact absurd hown.symm (Naming.numbered_ne base (j + 1))
  · cases i with
    | zero => rfl
    | succ i => exact absurd hown.symm (Naming.numbered_ne base (i + 1))

private theorem nodup_candidates (base : String) (taken : Nat) : (candidates base taken).Nodup := by
  rw [candidates_eq_map_numbered]
  exact List.nodup_range.map (numbered_injective base)

/-- There are more candidates than variables, so one of them is free. -/
private theorem exists_free_candidate (base : String) (declared : List (String × Ty)) :
    ∃ name ∈ candidates base declared.length, declared.lookup name = none := by
  by_contra hnone
  push Not at hnone
  have hsubset : candidates base declared.length ⊆ declared.map Prod.fst := by
    intro name hname
    obtain ⟨type, htype⟩ := Option.ne_none_iff_exists'.1 (hnone name hname)
    obtain ⟨before, after, rfl, -⟩ := List.lookup_eq_some_iff.1 htype
    simp
  have hlength := (nodup_candidates base declared.length).length_le_of_subset hsubset
  simp only [candidates, List.length_cons, List.length_map, List.length_range] at hlength
  omega

/-! ### The choice of a name -/

private theorem map_range_split {α : Type} {f : Nat → α} {n : Nat} {pre post : List α} {x : α}
    (h : (List.range n).map f = pre ++ x :: post) : x = f pre.length ∧ ∀ l < pre.length, f l ∈ pre := by
  have hget : ∀ l y, (pre ++ x :: post)[l]? = some y → f l = y := by
    intro l y hy
    rw [← h, List.getElem?_map, Option.map_eq_some_iff] at hy
    obtain ⟨k, hk, rfl⟩ := hy
    obtain ⟨-, rfl⟩ := List.getElem?_eq_some_iff.1 hk
    rw [List.getElem_range]
  refine ⟨(hget _ x ?_).symm, fun l hl => ?_⟩
  · rw [List.getElem?_append_right (Nat.le_refl _), Nat.sub_self, List.getElem?_cons_zero]
  · rw [hget l pre[l] (by rw [List.getElem?_append_left hl, List.getElem?_eq_getElem hl])]
    exact List.getElem_mem hl

/-- What a candidate comes to for a local of a type: a new variable, one that is there, or nothing. -/
private def offer (declared : List (String × Ty)) (type : Ty) (candidate : String) : Option (String × Bool) :=
  match declared.lookup candidate with
  | none => some (candidate, true)
  | some t => if t = type then some (candidate, false) else none

private theorem chooseName_eq (declared : List (String × Ty)) (v : LocalVar) :
    chooseName declared v =
      ((candidates (escapeMember v.name) declared.length).findSome? (offer declared v.type)).getD
        (escapeMember v.name, false) :=
  rfl

private theorem eq_of_offer {type : Ty} {isNew : Bool} (h : offer declared type a = some (name, isNew)) :
    name = a ∧ declared.lookup name = if isNew then none else some type := by
  unfold offer at h
  split at h
  · rename_i hnone
    cases h
    exact ⟨rfl, hnone⟩
  · split at h
    · rename_i hsome htype
      cases h
      exact ⟨rfl, htype ▸ hsome⟩
    · cases h

private theorem exists_of_offer_eq_none {type : Ty} (h : offer declared type a = none) :
    ∃ t, declared.lookup a = some t ∧ t ≠ type := by
  unfold offer at h
  split at h
  · cases h
  · rename_i t ht
    split at h
    · cases h
    · exact ⟨t, ht, ‹_›⟩

/-- The choice is a candidate with nothing but variables of other types in front. -/
theorem chooseName_spec {isNew : Bool} (h : chooseName declared v = (name, isNew)) :
    ∃ k, name = numbered (escapeMember v.name) k ∧ declared.lookup name = (if isNew then none else some v.type) ∧
      ∀ l < k, ∃ t, declared.lookup (numbered (escapeMember v.name) l) = some t ∧ t ≠ v.type := by
  rw [chooseName_eq] at h
  cases hchoice : (candidates (escapeMember v.name) declared.length).findSome? (offer declared v.type) with
  | none =>
    obtain ⟨free, hmem, hfree⟩ := exists_free_candidate (escapeMember v.name) declared
    obtain ⟨t, ht, -⟩ := exists_of_offer_eq_none (List.findSome?_eq_none_iff.1 hchoice free hmem)
    rw [hfree] at ht
    cases ht
  | some choice =>
    obtain rfl : choice = (name, isNew) := by simpa [hchoice] using h
    rw [candidates_eq_map_numbered, List.findSome?_eq_some_iff] at hchoice
    obtain ⟨pre, candidate, post, hsplit, hchosen, hpre⟩ := hchoice
    obtain ⟨rfl, hbefore⟩ := map_range_split hsplit
    obtain ⟨rfl, hlookup⟩ := eq_of_offer hchosen
    exact ⟨pre.length, rfl, hlookup, fun l hl => exists_of_offer_eq_none (hpre _ (hbefore l hl))⟩

private theorem lookup_eq_none_iff {declared : List (String × Ty)} :
    declared.lookup name = none ↔ name ∉ declared.map Prod.fst := by
  rw [List.lookup_eq_none_iff, List.mem_map]
  constructor
  · rintro h ⟨x, hx, rfl⟩
    simpa using h x hx
  · intro h x hx
    exact bne_iff_ne.2 fun heq => h ⟨x, hx, heq.symm⟩

/-- A name is new when no variable has it. -/
private theorem isNew_iff {isNew : Bool} (h : chooseName declared v = (name, isNew)) :
    isNew = true ↔ name ∉ declared.map Prod.fst := by
  obtain ⟨-, -, hlookup, -⟩ := chooseName_spec h
  rw [← lookup_eq_none_iff, hlookup]
  cases isNew <;> simp

/-- The variables there are after a local. -/
def afterLocal (declared : List (String × Ty)) (v : LocalVar) : List (String × Ty) :=
  if (chooseName declared v).2 then ((chooseName declared v).1, v.type) :: declared else declared

theorem declareLocals_cons (p : Program) (declared : List (String × Ty)) (v : LocalVar) (rest : List LocalVar) :
    (declareLocals p declared (v :: rest)).1 =
      (chooseName declared v).1 :: (declareLocals p (afterLocal declared v) rest).1 := by
  rw [declareLocals, afterLocal]
  rcases chooseName declared v with ⟨name, _ | _⟩ <;> rfl

theorem exists_of_mem_declareLocals {declared : List (String × Ty)} {vars : List LocalVar}
    (h : name ∈ (declareLocals p declared vars).1) :
    ∃ v ∈ vars, name = escapeMember v.name ∨ ∃ n : Nat, name = s!"{escapeMember v.name}_{n}" := by
  induction vars generalizing declared with
  | nil => cases h
  | cons v rest ih =>
    rw [declareLocals_cons] at h
    rcases List.mem_cons.1 h with rfl | h
    · obtain ⟨k, hk, -⟩ := chooseName_spec (Prod.eta (chooseName declared v)).symm
      refine ⟨v, List.mem_cons_self, ?_⟩
      cases k with
      | zero => exact .inl hk
      | succ n => exact .inr ⟨n + 1, hk⟩
    · obtain ⟨w, hw, hname⟩ := ih h
      exact ⟨w, List.mem_cons_of_mem _ hw, hname⟩

/-! ### Names that are not numbered -/

private theorem mem_paramNamesFrom_iff (hname : ¬IsNumbered name) (i : Nat) (seen : List (String × Ty))
    (params : List Param) :
    name ∈ (paramNamesFrom i seen params).map Prod.fst ↔
      name ∈ seen.map Prod.fst ∨ ∃ param ∈ params, escapeMember param.name = name := by
  induction params generalizing i seen with
  | nil => simp [paramNamesFrom]
  | cons param params ih =>
    rw [paramNamesFrom, ih, List.map_append, List.mem_append, List.exists_mem_cons_iff, or_assoc]
    refine or_congr_right' fun hseen => or_congr_left ?_
    rw [List.map_singleton, List.mem_singleton]
    generalize escapeMember param.name = base
    split
    · -- the name itself came before, and this one is numbered
      rename_i htaken
      constructor
      · rintro rfl
        exact absurd ⟨_, i, rfl⟩ hname
      · rintro rfl
        obtain ⟨⟨other, type⟩, hmem, heq⟩ := List.any_eq_true.1 htaken
        exact absurd (List.mem_map.2 ⟨(other, type), hmem, beq_iff_eq.1 heq⟩) hseen
    · exact eq_comm

/-- A local gets its own name, unless a variable has it already. -/
private theorem chooseName_eq_or_mem (declared : List (String × Ty)) (v : LocalVar) :
    chooseName declared v = (escapeMember v.name, true) ∨ escapeMember v.name ∈ declared.map Prod.fst := by
  cases hlookup : declared.lookup (escapeMember v.name) with
  | none =>
    left
    rw [chooseName_eq, candidates, List.findSome?_cons, offer, hlookup]
    rfl
  | some type =>
    right
    obtain ⟨pre, post, rfl, -⟩ := List.lookup_eq_some_iff.1 hlookup
    simp

private theorem mem_declareLocals_iff (hname : ¬IsNumbered name) (declared : List (String × Ty))
    (vars : List LocalVar) :
    (name ∈ declared.map Prod.fst ∨ name ∈ (declareLocals p declared vars).2.map Target.VarDecl.name) ↔
      name ∈ declared.map Prod.fst ∨ ∃ v ∈ vars, escapeMember v.name = name := by
  induction vars generalizing declared with
  | nil => simp [declareLocals]
  | cons v vars ih =>
    have hbase := chooseName_eq_or_mem declared v
    rw [List.exists_mem_cons_iff]
    rcases hchoice : chooseName declared v with ⟨chosen, _ | _⟩
    · -- the variable is there already
      have hmem : escapeMember v.name ∈ declared.map Prod.fst := by
        refine hbase.resolve_left fun h => ?_
        rw [hchoice] at h
        cases h
      have hdecls : (declareLocals p declared (v :: vars)).2 = (declareLocals p declared vars).2 := by
        rw [declareLocals, hchoice]
        rfl
      rw [hdecls, ih]
      refine or_congr_right' fun hother => ?_
      rw [or_iff_right]
      rintro rfl
      exact hother hmem
    · -- a new variable: only the first candidate of a name is no numbered name
      have hdecls : (declareLocals p declared (v :: vars)).2.map Target.VarDecl.name =
          chosen :: (declareLocals p ((chosen, v.type) :: declared) vars).2.map Target.VarDecl.name := by
        rw [declareLocals, hchoice]
        rfl
      have hmore := ih ((chosen, v.type) :: declared)
      rw [List.map_cons, List.mem_cons] at hmore
      rw [hdecls, List.mem_cons]
      have hown : name ∈ declared.map Prod.fst ∨ name = chosen ↔
          name ∈ declared.map Prod.fst ∨ escapeMember v.name = name := by
        refine or_congr_right' fun hother => ?_
        obtain ⟨k, rfl, -⟩ := chooseName_spec hchoice
        cases k with
        | zero => exact eq_comm
        | succ n =>
          constructor
          · rintro rfl
            exact absurd ⟨_, n + 1, rfl⟩ hname
          · rintro rfl
            rcases hbase with hfirst | hmem
            · rw [hchoice] at hfirst
              exact (Prod.mk.inj hfirst).1.symm
            · exact absurd hmem hother
      rw [← or_assoc, or_comm (a := name ∈ declared.map Prod.fst), hmore, or_comm (a := name = chosen), hown, or_assoc]

/-- The variables of a method with these locals: its parameters, and the locals that are declared. -/
theorem mem_variables_iff (hname : ¬IsNumbered name) (m : Method) (vars : List LocalVar) :
    (name ∈ (paramNames m).map Prod.fst ∨
      name ∈ (declareLocals p (paramNames m).reverse vars).2.map Target.VarDecl.name) ↔
    ∃ source ∈ m.params.map Param.name ++ vars.map LocalVar.name, escapeMember source = name := by
  have hparams : name ∈ (paramNames m).map Prod.fst ↔ ∃ param ∈ m.params, escapeMember param.name = name := by
    rw [paramNames, mem_paramNamesFrom_iff hname]
    simp
  have hlocals := mem_declareLocals_iff (p := p) hname (paramNames m).reverse vars
  rw [List.map_reverse, List.mem_reverse] at hlocals
  rw [hlocals, hparams]
  simp only [List.mem_append, List.mem_map, or_and_right, exists_or, exists_exists_and_eq_and]

/-! ### Declarations -/

/-- What is declared are new names, each once, and a local has one of them or a name that was there before. -/
theorem declareLocals_spec (declared : List (String × Ty)) (vars : List LocalVar) :
    ((declareLocals p declared vars).2.map Target.VarDecl.name).Nodup ∧
      (∀ name ∈ (declareLocals p declared vars).2.map Target.VarDecl.name,
        name ∉ declared.map Prod.fst ∧ name ∈ (declareLocals p declared vars).1) ∧
      ∀ name ∈ (declareLocals p declared vars).1,
        name ∈ declared.map Prod.fst ∨ name ∈ (declareLocals p declared vars).2.map Target.VarDecl.name := by
  induction vars generalizing declared with
  | nil => simp [declareLocals]
  | cons v rest ih =>
    -- the list grows with every variable that is new, so the induction is for any names in front
    rcases hchoice : chooseName declared v with ⟨chosen, _ | _⟩
    · obtain ⟨hnodup, hdecls, hnames⟩ := ih declared
      have hnew := isNew_iff hchoice
      have hold : chosen ∈ declared.map Prod.fst := by simpa using hnew
      rw [declareLocals, hchoice]
      refine ⟨hnodup, fun name hname => ⟨(hdecls name hname).1, List.mem_cons_of_mem _ (hdecls name hname).2⟩, ?_⟩
      intro name hname
      rcases List.mem_cons.1 hname with rfl | hname
      · exact .inl hold
      · exact hnames name hname
    · obtain ⟨hnodup, hdecls, hnames⟩ := ih ((chosen, v.type) :: declared)
      have hfresh : chosen ∉ declared.map Prod.fst := (isNew_iff hchoice).1 rfl
      rw [declareLocals, hchoice]
      refine ⟨List.nodup_cons.2 ⟨fun h => (hdecls chosen h).1 List.mem_cons_self, hnodup⟩, ?_, ?_⟩
      · intro name hname
        rcases List.mem_cons.1 hname with rfl | hname
        · exact ⟨hfresh, List.mem_cons_self⟩
        · obtain ⟨hother, hmem⟩ := hdecls name hname
          exact ⟨fun h => hother (List.mem_cons_of_mem _ h), List.mem_cons_of_mem _ hmem⟩
      · intro name hname
        rcases List.mem_cons.1 hname with rfl | hname
        · exact .inr List.mem_cons_self
        · rcases hnames name hname with hmem | hmem
          · rcases List.mem_cons.1 hmem with rfl | hmem
            · exact .inr List.mem_cons_self
            · exact .inl hmem
          · exact .inr (List.mem_cons_of_mem _ hmem)

/-- No local is called like the slot for caught values. -/
theorem caughtSlot_not_mem_declareLocals (declared : List (String × Ty)) (vars : List LocalVar) :
    Target.caughtSlot ∉ (declareLocals p declared vars).1 := by
  intro h
  have hnumbered : ¬IsNumbered Target.caughtSlot := Naming.not_isNumbered_of_getLast? rfl (by decide)
  obtain ⟨v, -, hown | ⟨n, hn⟩⟩ := exists_of_mem_declareLocals h
  · have hescaped : escapeMember v.name ≠ Target.caughtSlot := Naming.escapeMember_ne (by decide) (by decide) v.name
    exact hescaped hown.symm
  · exact hnumbered ⟨_, n, hn⟩

/-- What a lowered body declares. -/
theorem decls_of_lowerBody {options : GenOptions} {site : BodySite} {body : Body} {unit : UnitState}
    {result : Target.Body} (h : (lowerBody p options site body unit).1 = .ok result) :
    result.locals = (declareLocals p site.params.reverse body.locals.toList).2 ∧ result.catches = body.hasTraps := by
  unfold lowerBody at h
  dsimp only at h
  split at h
  rename_i outcome last hrun
  cases outcome with
  | error e => cases h
  | ok stmts =>
    cases h
    exact ⟨rfl, rfl⟩

end HaxeBackend.Lowering
