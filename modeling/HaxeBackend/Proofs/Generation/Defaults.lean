import HaxeBackend.Proofs.Generation.Functions

/-!
# Default methods along a chain

A default method that no class of a chain declares is copied into one class of the chain: the highest one for which
a method of its name and type is mentioned at all.  So a default reaches the subclasses exactly when it is already
the entry of that highest class (`reachesDefault_iff`).  The key fact is that mentions go down the chain
(`Program.Mentions.of_above`), so no other class has a copy (`eq_of_carries`).
-/

namespace HaxeBackend.Generation

variable {env : Env} {p : Program} {c s t : ClassModel} {e : MethodEntry}
  {x : (MethodSite × Method) × Target.Function} {name : Name} {type : MethodTy}

/-- The function of this name and type in the nearest unit of the chain that has one. -/
def nearest? (env : Env) (c : ClassModel) (name : Name) (type : MethodTy) :
    Option ((MethodSite × Method) × Target.Function) :=
  (c :: env.program.superclasses c).findSome? fun s =>
    (emitted env s).find? fun x => x.1.2.hasSignature name type

/-- The nearest function for the name and type of a default method is generated for that method. -/
def ReachesDefault (env : Env) (c : ClassModel) (e : MethodEntry) : Prop :=
  ∃ x, nearest? env c e.method.name e.method.type = some x ∧ x.1.1.owner = e.owner ∧ x.1.2 = e.method

/-- The class has a unit, which has a copy of the default method. -/
private structure Carries (env : Env) (t : ClassModel) (e : MethodEntry) : Prop where
  isClass : t.isInterface = false
  generated : (unit? env t).isSome = true
  copied : e ∈ inheritedDefaults env.program t

/-- No class of the chain declares a method of this name and type. -/
def Undeclared (p : Program) (c : ClassModel) (name : Name) (type : MethodTy) : Prop :=
  ∀ s ∈ c :: p.superclasses c, s.findMethod? name type = none

/-- Where no class of the chain declares the method, the function is a copy. -/
private theorem carries_of_mem_emitted (hundeclared : Undeclared env.program c name type)
    (hs : s ∈ c :: env.program.superclasses c) (hx : x ∈ emitted env s)
    (hsame : x.1.2.hasSignature name type = true) :
    ∃ e, Carries env s e ∧ x.1.1.owner = e.owner ∧ x.1.2 = e.method := by
  obtain ⟨⟨site, m⟩, f⟩ := x
  obtain ⟨hunit, hmem, -⟩ := of_mem_emitted hx
  have hnot : m ∉ s.methods := by
    intro hm
    obtain ⟨hname, htype⟩ := Method.hasSignature_iff.1 hsame
    obtain ⟨d, hd⟩ := ClassModel.exists_findMethod? hm
    dsimp only at hname htype
    rw [hname, htype, hundeclared s hs] at hd
    cases hd
  cases hclass : s.isInterface with
  | true =>
    rw [unitMethods, if_pos hclass, staticMethods] at hmem
    obtain ⟨d, hd, heq⟩ := List.mem_map.1 hmem
    cases heq
    exact absurd (List.mem_filter.1 hd).1 hnot
  | false =>
    rcases (mem_unitMethods hclass).1 hmem with ⟨hm, -⟩ | ⟨e, he, rfl, rfl⟩
    · exact absurd hm hnot
    · exact ⟨e, ⟨hclass, hunit, he⟩, rfl, rfl⟩

private theorem carries_of_nearest? (hundeclared : Undeclared env.program c name type)
    (hnearest : nearest? env c name type = some x) :
    ∃ s ∈ c :: env.program.superclasses c, ∃ e, Carries env s e ∧ x.1.1.owner = e.owner ∧ x.1.2 = e.method ∧
      e.method.hasSignature name type = true := by
  obtain ⟨s, hs, hfind⟩ := List.exists_of_findSome?_eq_some hnearest
  have hsame : x.1.2.hasSignature name type = true := by
    have hfound := List.find?_some hfind
    exact hfound
  obtain ⟨e, hcarries, howner, hmethod⟩ :=
    carries_of_mem_emitted hundeclared hs (List.mem_of_find?_eq_some hfind) hsame
  exact ⟨s, hs, e, hcarries, howner, hmethod, hmethod ▸ hsame⟩

/-- Only one class of a chain has a copy of a method of this name and type, and only one copy. -/
private theorem eq_of_carries (hacyclic : env.program.Acyclic) (hc : c ∈ env.program.classes)
    (hs : s ∈ c :: env.program.superclasses c) (ht : t ∈ c :: env.program.superclasses c) {e' : MethodEntry}
    (hcarries : Carries env s e') (hcarries' : Carries env t e)
    (hsame : e'.method.hasSignature e.method.name e.method.type = true) : e' = e := by
  obtain ⟨hname, htype⟩ := Method.hasSignature_iff.1 hsame
  obtain ⟨hmem, -, -, -, hunmentioned⟩ :=
    (mem_inheritedDefaults hacyclic (Program.mem_of_mem_chain hc hs)).1 hcarries.copied
  obtain ⟨hmem', -, -, -, hunmentioned'⟩ :=
    (mem_inheritedDefaults hacyclic (Program.mem_of_mem_chain hc ht)).1 hcarries'.copied
  -- of two classes that both have to implement the method, the lower one carries no copy
  rcases Program.chain_comparable hs ht with rfl | habove | habove
  · exact Program.eq_of_mem_methodsToImplement hmem' hmem hsame
  · rw [hname, htype] at hunmentioned
    exact absurd (Program.mentions_of_mem hmem') (hunmentioned t habove)
  · exact absurd ⟨e', hmem, hsame⟩ (hunmentioned' s habove)

/-- A default method is copied into a class of the chain when it is the entry of that class, and none above mentions
it. -/
private theorem carries_iff (hacyclic : env.program.Acyclic) (hc : c ∈ env.program.classes)
    (hbody : e.method.hasBody = true) (hundeclared : Undeclared env.program c e.method.name e.method.type)
    (ht : t ∈ c :: env.program.superclasses c) :
    Carries env t e ↔ t.isInterface = false ∧ (unit? env t).isSome = true ∧
      e ∈ env.program.methodsToImplement t.name ∧
      ∀ s, env.program.Above t s → ¬env.program.Mentions s e.method.name e.method.type := by
  have hcopied := mem_inheritedDefaults (e := e) hacyclic (Program.mem_of_mem_chain hc ht)
  constructor
  · rintro ⟨hclass, hunit, he⟩
    obtain ⟨hmem, -, -, -, hunmentioned⟩ := hcopied.1 he
    exact ⟨hclass, hunit, hmem, hunmentioned⟩
  · rintro ⟨hclass, hunit, hmem, hunmentioned⟩
    refine ⟨hclass, hunit, hcopied.2 ⟨hmem, hbody, hundeclared t ht, ?_, hunmentioned⟩⟩
    rintro s hs ⟨m, hfind, -⟩
    rw [hundeclared s (Program.mem_chain_of_above hacyclic ht hs)] at hfind
    cases hfind

/-- Where no class of the chain declares a default method, the nearest function is generated for it exactly when some
class of the chain has a unit, has this default to implement, and stands below no class that has to implement a method
of its name and type. -/
theorem reachesDefault_iff (hacyclic : env.program.Acyclic) (hc : c ∈ env.program.classes)
    (hbody : e.method.hasBody = true) (hundeclared : Undeclared env.program c e.method.name e.method.type) :
    ReachesDefault env c e ↔
      ∃ t ∈ c :: env.program.superclasses c, t.isInterface = false ∧ (unit? env t).isSome = true ∧
        e ∈ env.program.methodsToImplement t.name ∧
        ∀ s, env.program.Above t s → ¬env.program.Mentions s e.method.name e.method.type := by
  constructor
  · rintro ⟨x, hnearest, howner, hmethod⟩
    -- a nearest function is there; it carries this default because no two classes carry different ones
    obtain ⟨s, hs, e', hcarries, howner', hmethod', -⟩ := carries_of_nearest? hundeclared hnearest
    obtain rfl : e' = e := by
      cases e
      cases e'
      rw [MethodEntry.mk.injEq]
      exact ⟨howner'.symm.trans howner, hmethod'.symm.trans hmethod⟩
    exact ⟨s, hs, (carries_iff hacyclic hc hbody hundeclared hs).1 hcarries⟩
  · rintro ⟨t, ht, hcondition⟩
    have hcarries := (carries_iff hacyclic hc hbody hundeclared ht).2 hcondition
    obtain ⟨f, hf⟩ := exists_mem_emitted hcarries.generated
      ((mem_unitMethods hcarries.isClass).2 (.inr ⟨e, hcarries.copied, rfl, rfl⟩))
    have hsome : (nearest? env c e.method.name e.method.type).isSome = true := by
      rw [nearest?, List.findSome?_isSome_iff]
      refine ⟨t, ht, ?_⟩
      rw [List.find?_isSome]
      exact ⟨_, hf, e.method.hasSignature_self⟩
    obtain ⟨x, hnearest⟩ := Option.isSome_iff_exists.1 hsome
    obtain ⟨s, hs, e', hcarries', howner, hmethod, hsame⟩ := carries_of_nearest? hundeclared hnearest
    obtain rfl := eq_of_carries hacyclic hc hs ht hcarries' hcarries hsame
    exact ⟨x, hnearest, howner, hmethod⟩

/-! ### A chain that loses defaults -/

/-- An interface with an abstract method and two defaults. -/
private def sized : ClassModel :=
  bareClass "Sized" .interface none []
    [bareMethod 1 "size" .standard none, bareMethod 2 "label" .standard (some {}),
      bareMethod 3 "tag" .standard (some {})]

private def sizedTag : MethodEntry := ⟨sized, bareMethod 3 "tag" .standard (some {})⟩

/-- An interface that gives the abstract method a default and replaces one of the defaults. -/
private def grown : ClassModel :=
  bareClass "Grown" .interface none ["Sized"]
    [bareMethod 4 "size" .standard (some {}), bareMethod 5 "label" .standard (some {})]

private def grownSize : MethodEntry := ⟨grown, bareMethod 4 "size" .standard (some {})⟩

private def grownLabel : MethodEntry := ⟨grown, bareMethod 5 "label" .standard (some {})⟩

private def shape : ClassModel := bareClass "Shape" .abstract none ["Sized"] []

private def square : ClassModel := bareClass "Square" .plain (some "Shape") ["Grown"] []

private def shapeEnv : Env where
  program := ⟨[sized, grown, shape, square], by decide⟩

private theorem acyclic_shapeEnv : shapeEnv.program.Acyclic :=
  Program.acyclic_of_rank (fun name => if name = "Square" then 1 else 0) (by decide)

private theorem superclasses_square : shapeEnv.program.superclasses square = [shape] := by
  with_unfolding_all rfl

private theorem square_mem : square ∈ shapeEnv.program.classes := by
  simp [shapeEnv]

private theorem methodsToImplement_square :
    shapeEnv.program.methodsToImplement square.name = [grownSize, grownLabel, sizedTag] := by
  with_unfolding_all rfl

private theorem undeclared_square (name : Name) (type : MethodTy) : Undeclared shapeEnv.program square name type := by
  intro s hs
  rw [superclasses_square] at hs
  rcases List.mem_pair.1 hs with rfl | rfl <;> rfl

/-- A default for an abstract method of the superclass is nowhere, and one that replaces a default of the superclass
does not win. -/
theorem reachesDefault_fails_square :
    shapeEnv.program.Acyclic ∧ Complete shapeEnv ∧ square ∈ shapeEnv.program.classes ∧ square.isInterface = false ∧
    shapeEnv.program.methodsToImplement square.name = [grownSize, grownLabel, sizedTag] ∧
    (grownSize.method.hasBody && grownLabel.method.hasBody) = true ∧
    Undeclared shapeEnv.program square grownSize.method.name grownSize.method.type ∧
    Undeclared shapeEnv.program square grownLabel.method.name grownLabel.method.type ∧
    ¬ReachesDefault shapeEnv square grownSize ∧ ¬ReachesDefault shapeEnv square grownLabel := by
  have hcomplete : Complete shapeEnv := by
    unfold Complete
    decide +kernel
  have hsize : nearest? shapeEnv square grownSize.method.name grownSize.method.type = none := by
    with_unfolding_all rfl
  have hlabel : (nearest? shapeEnv square grownLabel.method.name grownLabel.method.type).map (·.1.2.id) = some 2 := by
    with_unfolding_all rfl
  refine ⟨acyclic_shapeEnv, hcomplete, square_mem, rfl, methodsToImplement_square, rfl, undeclared_square _ _,
    undeclared_square _ _, ?_, ?_⟩
  · rintro ⟨x, hnearest, -, -⟩
    rw [hsize] at hnearest
    cases hnearest
  · rintro ⟨x, hnearest, -, hmethod⟩
    rw [hnearest, Option.map_some, hmethod] at hlabel
    exact absurd hlabel (by decide)

/-- The other default is copied into the superclass and reaches the class. -/
theorem reachesDefault_iff_square :
    shapeEnv.program.Acyclic ∧ square ∈ shapeEnv.program.classes ∧ sizedTag.method.hasBody = true ∧
    Undeclared shapeEnv.program square sizedTag.method.name sizedTag.method.type ∧
    (ReachesDefault shapeEnv square sizedTag ↔
      ∃ t ∈ square :: shapeEnv.program.superclasses square, t.isInterface = false ∧ (unit? shapeEnv t).isSome = true ∧
        sizedTag ∈ shapeEnv.program.methodsToImplement t.name ∧
        ∀ s, shapeEnv.program.Above t s →
          ¬shapeEnv.program.Mentions s sizedTag.method.name sizedTag.method.type) ∧
    ReachesDefault shapeEnv square sizedTag := by
  have hiff := reachesDefault_iff (e := sizedTag) acyclic_shapeEnv square_mem rfl
    (undeclared_square _ _)
  refine ⟨acyclic_shapeEnv, square_mem, rfl, undeclared_square _ _, hiff, hiff.2 ⟨shape, ?_, rfl, ?_, ?_, ?_⟩⟩
  · rw [superclasses_square]
    exact List.mem_cons_of_mem _ List.mem_cons_self
  · with_unfolding_all rfl
  · have hmethods : shapeEnv.program.methodsToImplement shape.name =
        [⟨sized, bareMethod 1 "size" .standard none⟩, ⟨sized, bareMethod 2 "label" .standard (some {})⟩, sizedTag] := by
      with_unfolding_all rfl
    rw [hmethods]
    simp
  · intro s hs
    have hnone : shapeEnv.program.superclasses shape = [] := by with_unfolding_all rfl
    rw [← Program.mem_superclasses acyclic_shapeEnv, hnone] at hs
    cases hs

end HaxeBackend.Generation
