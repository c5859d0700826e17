import HaxeBackend.Proofs.Generation.Functions
import HaxeBackend.Proofs.Naming.Methods

/-!
# Agreement of `override`

A function should be declared `override` exactly when a unit above has a function of its name.  The keyword follows
the declarations of the superclasses, but a unit also has copies of inherited defaults, and the names of private
methods carry their class.  `override_agrees_iff` says when the two agree: for every program in terms of the methods
of the classes above, and for a regular one in terms of its declarations, with two ways to disagree.
-/

namespace HaxeBackend.Generation

variable {env : Env} {p : Program} {c s : ClassModel} {site : MethodSite} {m d : Method} {f : Target.Function}
  {e : MethodEntry} {owner : Name}

/-- The function is declared `override` exactly when a unit above has one of its name that is not static. -/
def OverrideAgrees (env : Env) (c : ClassModel) (f : Target.Function) : Prop :=
  f.signature.isOverride = true ↔
    ∃ s, env.program.Above c s ∧ ∃ u g, unit? env s = some u ∧ g ∈ functionsOf u ∧
      (g.signature.isStatic = false ∧ g.signature.name = f.signature.name)

/-- A class above has a method of this target name that is not static. -/
def CarriedAbove (p : Program) (c : ClassModel) (target : String) : Prop :=
  ∃ s, p.Above c s ∧ ∃ x ∈ unitMethods p s, x.2.isStatic = false ∧ Naming.method x.1.owner.name x.2 = target

/-- The keyword is decided by the site, and what stands above by the methods of the classes above. -/
private theorem agrees_iff (hcomplete : Complete env) (hf : ((site, m), f) ∈ emitted env c)
    (hinstance : m.isStatic = false) (hmethod : m.isConstructor = false) :
    OverrideAgrees env c f ↔
      (site.isOverride = true ↔ CarriedAbove env.program c (Naming.method site.owner.name m)) := by
  obtain ⟨-, -, hsignature⟩ := of_mem_emitted hf
  have hoverride : f.signature.isOverride = site.isOverride := by
    rw [hsignature, signatureOf, hinstance, hmethod]
    simp
  have hname : f.signature.name = Naming.method site.owner.name m := by
    rw [hsignature]
    rfl
  unfold OverrideAgrees CarriedAbove
  rw [hoverride, hname]
  refine iff_congr Iff.rfl (exists_congr fun s => and_congr_right fun hs => ?_)
  exact exists_signature_iff (hcomplete s hs.mem)
    (P := fun g => g.isStatic = false ∧ g.name = Naming.method site.owner.name m)

/-! ### Regular programs -/

/-- What class files guarantee: classes have dotted names, superclasses are no interfaces, types are canonical, no
class declares a method twice, and only constructors and static methods have special names. -/
structure Regular (p : Program) : Prop where
  dotted : ∀ c ∈ p.classes, c.name.toList.contains '/' = false
  superclass : ∀ c ∈ p.classes, ∀ s ∈ p.classes, c.superclass = some s.name → s.isInterface = false
  canonical : ∀ c ∈ p.classes, ∀ m ∈ c.methods, m.type.isCanonical = true
  once : ∀ c ∈ p.classes, (c.methods.map fun m => (m.name, m.type)).Nodup
  special : ∀ c ∈ p.classes, ∀ m ∈ c.methods, isSpecialName m.name = true → (m.isStatic || m.isConstructor) = true

theorem Regular.isClass (hregular : Regular p) (hc : c ∈ p.classes) (hs : p.Above c s) : s.isInterface = false := by
  have hstep : ∀ {a : ClassModel}, a ∈ p.classes → p.superclass? a = some s → s.isInterface = false := by
    intro a ha hs
    obtain ⟨name, hname, hfind⟩ := Option.bind_eq_some_iff.1 hs
    obtain ⟨hmem, rfl⟩ := Program.mem_of_find? hfind
    exact hregular.superclass a ha s hmem hname
  cases hs with
  | single hs => exact hstep hc hs
  | tail habove hs => exact hstep (Program.Above.mem habove) hs

/-- A declared method is found by its name and type. -/
theorem Regular.findMethod?_eq (hregular : Regular p) (hc : c ∈ p.classes) (hm : m ∈ c.methods) :
    c.findMethod? m.name m.type = some m := by
  obtain ⟨d, hfind⟩ := ClassModel.exists_findMethod? hm
  obtain ⟨hd, hname, htype⟩ := ClassModel.of_findMethod? hfind
  rw [hfind, List.inj_on_of_nodup_map (hregular.once c hc) hd hm (by rw [hname, htype])]

/-- Dotted names that are equal in paths are equal. -/
theorem Regular.eq_of_dotted (hregular : Regular p) (hc : c ∈ p.classes) (hs : s ∈ p.classes)
    (h : c.name.toList.map Ty.dotted = s.name.toList.map Ty.dotted) : c = s := by
  have hid : ∀ {a : ClassModel}, a ∈ p.classes → a.name.toList.map Ty.dotted = a.name.toList := by
    intro a ha
    have hfree := hregular.dotted a ha
    rw [List.contains_eq_mem, decide_eq_false_iff_not] at hfree
    rw [List.map_congr_left, List.map_id]
    intro char hchar
    have hne : char ≠ '/' := fun heq => hfree (heq ▸ hchar)
    rw [Ty.dotted, if_neg hne]
    rfl
  rw [hid hc, hid hs] at h
  exact Program.eq_of_name_eq hc hs (String.toList_inj.1 h)

/-! ### Methods of the classes above -/

/-- A method of a unit is declared by its owner, which is the class or the interface that a default is copied from. -/
private theorem owner_of_mem_unitMethods (hacyclic : p.Acyclic) (hs : s ∈ p.classes) (hclass : s.isInterface = false)
    (hx : (site, d) ∈ unitMethods p s) :
    site.owner ∈ p.classes ∧ d ∈ site.owner.methods ∧
      (site.owner = s ∨ ∃ e ∈ inheritedDefaults p s, site.owner = e.owner ∧ d = e.method) := by
  rcases (mem_unitMethods hclass).1 hx with ⟨hd, rfl⟩ | ⟨e, he, rfl, rfl⟩
  · exact ⟨hs, hd, .inl rfl⟩
  · have hmem := ((mem_inheritedDefaults hacyclic hs).1 he).1
    exact ⟨Program.owner_mem_of_mem_methodsToImplement hmem,
      (Program.of_mem_methodsToImplement hmem).2.1, .inr ⟨e, he, rfl, rfl⟩⟩

/-- A class above has a copy of a default of this name and type that is not private. -/
def CopiedAbove (p : Program) (c : ClassModel) (m : Method) : Prop :=
  ∃ s, p.Above c s ∧ ∃ e ∈ inheritedDefaults p s,
    e.method.hasSignature m.name m.type = true ∧ e.method.modifiers.isPrivate = false

private theorem method_eq_virtual (hmethod : m.isConstructor = false) (hpublic : m.modifiers.isPrivate = false) :
    Naming.method owner m = Naming.virtualMethod m.name m.type := by
  simp [Naming.method, hmethod, hpublic]

/-- A method above of the same name and type that is not private either has the same target name. -/
private theorem carriedAbove_of_same (hs : p.Above c s) (hx : (site, d) ∈ unitMethods p s)
    (hinstance : d.isStatic = false) (hdpublic : d.modifiers.isPrivate = false) (hname : d.name = m.name)
    (htype : d.type = m.type) (hmethod : m.isConstructor = false) (hpublic : m.modifiers.isPrivate = false) :
    CarriedAbove p c (Naming.method owner m) := by
  have hdmethod : d.isConstructor = false := by
    rw [← hmethod, Method.isConstructor, Method.isConstructor, hname]
  refine ⟨s, hs, (site, d), hx, hinstance, ?_⟩
  rw [method_eq_virtual hdmethod hdpublic, method_eq_virtual hmethod hpublic, hname, htype]

/-- A method that is not private has the name of those that it replaces: declared ones and copies. -/
private theorem carriedAbove_iff (hacyclic : p.Acyclic) (hregular : Regular p) (hc : c ∈ p.classes)
    (htype : m.type.isCanonical = true) (hmethod : m.isConstructor = false)
    (hpublic : m.modifiers.isPrivate = false) :
    CarriedAbove p c (Naming.method owner m) ↔
      (∃ s, p.Above c s ∧ DeclaresOverridable s m.name m.type) ∨ CopiedAbove p c m := by
  constructor
  · rintro ⟨s, hs, ⟨site, d⟩, hx, hinstance, htarget⟩
    have hclass := hregular.isClass hc hs
    obtain ⟨howner, hd, -⟩ := owner_of_mem_unitMethods hacyclic hs.mem hclass hx
    obtain ⟨hname, htype', hqualified, -⟩ :=
      Naming.method_split (hregular.canonical _ howner d hd) htype htarget
    -- equal names are both without a class, and an instance method without one is not private
    have hdpublic : d.modifiers.isPrivate = false := by
      dsimp only at hinstance
      rw [Naming.isQualified, Naming.isQualified, hmethod, hpublic, hinstance] at hqualified
      simp only [Bool.not_false, Bool.and_true, Bool.false_and, Bool.or_false, Bool.or_eq_false_iff] at hqualified
      exact hqualified.2
    rcases (mem_unitMethods hclass).1 hx with ⟨hd, rfl⟩ | ⟨e, he, rfl, rfl⟩
    · refine .inl ⟨s, hs, d, ?_, ?_⟩
      · rw [← hname, ← htype']
        exact hregular.findMethod?_eq hs.mem hd
      · rw [Method.isOverridable, hinstance, hdpublic]
        rfl
    · exact .inr ⟨s, hs, e, he, Method.hasSignature_iff.2 ⟨hname, htype'⟩, hdpublic⟩
  · rintro (⟨s, hs, d, hfind, hoverridable⟩ | ⟨s, hs, e, he, hsame, hepublic⟩)
    · obtain ⟨hd, hname, htype'⟩ := ClassModel.of_findMethod? hfind
      rw [Method.isOverridable, Bool.and_eq_true, Bool.not_eq_true', Bool.not_eq_true'] at hoverridable
      exact carriedAbove_of_same hs ((mem_unitMethods (hregular.isClass hc hs)).2 (.inl ⟨hd, rfl⟩))
        hoverridable.1 hoverridable.2 hname htype' hmethod hpublic
    · obtain ⟨hname, htype'⟩ := Method.hasSignature_iff.1 hsame
      obtain ⟨-, -, hinstance, -⟩ :=
        Program.of_mem_methodsToImplement ((mem_inheritedDefaults hacyclic hs.mem).1 he).1
      exact carriedAbove_of_same hs ((mem_unitMethods (hregular.isClass hc hs)).2 (.inr ⟨e, he, rfl, rfl⟩))
        hinstance hepublic hname htype' hmethod hpublic

/-- No class above has the name of a private method, which carries its owner. -/
private theorem not_carriedAbove_of_private (hacyclic : p.Acyclic) (hregular : Regular p) (hc : c ∈ p.classes)
    {o : ClassModel} (ho : o ∈ p.classes) (hm : m ∈ o.methods) (hinstance : m.isStatic = false)
    (hprivate : m.modifiers.isPrivate = true)
    (hunrelated : ∀ s, p.Above c s → o ≠ s ∧ ∀ e ∈ inheritedDefaults p s, o = e.owner →
      e.method.hasSignature m.name m.type = false) :
    ¬CarriedAbove p c (Naming.method o.name m) := by
  rintro ⟨s, hs, ⟨site, d⟩, hx, -, htarget⟩
  obtain ⟨howner, hd, hsource⟩ := owner_of_mem_unitMethods hacyclic hs.mem (hregular.isClass hc hs) hx
  obtain ⟨hname, htype, hqualified, hpath⟩ :=
    Naming.method_split (hregular.canonical _ howner d hd) (hregular.canonical o ho m hm) htarget
  have hmqualified : Naming.isQualified m = true := by simp [Naming.isQualified, hinstance, hprivate]
  -- the names agree in the owner too, so the other method has the same owner
  have hsame : site.owner = o := hregular.eq_of_dotted howner ho (hpath (hqualified.trans hmqualified))
  rcases hsource with hsource | ⟨e, he, hsource, rfl⟩
  · exact (hunrelated s hs).1 (hsame.symm.trans hsource)
  · have hdiffers := (hunrelated s hs).2 e he (hsame.symm.trans hsource)
    rw [Method.hasSignature_iff.2 ⟨hname, htype⟩] at hdiffers
    cases hdiffers

/-! ### The two disagreements -/

/-- A declared method replaces the copy of a default that a class above has, and no declaration above. -/
def ReplacesCopy (p : Program) (c : ClassModel) (m : Method) : Prop :=
  m ∈ c.methods ∧ m.modifiers.isPrivate = false ∧
    (∀ s, p.Above c s → ¬DeclaresOverridable s m.name m.type) ∧ CopiedAbove p c m

/-- A declared private method has the name and type of a method above that can be overridden. -/
def PrivateBelow (p : Program) (c : ClassModel) (m : Method) : Prop :=
  m ∈ c.methods ∧ m.modifiers.isPrivate = true ∧ ∃ s, p.Above c s ∧ DeclaresOverridable s m.name m.type

private theorem declared_agrees_iff (hacyclic : p.Acyclic) (hregular : Regular p) (hc : c ∈ p.classes)
    (hclass : c.isInterface = false) (hm : m ∈ c.methods) (hinstance : m.isStatic = false)
    (hmethod : m.isConstructor = false) :
    (p.isOverriding c.name m.name m.type = true ↔ CarriedAbove p c (Naming.method c.name m)) ↔
      ¬ReplacesCopy p c m ∧ ¬PrivateBelow p c m := by
  have hplain : isSpecialName m.name = false := by
    cases hspecial : isSpecialName m.name with
    | false => rfl
    | true =>
      have hexcused := hregular.special c hc m hm hspecial
      rw [hinstance, hmethod] at hexcused
      cases hexcused
  rw [isOverriding_iff hacyclic hc, and_iff_right hplain]
  cases hprivate : m.modifiers.isPrivate with
  | false =>
    have hnotPrivate : ¬PrivateBelow p c m := fun h => by
      rw [h.2.1] at hprivate
      cases hprivate
    rw [carriedAbove_iff hacyclic hregular hc (hregular.canonical c hc m hm) hmethod hprivate,
      and_iff_left hnotPrivate, ReplacesCopy, and_iff_right hm, and_iff_right hprivate]
    constructor
    · rintro hagree ⟨hnone, hcopied⟩
      obtain ⟨s, hs, hdeclares⟩ := hagree.2 (.inr hcopied)
      exact hnone s hs hdeclares
    · intro hreplaces
      refine ⟨.inl, ?_⟩
      rintro (hdeclared | hcopied)
      · exact hdeclared
      · -- a copy above with no declaration above is the case that is excluded
        by_contra hnone
        exact hreplaces ⟨fun s hs hdeclares => hnone ⟨s, hs, hdeclares⟩, hcopied⟩
  | true =>
    -- a private method is never carried above its own class
    have hnotCarried : ¬CarriedAbove p c (Naming.method c.name m) := by
      refine not_carriedAbove_of_private hacyclic hregular hc hc hm hinstance hprivate fun s hs => ⟨?_, ?_⟩
      · rintro rfl
        exact hacyclic c hs
      · rintro e he rfl
        have hinterface :=
          (Program.of_mem_methodsToImplement ((mem_inheritedDefaults hacyclic hs.mem).1 he).1).1
        rw [hclass] at hinterface
        cases hinterface
    have hnotReplaces : ¬ReplacesCopy p c m := fun h => by
      rw [h.2.1] at hprivate
      cases hprivate
    rw [iff_false_right hnotCarried, and_iff_right hnotReplaces, PrivateBelow, and_iff_right hm,
      and_iff_right hprivate]

/-- A copy never stands below a method of its name. -/
private theorem not_carriedAbove_of_copied (hacyclic : p.Acyclic) (hregular : Regular p) (hc : c ∈ p.classes)
    (he : e ∈ inheritedDefaults p c) : ¬CarriedAbove p c (Naming.method e.owner.name e.method) := by
  obtain ⟨hmem, -, -, hnone, hunmentioned⟩ := (mem_inheritedDefaults hacyclic hc).1 he
  obtain ⟨hinterface, hm, hinstance, hplain⟩ := Program.of_mem_methodsToImplement hmem
  have howner := Program.owner_mem_of_mem_methodsToImplement hmem
  -- a class above that copies the method as well would mention it, and then nothing is copied here
  have hmentions : ∀ {s : ClassModel} {e' : MethodEntry}, p.Above c s → e' ∈ inheritedDefaults p s →
      e'.method.hasSignature e.method.name e.method.type = true → False := by
    intro s e' hs he' hsame
    exact hunmentioned s hs ⟨e', ((mem_inheritedDefaults hacyclic hs.mem).1 he').1, hsame⟩
  cases hprivate : e.method.modifiers.isPrivate with
  | false =>
    have hmethod : e.method.isConstructor = false := by
      rw [Method.isConstructor, beq_eq_false_iff_ne]
      intro hname
      rw [hname] at hplain
      exact absurd hplain (by decide)
    rw [carriedAbove_iff hacyclic hregular hc (hregular.canonical _ howner _ hm) hmethod hprivate]
    rintro (⟨s, hs, hdeclares⟩ | ⟨s, hs, e', he', hsame, -⟩)
    · exact hnone s hs hdeclares
    · exact hmentions hs he' hsame
  | true =>
    refine not_carriedAbove_of_private hacyclic hregular hc howner hm hinstance hprivate fun s hs => ⟨?_, ?_⟩
    · rintro rfl
      rw [hregular.isClass hc hs] at hinterface
      cases hinterface
    · intro e' he' _
      rw [← Bool.not_eq_true]
      exact hmentions hs he'

/-- When the keyword agrees with the units above.  In a regular program it is missing on a method that replaces a
copied default, and there is one too many on a private method below one that can be overridden; otherwise it
agrees. -/
theorem override_agrees_iff (hacyclic : env.program.Acyclic) (hcomplete : Complete env)
    (hc : c ∈ env.program.classes) (hclass : c.isInterface = false) (hf : ((site, m), f) ∈ emitted env c)
    (hinstance : m.isStatic = false) (hmethod : m.isConstructor = false) :
    (OverrideAgrees env c f ↔
      (site.isOverride = true ↔ CarriedAbove env.program c (Naming.method site.owner.name m))) ∧
    (Regular env.program →
      (OverrideAgrees env c f ↔ ¬ReplacesCopy env.program c m ∧ ¬PrivateBelow env.program c m)) := by
  refine ⟨agrees_iff hcomplete hf hinstance hmethod, fun hregular => ?_⟩
  rw [agrees_iff hcomplete hf hinstance hmethod]
  rcases (mem_unitMethods hclass).1 (of_mem_emitted hf).2.1 with ⟨hm, rfl⟩ | ⟨e, he, rfl, rfl⟩
  · exact declared_agrees_iff hacyclic hregular hc hclass hm hinstance hmethod
  · have hundeclared : e.method ∉ c.methods := by
      intro hm
      obtain ⟨d, hd⟩ := ClassModel.exists_findMethod? hm
      rw [((mem_inheritedDefaults hacyclic hc).1 he).2.2.1] at hd
      cases hd
    refine iff_of_true ?_ ⟨fun h => hundeclared h.1, fun h => hundeclared h.1⟩
    exact iff_of_false Bool.false_ne_true (not_carriedAbove_of_copied hacyclic hregular hc he)

/-! ### A program with both disagreements -/

/-- An interface with a default method. -/
private def labelled : ClassModel :=
  bareClass "Labelled" .interface none [] [bareMethod 1 "label" .standard (some {})]

/-- A class with a copy of the default and a method of its own. -/
private def base : ClassModel :=
  bareClass "Base" .plain none ["Labelled"] [bareMethod 2 "run" .standard (some {})]

private def labelMethod : Method := bareMethod 3 "label" .standard (some {})

private def runMethod : Method := bareMethod 4 "run" ⟨0x0002⟩ (some {})

/-- A class that declares both methods again, one of them private. -/
private def derived : ClassModel := bareClass "Derived" .plain (some "Base") [] [labelMethod, runMethod]

private def labelEnv : Env where
  program := ⟨[labelled, base, derived], by decide⟩

private def derivedSite (isOverride : Bool) : MethodSite := ⟨derived, some "Derived", .own, isOverride⟩

private def emptyFunction (isOverride : Bool) (name : String) : Target.Function :=
  ⟨⟨isOverride, false, name, [], "Void"⟩, .lowered ⟨[], false, .skip⟩ false⟩

private theorem acyclic_labelEnv : labelEnv.program.Acyclic :=
  Program.acyclic_of_rank (fun name => if name = "Derived" then 1 else 0) (by decide)

private theorem complete_labelEnv : Complete labelEnv := by
  unfold Complete
  decide +kernel

private theorem emitted_derived : emitted labelEnv derived =
    [((derivedSite false, labelMethod), emptyFunction false "label__V"),
      ((derivedSite true, runMethod), emptyFunction true "run__V_Derived")] := by
  with_unfolding_all rfl

private theorem unitMethods_base : unitMethods labelEnv.program base =
    [(⟨base, some "Base", .own, false⟩, bareMethod 2 "run" .standard (some {})),
      (⟨labelled, some "Base", .own, false⟩, bareMethod 1 "label" .standard (some {}))] := by
  with_unfolding_all rfl

private theorem above_derived {s : ClassModel} : labelEnv.program.Above derived s ↔ s = base := by
  have hsuperclasses : labelEnv.program.superclasses derived = [base] := by with_unfolding_all rfl
  rw [← Program.mem_superclasses acyclic_labelEnv, hsuperclasses, List.mem_singleton]

private theorem carriedAbove_derived {target : String} : CarriedAbove labelEnv.program derived target ↔
    target = "run__V" ∨ target = "label__V" := by
  have hrun : Naming.method "Base" (bareMethod 2 "run" .standard (some {})) = "run__V" := by decide +kernel
  have hlabel : Naming.method "Labelled" (bareMethod 1 "label" .standard (some {})) = "label__V" := by decide +kernel
  constructor
  · rintro ⟨s, hs, x, hx, -, rfl⟩
    rw [above_derived.1 hs, unitMethods_base] at hx
    rcases List.mem_pair.1 hx with rfl | rfl
    · exact .inl hrun
    · exact .inr hlabel
  · rintro (rfl | rfl)
    · exact ⟨base, above_derived.2 rfl, _, unitMethods_base ▸ List.mem_cons_self, rfl, hrun⟩
    · exact ⟨base, above_derived.2 rfl, _, unitMethods_base ▸ List.mem_cons_of_mem _ List.mem_cons_self, rfl, hlabel⟩

private theorem derived_mem : derived ∈ labelEnv.program.classes := by
  simp [labelEnv]

private theorem label_mem_emitted :
    ((derivedSite false, labelMethod), emptyFunction false "label__V") ∈ emitted labelEnv derived := by
  rw [emitted_derived]
  exact List.mem_cons_self

private theorem run_mem_emitted :
    ((derivedSite true, runMethod), emptyFunction true "run__V_Derived") ∈ emitted labelEnv derived := by
  rw [emitted_derived]
  exact List.mem_cons_of_mem _ List.mem_cons_self

/-- The keyword is missing on the method that replaces the copy, and the private method has one too many. -/
theorem override_disagrees_derived :
    labelEnv.program.Acyclic ∧ Complete labelEnv ∧ derived ∈ labelEnv.program.classes ∧
    ((derivedSite false, labelMethod), emptyFunction false "label__V") ∈ emitted labelEnv derived ∧
    ((derivedSite true, runMethod), emptyFunction true "run__V_Derived") ∈ emitted labelEnv derived ∧
    (labelMethod.isStatic || labelMethod.isConstructor || runMethod.isStatic || runMethod.isConstructor) = false ∧
    ¬OverrideAgrees labelEnv derived (emptyFunction false "label__V") ∧
    ¬OverrideAgrees labelEnv derived (emptyFunction true "run__V_Derived") := by
  have hlabel : Naming.method "Derived" labelMethod = "label__V" := by decide +kernel
  have hrun : Naming.method "Derived" runMethod = "run__V_Derived" := by decide +kernel
  refine ⟨acyclic_labelEnv, complete_labelEnv, derived_mem, label_mem_emitted, run_mem_emitted, by decide, ?_, ?_⟩
  · rw [agrees_iff complete_labelEnv label_mem_emitted rfl rfl, carriedAbove_derived]
    intro h
    exact Bool.false_ne_true (h.2 (.inr hlabel))
  · rw [agrees_iff complete_labelEnv run_mem_emitted rfl rfl, carriedAbove_derived]
    intro h
    rcases h.1 rfl with h | h
    · exact absurd (hrun.symm.trans h) (by decide)
    · exact absurd (hrun.symm.trans h) (by decide)

private theorem regular_labelEnv : Regular labelEnv.program := by
  constructor <;> decide

/-- The program is regular, and its method replaces a copy. -/
theorem override_agrees_iff_derived :
    labelEnv.program.Acyclic ∧ Complete labelEnv ∧ derived ∈ labelEnv.program.classes ∧ derived.isInterface = false ∧
    ((derivedSite false, labelMethod), emptyFunction false "label__V") ∈ emitted labelEnv derived ∧
    labelMethod.isStatic = false ∧ labelMethod.isConstructor = false ∧ Regular labelEnv.program ∧
    ReplacesCopy labelEnv.program derived labelMethod ∧
    (OverrideAgrees labelEnv derived (emptyFunction false "label__V") ↔
      ((derivedSite false).isOverride = true ↔
        CarriedAbove labelEnv.program derived (Naming.method (derivedSite false).owner.name labelMethod))) ∧
    (OverrideAgrees labelEnv derived (emptyFunction false "label__V") ↔
      ¬ReplacesCopy labelEnv.program derived labelMethod ∧ ¬PrivateBelow labelEnv.program derived labelMethod) := by
  have hreplaces : ReplacesCopy labelEnv.program derived labelMethod := by
    have hcopies : inheritedDefaults labelEnv.program base =
        [⟨labelled, bareMethod 1 "label" .standard (some {})⟩] := by
      with_unfolding_all rfl
    refine ⟨List.mem_cons_self, rfl, ?_, base, above_derived.2 rfl, _, hcopies ▸ List.mem_cons_self, rfl, rfl⟩
    rintro s hs ⟨m, hfind, -⟩
    rw [above_derived.1 hs] at hfind
    obtain ⟨hm, hname, -⟩ := ClassModel.of_findMethod? hfind
    rw [List.mem_singleton.1 hm] at hname
    exact absurd hname (by decide)
  have hagrees := override_agrees_iff acyclic_labelEnv complete_labelEnv derived_mem rfl label_mem_emitted rfl rfl
  exact ⟨acyclic_labelEnv, complete_labelEnv, derived_mem, rfl, label_mem_emitted, rfl, rfl, regular_labelEnv,
    hreplaces, hagrees.1, hagrees.2 regular_labelEnv⟩

end HaxeBackend.Generation
