import HaxeBackend.Proofs.Generation.Functions

/-!
# The order of ancestors

The ancestors stand in the order of their distance from the class, which the chain of superclasses starts with
(`pairwise_ancestors`).  So the declaration that is kept of a method is a nearest one.  Whether it is a most specific
one depends on the hierarchy alone: it is, whatever methods the classes declare, exactly when no interface stands
before one that extends it (`mostSpecific_iff`), as where every interface is nearer than what it extends.
-/

namespace HaxeBackend.Program

variable {p : Program} {c d i : ClassModel} {className : Name} {fuel n : Nat} {done todo : List ClassModel}

/-! ### Distance -/

/-- The class is in the chain of superclasses, or at most so many interfaces away from it. -/
inductive Within (p : Program) (className : Name) : Nat → ClassModel → Prop
  | chain {n : Nat} {i : ClassModel} (h : i ∈ p.chainFrom p.classes.length [] (p.find? className)) :
      Within p className n i
  | brought {n : Nat} {c i : ClassModel} (h : Within p className n c) (hbrings : p.Brings c i) :
      Within p className (n + 1) i

theorem Within.succ (h : p.Within className n i) : p.Within className (n + 1) i := by
  induction h with
  | chain h => exact .chain h
  | brought _ hbrings ih => exact .brought ih hbrings

/-- The first class is as near as the second, or nearer. -/
def NoFarther (p : Program) (className : Name) (i k : ClassModel) : Prop :=
  ∀ n, p.Within className n k → p.Within className n i

/-- The state of a visit that goes by distance. -/
private structure ByDistance (p : Program) (className : Name) (done todo : List ClassModel) : Prop where
  mem : ∀ c ∈ done ++ todo, c ∈ p.classes
  sorted : (done ++ todo).Pairwise (p.NoFarther className)
  /-- The interfaces of what was visited are not lost. -/
  closed : ∀ c ∈ done, ∀ i, p.Brings c i → i ∈ done ++ todo
  chain : ∀ i ∈ p.chainFrom p.classes.length [] (p.find? className), i ∈ done ++ todo
  /-- What waits is at two distances at most. -/
  near : ∀ c ∈ todo, ∀ i ∈ todo, ∀ n, p.Within className n c → p.Within className (n + 1) i

/-- Nothing that is still to visit is nearer than the first. -/
private theorem ByDistance.first (h : ByDistance p className done (c :: todo)) (hi : i ∉ done)
    (hwithin : p.Within className n i) : p.Within className n c := by
  have hwaiting : ∀ {n : Nat} {i : ClassModel}, i ∈ done ++ c :: todo → i ∉ done → p.Within className n i →
      p.Within className n c := by
    intro n i hmem hi hwithin
    obtain ⟨-, hsorted, -⟩ := List.pairwise_append.1 h.sorted
    rcases List.mem_cons.1 ((List.mem_append.1 hmem).resolve_left hi) with rfl | htodo
    · exact hwithin
    · exact (List.pairwise_cons.1 hsorted).1 i htodo n hwithin
  induction hwithin with
  | chain hchain => exact hwaiting (h.chain _ hchain) hi (.chain hchain)
  | @brought n d i hd hbrings ih =>
    by_cases hdone : d ∈ done
    · exact hwaiting (h.closed d hdone i hbrings) hi (.brought hd hbrings)
    · exact (ih hdone).succ

private theorem ByDistance.step (h : ByDistance p className done (c :: todo)) :
    ByDistance p className (done ++ [c]) (todo ++ p.freshInterfaces (done ++ c :: todo) c.interfaces) := by
  obtain ⟨hsound, -, hcomplete⟩ := freshInterfaces_spec c.interfaces h.mem
  obtain ⟨-, hsorted, hdone⟩ := List.pairwise_append.1 h.sorted
  have happend : done ++ [c] ++ (todo ++ p.freshInterfaces (done ++ c :: todo) c.interfaces) =
      (done ++ c :: todo) ++ p.freshInterfaces (done ++ c :: todo) c.interfaces := by
    simp
  -- a fresh interface is one step farther than the class that brings it in
  have hfresh : ∀ i ∈ p.freshInterfaces (done ++ c :: todo) c.interfaces, ∀ n, p.Within className n i →
      ∃ m, n = m + 1 ∧ p.Within className m c := by
    intro i hi n hwithin
    have hnew : i ∉ done ++ c :: todo := (hsound i hi).2
    cases hwithin with
    | chain hchain => exact absurd (h.chain i hchain) hnew
    | @brought m d _ hd hbrings =>
      exact ⟨m, rfl, h.first (fun hdone => hnew (h.closed d hdone i hbrings)) hd⟩
  have hlate : ∀ i ∈ done ++ c :: todo, ∀ k ∈ p.freshInterfaces (done ++ c :: todo) c.interfaces,
      p.NoFarther className i k := by
    intro i hi k hk n hwithin
    obtain ⟨m, rfl, hc⟩ := hfresh k hk n hwithin
    rcases List.mem_append.1 hi with hi | hi
    · exact (hdone i hi c List.mem_cons_self m hc).succ
    · rcases List.mem_cons.1 hi with rfl | hi
      · exact hc.succ
      · exact h.near c List.mem_cons_self i (List.mem_cons_of_mem c hi) m hc
  have hwaiting : ∀ i ∈ todo ++ p.freshInterfaces (done ++ c :: todo) c.interfaces, p.NoFarther className c i := by
    intro i hi
    rcases List.mem_append.1 hi with hi | hi
    · exact (List.pairwise_cons.1 hsorted).1 i hi
    · exact hlate c (by simp) i hi
  refine ⟨?_, ?_, ?_, ?_, ?_⟩
  · rw [happend]
    intro d hd
    rcases List.mem_append.1 hd with hd | hd
    · exact h.mem d hd
    · exact Brings.mem (hsound d hd).1
  · rw [happend, List.pairwise_append]
    refine ⟨h.sorted, ?_, hlate⟩
    refine List.pairwise_of_forall_mem_list fun i hi k hk n hwithin => ?_
    obtain ⟨m, rfl, hc⟩ := hfresh k hk n hwithin
    exact .brought hc (hsound i hi).1
  · rw [happend]
    intro d hd i hi
    rcases List.mem_append.1 hd with hd | hd
    · exact List.mem_append_left _ (h.closed d hd i hi)
    · rw [List.mem_singleton.1 hd] at hi
      obtain ⟨name, hname, hfind⟩ := hi
      exact List.mem_append.2 (hcomplete name hname i hfind)
  · rw [happend]
    exact fun i hi => List.mem_append_left _ (h.chain i hi)
  · intro d hd i hi n hwithin
    have hc : p.Within className n c := hwaiting d hd n hwithin
    rcases List.mem_append.1 hi with hi | hi
    · exact h.near c List.mem_cons_self i (List.mem_cons_of_mem c hi) n hc
    · exact .brought hc (hsound i hi).1

private theorem pairwise_closeInterfaces (h : ByDistance p className done todo) :
    (p.closeInterfaces fuel done todo).Pairwise (p.NoFarther className) := by
  induction fuel generalizing done todo with
  | zero =>
    rw [closeInterfaces_zero]
    exact h.sorted
  | succ fuel ih =>
    cases todo with
    | nil => simpa [closeInterfaces_nil] using h.sorted
    | cons c todo => exact ih h.step

/-- The ancestors stand in the order of their distance. -/
theorem pairwise_ancestors (className : Name) : (p.ancestors className).Pairwise (p.NoFarther className) := by
  have hchain : ∀ {i : ClassModel} {n : Nat}, i ∈ p.chainFrom p.classes.length [] (p.find? className) →
      p.Within className n i := fun hi => .chain hi
  refine pairwise_closeInterfaces ⟨fun _ hs => mem_of_mem_chainFrom hs, ?_, by simp, fun i hi => hi, ?_⟩
  · exact List.pairwise_of_forall_mem_list fun i hi k _ n _ => hchain hi
  · exact fun _ _ i hi n _ => hchain hi

/-! ### The same hierarchy with other methods -/

/-- The class with these methods in place of its own. -/
def replaceMethods (methods : Name → List Method) (c : ClassModel) : ClassModel := { c with methods := methods c.name }

/-- The program where every class has these methods in place of its own. -/
def withMethods (p : Program) (methods : Name → List Method) : Program where
  classes := p.classes.map (replaceMethods methods)
  distinct := by
    rw [List.map_map]
    exact p.distinct

variable (methods : Name → List Method)

private theorem find?_withMethods (name : Name) :
    (p.withMethods methods).find? name = (p.find? name).map (replaceMethods methods) := by
  rw [find?, withMethods, List.find?_map]
  rfl

private theorem superclass?_withMethods (c : ClassModel) :
    (p.withMethods methods).superclass? (replaceMethods methods c) =
      (p.superclass? c).map (replaceMethods methods) := by
  show c.superclass.bind (p.withMethods methods).find? = (c.superclass.bind p.find?).map _
  cases c.superclass with
  | none => rfl
  | some name => exact find?_withMethods methods name

private theorem named_map (l : List ClassModel) (name : Name) :
    named (l.map (replaceMethods methods)) name = named l name := by
  rw [named, List.any_map]
  rfl

private theorem chainFrom_withMethods (fuel : Nat) (seen : List ClassModel) (first : Option ClassModel) :
    (p.withMethods methods).chainFrom fuel (seen.map (replaceMethods methods)) (first.map (replaceMethods methods)) =
      (p.chainFrom fuel seen first).map (replaceMethods methods) := by
  induction fuel generalizing seen first with
  | zero => rfl
  | succ fuel ih =>
    cases first with
    | none => rfl
    | some c =>
      rw [Option.map_some, chainFrom, chainFrom, named_map, superclass?_withMethods]
      show (if named seen c.name = true then _ else _) = _
      split
      · rfl
      · exact congrArg (replaceMethods methods c :: ·) (ih (c :: seen) (p.superclass? c))

private theorem freshInterfaces_withMethods (names : List Name) (seen : List ClassModel) :
    (p.withMethods methods).freshInterfaces (seen.map (replaceMethods methods)) names =
      (p.freshInterfaces seen names).map (replaceMethods methods) := by
  induction names generalizing seen with
  | nil => rfl
  | cons name names ih =>
    rw [freshInterfaces, freshInterfaces, find?_withMethods]
    cases p.find? name with
    | none => exact ih seen
    | some i =>
      show (if named _ i.name = true then _ else _) = List.map _ (if named seen i.name = true then _ else _)
      rw [named_map]
      split
      · exact ih seen
      · exact congrArg (replaceMethods methods i :: ·) (ih (i :: seen))

private theorem closeInterfaces_withMethods (fuel : Nat) (done todo : List ClassModel) :
    (p.withMethods methods).closeInterfaces fuel (done.map (replaceMethods methods))
        (todo.map (replaceMethods methods)) =
      (p.closeInterfaces fuel done todo).map (replaceMethods methods) := by
  induction fuel generalizing done todo with
  | zero => simp [closeInterfaces_zero]
  | succ fuel ih =>
    cases todo with
    | nil => rfl
    | cons c todo =>
      have hfresh := freshInterfaces_withMethods (p := p) methods c.interfaces (done ++ c :: todo)
      rw [List.map_append] at hfresh
      rw [List.map_cons, closeInterfaces_cons, closeInterfaces_cons, ← ih, List.map_append, List.map_append, ← hfresh]
      rfl

/-- The ancestors do not depend on the methods. -/
theorem ancestors_withMethods (name : Name) :
    (p.withMethods methods).ancestors name = (p.ancestors name).map (replaceMethods methods) := by
  have hlength : (p.withMethods methods).classes.length = p.classes.length := List.length_map _
  have hchain := chainFrom_withMethods (p := p) methods p.classes.length [] (p.find? name)
  rw [List.map_nil] at hchain
  rw [ancestors, hlength, find?_withMethods, hchain, ancestors]
  exact closeInterfaces_withMethods methods p.classes.length [] _

/-! ### Most specific declarations -/

/-- The class is an interface with an instance method of this name and type. -/
def DeclaresInstance (k : ClassModel) (name : Name) (type : MethodTy) : Prop :=
  k.isInterface = true ∧ ∃ m ∈ k.methods, m.isStatic = false ∧ m.hasSignature name type = true

/-- No other ancestor that declares the method extends the interface that owns the entry. -/
def MostSpecific (p : Program) (className : Name) (e : MethodEntry) : Prop :=
  ∀ k ∈ p.ancestors className, DeclaresInstance k e.method.name e.method.type →
    e.owner ∈ p.ancestors k.name → k = e.owner

/-- Among the ancestors no interface stands before one that extends it. -/
def ExtensionsFirst (p : Program) (className : Name) : Prop :=
  (p.ancestors className).Pairwise fun j k =>
    j.isInterface = true → k.isInterface = true → j ∉ p.ancestors k.name

variable {e : MethodEntry} {j k : ClassModel}

private theorem owner_first {R : ClassModel → ClassModel → Prop} (hR : (p.ancestors className).Pairwise R)
    (he : e ∈ p.methodsToImplement className) (hk : k ∈ p.ancestors className)
    (hdeclares : DeclaresInstance k e.method.name e.method.type) : k = e.owner ∨ R e.owner k := by
  obtain ⟨hinterface, m, hm, hstatic, hsame⟩ := hdeclares
  obtain ⟨-, -, -, hspecial⟩ := of_mem_methodsToImplement he
  refine owner_first_of_mem_methodsToImplement hR he hk hinterface hm ?_ hsame
  rw [isInstanceMethod, hstatic, (Method.hasSignature_iff.1 hsame).1, hspecial]
  rfl

theorem mostSpecific_of_extensionsFirst (hfirst : p.ExtensionsFirst className)
    (he : e ∈ p.methodsToImplement className) : p.MostSpecific className e := by
  intro k hk hdeclares hextends
  rcases owner_first hfirst he hk hdeclares with heq | hnot
  · exact heq
  · exact absurd hextends (hnot (of_mem_methodsToImplement he).1 hdeclares.1)

/-- Extensions stand first where each is nearer than what it extends. -/
theorem extensionsFirst_of_nearer
    (hnearer : ∀ j ∈ p.ancestors className, ∀ k ∈ p.ancestors className, j.isInterface = true →
      k.isInterface = true → j ∈ p.ancestors k.name → j ≠ k → ¬p.NoFarther className j k) :
    p.ExtensionsFirst className := by
  have hdistinct : (p.ancestors className).Pairwise (· ≠ ·) := nodup_ancestors className
  refine ((pairwise_ancestors className).and hdistinct).imp_of_mem ?_
  rintro j k hj hk ⟨hle, hne⟩ hji hki hextends
  exact hnearer j hj k hk hji hki hextends hne hle

private theorem eq_of_replaceMethods_eq (hj : j ∈ p.classes) (hk : k ∈ p.classes)
    (h : replaceMethods methods j = replaceMethods methods k) : j = k := by
  have hname : (replaceMethods methods j).name = (replaceMethods methods k).name := by rw [h]
  exact eq_of_name_eq hj hk hname

private theorem mem_ancestors_withMethods {name : Name} (hj : j ∈ p.classes) :
    replaceMethods methods j ∈ (p.withMethods methods).ancestors name ↔ j ∈ p.ancestors name := by
  rw [ancestors_withMethods]
  refine ⟨fun h => ?_, List.mem_map_of_mem⟩
  obtain ⟨i, hi, heq⟩ := List.mem_map.1 h
  rwa [← eq_of_replaceMethods_eq _ (mem_of_mem_ancestors hi) hj heq]

private theorem extensionsFirst_withMethods (h : p.ExtensionsFirst className) :
    (p.withMethods methods).ExtensionsFirst className := by
  rw [ExtensionsFirst, ancestors_withMethods, List.pairwise_map]
  refine h.imp_of_mem fun hj _ hfirst hji hki => ?_
  exact fun hextends => hfirst hji hki ((mem_ancestors_withMethods _ (mem_of_mem_ancestors hj)).1 hextends)

/-- In a list without repetitions what stands behind does not stand in front. -/
private theorem pairwise_of_sublist {α : Type} {l : List α} {a b : α} (hl : l.Nodup) (h : [a, b].Sublist l) :
    l.Pairwise fun x y => ¬(x = b ∧ y = a) := by
  obtain ⟨front, behind, rfl, ha, hb⟩ := List.cons_sublist_iff.1 h
  have hb : b ∈ behind := List.singleton_sublist.1 hb
  obtain ⟨-, -, hdisjoint⟩ := List.nodup_append.1 hl
  rw [List.pairwise_append]
  refine ⟨List.pairwise_of_forall_mem_list ?_, List.pairwise_of_forall_mem_list ?_, ?_⟩
  · rintro x hx _ _ ⟨rfl, -⟩
    exact hdisjoint x hx x hb rfl
  · rintro _ _ y hy ⟨-, rfl⟩
    exact hdisjoint y ha y hy rfl
  · rintro x hx _ _ ⟨rfl, -⟩
    exact hdisjoint x hx x hb rfl

/-! ### A method of two interfaces -/

private def sampleMethod : Method := Generation.bareMethod 0 "m" .standard none

/-- The two classes declare a method and no other does. -/
private def sampleMethods (j k : ClassModel) (name : Name) : List Method :=
  if name = j.name ∨ name = k.name then [sampleMethod] else []

private theorem declaresInstance_sampleMethods (hi : i = j ∨ i = k) (hinterface : i.isInterface = true) :
    DeclaresInstance (replaceMethods (sampleMethods j k) i) sampleMethod.name sampleMethod.type := by
  refine ⟨hinterface, sampleMethod, ?_, rfl, sampleMethod.hasSignature_self⟩
  rcases hi with rfl | rfl <;> simp [replaceMethods, sampleMethods]

section Sample

variable (hsublist : [j, k].Sublist (p.ancestors className))

include hsublist

/-- Where one of them stands in front of the other, the entry is its own. -/
private theorem owner_eq_of_sublist (hj : j.isInterface = true)
    (he : e ∈ (p.withMethods (sampleMethods j k)).methodsToImplement className)
    (hsame : e.method.hasSignature sampleMethod.name sampleMethod.type = true) :
    replaceMethods (sampleMethods j k) j = e.owner := by
  have hmem : ∀ {i}, i ∈ [j, k] → i ∈ p.classes := fun hi => mem_of_mem_ancestors (hsublist.subset hi)
  -- the ancestors are the same with the sample methods, and so is their order
  have hpairwise : ((p.withMethods (sampleMethods j k)).ancestors className).Pairwise fun x y =>
      ¬(x = replaceMethods (sampleMethods j k) k ∧ y = replaceMethods (sampleMethods j k) j) := by
    rw [ancestors_withMethods, List.pairwise_map]
    refine (pairwise_of_sublist (nodup_ancestors className) hsublist).imp_of_mem fun hx hy hnot => ?_
    rintro ⟨hxk, hyj⟩
    exact hnot ⟨eq_of_replaceMethods_eq _ (mem_of_mem_ancestors hx) (hmem (by simp)) hxk,
      eq_of_replaceMethods_eq _ (mem_of_mem_ancestors hy) (hmem (by simp)) hyj⟩
  have hfirst := (mem_ancestors_withMethods (sampleMethods j k) (hmem (by simp))).2
    (hsublist.subset List.mem_cons_self)
  have hdeclares := declaresInstance_sampleMethods (k := k) (.inl rfl) hj
  obtain ⟨hname, htype⟩ := Method.hasSignature_iff.1 hsame
  rw [← hname, ← htype] at hdeclares
  rcases owner_first hpairwise he hfirst hdeclares with heq | hnot
  · exact heq
  · -- nobody else declares the method
    have hancestor := owner_mem_ancestors_of_mem_methodsToImplement he
    rw [ancestors_withMethods] at hancestor
    obtain ⟨i, hi, howner⟩ := List.mem_map.1 hancestor
    have hdeclared : e.method ∈ sampleMethods j k i.name := by
      have hmethod := (of_mem_methodsToImplement he).2.1
      rwa [← howner] at hmethod
    have hwhich : i.name = j.name ∨ i.name = k.name := by
      by_contra hother
      rw [sampleMethods, if_neg hother] at hdeclared
      cases hdeclared
    rcases hwhich with hij | hik
    · rw [← howner, eq_of_name_eq (mem_of_mem_ancestors hi) (hmem (by simp)) hij]
    · rw [← howner, eq_of_name_eq (mem_of_mem_ancestors hi) (hmem (by simp)) hik] at hnot
      exact absurd ⟨rfl, rfl⟩ hnot

private theorem exists_entry_of_sublist (hj : j.isInterface = true) :
    ∃ e ∈ (p.withMethods (sampleMethods j k)).methodsToImplement className,
      e.method.hasSignature sampleMethod.name sampleMethod.type = true := by
  have hmem : j ∈ p.ancestors className := hsublist.subset List.mem_cons_self
  obtain ⟨c, hc, -⟩ := mem_ancestors_iff.1 hmem
  obtain rfl := (mem_of_find? hc).2
  obtain ⟨hinterface, m, hm, hstatic, hsame⟩ :=
    declaresInstance_sampleMethods (i := j) (k := k) (.inl rfl) hj
  have hinstance : isInstanceMethod m = true := by
    rw [isInstanceMethod, hstatic, (Method.hasSignature_iff.1 hsame).1]
    rfl
  exact mentions_iff.2 ⟨_, (mem_ancestors_withMethods _ (mem_of_mem_ancestors hmem)).2 hmem, hinterface, m, hm,
    hinstance, hsame⟩

end Sample

private theorem extensionsFirst_of_mostSpecific
    (h : ∀ methods, ∀ e ∈ (p.withMethods methods).methodsToImplement className,
      (p.withMethods methods).MostSpecific className e) : p.ExtensionsFirst className := by
  refine List.pairwise_iff_forall_sublist.2 fun {j k} hsublist hji hki hextends => ?_
  obtain ⟨hj, hk⟩ : j ∈ p.ancestors className ∧ k ∈ p.ancestors className := by
    constructor <;> exact hsublist.subset (by simp)
  have hne : j ≠ k := by simpa using hsublist.nodup (nodup_ancestors className)
  -- with a method that only these two declare, the one in front gives the entry and the other one is more specific
  obtain ⟨e, he, hsame⟩ := exists_entry_of_sublist hsublist hji
  have howner := owner_eq_of_sublist hsublist hji he hsame
  have hdeclares := declaresInstance_sampleMethods (j := j) (.inr rfl) hki
  obtain ⟨hname, htype⟩ := Method.hasSignature_iff.1 hsame
  rw [← hname, ← htype] at hdeclares
  have hancestor := (mem_ancestors_withMethods (sampleMethods j k) (mem_of_mem_ancestors hk)).2 hk
  have hextends' := (mem_ancestors_withMethods (sampleMethods j k) (mem_of_mem_ancestors hj)).2 hextends
  have heq := h (sampleMethods j k) e he _ hancestor hdeclares (howner ▸ hextends')
  exact hne (eq_of_replaceMethods_eq _ (mem_of_mem_ancestors hk) (mem_of_mem_ancestors hj) (heq.trans howner.symm)).symm

/-- The kept declaration of a method is a nearest one.  It is a most specific one where extensions stand first among
the ancestors, as where each is nearer than what it extends; and where they do not, some methods make it fail. -/
theorem mostSpecific_iff (p : Program) (className : Name) :
    (∀ e ∈ p.methodsToImplement className, ∀ k ∈ p.ancestors className,
      DeclaresInstance k e.method.name e.method.type → p.NoFarther className e.owner k) ∧
    (p.ExtensionsFirst className → ∀ e ∈ p.methodsToImplement className, p.MostSpecific className e) ∧
    ((∀ methods, ∀ e ∈ (p.withMethods methods).methodsToImplement className,
      (p.withMethods methods).MostSpecific className e) ↔ p.ExtensionsFirst className) ∧
    ((∀ j ∈ p.ancestors className, ∀ k ∈ p.ancestors className, j.isInterface = true → k.isInterface = true →
      j ∈ p.ancestors k.name → j ≠ k → ¬p.NoFarther className j k) → p.ExtensionsFirst className) := by
  refine ⟨fun e he k hk hdeclares => ?_, fun hfirst e he => mostSpecific_of_extensionsFirst hfirst he,
    ⟨extensionsFirst_of_mostSpecific, fun hfirst methods e he => ?_⟩, extensionsFirst_of_nearer⟩
  · rcases owner_first (pairwise_ancestors className) he hk hdeclares with rfl | hle
    · exact fun _ h => h
    · exact hle
  · exact mostSpecific_of_extensionsFirst (extensionsFirst_withMethods methods hfirst) he

/-! ### A redundant interface -/

/-- No interface extends itself, not even through others. -/
def AcyclicInterfaces (p : Program) : Prop := ∀ c, ¬Relation.TransGen p.Brings c c

private theorem acyclicInterfaces_of_rank (rank : Name → Nat)
    (h : ∀ c ∈ p.classes, ∀ i ∈ p.classes, i.name ∈ c.interfaces → rank i.name < rank c.name) :
    p.AcyclicInterfaces := by
  have hstep : ∀ {c i : ClassModel}, c ∈ p.classes → p.Brings c i → rank i.name < rank c.name := by
    rintro c i hc ⟨name, hname, hfind⟩
    obtain ⟨hmem, rfl⟩ := mem_of_find? hfind
    exact h c hc i hmem hname
  intro c hcycle
  have hc : c ∈ p.classes := by
    obtain ⟨_, -, hbrings⟩ := Relation.TransGen.tail'_iff.1 hcycle
    exact hbrings.mem
  have hdown : ∀ i, Relation.TransGen p.Brings c i → i ∈ p.classes ∧ rank i.name < rank c.name := by
    intro i hi
    induction hi with
    | single hbrings => exact ⟨hbrings.mem, hstep hc hbrings⟩
    | tail _ hbrings ih => exact ⟨hbrings.mem, Nat.lt_trans (hstep ih.1 hbrings) ih.2⟩
  exact Nat.lt_irrefl _ (hdown c hcycle).2

/-- An interface. -/
private def shape : ClassModel := Generation.bareClass "Shape" .interface none [] [sampleMethod]

/-- An interface that extends it and declares its method again. -/
private def solid : ClassModel := Generation.bareClass "Solid" .interface none ["Shape"] [sampleMethod]

/-- A class that names both, in this order. -/
private def cube (interfaces : List Name) : ClassModel := Generation.bareClass "Cube" .plain none interfaces []

private def cubeProgram (interfaces : List Name) : Program :=
  ⟨[shape, solid, cube interfaces], show ["Shape", "Solid", "Cube"].Nodup by decide⟩

/-- Where a class names an interface in front of one that extends it, the less specific declaration is kept. -/
theorem mostSpecific_fails_cube :
    (cubeProgram ["Shape", "Solid"]).AcyclicInterfaces ∧
    (⟨shape, sampleMethod⟩ : MethodEntry) ∈ (cubeProgram ["Shape", "Solid"]).methodsToImplement "Cube" ∧
    solid ∈ (cubeProgram ["Shape", "Solid"]).ancestors "Cube" ∧
    DeclaresInstance solid sampleMethod.name sampleMethod.type ∧
    shape ∈ (cubeProgram ["Shape", "Solid"]).ancestors solid.name ∧ solid ≠ shape ∧
    ¬(cubeProgram ["Shape", "Solid"]).MostSpecific "Cube" ⟨shape, sampleMethod⟩ := by
  have hentries : (cubeProgram ["Shape", "Solid"]).methodsToImplement "Cube" = [⟨shape, sampleMethod⟩] := by
    with_unfolding_all rfl
  have hancestors : (cubeProgram ["Shape", "Solid"]).ancestors "Cube" = [cube ["Shape", "Solid"], shape, solid] := by
    with_unfolding_all rfl
  have hextends : (cubeProgram ["Shape", "Solid"]).ancestors solid.name = [solid, shape] := by
    with_unfolding_all rfl
  have hne : solid ≠ shape := fun h => absurd (congrArg ClassModel.name h) (by decide)
  have hsolid : solid ∈ (cubeProgram ["Shape", "Solid"]).ancestors "Cube" := by simp [hancestors]
  have hshape : shape ∈ (cubeProgram ["Shape", "Solid"]).ancestors solid.name := by simp [hextends]
  have hdeclares : DeclaresInstance solid sampleMethod.name sampleMethod.type :=
    ⟨rfl, sampleMethod, List.mem_cons_self, rfl, sampleMethod.hasSignature_self⟩
  refine ⟨?_, by simp [hentries], hsolid, hdeclares, hshape, hne, fun h => hne (h solid hsolid hdeclares hshape)⟩
  exact acyclicInterfaces_of_rank (fun name => ["Shape", "Solid", "Cube"].idxOf name) (by decide)

/-- In the other order the more specific declaration is kept. -/
theorem mostSpecific_iff_cube :
    (cubeProgram ["Solid", "Shape"]).ExtensionsFirst "Cube" ∧
    (⟨solid, sampleMethod⟩ : MethodEntry) ∈ (cubeProgram ["Solid", "Shape"]).methodsToImplement "Cube" ∧
    (cubeProgram ["Solid", "Shape"]).MostSpecific "Cube" ⟨solid, sampleMethod⟩ := by
  have hentries : (cubeProgram ["Solid", "Shape"]).methodsToImplement "Cube" = [⟨solid, sampleMethod⟩] := by
    with_unfolding_all rfl
  have hancestors : (cubeProgram ["Solid", "Shape"]).ancestors "Cube" = [cube ["Solid", "Shape"], solid, shape] := by
    with_unfolding_all rfl
  have hextends : (cubeProgram ["Solid", "Shape"]).ancestors shape.name = [shape] := by with_unfolding_all rfl
  have hfirst : (cubeProgram ["Solid", "Shape"]).ExtensionsFirst "Cube" := by
    have hne : solid ≠ shape := fun h => absurd (congrArg ClassModel.name h) (by decide)
    have hcube : (cube ["Solid", "Shape"]).isInterface ≠ true := by decide
    rw [ExtensionsFirst, hancestors]
    simp [hcube, hextends, hne]
  refine ⟨hfirst, by simp [hentries], ?_⟩
  exact (mostSpecific_iff (cubeProgram ["Solid", "Shape"]) "Cube").2.1 hfirst _ (by simp [hentries])

end HaxeBackend.Program
