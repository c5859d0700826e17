import HaxeBackend.Proofs.Hierarchy.Ancestors

/-!
# Methods to implement

The list of methods to implement has one entry for each name and type that an interface among the ancestors declares
(`mentions_iff`, `eq_of_mem_methodsToImplement`).  The key fact: what is mentioned for a superclass is mentioned for
its subclasses (`Mentions.of_above`), although the entry may be another one.
-/

namespace HaxeBackend

theorem Method.hasSignature_iff {m : Method} {name : Name} {type : MethodTy} :
    m.hasSignature name type = true ↔ m.name = name ∧ m.type = type := by
  rw [Method.hasSignature, Bool.and_eq_true, beq_iff_eq, beq_iff_eq]

theorem Method.hasSignature_self (m : Method) : m.hasSignature m.name m.type = true :=
  Method.hasSignature_iff.2 ⟨rfl, rfl⟩

theorem ClassModel.of_findMethod? {c : ClassModel} {m : Method} {name : Name} {type : MethodTy}
    (h : c.findMethod? name type = some m) : m ∈ c.methods ∧ m.name = name ∧ m.type = type := by
  refine ⟨List.mem_of_find?_eq_some h, Method.hasSignature_iff.1 ?_⟩
  exact List.find?_some (p := fun d : Method => d.hasSignature name type) h

theorem ClassModel.exists_findMethod? {c : ClassModel} {m : Method} (hm : m ∈ c.methods) :
    ∃ d, c.findMethod? m.name m.type = some d := by
  rw [← Option.isSome_iff_exists, ClassModel.findMethod?, List.find?_isSome]
  exact ⟨m, hm, m.hasSignature_self⟩

/-- The name and type of an entry. -/
def MethodEntry.key (e : MethodEntry) : Name × MethodTy := (e.method.name, e.method.type)

namespace Program

variable {p : Program} {c s : ClassModel} {e e' : MethodEntry} {name : Name} {type : MethodTy}

/-! ### Distinct entries -/

private theorem distinctEntries_cons (seen : List (Name × MethodTy)) (e : MethodEntry) (l : List MethodEntry) :
    distinctEntries seen (e :: l) =
      if seen.contains e.key then distinctEntries seen l else e :: distinctEntries (e.key :: seen) l := rfl

private theorem of_mem_distinctEntries {seen : List (Name × MethodTy)} {l : List MethodEntry}
    (h : e ∈ distinctEntries seen l) : e ∈ l ∧ e.key ∉ seen := by
  induction l generalizing seen with
  | nil => cases h
  | cons d l ih =>
    rw [distinctEntries_cons] at h
    split at h
    · obtain ⟨hmem, hseen⟩ := ih h
      exact ⟨List.mem_cons_of_mem _ hmem, hseen⟩
    · rename_i hfresh
      rcases List.mem_cons.1 h with rfl | h
      · exact ⟨List.mem_cons_self, by simpa [MethodEntry.key] using hfresh⟩
      · obtain ⟨hmem, hseen⟩ := ih h
        exact ⟨List.mem_cons_of_mem _ hmem, fun hmem => hseen (List.mem_cons_of_mem _ hmem)⟩

private theorem exists_mem_distinctEntries {seen : List (Name × MethodTy)} {l : List MethodEntry} (h : e ∈ l)
    (hseen : e.key ∉ seen) : ∃ d ∈ distinctEntries seen l, d.key = e.key := by
  induction l generalizing seen with
  | nil => cases h
  | cons d l ih =>
    rw [distinctEntries_cons]
    by_cases hkey : d.key = e.key
    · have hfresh : seen.contains d.key = false := by simpa [hkey] using hseen
      rw [if_neg (by simpa [MethodEntry.key] using hfresh)]
      exact ⟨d, List.mem_cons_self, hkey⟩
    · have hmem : e ∈ l := by
        rcases List.mem_cons.1 h with rfl | h
        · exact absurd rfl hkey
        · exact h
      split
      · exact ih hmem hseen
      · have hseen' : e.key ∉ d.key :: seen := by
          rw [List.mem_cons, not_or]
          exact ⟨fun h => hkey h.symm, hseen⟩
        obtain ⟨d', hd', hkey'⟩ := ih hmem hseen'
        exact ⟨d', List.mem_cons_of_mem _ hd', hkey'⟩

/-- No two entries have the same name and type. -/
private theorem nodup_distinctEntries {seen : List (Name × MethodTy)} {l : List MethodEntry} :
    ((distinctEntries seen l).map MethodEntry.key).Nodup := by
  induction l generalizing seen with
  | nil => exact List.nodup_nil
  | cons d l ih =>
    rw [distinctEntries_cons]
    split
    · exact ih
    · rw [List.map_cons, List.nodup_cons]
      refine ⟨fun hmem => ?_, ih⟩
      obtain ⟨e, he, hkey⟩ := List.mem_map.1 hmem
      exact (of_mem_distinctEntries he).2 (hkey ▸ List.mem_cons_self)

/-- Of the entries with one name and type the first is kept. -/
private theorem first_of_mem_distinctEntries {R : MethodEntry → MethodEntry → Prop} {seen : List (Name × MethodTy)}
    {l : List MethodEntry} (hl : l.Pairwise R) (he : e ∈ distinctEntries seen l) (he' : e' ∈ l)
    (hkey : e'.key = e.key) : e' = e ∨ R e e' := by
  induction l generalizing seen with
  | nil => cases he'
  | cons d l ih =>
    obtain ⟨hfirst, hrest⟩ := List.pairwise_cons.1 hl
    obtain ⟨-, hseen⟩ := of_mem_distinctEntries he
    rw [distinctEntries_cons] at he
    split at he
    · rename_i hold
      rcases List.mem_cons.1 he' with rfl | he'
      · have hmem : e'.key ∈ seen := List.contains_iff_mem.1 hold
        exact absurd (hkey ▸ hmem) hseen
      · exact ih hrest he he'
    · rcases List.mem_cons.1 he with rfl | he
      · exact (List.mem_cons.1 he').imp_right fun he' => hfirst e' he'
      · rcases List.mem_cons.1 he' with rfl | he'
        · exact absurd List.mem_cons_self (hkey ▸ (of_mem_distinctEntries he).2)
        · exact ih hrest he he'

/-! ### Entries -/

/-- The entry is an instance method that an interface among the ancestors declares. -/
private def Required (p : Program) (className : Name) (e : MethodEntry) : Prop :=
  e.owner ∈ p.ancestors className ∧ e.owner.isInterface = true ∧ e.method ∈ e.owner.methods ∧
    isInstanceMethod e.method = true

private theorem mem_required {className : Name} :
    (e ∈ ((p.ancestors className).filter ClassModel.isInterface).flatMap fun c =>
      (c.methods.filter isInstanceMethod).map fun m => (⟨c, m⟩ : MethodEntry)) ↔ Required p className e := by
  rw [List.mem_flatMap]
  constructor
  · rintro ⟨i, hi, he⟩
    obtain ⟨m, hm, rfl⟩ := List.mem_map.1 he
    rw [List.mem_filter] at hi hm
    exact ⟨hi.1, hi.2, hm.1, hm.2⟩
  · rintro ⟨hmem, hinterface, hmethod, hinstance⟩
    exact ⟨e.owner, List.mem_filter.2 ⟨hmem, hinterface⟩,
      List.mem_map.2 ⟨e.method, List.mem_filter.2 ⟨hmethod, hinstance⟩, rfl⟩⟩

/-- What has to be implemented is an instance method of an interface. -/
theorem of_mem_methodsToImplement {className : Name} (h : e ∈ p.methodsToImplement className) :
    e.owner.isInterface = true ∧ e.method ∈ e.owner.methods ∧ e.method.isStatic = false ∧
      isSpecialName e.method.name = false := by
  obtain ⟨-, hinterface, hmethod, hinstance⟩ := mem_required.1 (of_mem_distinctEntries h).1
  rw [isInstanceMethod, Bool.and_eq_true, Bool.not_eq_true', Bool.not_eq_true'] at hinstance
  exact ⟨hinterface, hmethod, hinstance⟩

theorem owner_mem_ancestors_of_mem_methodsToImplement {className : Name} (h : e ∈ p.methodsToImplement className) :
    e.owner ∈ p.ancestors className :=
  (mem_required.1 (of_mem_distinctEntries h).1).1

theorem owner_mem_of_mem_methodsToImplement {className : Name} (h : e ∈ p.methodsToImplement className) :
    e.owner ∈ p.classes :=
  mem_of_mem_ancestors (owner_mem_ancestors_of_mem_methodsToImplement h)

/-- There is one entry for each name and type. -/
theorem eq_of_mem_methodsToImplement {className : Name} (h : e ∈ p.methodsToImplement className)
    (h' : e' ∈ p.methodsToImplement className) (hsame : e'.method.hasSignature e.method.name e.method.type = true) :
    e' = e := by
  obtain ⟨hname, htype⟩ := Method.hasSignature_iff.1 hsame
  exact List.inj_on_of_nodup_map nodup_distinctEntries h' h (Prod.ext hname htype)

/-- Of the interfaces that declare a method the first among the ancestors is its owner. -/
theorem owner_first_of_mem_methodsToImplement {R : ClassModel → ClassModel → Prop} {className : Name}
    (hancestors : (p.ancestors className).Pairwise R) (he : e ∈ p.methodsToImplement className)
    {k : ClassModel} {m : Method} (hk : k ∈ p.ancestors className) (hinterface : k.isInterface = true)
    (hm : m ∈ k.methods) (hinstance : isInstanceMethod m = true)
    (hsame : m.hasSignature e.method.name e.method.type = true) : k = e.owner ∨ R e.owner k := by
  have hpairwise : (((p.ancestors className).filter ClassModel.isInterface).flatMap fun c =>
      (c.methods.filter isInstanceMethod).map fun m => (⟨c, m⟩ : MethodEntry)).Pairwise
        fun e e' => e'.owner = e.owner ∨ R e.owner e'.owner := by
    refine List.pairwise_flatMap.2 ⟨fun c _ => ?_, (hancestors.filter _).imp fun hR => ?_⟩
    · refine List.pairwise_map.2 (List.pairwise_of_forall fun _ _ => .inl rfl)
    · rintro e he e' he'
      obtain ⟨_, -, rfl⟩ := List.mem_map.1 he
      obtain ⟨_, -, rfl⟩ := List.mem_map.1 he'
      exact .inr hR
  obtain ⟨hname, htype⟩ := Method.hasSignature_iff.1 hsame
  have hrequired : Required p className ⟨k, m⟩ := ⟨hk, hinterface, hm, hinstance⟩
  rcases first_of_mem_distinctEntries hpairwise he (mem_required.2 hrequired) (Prod.ext hname htype) with heq | hfirst
  · exact .inl (congrArg MethodEntry.owner heq)
  · exact hfirst

/-! ### Mentioned methods -/

/-- A method of this name and type has to be implemented by the class. -/
def Mentions (p : Program) (c : ClassModel) (name : Name) (type : MethodTy) : Prop :=
  ∃ e ∈ p.methodsToImplement c.name, e.method.hasSignature name type = true

theorem mentions_of_mem (h : e ∈ p.methodsToImplement c.name) : p.Mentions c e.method.name e.method.type :=
  ⟨e, h, e.method.hasSignature_self⟩

theorem mentions_iff : p.Mentions c name type ↔
    ∃ i ∈ p.ancestors c.name, i.isInterface = true ∧
      ∃ m ∈ i.methods, isInstanceMethod m = true ∧ m.hasSignature name type = true := by
  constructor
  · rintro ⟨e, he, hsame⟩
    obtain ⟨hmem, hinterface, hmethod, hinstance⟩ := mem_required.1 (of_mem_distinctEntries he).1
    exact ⟨e.owner, hmem, hinterface, e.method, hmethod, hinstance, hsame⟩
  · rintro ⟨i, hi, hinterface, m, hm, hinstance, hsame⟩
    -- the entry need not be this method: another interface may come first
    have hrequired : Required p c.name ⟨i, m⟩ := ⟨hi, hinterface, hm, hinstance⟩
    have hfresh : MethodEntry.key ⟨i, m⟩ ∉ ([] : List (Name × MethodTy)) := List.not_mem_nil
    obtain ⟨d, hd, hkey⟩ := exists_mem_distinctEntries (mem_required.2 hrequired) hfresh
    obtain ⟨hname, htype⟩ := Prod.mk.inj hkey
    obtain ⟨hname', htype'⟩ := Method.hasSignature_iff.1 hsame
    exact ⟨d, hd, Method.hasSignature_iff.2 ⟨hname.trans hname', htype.trans htype'⟩⟩

/-- What is mentioned for a superclass is mentioned for its subclasses. -/
theorem Mentions.of_above (hc : c ∈ p.classes) (hs : p.Above c s) (h : p.Mentions s name type) :
    p.Mentions c name type := by
  obtain ⟨i, hi, hinterface, hmethod⟩ := mentions_iff.1 h
  exact mentions_iff.2 ⟨i, ancestors_subset_of_above hc hs hi, hinterface, hmethod⟩

end Program

end HaxeBackend
