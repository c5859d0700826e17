import HaxeBackend.Proofs.Generation.Turns
import HaxeBackend.Proofs.Generation.Uses
import HaxeBackend.Proofs.Lowering.Dependencies

/-!
# Dependencies of a class

A unit refers to the classes of its header, then to those of the bodies that are translated into it, also where these
fail on the way, and then to those of the annotations that are registered.  Nothing else has to do with its references,
so its dependencies are these without the class itself, each once, in the order of first reference.  Main result: they
have every other class that the unit guards, accesses, makes objects of or wraps functions for (`dependencies_complete`).
-/

namespace HaxeBackend.Generation

variable {α β : Type} {env : Env} {p : Program} {c : ClassModel} {u : Target.SourceUnit} {f : Target.Function}
  {at_ : Location} {base names names' seen : List Name} {st st' : UnitState}

/-! ### References of registered annotations -/

/-- The classes that an annotation of the type refers to: the type, and those of its elements and of the defaults. -/
def annotationReferences (p : Program) (fallback : Method → List Name) (type : Name)
    (elements : List (Name × List Name)) : List Name :=
  match p.find? type with
  | none => []
  | some c => c.name :: (accessors c).flatMap fun m => (elements.lookup m.name).getD (fallback m)

mutual

def valueReferences (p : Program) (fallback : Method → List Name) : AnnotationValue → List Name
  | .enum className _ => [className]
  | .classRef type => type.mentioned?.toList
  | .nested type elements _ => annotationReferences p fallback type (elementReferences p fallback elements)
  | .array items => itemReferences p fallback items
  | .bool _ | .byte _ | .short _ | .char _ | .int _ | .long _ | .float _ | .double _ | .string _ => []

def elementReferences (p : Program) (fallback : Method → List Name) :
    List (Name × AnnotationValue) → List (Name × List Name)
  | [] => []
  | (name, value) :: rest => (name, valueReferences p fallback value) :: elementReferences p fallback rest

def itemReferences (p : Program) (fallback : Method → List Name) : List AnnotationValue → List Name
  | [] => []
  | value :: rest => valueReferences p fallback value ++ itemReferences p fallback rest

end

/-- The classes that the default of an element refers to. -/
def defaultReferences (p : Program) : Nat → Method → List Name
  | 0, _ => []
  | fuel + 1, m =>
    match m.defaultValue with
    | some value => valueReferences p (defaultReferences p fuel) value
    | none => []

def useReferences (p : Program) (use : AnnotationUse) : List Name :=
  let fallback := defaultReferences p (defaultDepth p)
  annotationReferences p fallback use.type (elementReferences p fallback use.elements)

/-- The classes that the annotations refer to which are registered. -/
def listReferences (p : Program) (uses : List AnnotationUse) : List Name :=
  (uses.filter isRegistered).flatMap (useReferences p)

def methodReferences (p : Program) (m : Method) : List Name :=
  listReferences p m.annotations ++
    (List.range m.params.length).flatMap fun i => listReferences p (m.paramAnnotations.getD i [])

/-- The classes that the registration of a class refers to: those of its own annotations, of those of its fields, and
of those of its methods and their parameters. -/
def registeredReferences (env : Env) (c : ClassModel) : List Name :=
  if env.options.reflection then
    listReferences env.program c.annotations ++
      ((visibleFields c).flatMap (fun f => listReferences env.program f.annotations) ++
        c.methods.flatMap (methodReferences env.program))
  else []

/-! ### Annotation literals -/

/-- Behind the references that were there, those of the registration are kept, and the guards are for some of them. -/
private def HeldBy (base : List Name) (st : LiteralState) (seen : List Name) : Prop :=
  st.refs.order = (base ++ seen).eraseDups ∧ ∀ name ∈ st.guards.pending, name ∈ seen

/-- The step refers to these classes and has a result like this. -/
private def Mentions (base : List Name) (x : LiteralM α) (names : List Name) (Q : α → Prop) : Prop :=
  ∀ st seen, HeldBy base st seen → HeldBy base (x.run st).2 (seen ++ names) ∧ Q (x.run st).1

private theorem mentions_pure {a : α} {Q : α → Prop} (h : Q a) : Mentions base (pure a) [] Q := by
  intro st seen hseen
  rw [List.append_nil]
  exact ⟨hseen, h⟩

private theorem Mentions.bind {x : LiteralM α} {f : α → LiteralM β} {Q : α → Prop} {R : β → Prop}
    (hx : Mentions base x names Q) (hf : ∀ a, Q a → Mentions base (f a) names' R) :
    Mentions base (x >>= f) (names ++ names') R := by
  intro st seen hseen
  obtain ⟨hmid, ha⟩ := hx st seen hseen
  rw [← List.append_assoc]
  exact hf _ ha _ _ hmid

private theorem Mentions.bind_pure {x : LiteralM α} {f : α → β} {Q : α → Prop} {R : β → Prop}
    (hx : Mentions base x names Q) (hf : ∀ a, Q a → R (f a)) :
    Mentions base (x >>= fun a => pure (f a)) names R := by
  have h := hx.bind fun a ha => (mentions_pure (hf a ha) : Mentions base (pure (f a)) [] R)
  rwa [List.append_nil] at h

private theorem Mentions.imp {x : LiteralM α} {Q R : α → Prop} (hx : Mentions base x names Q) (h : ∀ a, Q a → R a) :
    Mentions base x names R := fun st seen hseen => (hx st seen hseen).imp_right (h _)

private theorem mentions_refs {g : ReferenceTable → ReferenceTable}
    (h : ∀ t seen, t.order = seen.eraseDups → (g t).order = (seen ++ names).eraseDups) :
    Mentions base (modify fun st => { st with refs := g st.refs }) names fun _ => True := by
  intro st seen hseen
  refine ⟨⟨?_, fun n hn => List.mem_append_left _ (hseen.2 n hn)⟩, trivial⟩
  rw [← List.append_assoc]
  exact h _ _ hseen.1

/-- Uses on both sides are uses among all. -/
private theorem usesAmong_join {uses uses' : List Target.ClassUse} (h : UsesAmong p names uses)
    (h' : UsesAmong p names' uses') : UsesAmong p (names ++ names') (uses ++ uses') :=
  usesAmong_append.2 ⟨h.mono fun _ => List.mem_append_left _, h'.mono fun _ => List.mem_append_right _⟩

/-- Steps in order, one after the other. -/
private theorem mentions_inOrder {γ : Type} {l : List γ} {step : γ → LiteralM α} {namesOf : γ → List Name}
    {read : α → List Target.ClassUse}
    (h : ∀ x ∈ l, Mentions base (step x) (namesOf x) fun a => UsesAmong p (namesOf x) (read a)) :
    Mentions base (inOrder (l.map step)) (l.flatMap namesOf) fun values =>
      UsesAmong p (l.flatMap namesOf) (values.flatMap read) := by
  induction l with
  | nil => exact mentions_pure usesAmong_nil
  | cons x l ih =>
    obtain ⟨hx, hl⟩ := List.forall_mem_cons.1 h
    rw [List.map_cons, inOrder, List.flatMap_cons]
    exact hx.bind fun a ha => (ih hl).bind_pure fun values hvalues => usesAmong_join ha hvalues

/-- The step refers to these classes, and its literal uses no others. -/
private abbrev Cites (p : Program) (base : List Name) (x : LiteralM Target.Expr) (names : List Name) : Prop :=
  Mentions base x names fun e => UsesAmong p names e.classUses

private theorem cites_scalar {e : Target.Expr} (h : e.classUses = []) : Cites p base (pure e) [] := by
  refine mentions_pure ?_
  rw [h]
  exact usesAmong_nil

private theorem usesAmong_list {values : List Target.Expr}
    (h : UsesAmong p names (values.flatMap Target.Expr.classUses)) :
    UsesAmong p names (Target.Expr.list values).classUses := by
  rwa [Target.Expr.classUses, Target.Expr.classUsesList_eq]

/-- The literals of elements and of defaults refer to what `elementNames` and `fallbackNames` say. -/
private theorem cites_annotationLiteral {fallback : Method → LiteralM Target.Expr} {fallbackNames : Method → List Name}
    (hfallback : ∀ m, Cites p base (fallback m) (fallbackNames m)) (type : Name)
    {elements : List (Name × LiteralM Target.Expr)} {elementNames : List (Name × List Name)}
    (helements : ∀ name x names, Cites p base x names →
      Cites p base ((elements.lookup name).getD x) ((elementNames.lookup name).getD names)) :
    Mentions base (annotationLiteral p at_ fallback type elements)
      (annotationReferences p fallbackNames type elementNames) fun value =>
        UsesAmong p (annotationReferences p fallbackNames type elementNames)
          (value.toList.flatMap Target.Expr.classUses) := by
  unfold annotationLiteral annotationReferences
  cases hfind : p.find? type with
  | none =>
    intro st seen hseen
    rw [List.append_nil]
    exact ⟨hseen, usesAmong_nil⟩
  | some c =>
    have hvalues : ∀ m ∈ accessors c, Cites p base ((elements.lookup m.name).getD (fallback m))
        ((elementNames.lookup m.name).getD (fallbackNames m)) :=
      fun m _ => helements m.name _ _ (hfallback m)
    dsimp only
    rw [← List.singleton_append]
    refine (mentions_refs fun t seen ht => ReferenceTable.order_add ht c.name).bind fun _ _ =>
      (mentions_inOrder hvalues).bind_pure fun values hvalues => ?_
    rw [Option.toList_some, List.flatMap_singleton, Target.Expr.classUses, Target.Expr.classUsesList_eq,
      List.flatMap_singleton]
    have hown : UsesAmong p [c.name] [.construct (Naming.companion c.name .annotationImpl)] :=
      usesAmong_single List.mem_cons_self (.inr rfl)
    exact usesAmong_join hown (usesAmong_list hvalues)

mutual

private theorem cites_valueLiteral {fallback : Method → LiteralM Target.Expr} {fallbackNames : Method → List Name}
    (hfallback : ∀ m, Cites p base (fallback m) (fallbackNames m)) :
    (value : AnnotationValue) →
      Cites p base (valueLiteral p at_ fallback value) (valueReferences p fallbackNames value)
  | .bool _ | .byte _ | .short _ | .char _ | .int _ | .long _ | .float _ | .double _ | .string _ => by
    rw [valueLiteral, valueReferences]
    exact cites_scalar rfl
  | .enum className fieldName => by
    rw [valueLiteral, valueReferences]
    intro st seen hseen
    refine ⟨⟨?_, fun n hn => ?_⟩, usesAmong_single List.mem_cons_self rfl⟩
    · rw [← List.append_assoc]
      exact ReferenceTable.order_add hseen.1 className
    · rcases Guards.mem_pending_touch.1 hn with hn | ⟨rfl, -⟩
      · exact List.mem_append_left _ (hseen.2 n hn)
      · simp
  | .classRef type => by
    rw [valueLiteral, valueReferences]
    refine (mentions_refs fun t seen ht => ReferenceTable.order_addType ht type).bind_pure fun _ _ => ?_
    rw [Lowering.classLiteral, Target.Expr.classUses, Target.Expr.classUsesList_eq]
    exact usesAmong_nil
  | .nested type elements _ => by
    rw [valueLiteral, valueReferences]
    refine (cites_annotationLiteral hfallback type (cites_elementLiterals hfallback elements)).bind_pure ?_
    intro value hvalue
    cases value with
    | none => exact usesAmong_nil
    | some e => simpa using hvalue
  | .array items => by
    rw [valueLiteral, valueReferences]
    exact (cites_itemLiterals hfallback items).bind_pure fun values hvalues => usesAmong_list hvalues

private theorem cites_elementLiterals {fallback : Method → LiteralM Target.Expr} {fallbackNames : Method → List Name}
    (hfallback : ∀ m, Cites p base (fallback m) (fallbackNames m)) :
    (elements : List (Name × AnnotationValue)) → ∀ name x names, Cites p base x names →
      Cites p base (((elementLiterals p at_ fallback elements).lookup name).getD x)
        (((elementReferences p fallbackNames elements).lookup name).getD names)
  | [], _, _, _, h => h
  | (key, value) :: rest, name, x, names, h => by
    rw [elementLiterals, elementReferences, List.lookup_cons, List.lookup_cons]
    split
    · exact cites_valueLiteral hfallback value
    · exact cites_elementLiterals hfallback rest name x names h

private theorem cites_itemLiterals {fallback : Method → LiteralM Target.Expr} {fallbackNames : Method → List Name}
    (hfallback : ∀ m, Cites p base (fallback m) (fallbackNames m)) :
    (items : List AnnotationValue) →
      Mentions base (inOrder (itemLiterals p at_ fallback items)) (itemReferences p fallbackNames items) fun values =>
        UsesAmong p (itemReferences p fallbackNames items) (values.flatMap Target.Expr.classUses)
  | [] => by
    rw [itemLiterals, itemReferences]
    exact mentions_pure usesAmong_nil
  | value :: rest => by
    rw [itemLiterals, itemReferences, inOrder]
    exact (cites_valueLiteral hfallback value).bind fun _ he => (cites_itemLiterals hfallback rest).bind_pure
      fun _ hvalues => usesAmong_join he hvalues

end

private theorem cites_defaultLiteral (fuel : Nat) :
    ∀ m, Cites p base (defaultLiteral p at_ fuel m) (defaultReferences p fuel m) := by
  induction fuel with
  | zero => exact fun _ => cites_scalar rfl
  | succ fuel ih =>
    intro m
    rw [defaultLiteral, defaultReferences]
    cases m.defaultValue with
    | some value => exact cites_valueLiteral ih value
    | none => exact cites_scalar rfl

/-! ### Registration -/

private theorem cites_useList (uses : List AnnotationUse) :
    Cites p base (useList p at_ uses) (listReferences p uses) := by
  unfold useList inOrderSome listReferences
  have huses : ∀ use ∈ uses.filter isRegistered, Mentions base (useLiteral p at_ use) (useReferences p use) fun value =>
      UsesAmong p (useReferences p use) (value.toList.flatMap Target.Expr.classUses) := fun use _ =>
    cites_annotationLiteral (cites_defaultLiteral _) _ (cites_elementLiterals (cites_defaultLiteral _) use.elements)
  refine ((mentions_inOrder huses).bind_pure fun values hvalues => ?_).bind_pure fun _ h => usesAmong_list h
  rw [List.filterMap_eq_flatMap_toList, List.flatMap_assoc]
  exact hvalues

private theorem cites_paramUseLists (m : Method) :
    Cites p base (paramUseLists p at_ m)
      ((List.range m.params.length).flatMap fun i => listReferences p (m.paramAnnotations.getD i [])) := by
  unfold paramUseLists
  exact (mentions_inOrder fun _ _ => cites_useList _).bind_pure fun _ h => usesAmong_list h

private theorem mentions_fieldEntries {slot : Nat} {fields : List Field} :
    Mentions base (fieldEntries p at_ c slot fields) (fields.flatMap fun f => listReferences p f.annotations)
      fun entries => UsesAmong p (fields.flatMap fun f => listReferences p f.annotations)
        (entries.flatMap Target.MemberEntry.classUses) := by
  induction fields generalizing slot with
  | nil => exact mentions_pure usesAmong_nil
  | cons f fields ih =>
    rw [fieldEntries, List.flatMap_cons]
    exact (cites_useList _).bind fun _ huses => ih.bind_pure fun _ hentries => usesAmong_join huses hentries

private theorem mentions_methodEntries {constructorSlot methodSlot : Nat} {methods : List Method} :
    Mentions base (methodEntries p at_ c constructorSlot methodSlot methods) (methods.flatMap (methodReferences p))
      fun entries => UsesAmong p (methods.flatMap (methodReferences p))
        (entries.flatMap Target.MemberEntry.classUses) := by
  induction methods generalizing constructorSlot methodSlot with
  | nil => exact mentions_pure usesAmong_nil
  | cons m methods ih =>
    rw [methodEntries, List.flatMap_cons, methodReferences, List.append_assoc]
    refine (cites_useList _).bind fun uses huses => (cites_paramUseLists m).bind fun paramUses hparams => ?_
    have hmember : ∀ {entry : Target.MemberEntry} {entries : List Target.MemberEntry},
        entry.classUses = uses.classUses ++ paramUses.classUses →
        UsesAmong p (methods.flatMap (methodReferences p)) (entries.flatMap Target.MemberEntry.classUses) →
        UsesAmong p (listReferences p m.annotations ++
          ((List.range m.params.length).flatMap (fun i => listReferences p (m.paramAnnotations.getD i [])) ++
            methods.flatMap (methodReferences p))) ((entry :: entries).flatMap Target.MemberEntry.classUses) := by
      intro entry entries hentry hentries
      rw [List.flatMap_cons, hentry, List.append_assoc]
      exact usesAmong_join huses (usesAmong_join hparams hentries)
    dsimp only
    split
    · exact ih.bind_pure fun _ hentries => hmember rfl hentries
    · -- the annotations of the static initializer are read, although it is not registered
      split
      · exact ih.imp fun _ hentries =>
          hentries.mono fun _ hname => List.mem_append_right _ (List.mem_append_right _ hname)
      · exact ih.bind_pure fun _ hentries => hmember rfl hentries

/-- The uses of a class and its members. -/
private def entryUses (entries : Target.ClassEntry × List Target.MemberEntry) : List Target.ClassUse :=
  entries.1.uses.classUses ++ entries.2.flatMap Target.MemberEntry.classUses

private theorem mentions_classInfoEntries (henv : env.options.reflection = true) (c : ClassModel) :
    Mentions base (classInfoEntries env.program c) (registeredReferences env c) fun entries =>
      entries.1.adapter = companionName c .adapter (env.program.dispatch c == .adapter) ∧
        UsesAmong env.program (registeredReferences env c) (entryUses entries) := by
  have hentry : Mentions base (classEntry env.program ⟨c.name, none⟩ c) (listReferences env.program c.annotations)
      fun entry => entry.adapter = companionName c .adapter (env.program.dispatch c == .adapter) ∧
        UsesAmong env.program (listReferences env.program c.annotations) entry.uses.classUses :=
    (cites_useList _).bind_pure fun _ huses => ⟨rfl, huses⟩
  unfold classInfoEntries registeredReferences
  rw [if_pos henv]
  refine hentry.bind fun entry hentry => mentions_fieldEntries.bind fun fields hfields =>
    mentions_methodEntries.bind_pure fun methods hmethods => ⟨hentry.1, usesAmong_join hentry.2 ?_⟩
  rw [List.flatMap_append]
  exact usesAmong_join hfields hmethods

/-- The registration of a class refers to its annotations, and uses the class itself and what it refers to. -/
private theorem mentions_classInfo {info : Option Target.ClassInfo} (h : Runs (classInfo env c) st info st')
    (hseen : st.refs.order = seen.eraseDups) :
    st'.refs.order = (seen ++ registeredReferences env c).eraseDups ∧
      UsesAmong env.program (c.name :: registeredReferences env c) (info.toList.flatMap Target.ClassInfo.classUses) := by
  unfold classInfo at h
  split at h
  · rename_i hreflection
    obtain ⟨before, mid, hget, h⟩ := runs_bind.1 h
    obtain ⟨rfl, rfl⟩ := runs_get.1 hget
    have hheld : HeldBy seen ⟨st.refs, st.diagnostics, {}⟩ [] :=
      ⟨by rw [List.append_nil]; exact hseen, fun _ hname => absurd hname List.not_mem_nil⟩
    obtain ⟨⟨horder, hpending⟩, hadapter, huses⟩ := mentions_classInfoEntries hreflection c _ _ hheld
    rcases hrun : (classInfoEntries env.program c).run ⟨st.refs, st.diagnostics, {}⟩ with ⟨⟨entry, members⟩, last⟩
    rw [hrun] at h horder hpending hadapter huses
    obtain ⟨_, mid, hset, h⟩ := runs_bind.1 h
    obtain rfl := runs_set.1 hset
    obtain ⟨rfl, rfl⟩ := runs_pure.1 h
    refine ⟨horder, ?_⟩
    have hmono := huses.mono fun name hname => List.mem_cons_of_mem c.name hname
    obtain ⟨hentry, hmembers⟩ := usesAmong_append.1 hmono
    rw [Option.toList_some, List.flatMap_singleton]
    refine usesAmong_append.2 ⟨fun use huse => ?_, usesAmong_append.2 ⟨fun use huse => ?_,
      usesAmong_append.2 ⟨hentry, hmembers⟩⟩⟩
    · -- the holders that are guarded: the classes whose constants the annotations name
      obtain ⟨holder, hholder, rfl⟩ := List.mem_map.1 huse
      obtain ⟨source, hsource, rfl⟩ := List.mem_map.1 hholder
      exact .inr ⟨source, List.mem_cons_of_mem _ (by simpa using hpending source hsource), rfl⟩
    · obtain ⟨name, hname, rfl⟩ := List.mem_map.1 huse
      rw [hadapter, companionName] at hname
      split at hname
      · obtain rfl := List.mem_singleton.1 hname
        exact .inr ⟨c.name, List.mem_cons_self, rfl⟩
      · cases hname
  · rename_i hreflection
    obtain ⟨rfl, rfl⟩ := runs_pure.1 h
    rw [registeredReferences, if_neg hreflection, List.append_nil]
    exact ⟨hseen, usesAmong_nil⟩

/-! ### Methods -/

/-- The classes that the generation of a method refers to: all of its body when that is translated, those up to the
place where the translation fails otherwise, and none when the body is not translated.  A translated body uses no other
classes. -/
def RefersFor (env : Env) (xf : (MethodSite × Method) × Target.Function) (met : List Name) : Prop :=
  match xf.2.body with
  | .given _ | .missing .. => met = []
  | .errored .. => ∃ body, xf.1.2.body = some body ∧ met <+: body.tree.references env.program xf.1.1.pool
  | .lowered b _ => ∃ body, xf.1.2.body = some body ∧ met = body.tree.references env.program xf.1.1.pool ∧
      UsesAmong env.program met b.stmts.classUses

private abbrev RefersInTurn (env : Env) (seen : List Name) (xfs : List ((MethodSite × Method) × Target.Function))
    (last : UnitState) : Prop := InTurn (fun st => st.refs.order) (fun _ => RefersFor env) seen xfs last

private theorem refers_method {x : MethodSite × Method} (h : Runs (method env x.1 x.2) st f st')
    (hseen : st.refs.order = seen.eraseDups) : RefersInTurn env seen [(x, f)] st' := by
  obtain ⟨start, -, hrefs, hcases⟩ := method_cases h
  rw [← hrefs] at hseen
  obtain ⟨hbody, rfl⟩ | ⟨source, hsource, -, hlast, hcases⟩ := hcases
  · have hsame : st'.refs.order = (seen ++ []).eraseDups := by rw [List.append_nil, hseen]
    refine .single hsame fun _ _ => ?_
    unfold RefersFor
    obtain ⟨_, hbody⟩ | ⟨_, _, hbody⟩ := hbody <;> rw [hbody]
  · obtain ⟨met, hmet, horder, hresult⟩ := Lowering.refers_lowerBody env.program env.options (bodySite x.1 x.2) source
      hseen
    rw [← hlast] at horder
    refine .single horder fun _ _ => ?_
    unfold RefersFor
    obtain ⟨_, _, _, hbody⟩ | ⟨b, _, hbody, hlowered⟩ := hcases <;> rw [hbody]
    · exact ⟨source, hsource, hmet⟩
    · obtain ⟨rfl, huses⟩ := hresult b hlowered
      exact ⟨source, hsource, rfl, huses⟩

/-! ### Units -/

/-- The classes in the header of a unit. -/
def headerReferences (c : ClassModel) : List Name :=
  (if c.isInterface then [] else c.superclass.toList) ++ c.interfaces

private theorem order_requireClasses {required : List Name} {v : Unit} (h : Runs (requireClasses p required) st v st')
    (hseen : st.refs.order = seen.eraseDups) : st'.refs.order = (seen ++ required).eraseDups := by
  induction required generalizing st seen with
  | nil => rw [← (runs_pure.1 h).2, hseen, List.append_nil]
  | cons name required ih =>
    obtain ⟨_, mid, hrequire, h⟩ := runs_bind.1 h
    unfold requireClass at hrequire
    dsimp only at hrequire
    split at hrequire
    · have hmid : mid.refs.order = (seen ++ [name]).eraseDups := by
        rw [runs_modify.1 hrequire]
        exact ReferenceTable.order_add hseen name
      rw [ih h hmid, List.append_assoc]
      rfl
    · exact absurd hrequire runs_throw

/-- What a unit refers to, in the order of generation, and that its functions and its registration use no other
classes. -/
structure References (env : Env) (c : ClassModel) (u : Target.SourceUnit) (met : List (List Name)) (order : List Name) :
    Prop where
  /-- Each method refers to the classes of its body. -/
  methods : List.Forall₂ (RefersFor env) ((translated env.program c).zip u.functions) met
  order : order = (headerReferences c ++ (met.flatten ++ registeredReferences env c)).eraseDups
  info : UsesAmong env.program (c.name :: registeredReferences env c) (u.info?.toList.flatMap Target.ClassInfo.classUses)

private theorem refs_poolConstants {fields : List Field} {constants : List (String × Nat)}
    (h : Runs (poolConstants p c fields) st constants st') : st'.refs = st.refs := by
  induction fields generalizing st constants with
  | nil => rw [(runs_pure.1 h).2]
  | cons field fields ih =>
    unfold poolConstants at h
    split at h
    · exact ih h
    · obtain ⟨_, _, hget, h⟩ := runs_bind.1 h
      obtain ⟨rfl, rfl⟩ := runs_get.1 hget
      obtain ⟨_, mid, hset, h⟩ := runs_bind.1 h
      obtain rfl := runs_set.1 hset
      obtain ⟨rest, _, hrest, h⟩ := runs_bind.1 h
      obtain ⟨rfl, rfl⟩ := runs_pure.1 h
      have hsame := ih hrest
      exact hsame

private theorem refs_statics {s : Target.Statics} (h : Runs (statics p c) st s st') : st'.refs = st.refs := by
  unfold statics at h
  obtain ⟨constants, mid, hconstants, h⟩ := runs_bind.1 h
  obtain ⟨_, _, hget, h⟩ := runs_bind.1 h
  obtain ⟨rfl, rfl⟩ := runs_get.1 hget
  obtain ⟨rfl, rfl⟩ := runs_pure.1 h
  exact refs_poolConstants hconstants

/-- The registration comes behind the methods, and nothing behind it refers to classes. -/
private theorem met_of_registration {xfs : List ((MethodSite × Method) × Target.Function)} {header : List Name}
    {info : Option Target.ClassInfo} (h : RefersInTurn env header xfs st) (hinfo : Runs (classInfo env c) st info st') :
    ∃ met, List.Forall₂ (RefersFor env) xfs met ∧
      st'.refs.order = (header ++ (met.flatten ++ registeredReferences env c)).eraseDups ∧
      UsesAmong env.program (c.name :: registeredReferences env c)
        (info.toList.flatMap Target.ClassInfo.classUses) := by
  obtain ⟨met, horder, hall⟩ := h
  obtain ⟨hlast, huses⟩ := mentions_classInfo hinfo horder
  exact ⟨met, hall _ (List.prefix_refl _), by rw [hlast, List.append_assoc], huses⟩

private theorem references_class {k : Target.ClassUnit} (hclass : c.isInterface = false)
    (h : Runs (classUnit env c) {} k st') : ∃ met, References env c (.ofClass k) met st'.refs.order := by
  have htranslated : translated env.program c = classMethods env.program c := by
    simp [translated, unitMethods, hclass]
  have hheader : headerReferences c = c.superclass.toList ++ c.interfaces := by simp [headerReferences, hclass]
  unfold classUnit at h
  obtain ⟨_, st₁, hsuper, h⟩ := runs_bind.1 h
  obtain ⟨_, st₂, hinterfaces, h⟩ := runs_bind.1 h
  obtain ⟨functions, st₃, hfunctions, h⟩ := runs_bind.1 h
  obtain ⟨info, st₄, hinfo, h⟩ := runs_bind.1 h
  obtain ⟨header, st₅, hlines, h⟩ := runs_bind.1 h
  obtain ⟨added, st₆, hadded, h⟩ := runs_bind.1 h
  obtain ⟨s, st₇, hstatics, h⟩ := runs_bind.1 h
  obtain ⟨rfl, rfl⟩ := runs_pure.1 h
  have hstart : ({} : UnitState).refs.order = ([] : List Name).eraseDups := rfl
  have horder := order_requireClasses hinterfaces (order_requireClasses hsuper hstart)
  rw [List.nil_append, ← hheader] at horder
  have hturn := inTurn_methods refers_method hfunctions horder
  obtain ⟨met, hmethods, hlast, huses⟩ := met_of_registration hturn hinfo
  refine ⟨met, ?_, ?_, huses⟩
  · rw [htranslated]
    exact hmethods
  · rw [refs_statics hstatics, (spares_markLines _ _ _ _ hadded).2, (spares_unitHeader _ _ _ hlines).2, hlast]

private theorem references_interface {i : Target.InterfaceUnit} (hinterface : c.isInterface = true)
    (h : Runs (interfaceUnit env c) {} i st') : ∃ met, References env c (.ofInterface i) met st'.refs.order := by
  have htranslated : translated env.program c = staticMethods c ++ adapterCopies env.program c := by
    simp [translated, unitMethods, hinterface]
  have hheader : headerReferences c = c.interfaces := by simp [headerReferences, hinterface]
  unfold interfaceUnit at h
  obtain ⟨_, st₁, hparents, h⟩ := runs_bind.1 h
  obtain ⟨functions, st₂, hfunctions, h⟩ := runs_bind.1 h
  obtain ⟨dispatch, st₃, hdispatch, h⟩ := runs_bind.1 h
  obtain ⟨info, st₄, hinfo, h⟩ := runs_bind.1 h
  obtain ⟨header, st₅, hlines, h⟩ := runs_bind.1 h
  obtain ⟨s, st₆, hstatics, h⟩ := runs_bind.1 h
  obtain ⟨rfl, rfl⟩ := runs_pure.1 h
  have hstart : ({} : UnitState).refs.order = ([] : List Name).eraseDups := rfl
  have horder := order_requireClasses hparents hstart
  rw [List.nil_append, ← hheader] at horder
  -- functions refer in turn, those of the static methods first and then those of the adapter
  have hturn := (inTurn_methods refers_method hfunctions horder).append fun seen' hseen' =>
    inTurn_dispatchClass refers_method hdispatch hseen'
  obtain ⟨met, hmethods, hlast, huses⟩ := met_of_registration hturn hinfo
  refine ⟨met, ?_, ?_, huses⟩
  · rw [htranslated]
    show List.Forall₂ _ ((staticMethods c ++ adapterCopies env.program c).zip (functions ++ dispatch.functions)) _
    rw [List.zip_append (forall₂_methods hfunctions).length_eq]
    exact hmethods
  · rw [refs_statics hstatics, (spares_unitHeader _ _ _ hlines).2, hlast]

private theorem exists_references (h : Runs (sourceUnit env c) {} u st') :
    ∃ met, References env c u met st'.refs.order := by
  unfold sourceUnit at h
  split at h
  · rename_i hinterface
    obtain ⟨i, _, hi, hpure⟩ := runs_bind.1 h
    obtain ⟨rfl, rfl⟩ := runs_pure.1 hpure
    exact references_interface hinterface hi
  · rename_i hinterface
    obtain ⟨k, _, hk, hpure⟩ := runs_bind.1 h
    obtain ⟨rfl, rfl⟩ := runs_pure.1 hpure
    exact references_class (Bool.eq_false_iff.2 hinterface) hk

/-! ### Dependencies -/

/-- The dependencies of a unit account for everything that it refers to. -/
structure Accounted (env : Env) (c : ClassModel) (u : Target.SourceUnit) (met : List (List Name))
    (dependencies : List Name) : Prop where
  /-- Each method refers to the classes of its body in order, and its function uses no others. -/
  methods : List.Forall₂ (RefersFor env) ((translated env.program c).zip u.functions) met
  /-- The dependencies stand in the order of first reference. -/
  order : dependencies = (headerReferences c ++ (met.flatten ++ registeredReferences env c)).eraseDups.filter
    fun name => name != c.name
  nodup : dependencies.Nodup
  notItself : c.name ∉ dependencies
  superclass : c.isInterface = false → ∀ s ∈ c.superclass, s ≠ c.name → s ∈ dependencies
  interfaces : ∀ i ∈ c.interfaces, i ≠ c.name → i ∈ dependencies
  /-- What a translated body calls, accesses, makes objects of or captures. -/
  bodies : ∀ xf ∈ (translated env.program c).zip u.functions, ∀ b returnsThis body,
    xf.2.body = .lowered b returnsThis → xf.1.2.body = some body →
    ∀ name ∈ body.tree.references env.program xf.1.1.pool, name ≠ c.name → name ∈ dependencies
  /-- What annotations are made of. -/
  annotations : ∀ name ∈ registeredReferences env c, name ≠ c.name → name ∈ dependencies
  /-- Every class that is guarded, accessed or made objects of in the text, and every adapter. -/
  uses : UsesAmong env.program (c.name :: dependencies) u.classUses

private theorem References.mem_order {met : List (List Name)} {order : List Name} (h : References env c u met order)
    {name : Name} : name ∈ order ↔
      name ∈ headerReferences c ∨ name ∈ met.flatten ∨ name ∈ registeredReferences env c := by
  rw [h.order, List.mem_eraseDups, List.mem_append, List.mem_append]

/-- What a translated body refers to is kept. -/
private theorem References.mem_of_lowered {met : List (List Name)} {order : List Name}
    (h : References env c u met order) {xf : (MethodSite × Method) × Target.Function}
    (hxf : xf ∈ (translated env.program c).zip u.functions) {b : Target.Body} {returnsThis : Bool}
    (hlowered : xf.2.body = .lowered b returnsThis) :
    ∃ body, xf.1.2.body = some body ∧
      (∀ name ∈ body.tree.references env.program xf.1.1.pool, name ∈ order) ∧
      UsesAmong env.program order b.stmts.classUses := by
  obtain ⟨names, hnames, hrefers⟩ := exists_of_mem_left h.methods hxf
  have hkept : ∀ name ∈ names, name ∈ order := fun name hname =>
    h.mem_order.2 (.inr (.inl (List.mem_flatten.2 ⟨names, hnames, hname⟩)))
  unfold RefersFor at hrefers
  rw [hlowered] at hrefers
  obtain ⟨body, hbody, rfl, huses⟩ := hrefers
  exact ⟨body, hbody, hkept, huses.mono hkept⟩

/-- The text of a unit uses the class itself and what is referred to. -/
private theorem References.uses {met : List (List Name)} {order : List Name} (h : References env c u met order)
    (hunit : unit? env c = some u) : UsesAmong env.program (c.name :: order) u.classUses := by
  refine usesAmong_append.2 ⟨usesAmong_flatMap.2 fun f hf => ?_, h.info.mono fun name hname => ?_⟩
  · rw [← List.map_snd_zip (Nat.le_of_eq (forall₂_translated hunit).length_eq.symm)] at hf
    obtain ⟨xf, hxf, rfl⟩ := List.mem_map.1 hf
    cases hbody : xf.2.body with
    | given _ | missing _ _ | errored _ _ _ => exact usesAmong_nil
    | lowered b returnsThis =>
      obtain ⟨_, -, -, huses⟩ := h.mem_of_lowered hxf hbody
      exact huses.mono fun _ => List.mem_cons_of_mem _
  · rcases List.mem_cons.1 hname with rfl | hname
    · exact List.mem_cons_self
    · exact List.mem_cons_of_mem _ (h.mem_order.2 (.inr (.inr hname)))

private theorem dependencies_eq {last : UnitState} (hunit : unit? env c = some u)
    (h : Runs (sourceUnit env c) {} u last) :
    (generateClass env c).dependencies = last.refs.order.filter fun name => name != c.name := by
  have hrun : (sourceUnit env c).run.run {} = (.ok u, last) := h
  unfold unit? at hunit
  split at hunit
  · cases hunit
  · rename_i hnative
    rw [generateClass, if_neg hnative, hrun]

/-- The dependencies of a class with a unit are what the unit refers to, each once and in the order of first reference,
without the class itself. -/
theorem dependencies_complete {out : GeneratedUnit} (hout : (generateClass env c).unit = some out) :
    ∃ u met, unit? env c = some u ∧ out = generatedUnit env c u ∧
      Accounted env c u met (generateClass env c).dependencies := by
  rw [generateClass_unit] at hout
  obtain ⟨u, h, rfl⟩ := Option.map_eq_some_iff.1 hout
  obtain ⟨last, hruns⟩ := runs_of_unit? h
  obtain ⟨met, href⟩ := exists_references hruns
  have hdependencies := dependencies_eq h hruns
  have hmem : ∀ {name}, name ∈ last.refs.order → name ≠ c.name → name ∈ (generateClass env c).dependencies := by
    intro name hname hother
    rw [hdependencies]
    exact List.mem_filter.2 ⟨hname, bne_iff_ne.2 hother⟩
  refine ⟨u, met, h, rfl, href.methods, by rw [hdependencies, href.order], ?_, ?_, ?_, ?_, ?_, ?_, ?_⟩
  · rw [hdependencies, href.order]
    exact (nodup_eraseDups _).filter _
  · rw [hdependencies]
    simp
  · intro hclass s hs hother
    refine hmem (href.mem_order.2 (.inl ?_)) hother
    rw [headerReferences, hclass]
    exact List.mem_append_left _ (Option.mem_toList.2 hs)
  · intro i hi hother
    exact hmem (href.mem_order.2 (.inl (List.mem_append_right _ hi))) hother
  · intro xf hxf b returnsThis body hlowered hbody name hname hother
    obtain ⟨body', hbody', hkept, -⟩ := href.mem_of_lowered hxf hlowered
    obtain rfl := Option.some.inj (hbody.symm.trans hbody')
    exact hmem (hkept name hname) hother
  · intro name hname hother
    exact hmem (href.mem_order.2 (.inr (.inr hname))) hother
  · refine (href.uses h).mono fun name hname => ?_
    by_cases hsame : name = c.name
    · exact hsame ▸ List.mem_cons_self
    · exact List.mem_cons_of_mem _ (hmem (List.mem_of_ne_of_mem hsame hname) hsame)

/-! ### A class with all kinds of references -/

private def timerClass : ClassModel := bareClass "Timer" .plain none [] [bareMethod 1 "tick" ⟨0x0009⟩ (some {})]

private def taskClass : ClassModel := bareClass "Task" .interface none [] [bareMethod 2 "run" ⟨0x0401⟩ none]

private def themeClass : ClassModel :=
  let mode : Method :=
    { bareMethod 3 "mode" ⟨0x0401⟩ none with ret := .ref "Mode", defaultValue := some (.enum "Mode" "DARK") }
  { bareClass "Theme" .interface none [] [mode] with markers := { annotationType := true } }

/-- Wraps the static method in an adapter, and is annotated with the defaults of the annotation type. -/
private def boardClass : ClassModel :=
  let body : Body :=
    { exprs := #[⟨.capture ⟨"Task", "run", ⟨[], .void⟩⟩ ⟨"Timer", "tick", ⟨[], .void⟩⟩, .ref "Task"⟩]
      stmts := #[.eval 0, .ret none]
      stmtLists := #[0, 1]
      root := ⟨0, 2⟩ }
  { bareClass "Board" .plain (some "Base") [] [bareMethod 4 "main" ⟨0x0009⟩ (some body)] with
    annotations := [⟨"Theme", [], true⟩] }

private def boardEnv : Env where
  program := ⟨[bareClass "Base" .plain none [] [], timerClass, taskClass, themeClass, boardClass],
    show ["Base", "Timer", "Task", "Theme", "Board"].Nodup by decide⟩

/-- The superclass, the interface and the target of the method reference, the annotation type and the enum class of its
default. -/
theorem dependencies_complete_board :
    ∃ out u met, (generateClass boardEnv boardClass).unit = some out ∧ unit? boardEnv boardClass = some u ∧
      Accounted boardEnv boardClass u met ["Base", "Task", "Timer", "Theme", "Mode"] := by
  have hdependencies : (generateClass boardEnv boardClass).dependencies =
      ["Base", "Task", "Timer", "Theme", "Mode"] := by
    with_unfolding_all rfl
  have hunit : (unit? boardEnv boardClass).isSome = true := by with_unfolding_all rfl
  have hout : (generateClass boardEnv boardClass).unit.isSome = true := by
    rw [generateClass_unit, Option.isSome_map, hunit]
  obtain ⟨out, hout⟩ := Option.isSome_iff_exists.1 hout
  obtain ⟨u, met, hu, -, haccounted⟩ := dependencies_complete hout
  rw [hdependencies] at haccounted
  exact ⟨out, u, met, hout, hu, haccounted⟩

end HaxeBackend.Generation
