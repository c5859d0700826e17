import HaxeBackend.Proofs.Generation.Pool
import HaxeBackend.Proofs.Naming.Members

/-!
# The identity of fields

A reference leads to a field of a class, by the name and the type of the field; but neither the code that accesses a
field nor the unit that declares it writes the type (`accesses_iff`).  Main result: an access reaches the field that its
reference leads to, and no other that the object has, exactly when no class overloads a field, no two classes in a
chain that shadow one field differ in slashes only, and the names of target types keep out of the way
(`fields_keep_identity_iff`).
-/

namespace HaxeBackend

variable {p : Program} {a b c : ClassModel} {f g : Field} {e : FieldEntry} {owner name : Name} {type : Ty}

/-- What tells a field from all others. -/
def FieldEntry.identity (e : FieldEntry) : Name × Name × Ty := (e.owner.name, e.field.name, e.field.type)

/-! ### Resolution -/

namespace Program

theorem mem_of_getField? (h : p.getField? owner name type = some e) :
    e.owner ∈ p.classes ∧ e.field ∈ e.owner.fields ∧ e.field.name = name ∧ e.field.type = type := by
  obtain ⟨d, hd, hentry⟩ := List.exists_of_findSome?_eq_some h
  obtain ⟨found, hfound, rfl⟩ := Option.map_eq_some_iff.1 hentry
  have hsignature := List.find?_some hfound
  simp only [Bool.and_eq_true, beq_iff_eq] at hsignature
  exact ⟨mem_of_mem_ancestors hd, List.mem_of_find?_eq_some hfound, hsignature⟩

/-- A reference to a field by the class that declares it leads there. -/
theorem exists_getField? (hc : c ∈ p.classes) (hf : f ∈ c.fields) :
    ∃ g, p.getField? c.name f.name f.type = some ⟨c, g⟩ ∧ g.name = f.name ∧ g.type = f.type := by
  obtain ⟨above, habove⟩ := ancestors_eq_cons hc
  cases hfound : c.findField? f.name f.type with
  | none =>
    have hnone := List.find?_eq_none.1 hfound f hf
    simp at hnone
  | some g =>
    have hresolved : p.getField? c.name f.name f.type = some ⟨c, g⟩ := by
      rw [getField?, habove, List.findSome?_cons, hfound]
      rfl
    exact ⟨g, hresolved, (mem_of_getField? hresolved).2.2⟩

end Program

namespace Naming

/-! ### Names -/

/-- The name a field is reached by; target types have their own. -/
def accessName (p : Program) (c : ClassModel) (f : Field) : String :=
  if c.isNative then escapeMember f.name else field p c.name f.name

/-- An object of the first class has the fields of the second, or the other way round. -/
def OnChain (p : Program) (a b : ClassModel) : Prop := ∃ chain, IsSuperclassChain p chain ∧ a ∈ chain ∧ b ∈ chain

theorem OnChain.symm (h : OnChain p a b) : OnChain p b a := by
  obtain ⟨chain, hchain, ha, hb⟩ := h
  exact ⟨chain, hchain, hb, ha⟩

theorem onChain_self (hc : c ∈ p.classes) : OnChain p c c :=
  ⟨[c], ⟨by simpa using hc, .singleton c, List.nodup_singleton c⟩, List.mem_singleton_self c,
    List.mem_singleton_self c⟩

theorem OnChain.mem (h : OnChain p a b) : a ∈ p.classes ∧ b ∈ p.classes := by
  obtain ⟨chain, hchain, ha, hb⟩ := h
  exact ⟨hchain.mem a ha, hchain.mem b hb⟩

/-- Slashes and dots are encoded alike. -/
theorem encodePath_dotted (path : List Char) : encodePath (path.map Ty.dotted) = encodePath path := by
  rw [encodePath, List.flatMap_map]
  refine List.flatMap_congr fun c _ => ?_
  by_cases hslash : c = '/'
  · rw [hslash]
    decide
  · rw [Ty.dotted, if_neg hslash]

/-- Two classes of a chain give one name to a field of theirs when both shadow it and their paths read the same. -/
theorem OnChain.field_eq_iff (h : OnChain p a b) (hab : a ≠ b) (hf : f ∈ a.fields) (hg : g ∈ b.fields)
    (hname : f.name = g.name) :
    field p a.name f.name = field p b.name g.name ↔
      (isShadowing p a.name f.name = true ∧ isShadowing p b.name g.name = true) ∧
        a.name.toList.map Ty.dotted = b.name.toList.map Ty.dotted := by
  obtain ⟨chain, hchain, ha, hb⟩ := h
  constructor
  · intro heq
    obtain ⟨-, hboth, howner⟩ := field_split heq
    have hshadowing : isShadowing p a.name f.name = true := by
      rcases hchain.shadowing ha hb hab hf hg hname with hs | hs
      · exact hs
      · rwa [hboth]
    exact ⟨⟨hshadowing, hboth ▸ hshadowing⟩, howner hshadowing⟩
  · rintro ⟨⟨ha, hb⟩, hdotted⟩
    rw [← hname] at hb ⊢
    rw [← String.toList_inj, toList_field, toList_field]
    unfold fieldTail
    rw [ha, hb, ← encodePath_dotted a.name.toList, hdotted, encodePath_dotted]

/-! ### When names are apart -/

/-- Two fields that an object may have are reached by different names. -/
def AccessesApart (p : Program) : Prop :=
  ∀ a b, OnChain p a b → ∀ f ∈ a.fields, ∀ g ∈ b.fields,
    (⟨a, f⟩ : FieldEntry).identity ≠ (⟨b, g⟩ : FieldEntry).identity → accessName p a f ≠ accessName p b g

/-- The fields of a program for which the names are made. -/
structure FieldsApart (p : Program) : Prop where
  /-- No class has two fields of one name that differ in their types. -/
  overloads : ∀ c ∈ p.classes, ∀ f ∈ c.fields, ∀ g ∈ c.fields, f.name = g.name → f.type = g.type
  /-- Two generated classes of a chain that both shadow a field differ in more than slashes for dots. -/
  paths : ∀ a b, OnChain p a b → a ≠ b → a.isNative = false → b.isNative = false → ∀ f ∈ a.fields, ∀ g ∈ b.fields,
    f.name = g.name → isShadowing p a.name f.name = true → isShadowing p b.name g.name = true →
    a.name.toList.map Ty.dotted ≠ b.name.toList.map Ty.dotted
  /-- Two target types of a chain have no field of one name, nor two whose names differ only in characters that target
  names do not have. -/
  targets : ∀ a b, OnChain p a b → a.isNative = true → b.isNative = true → ∀ f ∈ a.fields, ∀ g ∈ b.fields,
    a ≠ b ∨ f.name ≠ g.name → escapeMember f.name ≠ escapeMember g.name
  /-- No target type has a field that is called like the encoding of one in a generated class below or above it. -/
  encodings : ∀ a b, OnChain p a b → a.isNative = true → b.isNative = false → ∀ f ∈ a.fields, ∀ g ∈ b.fields,
    escapeMember f.name ≠ field p b.name g.name

private theorem AccessesApart.fieldsApart (h : AccessesApart p) : FieldsApart p := by
  -- pairs of fields by where they are declared: one class, two, two for target types, one of each
  refine ⟨?_, ?_, ?_, ?_⟩
  · intro c hc f hf g hg hname
    by_contra htype
    refine h c c (onChain_self hc) f hf g hg ?_ (by rw [accessName, accessName, hname])
    exact fun heq => htype (congrArg (fun identity => identity.2.2) heq)
  · intro a b hchain hab ha hb f hf g hg hname hs hs' hdotted
    refine h a b hchain f hf g hg ?_ ?_
    · exact fun heq => hab (Program.eq_of_name_eq hchain.mem.1 hchain.mem.2 (congrArg Prod.fst heq))
    · rw [accessName, accessName, ha, hb]
      exact (hchain.field_eq_iff hab hf hg hname).2 ⟨⟨hs, hs'⟩, hdotted⟩
  · intro a b hchain ha hb f hf g hg hne heq
    refine h a b hchain f hf g hg ?_ ?_
    · intro hidentity
      rcases hne with hab | hname
      · exact hab (Program.eq_of_name_eq hchain.mem.1 hchain.mem.2 (congrArg Prod.fst hidentity))
      · exact hname (congrArg (fun identity => identity.2.1) hidentity)
    · rw [accessName, accessName, if_pos ha, if_pos hb, heq]
  · intro a b hchain ha hb f hf g hg heq
    refine h a b hchain f hf g hg ?_ ?_
    · intro hidentity
      obtain rfl := Program.eq_of_name_eq hchain.mem.1 hchain.mem.2 (congrArg Prod.fst hidentity)
      rw [ha] at hb
      cases hb
    · rw [accessName, accessName, if_pos ha, hb, if_neg Bool.false_ne_true, heq]

private theorem FieldsApart.accessesApart (h : FieldsApart p) : AccessesApart p := by
  intro a b hchain f hf g hg hidentity heq
  -- of one class and one name, so they are overloads
  have hsame : a = b → f.name = g.name → False := by
    rintro rfl hname
    have htype := h.overloads a hchain.mem.1 f hf g hg hname
    exact hidentity (by rw [FieldEntry.identity, FieldEntry.identity, hname, htype])
  unfold accessName at heq
  cases ha : a.isNative <;> cases hb : b.isNative <;> rw [ha, hb] at heq
  · obtain ⟨hname, -, -⟩ := field_split heq
    by_cases hab : a = b
    · exact hsame hab hname
    · obtain ⟨⟨hs, hs'⟩, hdotted⟩ := (hchain.field_eq_iff hab hf hg hname).1 heq
      exact h.paths a b hchain hab ha hb f hf g hg hname hs hs' hdotted
  · exact h.encodings b a hchain.symm hb ha g hg f hf heq.symm
  · exact h.encodings a b hchain ha hb f hf g hg heq
  · by_cases hne : a ≠ b ∨ f.name ≠ g.name
    · exact h.targets a b hchain ha hb f hf g hg hne heq
    · rw [not_or, not_ne_iff, not_ne_iff] at hne
      exact hsame hne.1 hne.2

theorem accessesApart_iff : AccessesApart p ↔ FieldsApart p :=
  ⟨AccessesApart.fieldsApart, FieldsApart.accessesApart⟩

end Naming

/-! ### Accesses -/

namespace Lowering

variable {s : Scope} {r : FieldRef} {member : String}

/-- In the code of some access to the field, the member has this name. -/
inductive Accesses (s : Scope) (r : FieldRef) (member : String) : Prop
  | read {object : Expr} {type : Ty} {base : Target.Expr} {st st' : State}
      (h : Runs (lowerExpr s (.field object r type)) st (.member base member) st')
  | readStatic {type : Ty} {base : Target.Expr} {st st' : State}
      (h : Runs (lowerExpr s (.staticField r type)) st (.member base member) st')
  | written {object value : Expr} {guards : Target.Stmt} {base v : Target.Expr} {st st' : State}
      (h : Runs (lowerStmt s (.setField object r value)) st (.seq guards (.assign (.member base member) v)) st')
  | writtenStatic {value : Expr} {guards : Target.Stmt} {base v : Target.Expr} {st st' : State}
      (h : Runs (lowerStmt s (.setStatic r value)) st (.seq guards (.assign (.member base member) v)) st')

theorem fieldName_eq (hc : e.owner ∈ s.program.classes) :
    s.fieldName e = Naming.accessName s.program e.owner e.field := by
  rw [Scope.fieldName, Naming.isNative, Program.find?_name hc]
  rfl

theorem runs_lowerStaticField {x : Target.Expr} {st st' : State} (h : Runs (lowerStaticField s r) st x st') :
    ∃ e, s.program.getField? r.owner r.name r.type = some e ∧
      x = .member (.path (Naming.staticHolder s.program e.owner.name)) (s.fieldName e) := by
  obtain ⟨e, _, hresolve, h⟩ := runs_bind.1 h
  obtain ⟨_, _, -, h⟩ := runs_bind.1 h
  obtain ⟨rfl, -⟩ := runs_pure.1 h
  exact ⟨e, (runs_resolveField.1 hresolve).1, rfl⟩

/-- An assignment that is not dropped assigns to its target. -/
theorem target_of_runs_guarded {target value target' value' : Target.Expr} {guards : Target.Stmt} {st st' : State}
    (h : Runs (guarded s (assignment target value)) st (.seq guards (.assign target' value')) st') :
    target' = target := by
  obtain ⟨_, _, -, h⟩ := runs_bind.1 h
  obtain ⟨hstmt, -⟩ := runs_pure.1 h
  have hassign := (Target.Stmt.seq.inj hstmt).2
  unfold assignment at hassign
  split at hassign
  · cases hassign
  · exact (Target.Stmt.assign.inj hassign).1

/-- The static field can be read in every scope. -/
theorem exists_runs_lowerStaticField (h : s.program.getField? r.owner r.name r.type = some e) (st : State) :
    ∃ st', Runs (lowerStaticField s r) st
      (.member (.path (Naming.staticHolder s.program e.owner.name)) (s.fieldName e)) st' := by
  obtain ⟨mid, hmid⟩ : ∃ mid, Runs (s.touch e.owner.name) st () mid := by
    unfold Scope.touch
    split <;> exact ⟨_, rfl⟩
  exact ⟨mid, runs_bind.2 ⟨e, st, runs_resolveField.2 ⟨h, rfl⟩, runs_bind.2 ⟨(), mid, hmid, runs_pure.2 ⟨rfl, rfl⟩⟩⟩⟩

theorem accesses_iff :
    Accesses s r member ↔ ∃ e, s.program.getField? r.owner r.name r.type = some e ∧ member = s.fieldName e := by
  constructor
  · -- reads and writes, each of an instance field and of a static one
    rintro (h | h | h | h)
    · unfold lowerExpr at h
      obtain ⟨_, _, -, h⟩ := runs_bind.1 h
      obtain ⟨e, _, hresolve, h⟩ := runs_bind.1 h
      obtain ⟨hmember, -⟩ := runs_pure.1 h
      exact ⟨e, (runs_resolveField.1 hresolve).1, (Target.Expr.member.inj hmember).2⟩
    · unfold lowerExpr at h
      obtain ⟨e, hresolve, hmember⟩ := runs_lowerStaticField h
      exact ⟨e, hresolve, (Target.Expr.member.inj hmember).2⟩
    · unfold lowerStmt at h
      obtain ⟨_, _, -, h⟩ := runs_bind.1 h
      obtain ⟨e, _, hresolve, h⟩ := runs_bind.1 h
      obtain ⟨_, _, -, h⟩ := runs_bind.1 h
      exact ⟨e, (runs_resolveField.1 hresolve).1, (Target.Expr.member.inj (target_of_runs_guarded h)).2⟩
    · unfold lowerStmt at h
      obtain ⟨_, _, htarget, h⟩ := runs_bind.1 h
      obtain ⟨_, _, -, h⟩ := runs_bind.1 h
      obtain ⟨e, hresolve, rfl⟩ := runs_lowerStaticField htarget
      exact ⟨e, hresolve, (Target.Expr.member.inj (target_of_runs_guarded h)).2⟩
  · rintro ⟨e, hresolve, rfl⟩
    obtain ⟨st', hruns⟩ := exists_runs_lowerStaticField hresolve {}
    have hlower : lowerExpr s (.staticField r r.type) = lowerStaticField s r := by unfold lowerExpr; rfl
    exact .readStatic (hlower ▸ hruns)

end Lowering

namespace Generation

open Lowering (Accesses)

variable {env : Env} {u : Target.SourceUnit} {s : Lowering.Scope} {r r' : FieldRef} {member : String}

/-- Every access reaches the field that its reference leads to. -/
structure KeepsIdentity (env : Env) : Prop where
  /-- No member that is accessed has the name of another one in the object. -/
  apart : ∀ s : Lowering.Scope, s.program = env.program → ∀ (r r' : FieldRef) (e e' : FieldEntry),
    env.program.getField? r.owner r.name r.type = some e → env.program.getField? r'.owner r'.name r'.type = some e' →
    Naming.OnChain env.program e.owner e'.owner → e.identity ≠ e'.identity →
    ∀ member member', Accesses s r member → Accesses s r' member' → member ≠ member'
  /-- The unit of the class declares the field under the name that is accessed, and no other one. -/
  declared : ∀ c u, unit? env c = some u → ∀ s : Lowering.Scope, s.program = env.program →
    ∀ (r : FieldRef) (e : FieldEntry), env.program.getField? r.owner r.name r.type = some e → e.owner = c →
    ∀ member, Accesses s r member →
      (e.field ∈ visibleFields c → fieldDecl env.program c e.field ∈ u.fields) ∧
      ∀ decl ∈ u.fields, decl.name = member ↔
        ∃ f ∈ visibleFields c, decl = fieldDecl env.program c f ∧ f.name = e.field.name ∧ f.type = e.field.type

theorem isNative_of_unit? (h : unit? env c = some u) : c.isNative = false := by
  unfold unit? at h
  split at h
  · cases h
  · rename_i hnative
    exact Bool.eq_false_iff.2 hnative

private theorem KeepsIdentity.accessesApart (h : KeepsIdentity env) : Naming.AccessesApart env.program := by
  intro a b hchain f hf g hg hidentity heq
  obtain ⟨ha, hb⟩ := hchain.mem
  obtain ⟨f', hf', hname, htype⟩ := Program.exists_getField? ha hf
  obtain ⟨g', hg', hname', htype'⟩ := Program.exists_getField? hb hg
  let s : Lowering.Scope := { program := env.program, options := env.options }
  refine h.apart s rfl ⟨a.name, f.name, f.type⟩ ⟨b.name, g.name, g.type⟩ _ _ hf' hg' hchain ?_ _ _
    (Lowering.accesses_iff.2 ⟨_, hf', rfl⟩) (Lowering.accesses_iff.2 ⟨_, hg', rfl⟩) ?_
  · simpa only [FieldEntry.identity, hname, htype, hname', htype'] using hidentity
  · rw [Lowering.fieldName_eq ha, Lowering.fieldName_eq hb]
    simpa only [Naming.accessName, hname, hname'] using heq

private theorem keepsIdentity_of_apart (h : Naming.AccessesApart env.program) : KeepsIdentity env := by
  have hmember : ∀ {s : Lowering.Scope} {r : FieldRef} {e : FieldEntry} {member : String}, s.program = env.program →
      env.program.getField? r.owner r.name r.type = some e → Accesses s r member →
      member = Naming.accessName env.program e.owner e.field := by
    intro s r e member hs he haccess
    obtain ⟨found, hfound, rfl⟩ := Lowering.accesses_iff.1 haccess
    rw [hs, he, Option.some_inj] at hfound
    rw [← hfound, Lowering.fieldName_eq (hs ▸ (Program.mem_of_getField? he).1), hs]
  refine ⟨?_, ?_⟩
  · intro s hs r r' e e' he he' hchain hidentity member member' haccess haccess'
    rw [hmember hs he haccess, hmember hs he' haccess']
    exact h _ _ hchain _ (Program.mem_of_getField? he).2.1 _ (Program.mem_of_getField? he').2.1 hidentity
  · rintro c u hu s hs r e he rfl member haccess
    -- the declarations of the unit have the names that its fields are accessed by
    obtain ⟨met, hpooled⟩ := exists_pooled hu
    obtain ⟨hc, hfield, -⟩ := Program.mem_of_getField? he
    have hname : member = Naming.field env.program e.owner.name e.field.name := by
      rw [hmember hs he haccess, Naming.accessName, isNative_of_unit? hu, if_neg Bool.false_ne_true]
    rw [hpooled.fields, hname]
    refine ⟨List.mem_map_of_mem, fun decl hdecl => ⟨fun heq => ?_, ?_⟩⟩
    · obtain ⟨f, hf, rfl⟩ := List.mem_map.1 hdecl
      have hsame : f.name = e.field.name := (Naming.field_split heq).1
      refine ⟨f, hf, rfl, hsame, ?_⟩
      exact (Naming.accessesApart_iff.1 h).overloads _ hc f (List.mem_filter.1 hf).1 _ hfield hsame
    · rintro ⟨f, -, rfl, hsame, -⟩
      show Naming.field env.program e.owner.name f.name = _
      rw [hsame]

/-- The fields of a program keep their identity in the generated code exactly when their names are apart: a reference
is resolved by name and type, but the type is no part of a name. -/
theorem fields_keep_identity_iff (env : Env) : KeepsIdentity env ↔ Naming.FieldsApart env.program :=
  ⟨fun h => Naming.accessesApart_iff.1 h.accessesApart, fun h => keepsIdentity_of_apart (Naming.accessesApart_iff.2 h)⟩

/-- A class with a number and a flag of one name. -/
private def pair : ClassModel :=
  { bareClass "app.Pair" .plain none [] [] with
    fields := [⟨"x", .prim .int, ⟨0x0001⟩, none, []⟩, ⟨"x", .bool, ⟨0x0001⟩, none, []⟩] }

private def pairEnv : Env where
  program := ⟨[pair], show ["app.Pair"].Nodup by decide⟩
  options := { reflection := false }

private theorem accesses_pair {f : Field} (hf : f ∈ pair.fields) (hs : s.program = pairEnv.program) :
    Accesses s ⟨"app.Pair", f.name, f.type⟩ "x" := by
  have hpair : pair ∈ s.program.classes := hs ▸ List.mem_singleton_self pair
  obtain ⟨g, hg, hname, -⟩ := Program.exists_getField? hpair hf
  refine Lowering.accesses_iff.2 ⟨_, hg, ?_⟩
  have hx : ∀ f ∈ pair.fields, "x" = Naming.field pairEnv.program "app.Pair" f.name := by decide
  rw [Lowering.fieldName_eq hpair, hs, Naming.accessName, hname]
  exact hx f hf

/-- The unit declares both fields under one name, and an access to the one may reach the other. -/
theorem fields_keep_identity_fails :
    (unit? pairEnv pair).map (fun u => u.fields.map Target.FieldDecl.text) =
        some ["public var x:Int = 0;", "public var x:Bool = false;"] ∧
      (∀ s : Lowering.Scope, s.program = pairEnv.program →
        Accesses s ⟨"app.Pair", "x", .prim .int⟩ "x" ∧ Accesses s ⟨"app.Pair", "x", .bool⟩ "x") ∧
      ¬KeepsIdentity pairEnv := by
  refine ⟨by with_unfolding_all rfl, fun s hs => ⟨?_, ?_⟩, fun h => ?_⟩
  · exact accesses_pair List.mem_cons_self hs
  · exact accesses_pair (List.mem_cons_of_mem _ List.mem_cons_self) hs
  · have htype := (Naming.accessesApart_iff.1 h.accessesApart).overloads pair (List.mem_singleton_self _) _
      List.mem_cons_self _ (List.mem_cons_of_mem _ List.mem_cons_self) rfl
    cases htype

end Generation

end HaxeBackend
