import HaxeBackend.Proofs.Document.Types
import HaxeBackend.Proofs.Hierarchy.Chain
import HaxeBackend.Target.Expr

/-!
# Member names never collide

The name of a field is its encoded name and a tail: a `_` behind a reserved word, and `_o` with the class behind a
field that shadows another.  No escape of identifiers starts like such a tail, so the name can be read back
(`field_split`), and no tail starts like a descriptor (`method_ne_field`).
-/

namespace HaxeBackend.Naming

variable {p : Program} {owner owner' name name' : Name} {r r' : List Char}

/-! ### Fields -/

/-- Whether the name of a field carries its class. -/
def isShadowing (p : Program) (owner name : Name) : Bool :=
  (p.find? owner).any fun c => (c.fields.any fun f => f.name == name) && shadows p c name

/-- What stands behind the encoded name of a field. -/
def fieldTail (p : Program) (owner name : Name) : List Char :=
  (if isReserved (encodeIdent name.toList) then ['_'] else []) ++
    if isShadowing p owner name then '_' :: 'o' :: encodePath owner.toList else []

theorem toList_field (p : Program) (owner name : Name) :
    (field p owner name).toList = encodeIdent name.toList ++ fieldTail p owner name := by
  have hbase : encodeMember name.toList =
      encodeIdent name.toList ++ if isReserved (encodeIdent name.toList) then ['_'] else [] := by
    unfold encodeMember
    dsimp only
    split <;> simp only [List.append_nil]
  unfold field fieldTail isShadowing
  rw [← List.append_assoc, ← hbase]
  cases p.find? owner with
  | none => simp
  | some c =>
    simp only [Option.any_some]
    split <;> simp

/-- The tails of fields, in the order of their forms. -/
theorem fieldTail_cases (p : Program) (owner name : Name) :
    fieldTail p owner name = [] ∧ isReserved (encodeIdent name.toList) = false ∨
      fieldTail p owner name = ['_'] ∨
      fieldTail p owner name = '_' :: 'o' :: encodePath owner.toList ∨
      fieldTail p owner name = '_' :: '_' :: 'o' :: encodePath owner.toList := by
  unfold fieldTail
  cases isReserved (encodeIdent name.toList) <;> cases isShadowing p owner name <;> simp

theorem stops_fieldTail (p : Program) (owner name : Name) : Stops encodeIdentChar (fieldTail p owner name) := by
  rcases fieldTail_cases p owner name with ⟨h, -⟩ | h | h | h <;> rw [h]
  · exact escapes_encodeIdentChar.stops_nil
  · exact escapes_encodeIdentChar.stops_underscore
  · exact escapes_encodeIdentChar.stops_tag (by decide) (by decide) _
  · exact escapes_encodeIdentChar.stops_tag (by decide) (by decide) _

/-- The name of a field tells its source name, whether it carries its class, and that class. -/
theorem field_split (h : field p owner name = field p owner' name') :
    name = name' ∧ isShadowing p owner name = isShadowing p owner' name' ∧
      (isShadowing p owner name = true → owner.toList.map Ty.dotted = owner'.toList.map Ty.dotted) := by
  have htext := congrArg String.toList h
  rw [toList_field, toList_field] at htext
  obtain ⟨hname, htail⟩ := encodeIdent_split (stops_fieldTail _ _ _) (stops_fieldTail _ _ _) htext
  obtain rfl := String.toList_inj.1 hname
  have htail := List.append_cancel_left htail
  refine ⟨rfl, ?_⟩
  cases hs : isShadowing p owner name <;> cases hs' : isShadowing p owner' name <;> simp [hs, hs'] at htail ⊢
  have hstops := escapes_encodePathChar.stops_nil
  exact (encodePath_split hstops hstops (by rw [htail])).1

/-! ### Methods and fields -/

theorem method_ne_field {m : Method} (hm : m.type.isCanonical = true) : method owner m ≠ field p owner' name := by
  intro h
  have htext := congrArg String.toList h
  rw [toList_method owner hm, toList_field] at htext
  cases hconstructor : m.isConstructor with
  | true =>
    rw [methodStem, hconstructor] at htext
    exact encodeIdent_ne_init _ _ _ htext.symm
  | false =>
    rw [methodStem, hconstructor, if_neg Bool.false_ne_true] at htext
    obtain ⟨-, htail⟩ := encodeIdent_split (stops_descriptor _ _) (stops_fieldTail _ _ _) htext
    -- a descriptor goes on with the upper-case letter of a type, at once or behind another underscore
    have hupper : ∀ {c : Char} {t : Ty} {r r' : List Char}, mangled t ++ r = c :: r' → isAsciiUpper c = true := by
      intro c t r r' heq
      obtain ⟨d, rest, hd, hupper, -⟩ := mangled_head t
      rw [hd] at heq
      rwa [← (List.cons.inj heq).1]
    cases hargs : m.type.args with
    | nil =>
      rw [hargs, List.flatMap_nil, List.nil_append] at htail
      rcases fieldTail_cases p owner' name with ⟨h, -⟩ | h | h | h <;> rw [h] at htail
      · cases htail
      · cases htail
      · exact absurd (List.cons.inj (List.cons.inj htail).2).1 (by decide)
      · exact absurd (hupper (List.cons.inj (List.cons.inj htail).2).2) (by decide)
    | cons t args =>
      rw [hargs, List.flatMap_cons, List.append_assoc] at htail
      rcases fieldTail_cases p owner' name with ⟨h, -⟩ | h | h | h <;> rw [h] at htail
      · cases htail
      · obtain ⟨c, rest, hc, -⟩ := mangled_head t
        rw [hc] at htail
        cases htail
      · exact absurd (hupper (List.cons.inj htail).2) (by decide)
      · exact absurd (hupper (List.cons.inj htail).2) (by decide)

/-! ### Reserved names -/

/-- Neither a keyword, nor a member that every class may have, nor a pooled literal. -/
def IsFree (text : String) : Prop :=
  text ∉ keywords ∧ text ∉ ownMembers ∧ ∀ index, text ≠ Target.poolIdent index

theorem toList_poolIdent (index : Nat) :
    ∃ rest, (Target.poolIdent index).toList = '_' :: '_' :: 's' :: 't' :: 'r' :: rest := by
  refine ⟨(toString index).toList, ?_⟩
  simp [Target.poolIdent, Target.poolStem, toString]

/-- A name with an underscore that does not start with two is free. -/
theorem isFree_of_underscore {text : String} (hmem : '_' ∈ text.toList)
    (hstart : ∀ rest, text.toList ≠ '_' :: '_' :: rest) : IsFree text := by
  refine ⟨?_, ?_, ?_⟩
  · have hwords : ∀ word ∈ keywords, '_' ∉ word.toList := by decide
    exact fun h => hwords text h hmem
  · have hmembers : ∀ word ∈ ownMembers, '_' ∉ word.toList ∨ word.toList.take 2 = ['_', '_'] := by decide
    intro h
    rcases hmembers text h with hfree | htake
    · exact hfree hmem
    · refine hstart (text.toList.drop 2) ?_
      rw [← List.take_append_drop 2 text.toList, htake]
      simp
  · rintro index rfl
    obtain ⟨rest, hrest⟩ := toList_poolIdent index
    exact hstart _ hrest

theorem isFree_method {m : Method} (hm : m.type.isCanonical = true) : IsFree (method owner m) := by
  refine isFree_of_underscore ?_ ?_
  · rw [toList_method owner hm]
    simp
  · intro rest
    rw [toList_method owner hm, methodStem]
    split
    · simp
    · exact encodeIdent_ne_tag (by decide) (by decide) (by decide) _ _ _

theorem isFree_field : IsFree (field p owner name) := by
  have hstart : ∀ rest, (field p owner name).toList ≠ '_' :: '_' :: rest := by
    intro rest
    rw [toList_field]
    exact encodeIdent_ne_tag (by decide) (by decide) (by decide) _ _ _
  rcases fieldTail_cases p owner name with ⟨htail, hreserved⟩ | htail
  · have htext : field p owner name = String.ofList (encodeIdent name.toList) := by
      rw [← String.ofList_toList (s := field p owner name), toList_field, htail, List.append_nil]
    rw [htext]
    unfold isReserved at hreserved
    simp only [Bool.or_eq_false_iff, List.contains_eq_mem, decide_eq_false_iff_not] at hreserved
    refine ⟨hreserved.1.1, hreserved.1.2, ?_⟩
    rintro index heq
    obtain ⟨rest, hrest⟩ := toList_poolIdent index
    rw [htext, heq] at hstart
    exact hstart _ hrest
  · refine isFree_of_underscore ?_ hstart
    rw [toList_field]
    rcases htail with h | h | h <;> simp [h]

/-! ### Chains -/

/-- Each class is the superclass of the one before it, and none repeats. -/
structure IsSuperclassChain (p : Program) (chain : List ClassModel) : Prop where
  mem : ∀ c ∈ chain, c ∈ p.classes
  next : chain.IsChain fun c s => p.superclass? c = some s
  nodup : chain.Nodup

/-- Of two classes of a chain that declare a field of one name, the name of the lower one carries its class. -/
theorem IsSuperclassChain.shadowing {chain : List ClassModel} (hchain : IsSuperclassChain p chain)
    {a b : ClassModel} (ha : a ∈ chain) (hb : b ∈ chain) (hab : a ≠ b) {f g : Field} (hf : f ∈ a.fields)
    (hg : g ∈ b.fields) (hname : f.name = g.name) :
    isShadowing p a.name f.name = true ∨ isShadowing p b.name g.name = true := by
  have hlower : ∀ {c s : ClassModel} {d e : Field}, c ∈ p.classes → s ∈ p.superclasses c → d ∈ c.fields →
      e ∈ s.fields → d.name = e.name → isShadowing p c.name d.name = true := by
    intro c s d e hc hs hd he hde
    rw [isShadowing, Program.find?_name hc, Option.any_some, Bool.and_eq_true]
    refine ⟨List.any_eq_true.2 ⟨d, hd, by simp⟩, ?_⟩
    exact List.any_eq_true.2 ⟨s, hs, List.any_eq_true.2 ⟨e, he, by simp [hde]⟩⟩
  rcases Program.isChain_comparable hchain.next hchain.nodup ha hb with heq | hs | hs
  · exact absurd heq hab
  · exact .inl (hlower (hchain.mem a ha) hs hf hg hname)
  · exact .inr (hlower (hchain.mem b hb) hs hg hf hname.symm)

/-- A name without slashes is its dotted form. -/
theorem eq_of_map_dotted (h : '/' ∉ owner.toList) (h' : '/' ∉ owner'.toList)
    (heq : owner.toList.map Ty.dotted = owner'.toList.map Ty.dotted) : owner = owner' := by
  have hdotted : ∀ {cs : List Char}, '/' ∉ cs → cs.map Ty.dotted = cs := by
    intro cs hcs
    rw [List.map_congr_left, List.map_id]
    intro c hc
    rw [Ty.dotted, if_neg]
    · rfl
    · rintro rfl
      exact hcs hc
  rw [hdotted h, hdotted h'] at heq
  exact String.toList_inj.1 heq

theorem IsSuperclassChain.field_inj {chain : List ClassModel} (hchain : IsSuperclassChain p chain)
    (hslash : ∀ c ∈ chain, '/' ∉ c.name.toList) {a b : ClassModel} (ha : a ∈ chain) (hb : b ∈ chain) {f g : Field}
    (hf : f ∈ a.fields) (hg : g ∈ b.fields) (h : field p a.name f.name = field p b.name g.name) :
    a = b ∧ f.name = g.name := by
  obtain ⟨hname, hboth, howner⟩ := field_split h
  refine ⟨?_, hname⟩
  by_contra hab
  have hshadowing : isShadowing p a.name f.name = true := by
    rcases hchain.shadowing ha hb hab hf hg hname with hs | hs
    · exact hs
    · rwa [hboth]
  have heq := eq_of_map_dotted (hslash a ha) (hslash b hb) (howner hshadowing)
  exact hab (Program.eq_of_name_eq (hchain.mem a ha) (hchain.mem b hb) heq)

/-! ### Members of a loaded program -/

/-- In a program that was loaded from a document, the name of a method tells its source name, its type, and whether
and with which class it is qualified; along a chain of superclasses no two fields share a name; and no method shares
one with a field, or either with what generated code declares itself. -/
theorem member_names_separate {text : String} (hload : Program.ofText text = .ok p) :
    (∀ c ∈ p.classes, ∀ m ∈ c.methods, ∀ c' ∈ p.classes, ∀ m' ∈ c'.methods, ∀ owner owner' : Name,
      method owner m = method owner' m' →
        m.name = m'.name ∧ m.type = m'.type ∧ isQualified m = isQualified m' ∧
          (isQualified m = true → owner.toList.map Ty.dotted = owner'.toList.map Ty.dotted)) ∧
    (∀ chain, IsSuperclassChain p chain → (∀ c ∈ chain, '/' ∉ c.name.toList) →
      ∀ a ∈ chain, ∀ f ∈ a.fields, ∀ b ∈ chain, ∀ g ∈ b.fields,
        field p a.name f.name = field p b.name g.name → a = b ∧ f.name = g.name) ∧
    (∀ c ∈ p.classes, ∀ m ∈ c.methods, ∀ owner : Name, IsFree (method owner m) ∧
      ∀ owner' name : Name, method owner m ≠ field p owner' name) ∧
    ∀ owner name : Name, IsFree (field p owner name) := by
  refine ⟨?_, ?_, ?_, fun _ _ => isFree_field⟩
  · intro c hc m hm c' hc' m' hm' owner owner' h
    exact method_split (Program.canonical_of_ofText hload hc hm) (Program.canonical_of_ofText hload hc' hm') h
  · intro chain hchain hslash a ha f hf b hb g hg h
    exact hchain.field_inj hslash ha hb hf hg h
  · intro c hc m hm owner
    have hcanonical := Program.canonical_of_ofText hload hc hm
    exact ⟨isFree_method hcanonical, fun _ _ => method_ne_field hcanonical⟩

/-- A class that shadows a field of its superclass. -/
def shadowingText : String :=
  "\x7b\"classes\": [\x7b\"name\": \"app.Base\", \"fields\": [\x7b\"name\": \"size\", \"type\": \"I\"\x7d]\x7d, " ++
    "\x7b\"name\": \"app.Sub\", \"superclass\": \"app.Base\", \"fields\": [\x7b\"name\": \"size\", \"type\": \"J\"\x7d]\x7d]\x7d"

theorem member_names_separate_shadowing :
    ∃ p a b f g, Program.ofText shadowingText = .ok p ∧ IsSuperclassChain p [a, b] ∧ f ∈ a.fields ∧ g ∈ b.fields ∧
      f.name = g.name ∧ field p a.name f.name ≠ field p b.name g.name := by
  have hcheck : ((Program.ofText shadowingText).toOption.any fun p => (p.find? "app.Sub").any fun a =>
      !a.name.toList.contains '/' && (p.superclass? a).any fun b =>
        !b.name.toList.contains '/' && a.name != b.name &&
          a.fields.any fun f => b.fields.any fun g => f.name == g.name) = true := by decide +kernel
  obtain ⟨p, hload, hcheck⟩ := Program.exists_of_any_ofText hcheck
  simp only [Option.any_eq_true, Bool.and_eq_true, List.any_eq_true, Bool.not_eq_true', bne_iff_ne, beq_iff_eq,
    List.contains_eq_mem, decide_eq_false_iff_not] at hcheck
  obtain ⟨a, ha, haslash, b, hb, ⟨hbslash, hab⟩, f, hf, g, hg, hname⟩ := hcheck
  have hne : a ≠ b := fun heq => hab (by rw [heq])
  have hchain : IsSuperclassChain p [a, b] :=
    ⟨by simp [(Program.mem_of_find? ha).1, Program.mem_of_superclass? hb], by simp [hb], by simp [hne]⟩
  refine ⟨p, a, b, f, g, hload, hchain, hf, hg, hname, fun h => hne ?_⟩
  exact ((member_names_separate hload).2.1 [a, b] hchain (by simp [haslash, hbslash]) a (by simp) f hf b (by simp) g
    hg h).1

end HaxeBackend.Naming
