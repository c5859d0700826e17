import HaxeBackend.Naming.Basic
import HaxeBackend.Proofs.Naming.Codes

/-!
# Method names can be read back

A mangled type ends by itself (`mangled_split`), so the name of a method tells its source name, its type, whether it
carries its class, and which class that is (`method_split`).  Types are taken in the form that descriptors are read
in: no array of arrays, and no `;` or `/` in the name of a class.
-/

namespace HaxeBackend

/-! ### Canonical types -/

/-- Whether a type is in the form in which it is read from a descriptor. -/
def Ty.isCanonical : Ty → Bool
  | .void | .prim _ => true
  | .ref name => !name.toList.contains ';' && !name.toList.contains '/'
  | .array element dims => decide (0 < dims) && !element.isArray && element.isCanonical

def MethodTy.isCanonical (t : MethodTy) : Bool := t.args.all Ty.isCanonical && t.ret.isCanonical

namespace Naming

variable {r r' : List Char} {t t' : Ty} {name name' : Name}

/-- Names in descriptors have slashes, which tell as much as dots. -/
private theorem map_dotted_slashed (hname : name.toList.contains '/' = false) :
    (name.toList.map Ty.slashed).map Ty.dotted = name.toList := by
  rw [List.map_map, List.map_congr_left, List.map_id]
  intro c hc
  have hne : c ≠ '/' := by
    rintro rfl
    rw [List.contains_eq_mem, decide_eq_false_iff_not] at hname
    exact hname hc
  unfold Function.comp Ty.slashed Ty.dotted
  by_cases hdot : c = '.'
  · subst hdot
    rfl
  · rw [if_neg hdot, if_neg hne]
    rfl

/-! ### Mangled types -/

/-- The mangled form of a type. -/
def mangled : Ty → List Char
  | .void => ['V']
  | .prim kind => [kind.code]
  | .ref name => 'L' :: (encodePath (name.toList.map Ty.slashed) ++ ['_', 'E'])
  | .array element dims => List.replicate dims 'A' ++ mangled element

private theorem mangle_path {path rest : List Char} (h : ';' ∉ path) :
    mangle true (path ++ ';' :: rest) = encodePath path ++ '_' :: 'E' :: mangle false rest := by
  induction path with
  | nil => rfl
  | cons c path ih =>
    rw [List.mem_cons, not_or] at h
    rw [List.cons_append, mangle, if_pos rfl, if_neg (Ne.symm h.1), ih h.2, encodePath, encodePath,
      List.flatMap_cons, List.append_assoc]

private theorem mangle_replicate (dims : Nat) (rest : List Char) :
    mangle false (List.replicate dims '[' ++ rest) = List.replicate dims 'A' ++ mangle false rest := by
  induction dims with
  | zero => rfl
  | succ dims ih =>
    rw [List.replicate_succ, List.replicate_succ, List.cons_append, List.cons_append, ← ih]
    rfl

/-- Types are mangled one by one. -/
private theorem mangle_signature (ht : t.isCanonical = true) (rest : List Char) :
    mangle false (t.signature ++ rest) = mangled t ++ mangle false rest := by
  induction t with
  | void => rfl
  | prim kind => cases kind <;> rfl
  | ref name =>
    rw [Ty.isCanonical, Bool.and_eq_true, Bool.not_eq_true', Bool.not_eq_true'] at ht
    have hfree : ';' ∉ name.toList.map Ty.slashed := by
      intro hmem
      obtain ⟨c, hc, hslashed⟩ := List.mem_map.1 hmem
      unfold Ty.slashed at hslashed
      split at hslashed
      · cases hslashed
      · subst hslashed
        rw [List.contains_eq_mem, decide_eq_false_iff_not] at ht
        exact ht.1 hc
    show 'L' :: mangle true (name.toList.map Ty.slashed ++ [';'] ++ rest) = _
    rw [List.append_assoc, List.singleton_append, mangle_path hfree, mangled, List.cons_append, List.append_assoc]
    rfl
  | array element dims ih =>
    rw [Ty.isCanonical, Bool.and_eq_true] at ht
    rw [Ty.signature, mangled, List.append_assoc, List.append_assoc, mangle_replicate, ih ht.2]

theorem mangle_methodTy {type : MethodTy} (htype : type.isCanonical = true) :
    mangle false type.signature = '_' :: (type.args.flatMap mangled ++ '_' :: mangled type.ret) := by
  rw [MethodTy.isCanonical, Bool.and_eq_true, List.all_eq_true] at htype
  obtain ⟨hargs, hret⟩ := htype
  have hend : mangle false (')' :: type.ret.signature) = '_' :: mangled type.ret := by
    have hmangled := mangle_signature hret []
    rw [List.append_nil, mangle, if_neg Bool.false_ne_true, List.append_nil] at hmangled
    rw [← hmangled]
    rfl
  have hall : ∀ {args : List Ty}, (∀ t ∈ args, t.isCanonical = true) →
      mangle false (args.flatMap Ty.signature ++ ')' :: type.ret.signature) =
        args.flatMap mangled ++ '_' :: mangled type.ret := by
    intro args
    induction args with
    | nil => exact fun _ => hend
    | cons t args ih =>
      intro hargs
      rw [List.flatMap_cons, List.flatMap_cons, List.append_assoc, List.append_assoc,
        mangle_signature (hargs t List.mem_cons_self), ih fun t ht => hargs t (List.mem_cons_of_mem _ ht)]
  rw [← hall hargs]
  rfl

/-! ### Taking mangled types apart -/

/-- A mangled type starts with an upper-case letter, which is that of arrays only for an array. -/
theorem mangled_head (t : Ty) :
    ∃ c rest, mangled t = c :: rest ∧ isAsciiUpper c = true ∧ (t.isArray = false → c ≠ 'A') := by
  induction t with
  | void => exact ⟨'V', [], rfl, rfl, fun _ => by decide⟩
  | prim kind => cases kind <;> exact ⟨_, [], rfl, rfl, fun _ => by decide⟩
  | ref name => exact ⟨'L', _, rfl, rfl, fun _ => by decide⟩
  | array element dims ih =>
    cases dims with
    | zero =>
      obtain ⟨c, rest, heq, hupper, -⟩ := ih
      exact ⟨c, rest, heq, hupper, fun h => by cases h⟩
    | succ dims => exact ⟨'A', _, rfl, rfl, fun h => by cases h⟩

private theorem stops_mangled (r : List Char) : Stops mangled ('_' :: r) := by
  intro t rest h
  obtain ⟨c, _, heq, hupper, -⟩ := mangled_head t
  rw [heq] at h
  rw [(List.cons.inj h).1] at hupper
  exact absurd hupper (by decide)

private theorem code_inj {kind kind' : Prim} (h : kind.code = kind'.code) : kind = kind' :=
  Option.some.inj (by rw [← Prim.ofCode?_code, h, Prim.ofCode?_code])

private theorem ref_split (ht : (Ty.ref name).isCanonical = true) (ht' : (Ty.ref name').isCanonical = true)
    (h : mangled (.ref name) ++ r = mangled (.ref name') ++ r') : name = name' ∧ r = r' := by
  rw [Ty.isCanonical, Bool.and_eq_true, Bool.not_eq_true', Bool.not_eq_true'] at ht ht'
  rw [mangled, mangled, List.cons_append, List.cons_append, List.append_assoc, List.append_assoc] at h
  have hstops : ∀ r, Stops encodePathChar (['_', 'E'] ++ r) := fun r =>
    escapes_encodePathChar.stops_tag (by decide) (by decide) r
  obtain ⟨hname, hrest⟩ := encodePath_split (hstops r) (hstops r') (List.cons.inj h).2
  rw [map_dotted_slashed ht.2, map_dotted_slashed ht'.2] at hname
  exact ⟨String.toList_inj.1 hname, List.append_cancel_left hrest⟩

/-- The mangled form of a type that is no array ends by itself. -/
private theorem element_split (harray : t.isArray = false) (harray' : t'.isArray = false)
    (ht : t.isCanonical = true) (ht' : t'.isCanonical = true) (h : mangled t ++ r = mangled t' ++ r') :
    t = t' ∧ r = r' := by
  cases t with
  | void =>
    cases t' with
    | void => exact ⟨rfl, (List.cons.inj h).2⟩
    | prim kind => cases kind <;> cases (List.cons.inj h).1
    | ref name => cases (List.cons.inj h).1
    | array => cases harray'
  | prim kind =>
    cases t' with
    | void => cases kind <;> cases (List.cons.inj h).1
    | prim kind' =>
      obtain ⟨hcode, hrest⟩ := List.cons.inj h
      exact ⟨by rw [code_inj hcode], hrest⟩
    | ref name => cases kind <;> cases (List.cons.inj h).1
    | array => cases harray'
  | ref name =>
    cases t' with
    | void => cases (List.cons.inj h).1
    | prim kind => cases kind <;> cases (List.cons.inj h).1
    | ref name' =>
      obtain ⟨hname, hrest⟩ := ref_split ht ht' h
      exact ⟨by rw [hname], hrest⟩
    | array => cases harray'
  | array => cases harray

private theorem replicate_split {d d' : Nat} (ht : t.isArray = false) (ht' : t'.isArray = false)
    (h : List.replicate d 'A' ++ (mangled t ++ r) = List.replicate d' 'A' ++ (mangled t' ++ r')) :
    d = d' ∧ mangled t ++ r = mangled t' ++ r' := by
  obtain ⟨c, rest, heq, -, hc⟩ := mangled_head t
  obtain ⟨c', rest', heq', -, hc'⟩ := mangled_head t'
  induction d generalizing d' with
  | zero =>
    cases d' with
    | zero => exact ⟨rfl, h⟩
    | succ d' =>
      rw [heq] at h
      exact absurd (List.cons.inj h).1 (hc ht)
  | succ d ih =>
    cases d' with
    | zero =>
      rw [heq'] at h
      exact absurd (List.cons.inj h).1.symm (hc' ht')
    | succ d' =>
      obtain ⟨rfl, hrest⟩ := ih (List.cons.inj h).2
      exact ⟨rfl, hrest⟩

/-- The mangled form of a type ends by itself. -/
theorem mangled_split : Splits mangled id fun t => t.isCanonical = true := by
  intro t t' r r' ht ht' h
  -- an array of no dimension stands for a type that is no array
  have hshape : ∀ {t : Ty}, t.isCanonical = true → ∃ element dims, element.isArray = false ∧
      element.isCanonical = true ∧ mangled t = List.replicate dims 'A' ++ mangled element ∧
      t = if dims = 0 then element else .array element dims := by
    intro t ht
    cases t with
    | array element dims =>
      rw [Ty.isCanonical, Bool.and_eq_true, Bool.and_eq_true, decide_eq_true_eq, Bool.not_eq_true'] at ht
      exact ⟨element, dims, ht.1.2, ht.2, rfl, (if_neg (Nat.ne_of_gt ht.1.1)).symm⟩
    | _ => exact ⟨_, 0, rfl, ht, rfl, rfl⟩
  obtain ⟨element, dims, harray, hcanonical, heq, htype⟩ := hshape ht
  obtain ⟨element', dims', harray', hcanonical', heq', htype'⟩ := hshape ht'
  rw [heq, heq', List.append_assoc, List.append_assoc] at h
  obtain ⟨rfl, hrest⟩ := replicate_split harray harray' h
  obtain ⟨rfl, hrest'⟩ := element_split harray harray' hcanonical hcanonical' hrest
  exact ⟨by rw [htype, htype'], hrest'⟩

/-! ### Methods -/

/-- Whether the name of a method carries its class. -/
def isQualified (m : Method) : Bool := m.isConstructor || (m.modifiers.isPrivate && !m.isStatic)

/-- The name in front of the mangled descriptor. -/
def methodStem (m : Method) : List Char := if m.isConstructor then "_init".toList else encodeIdent m.name.toList

/-- What stands behind the mangled descriptor. -/
def ownerSuffix (owner : Name) (m : Method) : List Char :=
  if isQualified m then '_' :: encodePath owner.toList else []

theorem toList_method (owner : Name) {m : Method} (hm : m.type.isCanonical = true) :
    (method owner m).toList = methodStem m ++
      '_' :: (m.type.args.flatMap mangled ++ '_' :: (mangled m.type.ret ++ ownerSuffix owner m)) := by
  unfold method virtualMethod methodStem ownerSuffix isQualified
  rw [mangle_methodTy hm]
  cases m.isConstructor <;> cases m.modifiers.isPrivate && !m.isStatic <;> simp

/-- Behind the name of a method stands no escape of identifiers. -/
theorem stops_descriptor (args : List Ty) (r : List Char) :
    Stops encodeIdentChar ('_' :: (args.flatMap mangled ++ '_' :: r)) := by
  cases args with
  | nil => exact escapes_encodeIdentChar.stops_tag (by decide) (by decide) r
  | cons t args =>
    obtain ⟨c, rest, heq, hupper, -⟩ := mangled_head t
    rw [List.flatMap_cons, heq]
    have hlower : c ≠ 'x' ∧ c ≠ 'u' ∧ c ≠ 'd' := by
      refine ⟨?_, ?_, ?_⟩ <;>
      · rintro rfl
        exact absurd hupper (by decide)
    exact escapes_encodeIdentChar.stops_tag hlower.1 (by rw [identMeaning, if_neg hlower.2.1, if_neg hlower.2.2]) _

/-- No encoded identifier starts like the name of a constructor. -/
theorem encodeIdent_ne_init (text r r' : List Char) : encodeIdent text ++ r ≠ '_' :: 'i' :: r' :=
  encodeIdent_ne_tag (by decide) (by decide) (by decide) text r r'

private theorem methodStem_split {m m' : Method} (hr : Stops encodeIdentChar r) (hr' : Stops encodeIdentChar r')
    (h : methodStem m ++ r = methodStem m' ++ r') :
    m.name = m'.name ∧ m.isConstructor = m'.isConstructor ∧ r = r' := by
  unfold methodStem at h
  cases hm : m.isConstructor <;> cases hm' : m'.isConstructor <;>
    simp only [hm, hm', Bool.false_eq_true, if_true, if_false] at h
  · obtain ⟨hname, hrest⟩ := encodeIdent_split hr hr' h
    exact ⟨String.toList_inj.1 hname, rfl, hrest⟩
  · exact absurd h (encodeIdent_ne_init _ _ _)
  · exact absurd h.symm (encodeIdent_ne_init _ _ _)
  · unfold Method.isConstructor at hm hm'
    rw [beq_iff_eq] at hm hm'
    exact ⟨by rw [hm, hm'], rfl, List.append_cancel_left h⟩

/-- The name of a method tells its source name, its type, whether it carries its class, and that class. -/
theorem method_split {owner owner' : Name} {m m' : Method} (hm : m.type.isCanonical = true)
    (hm' : m'.type.isCanonical = true) (h : method owner m = method owner' m') :
    m.name = m'.name ∧ m.type = m'.type ∧ isQualified m = isQualified m' ∧
      (isQualified m = true → owner.toList.map Ty.dotted = owner'.toList.map Ty.dotted) := by
  have htext := congrArg String.toList h
  rw [toList_method owner hm, toList_method owner' hm'] at htext
  -- the text is taken apart from the front: stem, arguments, result, owner
  obtain ⟨hname, -, htext⟩ := methodStem_split (stops_descriptor _ _) (stops_descriptor _ _) htext
  rw [MethodTy.isCanonical, Bool.and_eq_true, List.all_eq_true] at hm hm'
  obtain ⟨hargs, htext⟩ := flatMap_split mangled_split hm.1 hm'.1 (stops_mangled _) (stops_mangled _)
    (List.cons.inj htext).2
  obtain ⟨hret, hsuffix⟩ := mangled_split hm.2 hm'.2 (List.cons.inj htext).2
  rw [List.map_id, List.map_id] at hargs
  have htype : m.type = m'.type := by
    cases hmt : m.type
    cases hmt' : m'.type
    rw [hmt, hmt'] at hargs hret
    rw [MethodTy.mk.injEq]
    exact ⟨hargs, hret⟩
  refine ⟨hname, htype, ?_⟩
  unfold ownerSuffix at hsuffix
  cases hq : isQualified m <;> cases hq' : isQualified m' <;> rw [hq, hq'] at hsuffix
  · exact ⟨rfl, fun h => by cases h⟩
  · cases hsuffix
  · cases hsuffix
  · have hstops := escapes_encodePathChar.stops_nil
    have hpath : encodePath owner.toList ++ [] = encodePath owner'.toList ++ [] := by
      rw [List.append_nil, List.append_nil]
      exact (List.cons.inj hsuffix).2
    exact ⟨rfl, fun _ => (encodePath_split hstops hstops hpath).1⟩

end Naming

end HaxeBackend
