import HaxeBackend.Model.Descriptor
import Mathlib.Algebra.Group.Nat.Defs
import Mathlib.Data.List.Forall2
import Mathlib.Data.List.TakeWhile

/-!
# The language of descriptors

The texts that are read as types are given by a grammar (`IsType`, `IsMethodType`), and the types that are read from
them by a predicate (`IsReadable`).  The key fact is about one type at the front of a text: it is taken exactly when
the text starts with one, and what is left is the rest (`exists_of_takeType`, `takeType_of_isType`).  Main result:
reading and writing of types and of method types fit together exactly (`descriptors_exact`).
-/

namespace HaxeBackend

/-! ### Slashes and dots -/

namespace Ty

@[simp]
theorem slashed_dotted (c : Char) : slashed (dotted c) = slashed c := by
  unfold dotted
  split
  · rename_i h
    rw [h]
    decide
  · rfl

theorem dotted_slashed {c : Char} (h : c ≠ '/') : dotted (slashed c) = c := by
  unfold slashed
  split
  · rename_i hdot
    rw [hdot]
    decide
  · rw [dotted, if_neg h]

theorem dotted_ne_slash (c : Char) : dotted c ≠ '/' := by
  unfold dotted
  split
  · decide
  · assumption

theorem eq_semicolon_of_dotted {c : Char} (h : dotted c = ';') : c = ';' := by
  unfold dotted at h
  split at h
  · cases h
  · exact h

theorem eq_semicolon_of_slashed {c : Char} (h : slashed c = ';') : c = ';' := by
  unfold slashed at h
  split at h
  · cases h
  · exact h

end Ty

/-! ### The grammar -/

namespace Descriptor

/-- Texts for types without dimensions. -/
inductive IsElement : List Char → Prop
  | primitive {letter : Char} (h : letter ∈ ['Z', 'B', 'S', 'C', 'I', 'J', 'F', 'D']) : IsElement [letter]
  | reference {name : List Char} (h : ';' ∉ name) : IsElement ('L' :: (name ++ [';']))

/-- Texts for types that values have. -/
inductive IsValueType : List Char → Prop
  | intro {dims : Nat} {element : List Char} (hdims : dims < 2 ^ 32) (h : IsElement element) :
    IsValueType (List.replicate dims '[' ++ element)

/-- Texts for types. -/
def IsType (text : List Char) : Prop := text = ['V'] ∨ IsValueType text

/-- Texts for method types. -/
inductive IsMethodType : List Char → Prop
  | intro {args : List (List Char)} {ret : List Char} (hargs : ∀ arg ∈ args, IsValueType arg) (hret : IsType ret) :
    IsMethodType ('(' :: (args.flatten ++ ')' :: ret))

end Descriptor

/-- Types that descriptors stand for: arrays have a dimension and elements that are neither arrays nor void, and the
names of classes have neither slashes nor semicolons. -/
def Ty.IsReadable : Ty → Prop
  | .void | .prim _ => True
  | .ref name => ';' ∉ name.toList ∧ '/' ∉ name.toList
  | .array element dims =>
    0 < dims ∧ dims < 2 ^ 32 ∧ element.isArray = false ∧ element.isVoid = false ∧ element.IsReadable

theorem Ty.arrayOf_of_not_isArray {element : Ty} (h : element.isArray = false) (dims : Nat) :
    element.arrayOf dims = .array element dims := by
  cases element with
  | array => cases h
  | _ => rfl

structure MethodTy.IsReadable (t : MethodTy) : Prop where
  args : ∀ arg ∈ t.args, arg.isVoid = false ∧ arg.IsReadable
  ret : t.ret.IsReadable

namespace Descriptor

variable {cs rest text body : List Char} {t element : Ty}

/-- The type is readable and is written like the text, with slashes for dots. -/
structure Denotes (text : List Char) (t : Ty) : Prop where
  written : t.signature = text.map Ty.slashed
  readable : t.IsReadable

/-! ### Elements -/

private theorem exists_code_iff {letter : Char} :
    letter ∈ ['Z', 'B', 'S', 'C', 'I', 'J', 'F', 'D'] ↔ ∃ kind : Prim, kind.code = letter := by
  constructor
  · intro h
    simp only [List.mem_cons, List.not_mem_nil, or_false] at h
    rcases h with rfl | rfl | rfl | rfl | rfl | rfl | rfl | rfl
    exacts [⟨.bool, rfl⟩, ⟨.byte, rfl⟩, ⟨.short, rfl⟩, ⟨.char, rfl⟩, ⟨.int, rfl⟩, ⟨.long, rfl⟩, ⟨.float, rfl⟩,
      ⟨.double, rfl⟩]
  · rintro ⟨kind, rfl⟩
    cases kind <;> decide

private theorem code_of_ofCode? {kind : Prim} {letter : Char} (h : Prim.ofCode? letter = some kind) :
    kind.code = letter := by
  unfold Prim.ofCode? at h
  split at h <;> cases h <;> rfl

private theorem takeElement_code (kind : Prim) (rest : List Char) :
    takeElement (kind.code :: rest) = some (.prim kind, rest) := by
  cases kind <;> rfl

private theorem takeElement_reference {name : List Char} (h : ';' ∉ name) (rest : List Char) :
    takeElement ('L' :: (name ++ ';' :: rest)) = some (.ref (String.ofList (name.map Ty.dotted)), rest) := by
  have hname : ∀ c ∈ name, decide (c ≠ ';') = true := by
    rintro c hc
    rw [decide_eq_true_eq]
    rintro rfl
    exact h hc
  rw [takeElement, List.dropWhile_append_of_pos hname, List.takeWhile_append_of_pos hname,
    List.dropWhile_cons_of_neg (by simp), List.takeWhile_cons_of_neg (by simp), List.append_nil]

private theorem takeElement_of_isElement (h : IsElement text) :
    ∃ t, ∀ rest, takeElement (text ++ rest) = some (t, rest) := by
  cases h with
  | primitive h =>
    obtain ⟨kind, rfl⟩ := exists_code_iff.1 h
    exact ⟨_, takeElement_code kind⟩
  | @reference name h =>
    refine ⟨.ref (String.ofList (name.map Ty.dotted)), fun rest => ?_⟩
    rw [List.cons_append, List.append_assoc, List.singleton_append, takeElement_reference h]

private theorem denotes_reference {name : List Char} (h : ';' ∉ name) :
    Denotes ('L' :: (name ++ [';'])) (.ref (String.ofList (name.map Ty.dotted))) := by
  constructor
  · rw [Ty.signature, String.toList_ofList, List.map_map, List.map_cons, List.map_append]
    have hsame : Ty.slashed ∘ Ty.dotted = Ty.slashed := funext Ty.slashed_dotted
    rw [hsame]
    rfl
  · rw [Ty.IsReadable, String.toList_ofList]
    constructor <;> intro hmem <;> obtain ⟨c, hc, hdotted⟩ := List.mem_map.1 hmem
    · exact h (Ty.eq_semicolon_of_dotted hdotted ▸ hc)
    · exact Ty.dotted_ne_slash c hdotted

/-- An element that is taken stands at the front. -/
private theorem exists_of_takeElement (h : takeElement cs = some (t, rest)) :
    ∃ text, cs = text ++ rest ∧ IsElement text ∧ Denotes text t ∧ t.isArray = false ∧ t.isVoid = false := by
  unfold takeElement at h
  split at h
  · cases h
  · rename_i ds
    split at h
    · cases h
    · rename_i c rest' hdrop
      cases h
      have hfree : ';' ∉ ds.takeWhile (· ≠ ';') := fun hmem => by simpa using List.mem_takeWhile_imp hmem
      have hc : c = ';' := by
        have hhead := List.head?_dropWhile_not (fun c : Char => decide (c ≠ ';')) ds
        rw [hdrop] at hhead
        simpa using hhead
      subst hc
      refine ⟨'L' :: (ds.takeWhile (· ≠ ';') ++ [';']), ?_, .reference hfree, denotes_reference hfree, rfl, rfl⟩
      rw [List.cons_append, List.append_assoc, List.singleton_append, ← hdrop, List.takeWhile_append_dropWhile]
  · rename_i c cs _
    obtain ⟨kind, hkind, heq⟩ := Option.map_eq_some_iff.1 h
    cases heq
    obtain rfl := code_of_ofCode? hkind
    refine ⟨[kind.code], rfl, .primitive (exists_code_iff.2 ⟨kind, rfl⟩), ⟨?_, trivial⟩, rfl, rfl⟩
    cases kind <;> rfl

private theorem head?_of_isElement (h : IsElement text) (rest : List Char) :
    (text ++ rest).head? ≠ some '[' ∧ (text ++ rest).head? ≠ some 'V' := by
  cases h with
  | primitive h =>
    obtain ⟨kind, rfl⟩ := exists_code_iff.1 h
    cases kind <;> simp [Prim.code]
  | reference => simp

/-! ### Types -/

/-- A run of brackets is counted. -/
private theorem takeType_replicate {dims : Nat} (hbracket : body.head? ≠ some '[')
    (hvoid : dims = 0 → body.head? ≠ some 'V') :
    takeType (List.replicate dims '[' ++ body) =
      if dims < 2 ^ 32 then
        (takeElement body).map fun found => (if dims = 0 then found.1 else Ty.arrayOf found.1 dims, found.2)
      else none := by
  have hrun : ∀ c ∈ List.replicate dims '[', decide (c = '[') = true := by simp
  have hstop : body.takeWhile (· = '[') = [] ∧ body.dropWhile (· = '[') = body := by
    cases body with
    | nil => exact ⟨rfl, rfl⟩
    | cons c body =>
      have hc : ¬decide (c = '[') = true := by simpa using hbracket
      exact ⟨List.takeWhile_cons_of_neg hc, List.dropWhile_cons_of_neg hc⟩
  rw [takeType, List.takeWhile_append_of_pos hrun, List.dropWhile_append_of_pos hrun, hstop.1, hstop.2,
    List.append_nil, List.length_replicate]
  cases dims with
  | zero =>
    split
    · exact absurd rfl (hvoid rfl)
    · simp
    · rename_i hne _
      exact absurd rfl hne
  | succ dims => rfl

/-- Dimensions in front of an element. -/
private theorem denotes_arrayOf {dims : Nat} (hdims : dims < 2 ^ 32) (h : Denotes text element)
    (harray : element.isArray = false) (hvoid : element.isVoid = false) :
    Denotes (List.replicate dims '[' ++ text) (if dims = 0 then element else Ty.arrayOf element dims) := by
  split
  · rename_i hzero
    rw [hzero]
    exact h
  · rename_i hpos
    rw [Ty.arrayOf_of_not_isArray harray]
    refine ⟨?_, Nat.pos_of_ne_zero hpos, hdims, harray, hvoid, h.readable⟩
    rw [Ty.signature, List.map_append, List.map_replicate, h.written]
    rfl

/-- A type that is taken stands at the front. -/
theorem exists_of_takeType (h : takeType cs = some (t, rest)) :
    ∃ text, cs = text ++ rest ∧ IsType text ∧ Denotes text t ∧ (t.isVoid = false → IsValueType text) := by
  -- the brackets in front are taken all at once
  have hsplit : cs = List.replicate (cs.takeWhile (· = '[')).length '[' ++ cs.dropWhile (· = '[') := by
    have hrun : cs.takeWhile (· = '[') = List.replicate (cs.takeWhile (· = '[')).length '[' :=
      List.eq_replicate_iff.2 ⟨rfl, fun c hc => by simpa using List.mem_takeWhile_imp hc⟩
    rw [← hrun, List.takeWhile_append_dropWhile]
  have hbracket : (cs.dropWhile (· = '[')).head? ≠ some '[' := by
    have hhead := List.head?_dropWhile_not (fun c : Char => decide (c = '[')) cs
    intro hmem
    rw [hmem] at hhead
    exact absurd hhead (by decide)
  revert hsplit hbracket
  generalize (cs.takeWhile (· = '[')).length = dims
  generalize cs.dropWhile (· = '[') = body
  rintro rfl hbracket
  by_cases hvoid : dims = 0 ∧ body.head? = some 'V'
  · obtain ⟨rfl, hhead⟩ := hvoid
    obtain ⟨rest', rfl⟩ := List.head?_eq_some_iff.1 hhead
    cases h
    exact ⟨['V'], rfl, .inl rfl, ⟨rfl, trivial⟩, fun h => by cases h⟩
  · rw [takeType_replicate hbracket fun hdims hhead => hvoid ⟨hdims, hhead⟩] at h
    split at h
    · rename_i hdims
      obtain ⟨⟨element, rest'⟩, htake, heq⟩ := Option.map_eq_some_iff.1 h
      cases heq
      obtain ⟨text, rfl, htext, hdenotes, harray, hvalue⟩ := exists_of_takeElement htake
      have hvalueType : IsValueType (List.replicate dims '[' ++ text) := .intro hdims htext
      refine ⟨List.replicate dims '[' ++ text, by rw [List.append_assoc], .inr hvalueType, ?_, fun _ => hvalueType⟩
      exact denotes_arrayOf hdims hdenotes harray hvalue
    · cases h

/-! ### Reading from the front -/

/-- The text is read as the type, whatever follows it. -/
def ReadsAs (text : List Char) (t : Ty) : Prop := ∀ rest, takeType (text ++ rest) = some (t, rest)

private theorem readsAs_void : ReadsAs ['V'] .void := fun _ => rfl

private theorem readsAs_element {dims : Nat} (hdims : dims < 2 ^ 32) (htext : IsElement text)
    (h : ∀ rest, takeElement (text ++ rest) = some (element, rest)) :
    ReadsAs (List.replicate dims '[' ++ text) (if dims = 0 then element else Ty.arrayOf element dims) := by
  intro rest
  obtain ⟨hbracket, hvoid⟩ := head?_of_isElement htext rest
  rw [List.append_assoc, takeType_replicate hbracket fun _ => hvoid, if_pos hdims, h]
  rfl

/-- Every text for a value is read, and not as void. -/
theorem exists_readsAs_of_isValueType (h : IsValueType text) : ∃ t, ReadsAs text t ∧ t.isVoid = false := by
  cases h with
  | @intro dims _ hdims helement =>
    obtain ⟨element, htake⟩ := takeElement_of_isElement helement
    obtain ⟨_, -, -, -, -, hvoid⟩ := exists_of_takeElement (htake [])
    refine ⟨_, readsAs_element hdims helement htake, ?_⟩
    split
    · exact hvoid
    · cases element <;> rfl

theorem exists_readsAs (h : IsType text) : ∃ t, ReadsAs text t := by
  rcases h with rfl | h
  · exact ⟨.void, readsAs_void⟩
  · obtain ⟨t, ht, -⟩ := exists_readsAs_of_isValueType h
    exact ⟨t, ht⟩

/-- A name is read back from its slashed form. -/
private theorem map_dotted_map_slashed {name : List Char} (h : '/' ∉ name) :
    (name.map Ty.slashed).map Ty.dotted = name := by
  rw [List.map_map]
  refine (List.map_congr_left fun c hc => ?_).trans (List.map_id name)
  exact Ty.dotted_slashed fun hslash => h (hslash ▸ hc)

private theorem takes_signature (ht : t.IsReadable) (harray : t.isArray = false) (hvoid : t.isVoid = false) :
    IsElement t.signature ∧ ∀ rest, takeElement (t.signature ++ rest) = some (t, rest) := by
  cases t with
  | void => cases hvoid
  | prim kind => exact ⟨.primitive (exists_code_iff.2 ⟨kind, rfl⟩), takeElement_code kind⟩
  | ref name =>
    have hfree : ';' ∉ name.toList.map Ty.slashed := by
      intro hmem
      obtain ⟨c, hc, hslashed⟩ := List.mem_map.1 hmem
      exact ht.1 (Ty.eq_semicolon_of_slashed hslashed ▸ hc)
    refine ⟨.reference hfree, fun rest => ?_⟩
    rw [Ty.signature, List.cons_append, List.append_assoc, List.singleton_append, takeElement_reference hfree,
      map_dotted_map_slashed ht.2, String.ofList_toList]
  | array => cases harray

/-- What a readable type is written as is read as the type. -/
theorem readsAs_signature (ht : t.IsReadable) : ReadsAs t.signature t := by
  by_cases harray : t.isArray = true
  · cases t with
    | array element dims =>
      obtain ⟨hpos, hdims, hflat, hvoid, helement⟩ := ht
      obtain ⟨htext, htake⟩ := takes_signature helement hflat hvoid
      have hreads := readsAs_element hdims htext htake
      rw [if_neg (Nat.ne_of_gt hpos), Ty.arrayOf_of_not_isArray hflat] at hreads
      exact hreads
    | _ => cases harray
  · rw [Bool.not_eq_true] at harray
    by_cases hvoid : t.isVoid = true
    · cases t with
      | void => exact readsAs_void
      | _ => cases hvoid
    · obtain ⟨htext, htake⟩ := takes_signature ht harray (by simpa using hvoid)
      have hreads := readsAs_element (show 0 < 2 ^ 32 by decide) htext htake
      exact hreads

/-! ### Arguments -/

/-- No type starts with a closing parenthesis. -/
private theorem ReadsAs.exists_cons (h : ReadsAs text t) : ∃ c cs, text = c :: cs ∧ c ≠ ')' := by
  cases text with
  | nil => cases h []
  | cons c cs =>
    refine ⟨c, cs, rfl, ?_⟩
    rintro rfl
    cases h []

/-- Arguments that are read one by one. -/
theorem takeArgs_flatten {texts : List (List Char)} {args : List Ty}
    (h : List.Forall₂ (fun text t => ReadsAs text t ∧ t.isVoid = false) texts args) (rest : List Char) :
    takeArgs (texts.flatten ++ ')' :: rest) = some (args, rest) := by
  induction h with
  | nil =>
    rw [List.flatten_nil, List.nil_append, takeArgs]
  | @cons text t texts args hfirst _ ih =>
    obtain ⟨hreads, hvoid⟩ := hfirst
    obtain ⟨c, cs, rfl, hc⟩ := hreads.exists_cons
    have htake := hreads (texts.flatten ++ ')' :: rest)
    rw [List.flatten_cons, List.append_assoc]
    rw [List.cons_append] at htake ⊢
    rw [takeArgs]
    · split
      · rename_i hnone
        rw [hnone] at htake
        cases htake
      · rename_i hsome
        rw [hsome] at htake
        cases htake
        rw [hvoid, if_neg Bool.false_ne_true, ih]
        rfl
    · exact fun heq => List.cons_ne_nil _ _ heq
    · exact fun _ heq => hc (List.cons.inj heq).1

/-- Arguments that are taken stand in front of the parenthesis. -/
theorem exists_of_takeArgs {args : List Ty} (h : takeArgs cs = some (args, rest)) :
    ∃ texts : List (List Char), cs = texts.flatten ++ ')' :: rest ∧
      List.Forall₂ (fun text t => IsValueType text ∧ Denotes text t ∧ t.isVoid = false) texts args := by
  fun_induction takeArgs cs generalizing args rest with
  | case1 => cases h
  | case2 =>
    cases h
    exact ⟨[], rfl, .nil⟩
  | case3 => cases h
  | case4 => cases h
  | case5 cs _ _ t rest' htake _ hvoid ih =>
    obtain ⟨⟨others, _⟩, hothers, heq⟩ := Option.map_eq_some_iff.1 h
    cases heq
    rw [Bool.not_eq_true] at hvoid
    obtain ⟨text, rfl, -, hdenotes, hvalue⟩ := exists_of_takeType htake
    obtain ⟨texts, rfl, hall⟩ := ih hothers
    exact ⟨text :: texts, by rw [List.flatten_cons, List.append_assoc], .cons ⟨hvalue hvoid, hdenotes, hvoid⟩ hall⟩

private theorem exists_readsAs_args {texts : List (List Char)} (h : ∀ text ∈ texts, IsValueType text) :
    ∃ args, List.Forall₂ (fun text t => ReadsAs text t ∧ t.isVoid = false) texts args := by
  induction texts with
  | nil => exact ⟨[], .nil⟩
  | cons text texts ih =>
    obtain ⟨hfirst, hrest⟩ := List.forall_mem_cons.1 h
    obtain ⟨t, ht⟩ := exists_readsAs_of_isValueType hfirst
    obtain ⟨args, hargs⟩ := ih hrest
    exact ⟨t :: args, .cons ht hargs⟩

private theorem args_of_denotes {texts : List (List Char)} {args : List Ty}
    (h : List.Forall₂ (fun text t => Denotes text t ∧ t.isVoid = false) texts args) :
    args.flatMap Ty.signature = texts.flatten.map Ty.slashed ∧ ∀ arg ∈ args, arg.isVoid = false ∧ arg.IsReadable := by
  induction h with
  | nil => exact ⟨rfl, fun _ h => absurd h List.not_mem_nil⟩
  | cons hfirst _ ih =>
    obtain ⟨hdenotes, hvoid⟩ := hfirst
    refine ⟨?_, List.forall_mem_cons.2 ⟨⟨hvoid, hdenotes.readable⟩, ih.2⟩⟩
    rw [List.flatMap_cons, List.flatten_cons, List.map_append, hdenotes.written, ih.1]

end Descriptor

/-! ### Whole descriptors -/

open Descriptor

variable {text : String} {t : Ty} {type : MethodTy}

theorem Ty.ofDescriptor_eq_ok_iff : Ty.ofDescriptor text = .ok t ↔ takeType text.toList = some (t, []) := by
  unfold Ty.ofDescriptor
  split
  · rename_i htake
    rw [htake]
    simp
  · rename_i hne
    constructor
    · intro h
      cases h
    · exact fun h => absurd h (hne t)

theorem Ty.ofDescriptor_error {e : ModelError} (h : Ty.ofDescriptor text = .error e) : e = .descriptor text := by
  unfold Ty.ofDescriptor at h
  split at h <;> cases h
  rfl

theorem MethodTy.ofDescriptor_eq_ok_iff :
    MethodTy.ofDescriptor text = .ok type ↔
      ∃ cs rest, text.toList = '(' :: cs ∧ takeArgs cs = some (type.args, rest) ∧
        takeType rest = some (type.ret, []) := by
  unfold MethodTy.ofDescriptor
  constructor
  · intro h
    split at h
    · rename_i cs hopen
      split at h
      · rename_i args rest hargs
        cases hret : Ty.ofDescriptor (String.ofList rest) with
        | error e =>
          rw [hret] at h
          cases h
        | ok ret =>
          rw [hret] at h
          cases h
          rw [Ty.ofDescriptor_eq_ok_iff, String.toList_ofList] at hret
          exact ⟨cs, rest, hopen, hargs, hret⟩
      · cases h
    · cases h
  · rintro ⟨cs, rest, hopen, hargs, hret⟩
    have hread : Ty.ofDescriptor (String.ofList rest) = .ok type.ret := by
      rw [Ty.ofDescriptor_eq_ok_iff, String.toList_ofList, hret]
    rw [hopen]
    simp only [hargs, hread]
    rfl

/-- What is reported is the whole descriptor, or its end when only the return type is bad. -/
theorem MethodTy.ofDescriptor_error {e : ModelError} (h : MethodTy.ofDescriptor text = .error e) :
    ∃ fault, e = .descriptor fault ∧ fault.toList <:+ text.toList := by
  unfold MethodTy.ofDescriptor at h
  split at h
  · rename_i cs hopen
    split at h
    · rename_i args rest hargs
      obtain ⟨texts, rfl, -⟩ := exists_of_takeArgs hargs
      cases hret : Ty.ofDescriptor (String.ofList rest) with
      | error e' =>
        rw [hret] at h
        cases h
        refine ⟨String.ofList rest, Ty.ofDescriptor_error hret, ?_⟩
        rw [String.toList_ofList, hopen]
        exact ⟨'(' :: (texts.flatten ++ [')']), by simp⟩
      | ok ret =>
        rw [hret] at h
        cases h
    · cases h
      exact ⟨text, rfl, List.suffix_rfl⟩
  · cases h
    exact ⟨text, rfl, List.suffix_rfl⟩

theorem Ty.exists_ofDescriptor_iff : (∃ t, Ty.ofDescriptor text = .ok t) ↔ IsType text.toList := by
  simp only [Ty.ofDescriptor_eq_ok_iff]
  constructor
  · rintro ⟨t, htake⟩
    obtain ⟨cs, heq, htype, -⟩ := exists_of_takeType htake
    rwa [heq, List.append_nil]
  · intro htype
    obtain ⟨t, hreads⟩ := exists_readsAs htype
    exact ⟨t, by simpa using hreads []⟩

theorem Ty.denotes_of_ofDescriptor (h : Ty.ofDescriptor text = .ok t) : Denotes text.toList t := by
  obtain ⟨cs, heq, -, hdenotes, -⟩ := exists_of_takeType (Ty.ofDescriptor_eq_ok_iff.1 h)
  rwa [heq, List.append_nil]

theorem Ty.ofDescriptor_descriptor (h : t.IsReadable) : Ty.ofDescriptor t.descriptor = .ok t := by
  rw [Ty.ofDescriptor_eq_ok_iff, Ty.descriptor, String.toList_ofList]
  simpa using readsAs_signature h []

theorem MethodTy.exists_ofDescriptor_iff : (∃ type, MethodTy.ofDescriptor text = .ok type) ↔
    IsMethodType text.toList := by
  simp only [MethodTy.ofDescriptor_eq_ok_iff]
  constructor
  · rintro ⟨type, cs, rest, hopen, hargs, hret⟩
    obtain ⟨texts, rfl, hall⟩ := exists_of_takeArgs hargs
    obtain ⟨ret, rfl, htype, -⟩ := exists_of_takeType hret
    rw [hopen, List.append_nil]
    exact .intro ((List.forall₂_and_left _ _).1 hall).1 htype
  · generalize text.toList = cs
    rintro ⟨hargs, hret⟩
    obtain ⟨ret, hreads⟩ := exists_readsAs hret
    obtain ⟨args, hall⟩ := exists_readsAs_args hargs
    exact ⟨⟨args, ret⟩, _, _, rfl, takeArgs_flatten hall _, by simpa using hreads []⟩

theorem MethodTy.written_of_ofDescriptor (h : MethodTy.ofDescriptor text = .ok type) :
    type.signature = text.toList.map Ty.slashed ∧ type.IsReadable := by
  obtain ⟨cs, rest, hopen, hargs, hret⟩ := MethodTy.ofDescriptor_eq_ok_iff.1 h
  obtain ⟨texts, rfl, hall⟩ := exists_of_takeArgs hargs
  obtain ⟨ret, rfl, -, hdenotes, -⟩ := exists_of_takeType hret
  obtain ⟨hwritten, hreadable⟩ := args_of_denotes ((List.forall₂_and_left _ _).1 hall).2
  refine ⟨?_, hreadable, hdenotes.readable⟩
  rw [MethodTy.signature, hwritten, hdenotes.written, hopen, List.append_nil, List.map_cons, List.map_append,
    List.map_cons]
  rfl

theorem MethodTy.ofDescriptor_descriptor (h : type.IsReadable) :
    MethodTy.ofDescriptor type.descriptor = .ok type := by
  have hargs : List.Forall₂ (fun text t => ReadsAs text t ∧ t.isVoid = false) (type.args.map Ty.signature)
      type.args := by
    rw [List.forall₂_map_left_iff, List.forall₂_same]
    exact fun t ht => ⟨readsAs_signature (h.args t ht).2, (h.args t ht).1⟩
  have hret := readsAs_signature h.ret []
  rw [List.append_nil] at hret
  rw [MethodTy.ofDescriptor_eq_ok_iff, MethodTy.descriptor, String.toList_ofList]
  exact ⟨_, _, rfl, by rw [List.flatMap_def, takeArgs_flatten hargs], hret⟩

/-- A reader of texts and a writer of values fit together. -/
structure ReadsExactly {α : Type} (accepts : List Char → Prop) (fits : α → Prop)
    (read : String → Except ModelError α) (write : α → String) : Prop where
  accepted : ∀ text, (∃ a, read text = .ok a) ↔ accepts text.toList
  written : ∀ text a, read text = .ok a → write a = text.map fun c => if c = '.' then '/' else c
  produced : ∀ a, (∃ text, read text = .ok a) ↔ fits a
  readBack : ∀ a, fits a → read (write a) = .ok a
  /-- What is reported is the text or an end of it. -/
  rejected : ∀ text e, read text = .error e → ∃ fault, e = .descriptor fault ∧ fault.toList <:+ text.toList

private theorem eq_map_of_toList {s text : String} (h : s.toList = text.toList.map Ty.slashed) :
    s = text.map fun c => if c = '.' then '/' else c := by
  rw [← String.toList_inj, h, String.toList_map]
  rfl

/-- Descriptors of types and of method types are read exactly. -/
theorem descriptors_exact :
    ReadsExactly IsType Ty.IsReadable Ty.ofDescriptor Ty.descriptor ∧
      ReadsExactly IsMethodType MethodTy.IsReadable MethodTy.ofDescriptor MethodTy.descriptor := by
  constructor
  · refine ⟨fun _ => Ty.exists_ofDescriptor_iff, fun text t h => eq_map_of_toList ?_, fun t => ⟨?_, fun h => ?_⟩,
      fun _ => Ty.ofDescriptor_descriptor, fun text e h => ⟨text, Ty.ofDescriptor_error h, List.suffix_rfl⟩⟩
    · rw [Ty.descriptor, String.toList_ofList, (Ty.denotes_of_ofDescriptor h).written]
    · rintro ⟨text, h⟩
      exact (Ty.denotes_of_ofDescriptor h).readable
    · exact ⟨_, Ty.ofDescriptor_descriptor h⟩
  · refine ⟨fun _ => MethodTy.exists_ofDescriptor_iff, fun text t h => eq_map_of_toList ?_, fun t => ⟨?_, fun h => ?_⟩,
      fun _ => MethodTy.ofDescriptor_descriptor, fun _ _ => MethodTy.ofDescriptor_error⟩
    · rw [MethodTy.descriptor, String.toList_ofList, (MethodTy.written_of_ofDescriptor h).1]
    · rintro ⟨text, h⟩
      exact (MethodTy.written_of_ofDescriptor h).2
    · exact ⟨_, MethodTy.ofDescriptor_descriptor h⟩

-- dots are read as they are, and a class may have no name at all
example : (Ty.ofDescriptor "[Lapp.Point;").map Ty.descriptor = .ok "[Lapp/Point;" := by decide +kernel
example : Ty.ofDescriptor "L;" = .ok (.ref "") ∧ Ty.ofDescriptor "[V" = .error (.descriptor "[V") := by decide +kernel

end HaxeBackend
