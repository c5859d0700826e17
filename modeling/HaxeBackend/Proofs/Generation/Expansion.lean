import HaxeBackend.Generation.Output
import HaxeBackend.Proofs.Document.Types
import HaxeBackend.Proofs.Hierarchy.Chain
import Mathlib.Order.WellFounded

/-!
# Literals end unless a default comes back to itself

The literal of a value is put together from those of its items, of the elements that are given, and of the defaults of
the elements that are left out (`Expands`).  Items and given elements are parts of the value, so an expansion that never
ends goes through defaults without end, and there are only finitely many of them: it ends exactly if no default that it
takes comes back to itself (`endless_iff`).  Nothing keeps a program from such a default, and then the registration of a
class that takes it does not end (`literals_end_iff`).
-/

namespace HaxeBackend.Generation

open Relation (ReflTransGen TransGen)

variable {p : Program} {v w d : AnnotationValue} {m m' : Method} {items : List AnnotationValue}
  {elements : List (Name × AnnotationValue)} {name type : Name} {visible : Bool} {depth : Nat}

/-! ### Expansion -/

/-- The literal of the first value holds that of the second. -/
inductive Expands (p : Program) : AnnotationValue → AnnotationValue → Prop
  /-- An item of a list. -/
  | item {items : List AnnotationValue} {v : AnnotationValue} (h : v ∈ items) : Expands p (.array items) v
  /-- An element that is given. -/
  | element {type : Name} {elements : List (Name × AnnotationValue)} {visible : Bool} {c : ClassModel} {m : Method}
      {v : AnnotationValue} (hc : p.find? type = some c) (hm : m ∈ accessors c)
      (h : elements.lookup m.name = some v) : Expands p (.nested type elements visible) v
  /-- The default of an element that is left out. -/
  | fallback {type : Name} {elements : List (Name × AnnotationValue)} {visible : Bool} {c : ClassModel} {m : Method}
      {v : AnnotationValue} (hc : p.find? type = some c) (hm : m ∈ accessors c)
      (h : elements.lookup m.name = none) (hv : m.defaultValue = some v) : Expands p (.nested type elements visible) v

/-- The expansion of the value goes on for ever. -/
def Endless (p : Program) (v : AnnotationValue) : Prop :=
  ∃ chain : Nat → AnnotationValue, chain 0 = v ∧ ∀ i, Expands p (chain i) (chain (i + 1))

/-- The default of the first accessor takes that of the second. -/
def FallsBack (p : Program) (m m' : Method) : Prop := m' ∈ furtherDefaults p m

/-- The expansion of the value takes the default of the accessor, at once or through other defaults. -/
def Takes (p : Program) (v : AnnotationValue) (m : Method) : Prop :=
  ∃ first ∈ valueDefaults p v, ReflTransGen (FallsBack p) first m

/-- The expansion of the value takes a default that comes back to itself. -/
def Recurs (p : Program) (v : AnnotationValue) : Prop := ∃ m, Takes p v m ∧ TransGen (FallsBack p) m m

/-! ### Defaults of a value -/

private theorem lookup_elementDefaults (elements : List (Name × AnnotationValue)) (name : Name) :
    (elementDefaults p elements).lookup name = (elements.lookup name).map (valueDefaults p) := by
  induction elements with
  | nil => rfl
  | cons element rest ih =>
    rw [elementDefaults, List.lookup_cons, List.lookup_cons]
    split
    · rfl
    · exact ih

private theorem mem_itemDefaults : m ∈ itemDefaults p items ↔ ∃ v ∈ items, m ∈ valueDefaults p v := by
  induction items with
  | nil => simp [itemDefaults]
  | cons v items ih => simp [itemDefaults, ih]

/-- An annotation takes the defaults of the elements that are left out, and what the given ones take. -/
private theorem mem_nestedDefaults :
    m ∈ valueDefaults p (.nested type elements visible) ↔ ∃ c, p.find? type = some c ∧
      ((m ∈ accessors c ∧ elements.lookup m.name = none) ∨
        ∃ a ∈ accessors c, ∃ v, elements.lookup a.name = some v ∧ m ∈ valueDefaults p v) := by
  rw [valueDefaults, annotationDefaults]
  cases p.find? type with
  | none => simp
  | some c =>
    simp only [List.mem_flatMap, lookup_elementDefaults, Option.some.injEq, exists_eq_left']
    constructor
    · rintro ⟨a, ha, hm⟩
      cases hlookup : elements.lookup a.name with
      | none =>
        rw [hlookup, Option.map_none, Option.getD_none, List.mem_singleton] at hm
        exact .inl ⟨hm ▸ ha, hm ▸ hlookup⟩
      | some v =>
        rw [hlookup, Option.map_some, Option.getD_some] at hm
        exact .inr ⟨a, ha, v, hlookup, hm⟩
    · rintro (⟨hm, hlookup⟩ | ⟨a, ha, v, hlookup, hm⟩)
      · exact ⟨m, hm, by simp [hlookup]⟩
      · exact ⟨a, ha, by simpa [hlookup] using hm⟩

private theorem sizeOf_lt_of_item (h : v ∈ items) : sizeOf v < sizeOf (AnnotationValue.array items) := by
  have hlt := List.sizeOf_lt_of_mem h
  rw [AnnotationValue.array.sizeOf_spec]
  omega

private theorem sizeOf_lt_of_element (h : elements.lookup name = some v) :
    sizeOf v < sizeOf (AnnotationValue.nested type elements visible) := by
  obtain ⟨before, after, rfl, -⟩ := List.lookup_eq_some_iff.1 h
  have hlt : sizeOf (name, v) < sizeOf (before ++ (name, v) :: after) :=
    List.sizeOf_lt_of_mem (List.mem_append_right before List.mem_cons_self)
  rw [Prod.mk.sizeOf_spec] at hlt
  rw [AnnotationValue.nested.sizeOf_spec]
  omega

/-- A step of an expansion goes to a part of the value, which takes no other defaults, or to one of the defaults. -/
private theorem Expands.cases_defaults (h : Expands p v w) :
    (sizeOf w < sizeOf v ∧ valueDefaults p w ⊆ valueDefaults p v) ∨
      ∃ m ∈ valueDefaults p v, m.defaultValue = some w := by
  cases h with
  | item h =>
    refine .inl ⟨sizeOf_lt_of_item h, fun m hm => ?_⟩
    rw [valueDefaults]
    exact mem_itemDefaults.2 ⟨w, h, hm⟩
  | element hc hm h =>
    exact .inl ⟨sizeOf_lt_of_element h, fun m' hm' => mem_nestedDefaults.2 ⟨_, hc, .inr ⟨_, hm, w, h, hm'⟩⟩⟩
  | fallback hc hm h hv => exact .inr ⟨_, mem_nestedDefaults.2 ⟨_, hc, .inl ⟨hm, h⟩⟩, hv⟩

/-- Some annotation in the value leaves out the element of the accessor. -/
private def LeavesOut (p : Program) (v : AnnotationValue) (m : Method) : Prop :=
  ∃ type elements visible c, ReflTransGen (Expands p) v (.nested type elements visible) ∧ p.find? type = some c ∧
    m ∈ accessors c ∧ elements.lookup m.name = none

private theorem LeavesOut.head (hvw : Expands p v w) (h : LeavesOut p w m) : LeavesOut p v m := by
  obtain ⟨type, elements, visible, c, hreach, hfound⟩ := h
  exact ⟨type, elements, visible, c, .head hvw hreach, hfound⟩

private theorem leavesOut_of_mem (hm : m ∈ valueDefaults p v) : LeavesOut p v m := by
  induction hsize : sizeOf v using Nat.strong_induction_on generalizing v with
  | _ n ih =>
    cases v with
    | nested type elements visible =>
      obtain ⟨c, hc, ⟨hmem, hlookup⟩ | ⟨a, ha, w, hlookup, hmw⟩⟩ := mem_nestedDefaults.1 hm
      · exact ⟨type, elements, visible, c, .refl, hc, hmem, hlookup⟩
      · exact .head (.element hc ha hlookup) (ih _ (hsize ▸ sizeOf_lt_of_element hlookup) hmw rfl)
    | array items =>
      rw [valueDefaults] at hm
      obtain ⟨w, hw, hmw⟩ := mem_itemDefaults.1 hm
      exact .head (.item hw) (ih _ (hsize ▸ sizeOf_lt_of_item hw) hmw rfl)
    | _ => exact absurd hm (by simp [valueDefaults])

/-- The expansion of a value gets to the defaults that it takes. -/
private theorem expands_default (hm : m ∈ valueDefaults p v) (hd : m.defaultValue = some d) :
    TransGen (Expands p) v d := by
  obtain ⟨type, elements, visible, c, hreach, hc, hmem, hlookup⟩ := leavesOut_of_mem hm
  exact .tail' hreach (.fallback hc hmem hlookup hd)

private theorem mem_furtherDefaults :
    m' ∈ furtherDefaults p m ↔ ∃ d, m.defaultValue = some d ∧ m' ∈ valueDefaults p d := by
  simp [furtherDefaults]

/-! ### Ends -/

/-- The second value holds the first in its literal. -/
private abbrev Below (p : Program) (w v : AnnotationValue) : Prop := Expands p v w

/-- The default of the second accessor takes that of the first. -/
private abbrev Behind (p : Program) (m' m : Method) : Prop := FallsBack p m m'

/-- Parts get smaller, so an expansion ends if those of the defaults do. -/
private theorem acc_of_defaults (h : ∀ m ∈ valueDefaults p v, ∀ d, m.defaultValue = some d → Acc (Below p) d) :
    Acc (Below p) v := by
  induction hsize : sizeOf v using Nat.strong_induction_on generalizing v with
  | _ n ih =>
    refine ⟨v, fun w hw => ?_⟩
    obtain ⟨hlt, hsubset⟩ | ⟨m, hm, hw⟩ := hw.cases_defaults
    · exact ih _ (hsize ▸ hlt) (fun m hm => h m (hsubset hm)) rfl
    · exact h m hm w hw

private theorem acc_default (h : Acc (Behind p) m) : ∀ d, m.defaultValue = some d → Acc (Below p) d := by
  induction h with
  | intro m _ ih => exact fun d hd => acc_of_defaults fun m' hm' => ih m' (mem_furtherDefaults.2 ⟨d, hd, hm'⟩)

/-- The expansion of a value ends exactly if one cannot fall back without end from any default that it takes. -/
private theorem acc_iff_behind : Acc (Below p) v ↔ ∀ m ∈ valueDefaults p v, Acc (Behind p) m := by
  constructor
  · rw [← acc_transGen_iff]
    intro h
    induction h with
    | intro v _ ih =>
      refine fun m hm => ⟨m, fun m' hm' => ?_⟩
      obtain ⟨d, hd, hmem⟩ := mem_furtherDefaults.1 hm'
      exact ih d (Relation.transGen_swap.2 (expands_default hm hd)) m' hmem
  · exact fun h => acc_of_defaults fun m hm => acc_default (h m hm)

private theorem not_acc_of_cycle {α : Type} {r : α → α → Prop} {a b : α} (hreach : ReflTransGen r a b)
    (hcycle : TransGen r b b) : ¬Acc (fun x y => r y x) a := by
  have hloop : ∀ x, Acc (TransGen fun x y => r y x) x → ¬TransGen r x x := by
    intro x hx
    induction hx with
    | intro x _ ih => exact fun h => ih x (Relation.transGen_swap.2 h) h
  intro hacc
  refine hloop b ?_ hcycle
  exact (hacc.transGen).inv (Relation.transGen_swap.2 (.trans_right hreach hcycle))

/-! ### Within the depth -/

private theorem acc_of_endsWithin (h : endsWithin p depth m = true) : Acc (Behind p) m := by
  induction depth generalizing m with
  | zero => exact absurd h Bool.false_ne_true
  | succ depth ih => exact ⟨m, fun m' hm' => ih (List.all_eq_true.1 h m' hm')⟩

private theorem exists_path (h : endsWithin p depth m = false) :
    ∃ path : List Method, path.length = depth ∧ (m :: path).IsChain (FallsBack p) := by
  induction depth generalizing m with
  | zero => exact ⟨[], rfl, .singleton m⟩
  | succ depth ih =>
    obtain ⟨m', hm', hends⟩ := List.all_eq_false.1 h
    obtain ⟨path, hlength, hchain⟩ := ih (Bool.not_eq_true _ ▸ hends)
    exact ⟨m' :: path, congrArg (· + 1) hlength, .cons_cons hm' hchain⟩

private theorem defaultDepth_eq (p : Program) :
    defaultDepth p = (p.classes.flatMap ClassModel.methods).length + 1 := by
  have hfold : ∀ (classes : List ClassModel) (start : Nat),
      classes.foldl (fun depth c => depth + c.methods.length) start =
        (classes.flatMap ClassModel.methods).length + start := by
    intro classes
    induction classes with
    | nil => intro start; simp
    | cons c rest ih =>
      intro start
      rw [List.foldl_cons, ih, List.flatMap_cons, List.length_append]
      omega
  exact hfold p.classes 1

private theorem mem_methods_of_fallsBack (h : FallsBack p m m') : m' ∈ p.classes.flatMap ClassModel.methods := by
  obtain ⟨d, -, hmem⟩ := mem_furtherDefaults.1 h
  obtain ⟨_, _, _, c, -, hc, haccessor, -⟩ := leavesOut_of_mem hmem
  exact List.mem_flatMap.2 ⟨c, (Program.mem_of_find? hc).1, List.mem_of_mem_filter haccessor⟩

/-- A default that is not at its end within the depth leads to one that comes back to itself: there are fewer methods
than that. -/
private theorem exists_cycle (h : endsWithin p (defaultDepth p) m = false) :
    ∃ m', ReflTransGen (FallsBack p) m m' ∧ TransGen (FallsBack p) m' m' := by
  obtain ⟨path, hlength, hchain⟩ := exists_path h
  by_contra hnone
  have hpairwise : (m :: path).Pairwise (TransGen (FallsBack p)) := (hchain.imp fun _ _ => .single).pairwise
  obtain ⟨hhead, htail⟩ := List.pairwise_cons.1 hpairwise
  have hnodup : path.Nodup := by
    refine htail.imp_of_mem ?_
    rintro a _ ha - hab rfl
    exact hnone ⟨a, (hhead a ha).to_reflTransGen, hab⟩
  have hmem : ∀ a ∈ path, a ∈ p.classes.flatMap ClassModel.methods := by
    intro a ha
    obtain ⟨b, -, hba⟩ := TransGen.tail'_iff.1 (hhead a ha)
    exact mem_methods_of_fallsBack hba
  have hle := (List.subperm_of_subset hnodup hmem).length_le
  rw [hlength, defaultDepth_eq] at hle
  omega

private theorem endsWithin_iff_acc : endsWithin p (defaultDepth p) m = true ↔ Acc (Behind p) m := by
  refine ⟨acc_of_endsWithin, fun hacc => ?_⟩
  by_contra h
  obtain ⟨m', hreach, hcycle⟩ := exists_cycle (Bool.not_eq_true _ ▸ h)
  exact not_acc_of_cycle hreach hcycle hacc

/-! ### Endless expansions -/

private theorem not_endless_iff_acc : ¬Endless p v ↔ Acc (Below p) v :=
  not_iff_comm.1 not_acc_iff_exists_descending_chain

/-- **An expansion goes on for ever exactly if it takes a default that comes back to itself.** -/
theorem endless_iff : Endless p v ↔ Recurs p v := by
  constructor
  · intro hendless
    by_contra hnone
    refine not_endless_iff_acc.2 (acc_iff_behind.2 fun m hm => endsWithin_iff_acc.1 ?_) hendless
    by_contra h
    obtain ⟨m', hreach, hcycle⟩ := exists_cycle (Bool.not_eq_true _ ▸ h)
    exact hnone ⟨m', ⟨m, hm, hreach⟩, hcycle⟩
  · rintro ⟨m, ⟨first, hfirst, hreach⟩, hcycle⟩
    by_contra h
    exact not_acc_of_cycle hreach hcycle (acc_iff_behind.1 (not_endless_iff_acc.1 h) first hfirst)

theorem useEnds_iff {use : AnnotationUse} : useEnds p use = true ↔ ¬Endless p (useValue use) := by
  rw [useEnds, List.all_eq_true, not_endless_iff_acc, acc_iff_behind]
  exact forall₂_congr fun m _ => endsWithin_iff_acc

/-! ### Literals that are not cut off -/

section Literals

variable {at_ : Location} {fallback fallback' : Method → LiteralM Target.Expr}

private theorem lookup_elementLiterals (elements : List (Name × AnnotationValue)) (name : Name) :
    (elementLiterals p at_ fallback elements).lookup name =
      (elements.lookup name).map (valueLiteral p at_ fallback) := by
  induction elements with
  | nil => rfl
  | cons element rest ih =>
    rw [elementLiterals, List.lookup_cons, List.lookup_cons]
    split
    · rfl
    · exact ih

private theorem itemLiterals_eq (items : List AnnotationValue) :
    itemLiterals p at_ fallback items = items.map (valueLiteral p at_ fallback) := by
  induction items with
  | nil => rfl
  | cons v items ih => rw [itemLiterals, ih, List.map_cons]

/-- Only the defaults that a value takes matter for its literal. -/
private theorem valueLiteral_congr (h : ∀ m ∈ valueDefaults p v, fallback m = fallback' m) :
    valueLiteral p at_ fallback v = valueLiteral p at_ fallback' v := by
  -- by the size of the value, since defaults come from the accessors and not from the value
  induction hsize : sizeOf v using Nat.strong_induction_on generalizing v with
  | _ n ih =>
    cases v with
    | nested type elements visible =>
      rw [valueLiteral, valueLiteral, annotationLiteral, annotationLiteral]
      cases hc : p.find? type with
      | none => rfl
      | some c =>
        have hsteps : ∀ m ∈ accessors c,
            ((elementLiterals p at_ fallback elements).lookup m.name).getD (fallback m) =
              ((elementLiterals p at_ fallback' elements).lookup m.name).getD (fallback' m) := by
          intro m hm
          rw [lookup_elementLiterals, lookup_elementLiterals]
          cases hlookup : elements.lookup m.name with
          | none => exact h m (mem_nestedDefaults.2 ⟨c, hc, .inl ⟨hm, hlookup⟩⟩)
          | some w =>
            refine ih _ (hsize ▸ sizeOf_lt_of_element hlookup) (fun m' hm' => h m' ?_) rfl
            exact mem_nestedDefaults.2 ⟨c, hc, .inr ⟨m, hm, w, hlookup, hm'⟩⟩
        dsimp only
        rw [List.map_congr_left hsteps]
    | array items =>
      rw [valueLiteral, valueLiteral, itemLiterals_eq, itemLiterals_eq]
      have hitems : ∀ w ∈ items, valueLiteral p at_ fallback w = valueLiteral p at_ fallback' w := by
        intro w hw
        refine ih _ (hsize ▸ sizeOf_lt_of_item hw) (fun m hm => h m ?_) rfl
        rw [valueDefaults]
        exact mem_itemDefaults.2 ⟨w, hw, hm⟩
      rw [List.map_congr_left hitems]
    | _ => rw [valueLiteral, valueLiteral]

private theorem defaultLiteral_succ (h : endsWithin p depth m = true) :
    defaultLiteral p at_ depth m = defaultLiteral p at_ (depth + 1) m := by
  induction depth generalizing m with
  | zero => exact absurd h Bool.false_ne_true
  | succ depth ih =>
    rw [defaultLiteral, defaultLiteral]
    cases hd : m.defaultValue with
    | none => rfl
    | some d =>
      exact valueLiteral_congr fun m' hm' => ih (List.all_eq_true.1 h m' (mem_furtherDefaults.2 ⟨d, hd, hm'⟩))

end Literals

/-! ### Registrations -/

/-- The literals of the defaults that an annotation takes are complete: each is that of the default's value, with
complete literals of the defaults that this takes in turn. -/
def WrittenOut (p : Program) (use : AnnotationUse) : Prop :=
  ∀ at_ m, Takes p (useValue use) m →
    defaultLiteral p at_ (defaultDepth p) m =
      match m.defaultValue with
      | some value => valueLiteral p at_ (defaultLiteral p at_ (defaultDepth p)) value
      | none => pure .null

private theorem writtenOut_of_not_endless {use : AnnotationUse} (h : ¬Endless p (useValue use)) : WrittenOut p use := by
  rintro at_ m ⟨first, hfirst, hreach⟩
  have hacc : Acc (Behind p) m := by
    have hstart := acc_iff_behind.1 (not_endless_iff_acc.1 h) first hfirst
    induction hreach with
    | refl => exact hstart
    | tail _ hstep ih => exact ih.inv hstep
  exact defaultLiteral_succ (endsWithin_iff_acc.2 hacc)

private theorem registrationEnds_iff {c : ClassModel} :
    registrationEnds p c = true ↔ ∀ use ∈ registeredUses c, ¬Endless p (useValue use) := by
  rw [registrationEnds, List.all_eq_true]
  exact forall₂_congr fun use _ => useEnds_iff

private theorem endless_of_accessor {c : ClassModel} (hc : c ∈ p.classes) (hm : m ∈ accessors c)
    (hcycle : TransGen (FallsBack p) m m) : Endless p (useValue ⟨c.name, [], true⟩) := by
  have htaken : m ∈ valueDefaults p (useValue ⟨c.name, [], true⟩) :=
    mem_nestedDefaults.2 ⟨c, Program.find?_name hc, .inl ⟨hm, rfl⟩⟩
  exact endless_iff.2 ⟨m, ⟨m, htaken, .refl⟩, hcycle⟩

/-- A default that is taken is that of an accessor of some class. -/
private theorem accessor_of_takes (h : Takes p v m) : ∃ c ∈ p.classes, m ∈ accessors c := by
  obtain ⟨first, hfirst, hreach⟩ := h
  obtain ⟨d, hd⟩ : ∃ d, m ∈ valueDefaults p d := by
    obtain rfl | ⟨m₀, -, hstep⟩ := (ReflTransGen.cases_tail_iff _ _ _).1 hreach
    · exact ⟨v, hfirst⟩
    · obtain ⟨d, -, hmem⟩ := mem_furtherDefaults.1 hstep
      exact ⟨d, hmem⟩
  obtain ⟨_, _, _, c, -, hc, haccessor, -⟩ := leavesOut_of_mem hd
  exact ⟨c, (Program.mem_of_find? hc).1, haccessor⟩

/-- **Where literals end.**  Every annotation whatsoever has a finite literal exactly if no accessor's default comes
back to itself.  A single one has no finite literal exactly if it takes such a default.  The registration of a class ends
exactly if every annotation that it holds has a finite literal, and a finite literal is not cut off. -/
theorem literals_end_iff (env : Env) :
    ((∀ use, ¬Endless env.program (useValue use)) ↔
      ∀ c ∈ env.program.classes, ∀ m ∈ accessors c, ¬TransGen (FallsBack env.program) m m) ∧
    (∀ use, Endless env.program (useValue use) ↔ Recurs env.program (useValue use)) ∧
    (∀ c, registrationEnds env.program c = true ↔ ∀ use ∈ registeredUses c, ¬Endless env.program (useValue use)) ∧
    ∀ use, Endless env.program (useValue use) ∨ WrittenOut env.program use := by
  refine ⟨⟨fun h c hc m hm hcycle => h _ (endless_of_accessor hc hm hcycle), fun h use hendless => ?_⟩,
    fun use => endless_iff, fun c => registrationEnds_iff, fun use => ?_⟩
  · obtain ⟨m, htakes, hcycle⟩ := endless_iff.1 hendless
    obtain ⟨c, hc, hm⟩ := accessor_of_takes htakes
    exact h c hc m hm hcycle
  · by_cases hendless : Endless env.program (useValue use)
    · exact .inl hendless
    · exact .inr (writtenOut_of_not_endless hendless)

/-- An annotation type that has itself as an annotation.  Its only element is again such an annotation, and the default
of the element leaves it out. -/
def tagText : String :=
  "\x7b\"classes\":[" ++
    "\x7b\"name\":\"Tag\",\"kind\":\"interface\",\"markers\":[\"annotation_type\"]," ++
    "\"annotations\":[\x7b\"type\":\"Tag\"\x7d]," ++
    "\"methods\":[\x7b\"id\":1,\"name\":\"next\",\"ret\":\"LTag;\"," ++
    "\"default_value\":\x7b\"annotation\":\x7b\"type\":\"Tag\"\x7d\x7d\x7d]\x7d]\x7d"

/-- The program is loaded, its annotation expands for ever, and the run has no output. -/
theorem literal_endless_tag :
    ∃ p, Program.ofText tagText = .ok p ∧ generateProgram? ⟨p, {}⟩ = none ∧
      ∃ c ∈ p.classes, ∃ use ∈ registeredUses c, Endless p (useValue use) := by
  have hcheck : ((Program.ofText tagText).toOption.any fun p =>
      (generateProgram? ⟨p, {}⟩).isNone && p.classes.any fun c => !registrationEnds p c) = true := by decide +kernel
  obtain ⟨p, hload, hcheck⟩ := Program.exists_of_any_ofText hcheck
  obtain ⟨hnone, hclass⟩ := Bool.and_eq_true_iff.1 hcheck
  obtain ⟨c, hc, hends⟩ := List.any_eq_true.1 hclass
  have hregistered := mt registrationEnds_iff.2 (by simpa using hends)
  push Not at hregistered
  exact ⟨p, hload, Option.isNone_iff_eq_none.1 hnone, c, hc, hregistered⟩

end HaxeBackend.Generation
