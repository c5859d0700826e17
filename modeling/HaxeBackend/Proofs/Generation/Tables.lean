import HaxeBackend.Generation.Basic
import HaxeBackend.Proofs.Model.Interner

/-!
# Names with numbers

Classes, annotations and their elements have numbers for names, and a text is looked up by its number.  What has a name
without a number is then never found, so a look-up finds what one by text finds in what the table shows of a program
(`Interner.through`).  A table that has a number for every such name shows all of it (`through_eq`).
-/

namespace HaxeBackend

namespace Interner

mutual

def throughValue (t : Interner) : AnnotationValue → AnnotationValue
  | .nested type elements visible => .nested type (throughElements t elements) visible
  | .array items => .array (throughItems t items)
  | value => value

def throughElements (t : Interner) : List (Name × AnnotationValue) → List (Name × AnnotationValue)
  | [] => []
  | (key, value) :: rest =>
    if t.shows key then (key, throughValue t value) :: throughElements t rest else throughElements t rest

def throughItems (t : Interner) : List AnnotationValue → List AnnotationValue
  | [] => []
  | value :: rest => throughValue t value :: throughItems t rest

end

def throughUse (t : Interner) (use : AnnotationUse) : AnnotationUse :=
  { use with elements := t.throughElements use.elements }

def throughUses (t : Interner) (uses : List AnnotationUse) : List AnnotationUse :=
  (uses.filter fun use => t.shows use.type).map t.throughUse

/-- What the table shows of a class. -/
def throughClass (t : Interner) (c : ClassModel) : ClassModel :=
  { c with
    annotations := t.throughUses c.annotations
    fields := c.fields.map fun f => { f with annotations := t.throughUses f.annotations }
    methods := c.methods.map fun m => { m with annotations := t.throughUses m.annotations } }

/-- What the table shows of a program. -/
def through (t : Interner) (p : Program) : Program where
  classes := (p.classes.filter fun c => t.shows c.name).map t.throughClass
  distinct := by
    rw [List.map_map, show ClassModel.name ∘ t.throughClass = ClassModel.name from rfl]
    exact p.distinct.sublist (List.filter_sublist.map _)

end Interner

/-! ### Names that are looked up -/

namespace AnnotationValue

mutual

/-- The names of elements, with those inside the values. -/
def keys : AnnotationValue → List Name
  | .nested _ elements _ => elementKeys elements
  | .array items => itemKeys items
  | _ => []

def elementKeys : List (Name × AnnotationValue) → List Name
  | [] => []
  | (key, value) :: rest => key :: (value.keys ++ elementKeys rest)

def itemKeys : List AnnotationValue → List Name
  | [] => []
  | value :: rest => value.keys ++ itemKeys rest

end

end AnnotationValue

def AnnotationUse.keys (use : AnnotationUse) : List Name := use.type :: AnnotationValue.elementKeys use.elements

/-- The names by which the class, its annotations and their elements are looked up. -/
def ClassModel.keys (c : ClassModel) : List Name :=
  c.name :: (c.annotations ++ c.fields.flatMap Field.annotations ++ c.methods.flatMap Method.annotations).flatMap
    AnnotationUse.keys

def Program.keys (p : Program) : List Name := p.classes.flatMap ClassModel.keys

namespace Interner

variable {t : Interner}

mutual

private theorem throughValue_eq : (value : AnnotationValue) → t.Holds value.keys → t.throughValue value = value
  | .nested type elements visible, h => by
    rw [throughValue, throughElements_eq elements h]
  | .array items, h => by
    rw [throughValue, throughItems_eq items h]
  | .bool _, _ | .byte _, _ | .short _, _ | .char _, _ | .int _, _ | .long _, _ | .float _, _ | .double _, _
  | .string _, _ | .enum .., _ | .classRef _, _ => rfl

private theorem throughElements_eq :
    (elements : List (Name × AnnotationValue)) → t.Holds (AnnotationValue.elementKeys elements) →
      t.throughElements elements = elements
  | [], _ => rfl
  | (key, value) :: rest, h => by
    obtain ⟨hkey, hmore⟩ := List.forall_mem_cons.1 h
    obtain ⟨hvalue, hrest⟩ := List.forall_mem_append.1 hmore
    rw [throughElements, if_pos hkey, throughValue_eq value hvalue, throughElements_eq rest hrest]

private theorem throughItems_eq :
    (items : List AnnotationValue) → t.Holds (AnnotationValue.itemKeys items) → t.throughItems items = items
  | [], _ => rfl
  | value :: rest, h => by
    obtain ⟨hvalue, hrest⟩ := List.forall_mem_append.1 h
    rw [throughItems, throughValue_eq value hvalue, throughItems_eq rest hrest]

end

private theorem throughUses_eq {uses : List AnnotationUse} (h : t.Holds (uses.flatMap AnnotationUse.keys)) :
    t.throughUses uses = uses := by
  induction uses with
  | nil => rfl
  | cons use rest ih =>
    obtain ⟨huse, hrest⟩ := List.forall_mem_append.1 h
    obtain ⟨htype, helements⟩ := List.forall_mem_cons.1 huse
    have hself : t.throughUse use = use := by rw [throughUse, throughElements_eq _ helements]
    rw [throughUses, List.filter_cons, if_pos htype, List.map_cons, hself]
    exact congrArg (use :: ·) (ih hrest)

/-- A part of a class whose annotations' names have numbers is shown as it is. -/
private theorem map_throughUses_eq {α : Type} {uses : α → List AnnotationUse} (set : α → List AnnotationUse → α)
    (hset : ∀ x, set x (uses x) = x) {l : List α} (h : t.Holds ((l.flatMap uses).flatMap AnnotationUse.keys)) :
    (l.map fun x => set x (t.throughUses (uses x))) = l := by
  rw [List.flatMap_assoc] at h
  refine (List.map_congr_left fun x hx => ?_).trans (List.map_id l)
  rw [throughUses_eq (h.of_flatMap hx), hset, id]

/-- A table that has a number for every name that is looked up shows all of the class. -/
theorem throughClass_eq {c : ClassModel} (h : t.Holds c.keys) : t.throughClass c = c := by
  obtain ⟨-, huses⟩ := List.forall_mem_cons.1 h
  rw [List.flatMap_append, List.flatMap_append] at huses
  obtain ⟨hmore, hmethods⟩ := List.forall_mem_append.1 huses
  obtain ⟨hclass, hfields⟩ := List.forall_mem_append.1 hmore
  rw [throughClass, throughUses_eq hclass,
    map_throughUses_eq (fun (f : Field) uses => { f with annotations := uses }) (fun _ => rfl) hfields,
    map_throughUses_eq (fun (m : Method) uses => { m with annotations := uses }) (fun _ => rfl) hmethods]

theorem through_eq {p : Program} (h : t.Holds p.keys) : t.through p = p := by
  have hkeys : ∀ c ∈ p.classes, t.Holds c.keys := fun c hc => h.of_flatMap hc
  have hshown : (p.classes.filter fun c => t.shows c.name) = p.classes :=
    List.filter_eq_self.2 fun c hc => (hkeys c hc) c.name List.mem_cons_self
  have hmap : p.classes.map t.throughClass = p.classes :=
    (List.map_congr_left fun c hc => throughClass_eq (hkeys c hc)).trans (List.map_id _)
  have hclasses : (t.through p).classes = p.classes := by
    show (p.classes.filter fun c => t.shows c.name).map t.throughClass = p.classes
    rw [hshown, hmap]
  obtain ⟨classes, distinct⟩ := p
  cases h' : t.through ⟨classes, distinct⟩
  rw [h'] at hclasses
  subst hclasses
  rfl

end Interner

end HaxeBackend
