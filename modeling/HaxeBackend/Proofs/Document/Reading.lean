import HaxeBackend.Model.Document.Program

/-!
# Readings that succeed

What a reading that succeeds says of the document (`Reads`), and what holds of everything that it can succeed with
(`Gives`).  A list is read item by item, so its items and their results stand side by side (`reads_each`), and a loaded
program has the classes of its document in their order (`classes_of_ofText`).
-/

namespace HaxeBackend

/-- The items of a list that may be left out. -/
def Members.itemsAt (members : Members) (key : String) : List Json := ((members.lookup key).bind Json.items?).getD []

/-- The items of a list in a record. -/
def Json.itemsAt (known : List String) (key : String) (j : Json) : List Json :=
  ((j.onlyMembers? known).map fun members => members.itemsAt key).getD []

namespace Reading

variable {α β : Type} {j : Json} {members : Members} {key : String}

/-- The reading succeeds with this result. -/
def Reads (r : Reading α) (a : α) : Prop := @Eq (Option (Except ModelError α)) r (some (.ok a))

theorem reads_pure {a b : α} : Reads (pure a) b ↔ a = b := by
  constructor
  · intro h
    cases h
    rfl
  · rintro rfl
    rfl

theorem reads_map {g : α → β} {x : Reading α} {b : β} : Reads (g <$> x) b ↔ ∃ a, Reads x a ∧ g a = b := by
  constructor
  · intro h
    rcases x with _ | _ | a
    · cases h
    · cases h
    · cases h
      exact ⟨a, rfl, rfl⟩
  · rintro ⟨a, rfl, rfl⟩
    rfl

theorem reads_both {f : Reading (α → β)} {x : Reading α} {b : β} :
    Reads (both f x) b ↔ ∃ g a, Reads f g ∧ Reads x a ∧ g a = b := by
  constructor
  · intro h
    rcases f with _ | _ | g
    · cases h
    · rcases x with _ | x <;> cases h
    · rcases x with _ | _ | a
      · cases h
      · cases h
      · cases h
        exact ⟨g, a, rfl, rfl, rfl⟩
  · rintro ⟨g, a, rfl, rfl, rfl⟩
    rfl

theorem reads_seq {f : Reading (α → β)} {x : Reading α} {b : β} :
    Reads (f <*> x) b ↔ ∃ g a, Reads f g ∧ Reads x a ∧ g a = b := reads_both

theorem reads_withMembers {given : Option Members} {read : Members → Reading β} {b : β} :
    Reads (withMembers given read) b ↔ ∃ members, given = some members ∧ Reads (read members) b := by
  cases given with
  | none => exact iff_of_false (fun h => nomatch h) fun ⟨_, h, _⟩ => nomatch h
  | some members =>
    constructor
    · intro h
      exact ⟨members, rfl, h⟩
    · rintro ⟨_, heq, h⟩
      rwa [Option.some_inj.1 heq]

theorem reads_required {read : Json → Reading α} {a : α} :
    Reads (required members key read) a ↔ ∃ j, members.lookup key = some j ∧ Reads (read j) a := by
  unfold required
  split
  · rename_i hnone
    rw [hnone]
    exact iff_of_false (fun h => nomatch h) fun ⟨_, h, _⟩ => nomatch h
  · rename_i j hj
    rw [hj]
    constructor
    · intro h
      exact ⟨j, rfl, h⟩
    · rintro ⟨_, heq, h⟩
      rwa [Option.some_inj.1 heq]

/-! ### What readings give -/

/-- Whatever the reading succeeds with has the property. -/
def Gives (r : Reading α) (P : α → Prop) : Prop := ∀ a, Reads r a → P a

@[simp] theorem gives_pure {a : α} {P : α → Prop} : Gives (pure a) P ↔ P a := by
  simp only [Gives, reads_pure, forall_eq']

@[simp] theorem gives_map {f : α → β} {x : Reading α} {P : β → Prop} :
    Gives (f <$> x) P ↔ Gives x fun a => P (f a) := by
  simp only [Gives, reads_map]
  constructor
  · exact fun h a ha => h _ ⟨a, ha, rfl⟩
  · rintro h _ ⟨a, ha, rfl⟩
    exact h a ha

@[simp] theorem gives_seq {f : Reading (α → β)} {x : Reading α} {P : β → Prop} :
    Gives (f <*> x) P ↔ Gives f fun g => Gives x fun a => P (g a) := by
  simp only [Gives, reads_seq]
  constructor
  · exact fun h g hg a ha => h _ ⟨g, a, hg, ha, rfl⟩
  · rintro h _ ⟨g, a, hg, ha, rfl⟩
    exact h g hg a ha

@[simp] theorem gives_malformed {P : α → Prop} : Gives malformed P := fun _ h => nomatch h

theorem gives_of_forall {r : Reading α} {P : α → Prop} (h : ∀ a, P a) : Gives r P := fun a _ => h a

@[simp] theorem gives_true {r : Reading α} : Gives r fun _ => True := gives_of_forall fun _ => trivial

theorem Gives.imp {r : Reading α} {P Q : α → Prop} (h : Gives r P) (himp : ∀ a, P a → Q a) : Gives r Q :=
  fun a ha => himp a (h a ha)

/-! ### Lists -/

/-- A list is read when every item is. -/
theorem reads_each {read : Json → Reading α} {items : List Json} {as : List α} :
    Reads (each read items) as ↔ items.map read = as.map pure := by
  induction items generalizing as with
  | nil =>
    rw [each, reads_pure, List.map_nil, eq_comm, eq_comm (a := []), List.map_eq_nil_iff]
  | cons j items ih =>
    rw [each, reads_both]
    constructor
    · rintro ⟨g, rest, hg, hrest, rfl⟩
      obtain ⟨first, hfirst, rfl⟩ := reads_map.1 hg
      rw [List.map_cons, List.map_cons, ih.1 hrest]
      exact congrArg (· :: _) hfirst
    · intro h
      cases as with
      | nil => cases h
      | cons first rest =>
        obtain ⟨hfirst, hrest⟩ := List.cons.inj h
        exact ⟨(first :: ·), rest, reads_map.2 ⟨first, hfirst, rfl⟩, ih.2 hrest, rfl⟩

/-- Every result has an item that is read as it. -/
theorem exists_of_map_eq {read : Json → Reading α} {items : List Json} {as : List α}
    (h : items.map read = as.map pure) : ∀ a ∈ as, ∃ j, Reads (read j) a := by
  intro a ha
  have hmem : pure a ∈ items.map read := h ▸ List.mem_map_of_mem ha
  obtain ⟨j, -, hj⟩ := List.mem_map.1 hmem
  exact ⟨j, hj⟩

/-- What every result of its item has, the results in order have. -/
theorem map_of_gives {read : Json → Reading α} {f : Json → β} {g : α → β} {items : List Json} {as : List α}
    (hread : ∀ j, Gives (read j) fun a => f j = g a) (h : items.map read = as.map pure) : items.map f = as.map g := by
  induction items generalizing as with
  | nil =>
    obtain rfl := List.map_eq_nil_iff.1 h.symm
    rfl
  | cons j items ih =>
    cases as with
    | nil => cases h
    | cons a as =>
      obtain ⟨hfirst, hrest⟩ := List.cons.inj h
      rw [List.map_cons, List.map_cons, ih hrest, hread j a hfirst]

theorem map_of_reads_items {read : Json → Reading α} {as : List α} (h : Reads (items read j) as) :
    (j.items?.getD []).map read = as.map pure := by
  cases j with
  | array items => exact reads_each.1 h
  | _ => cases h

theorem map_of_reads_required_items {read : Json → Reading α} {as : List α}
    (h : Reads (required members key (items read)) as) : (members.itemsAt key).map read = as.map pure := by
  obtain ⟨j, hj, h⟩ := reads_required.1 h
  rw [Members.itemsAt, hj]
  exact map_of_reads_items h

theorem map_of_reads_optional_items {read : Json → Reading α} {as : List α}
    (h : Reads (optional members key [] (items read)) as) : (members.itemsAt key).map read = as.map pure := by
  unfold optional at h
  split at h
  · rename_i hnone
    obtain rfl := reads_pure.1 h
    rw [Members.itemsAt, hnone]
    rfl
  · rename_i j hj
    rw [Members.itemsAt, hj]
    exact map_of_reads_items h

theorem itemsAt_of_onlyMembers? {known : List String} (h : j.onlyMembers? known = some members) :
    j.itemsAt known key = members.itemsAt key := by
  rw [Json.itemsAt, h]
  rfl

/-- A class has the methods of its document. -/
theorem methods_of_reads_classModel {c : ClassModel} (h : Reads (classModel j) c) :
    (j.itemsAt classKeys "methods").map method = c.methods.map pure := by
  obtain ⟨members, hmembers, h⟩ := reads_withMembers.1 h
  obtain ⟨g, methods, hg, hmethods, rfl⟩ := reads_seq.1 h
  have hbuild : (g methods).methods = methods :=
    (show Gives _ fun g : List Method → ClassModel => (g methods).methods = methods by simp) g hg
  rw [hbuild, itemsAt_of_onlyMembers? hmembers]
  exact map_of_reads_optional_items hmethods

end Reading

/-! ### Programs -/

private theorem map_of_mapM {α β : Type} {f : α → Option β} {as : List α} {bs : List β} (h : as.mapM f = some bs) :
    as.map f = bs.map some := by
  induction as generalizing bs with
  | nil =>
    obtain rfl := Option.some.inj h
    rfl
  | cons a as ih =>
    simp only [List.mapM_cons, Option.bind_eq_bind, Option.bind_eq_some_iff, Option.pure_def, Option.some.injEq] at h
    obtain ⟨first, hfirst, rest, hrest, rfl⟩ := h
    rw [List.map_cons, hfirst, ih hrest, List.map_cons]

namespace Program

/-- What a check finds of the program that was loaded. -/
theorem exists_of_any_ofText {text : String} {check : Program → Bool}
    (h : (ofText text).toOption.any check = true) : ∃ p, ofText text = .ok p ∧ check p = true := by
  obtain ⟨p, hp, hcheck⟩ := (Option.any_eq_true _ _).1 h
  refine ⟨p, ?_, hcheck⟩
  cases hload : ofText text with
  | error e =>
    rw [hload] at hp
    cases hp
  | ok q =>
    rw [hload] at hp
    rw [Option.some.inj hp]

/-- Classes are added one behind the other. -/
private theorem classes_of_addAll {results : List (Except ModelError ClassModel)} {p q : Program}
    (h : p.addAll results = .ok q) : ∃ classes, results = classes.map .ok ∧ q.classes = p.classes ++ classes := by
  induction results generalizing p with
  | nil =>
    cases h
    exact ⟨[], rfl, (List.append_nil _).symm⟩
  | cons first results ih =>
    rcases first with _ | c
    · cases h
    · unfold addAll at h
      split at h
      · cases h
      · obtain ⟨classes, rfl, heq⟩ := ih h
        exact ⟨c :: classes, rfl, heq.trans (List.append_assoc _ _ _)⟩

/-- A loaded program has the classes of its document. -/
theorem classes_of_ofText {text : String} {p : Program} (h : ofText text = .ok p) :
    ∃ j, Json.parse? text = some j ∧
      (j.itemsAt ["classes"] "classes").map Reading.classModel = p.classes.map pure := by
  unfold ofText at h
  split at h
  · cases h
  · rename_i j hj
    refine ⟨j, hj, ?_⟩
    unfold ofDocument at h
    split at h
    · cases h
    · rename_i results hresults
      obtain ⟨classes, rfl, hclasses⟩ := classes_of_addAll h
      unfold Reading.classes at hresults
      simp only [Option.bind_eq_bind, Option.bind_eq_some_iff] at hresults
      obtain ⟨members, hmembers, items, hitems, hresults⟩ := hresults
      obtain ⟨j', hlookup, hitems⟩ := hitems
      rw [Reading.itemsAt_of_onlyMembers? hmembers, Members.itemsAt, hlookup, Option.bind_some, hitems,
        Option.getD_some]
      refine (map_of_mapM hresults).trans ?_
      rw [List.map_map, hclasses]
      rfl

end Program

end HaxeBackend
