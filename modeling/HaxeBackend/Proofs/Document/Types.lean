import HaxeBackend.Proofs.Document.Descriptors
import HaxeBackend.Proofs.Document.Reading
import HaxeBackend.Proofs.Naming.Methods

/-!
# Types of loaded programs

A type that is read from a descriptor is canonical: no array has arrays for its elements, and no class name has a `;`
or a `/`.  So are the types of every method of a program that was loaded from a document (`canonical_of_ofText`).
-/

namespace HaxeBackend

/-! ### Descriptors -/

theorem Ty.IsReadable.isCanonical {t : Ty} (h : t.IsReadable) : t.isCanonical = true := by
  induction t with
  | void | prim => rfl
  | ref name => simp [Ty.isCanonical, h.1, h.2]
  | array element dims ih =>
    obtain ⟨hpos, -, hflat, -, helement⟩ := h
    simp [Ty.isCanonical, hpos, hflat, ih helement]

theorem Ty.canonical_of_ofDescriptor {text : String} {t : Ty} (h : Ty.ofDescriptor text = .ok t) :
    t.isCanonical = true :=
  (Ty.denotes_of_ofDescriptor h).readable.isCanonical

/-! ### Methods -/

namespace Reading

variable {j : Json}

theorem canonical_of_reads_type {t : Ty} (h : Reads (type j) t) : t.isCanonical = true := by
  unfold type at h
  split at h
  · cases h
  · exact Ty.canonical_of_ofDescriptor (Option.some.inj h)

private theorem canonical_of_reads_param {p : Param} (h : Reads (param j) p) : p.type.isCanonical = true := by
  obtain ⟨members, -, h⟩ := reads_withMembers.1 h
  obtain ⟨g, t, hname, ht, rfl⟩ := reads_seq.1 h
  obtain ⟨name, -, rfl⟩ := reads_map.1 hname
  obtain ⟨j, -, hj⟩ := reads_required.1 ht
  exact canonical_of_reads_type hj

theorem canonical_of_reads_method {m : Method} (h : Reads (method j) m) : m.type.isCanonical = true := by
  obtain ⟨members, -, h⟩ := reads_withMembers.1 h
  simp only [reads_seq, reads_map] at h
  obtain ⟨_, _, ⟨_, _, ⟨_, _, ⟨_, _, ⟨_, _, ⟨_, ret, ⟨_, params, ⟨_, _, ⟨_, -, rfl⟩, -, rfl⟩, hparams, rfl⟩, hret, rfl⟩,
    -, rfl⟩, -, rfl⟩, -, rfl⟩, -, rfl⟩, -, rfl⟩ := h
  have hcanonical : ∀ p ∈ params, p.type.isCanonical = true := by
    intro p hp
    obtain ⟨j, hj⟩ := exists_of_map_eq (map_of_reads_optional_items hparams) p hp
    exact canonical_of_reads_param hj
  obtain ⟨j, -, hj⟩ := reads_required.1 hret
  simp only [Method.type, MethodTy.isCanonical, List.all_map, Bool.and_eq_true, List.all_eq_true]
  exact ⟨hcanonical, canonical_of_reads_type hj⟩

private theorem canonical_of_reads_classModel {c : ClassModel} (h : Reads (classModel j) c) :
    ∀ m ∈ c.methods, m.type.isCanonical = true := by
  intro m hm
  obtain ⟨j, hj⟩ := exists_of_map_eq (methods_of_reads_classModel h) m hm
  exact canonical_of_reads_method hj

end Reading

/-! ### Programs -/

namespace Program

/-- The methods of a loaded program have canonical types. -/
theorem canonical_of_ofText {text : String} {p : Program} (h : ofText text = .ok p) {c : ClassModel}
    (hc : c ∈ p.classes) {m : Method} (hm : m ∈ c.methods) : m.type.isCanonical = true := by
  obtain ⟨_, -, hclasses⟩ := classes_of_ofText h
  obtain ⟨j, hj⟩ := Reading.exists_of_map_eq hclasses c hc
  exact Reading.canonical_of_reads_classModel hj m hm

end Program

end HaxeBackend
