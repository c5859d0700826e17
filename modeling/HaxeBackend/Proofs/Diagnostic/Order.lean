import HaxeBackend.Diagnostic.Queue

/-!
# The order of diagnostics

Diagnostics are compared by their locations, one without a location being the first.  Any two can be compared, so
sorting leaves diagnostics in the order of their locations, and those of one location as they stood
(`inOrder_mergeSort`).  That is only one list, and how the diagnostics of different locations stood to each other does
not matter for it (`InOrder.unique`).
-/

namespace HaxeBackend

/-! ### Locations -/

namespace Location

private theorem memberLe_total (a b : Option String) : memberLe a b = true ∨ memberLe b a = true := by
  cases a with
  | none => exact .inl rfl
  | some a =>
    cases b with
    | none => exact .inr rfl
    | some b => simpa [memberLe] using String.le_total a b

private theorem memberLe_trans {a b c : Option String} (hab : memberLe a b = true) (hbc : memberLe b c = true) :
    memberLe a c = true := by
  cases a with
  | none => rfl
  | some a =>
    cases b with
    | none => cases hab
    | some b =>
      cases c with
      | none => cases hbc
      | some c =>
        simp only [memberLe, decide_eq_true_eq] at hab hbc ⊢
        exact String.le_trans hab hbc

private theorem memberLe_antisymm {a b : Option String} (hab : memberLe a b = true) (hba : memberLe b a = true) :
    a = b := by
  cases a with
  | none =>
    cases b with
    | none => rfl
    | some b => cases hba
  | some a =>
    cases b with
    | none => cases hab
    | some b =>
      simp only [memberLe, decide_eq_true_eq] at hab hba
      rw [String.le_antisymm hab hba]

/-- By class, and in the same class by member. -/
private theorem le_iff {a b : Location} :
    a.le b = true ↔ a.className < b.className ∨ a.className = b.className ∧ memberLe a.member b.member = true := by
  simp [le]

theorem le_total (a b : Location) : a.le b = true ∨ b.le a = true := by
  rw [le_iff, le_iff]
  by_cases hlt : a.className < b.className
  · exact .inl (.inl hlt)
  · by_cases hgt : b.className < a.className
    · exact .inr (.inl hgt)
    · have heq : a.className = b.className := String.le_antisymm (String.not_lt.1 hgt) (String.not_lt.1 hlt)
      rcases memberLe_total a.member b.member with hle | hle
      · exact .inl (.inr ⟨heq, hle⟩)
      · exact .inr (.inr ⟨heq.symm, hle⟩)

theorem le_trans {a b c : Location} (hab : a.le b = true) (hbc : b.le c = true) : a.le c = true := by
  rw [le_iff] at hab hbc ⊢
  rcases hab with hab | ⟨hab, hle⟩
  · rcases hbc with hbc | ⟨hbc, -⟩
    · exact .inl (String.lt_trans hab hbc)
    · exact .inl (hbc ▸ hab)
  · rcases hbc with hbc | ⟨hbc, hle'⟩
    · exact .inl (hab ▸ hbc)
    · exact .inr ⟨hab.trans hbc, memberLe_trans hle hle'⟩

theorem le_refl (a : Location) : a.le a = true := (le_total a a).elim id id

theorem le_antisymm {a b : Location} (hab : a.le b = true) (hba : b.le a = true) : a = b := by
  rw [le_iff] at hab hba
  rcases hab with hab | ⟨hclass, hab⟩
  · rcases hba with hba | ⟨hclass, -⟩
    · exact absurd (String.lt_trans hab hba) (String.lt_irrefl _)
    · exact absurd (hclass ▸ hab) (String.lt_irrefl _)
  · rcases hba with hba | ⟨-, hba⟩
    · exact absurd (hclass ▸ hba) (String.lt_irrefl _)
    · cases a
      cases b
      obtain rfl := hclass
      obtain rfl := memberLe_antisymm hab hba
      rfl

end Location

/-! ### Diagnostics -/

namespace Diagnostic

theorem locationLe_total (a b : Diagnostic) : (locationLe a b || locationLe b a) = true := by
  rw [Bool.or_eq_true]
  unfold locationLe
  cases a.location with
  | none => exact .inl rfl
  | some l =>
    cases b.location with
    | none => exact .inr rfl
    | some l' => exact Location.le_total l l'

theorem locationLe_trans (a b c : Diagnostic) (hab : locationLe a b = true) (hbc : locationLe b c = true) :
    locationLe a c = true := by
  unfold locationLe at *
  cases ha : a.location with
  | none => rfl
  | some l =>
    cases hb : b.location with
    | none => simp [ha, hb] at hab
    | some l' =>
      cases hc : c.location with
      | none => simp [hb, hc] at hbc
      | some l'' =>
        simp only [ha, hb, hc] at hab hbc ⊢
        exact Location.le_trans hab hbc

theorem locationLe_of_eq {a b : Diagnostic} (h : a.location = b.location) : locationLe a b = true := by
  unfold locationLe
  rw [h]
  cases b.location with
  | none => rfl
  | some l => exact Location.le_refl l

theorem locationLe_antisymm {a b : Diagnostic} (hab : locationLe a b = true) (hba : locationLe b a = true) :
    a.location = b.location := by
  unfold locationLe at hab hba
  cases ha : a.location with
  | none =>
    cases hb : b.location with
    | none => rfl
    | some l' => simp [ha, hb] at hba
  | some l =>
    cases hb : b.location with
    | none => simp [ha, hb] at hab
    | some l' =>
      simp only [ha, hb] at hab hba
      rw [Location.le_antisymm hab hba]

/-- The second list has the diagnostics of the first in the order of their locations, and those of one location as they
stand in the first. -/
structure InOrder (held given : List Diagnostic) : Prop where
  perm : given.Perm held
  sorted : given.Pairwise fun a b => locationLe a b = true
  stable : ∀ location, given.filter (fun d => d.location == location) = held.filter fun d => d.location == location

theorem inOrder_mergeSort (held : List Diagnostic) : InOrder held (held.mergeSort locationLe) := by
  have hperm := List.mergeSort_perm held locationLe
  refine ⟨hperm, List.pairwise_mergeSort locationLe_trans locationLe_total held, fun location => ?_⟩
  -- the diagnostics of one location are a sorted part of the list, which sorting does not tear apart
  have hsame : (held.filter fun d => d.location == location).Pairwise fun a b => locationLe a b = true := by
    refine List.pairwise_of_forall_mem_list fun a ha b hb => locationLe_of_eq ?_
    rw [eq_of_beq (List.mem_filter.1 ha).2, eq_of_beq (List.mem_filter.1 hb).2]
  have hsublist := List.sublist_mergeSort locationLe_trans locationLe_total hsame List.filter_sublist
  have hkept := hsublist.filter fun d => d.location == location
  rw [List.filter_filter] at hkept
  simp only [Bool.and_self] at hkept
  exact (hkept.eq_of_length (hperm.filter _).length_eq.symm).symm

/-- A list in the order of locations is known from its diagnostics of each location. -/
private theorem eq_of_sorted {given given' : List Diagnostic} (h : given.Pairwise fun a b => locationLe a b = true)
    (h' : given'.Pairwise fun a b => locationLe a b = true)
    (hsame : ∀ location, given.filter (fun d => d.location == location) =
      given'.filter fun d => d.location == location) : given = given' := by
  induction given generalizing given' with
  | nil =>
    cases given' with
    | nil => rfl
    | cons b given' => simpa using hsame b.location
  | cons a given ih =>
    cases given' with
    | nil => simpa using hsame a.location
    | cons b given' =>
      have hmem : ∀ d, d ∈ a :: given ↔ d ∈ b :: given' := by
        intro d
        have hd := congrArg (d ∈ ·) (hsame d.location)
        simpa only [List.mem_filter, beq_self_eq_true, and_true, eq_iff_iff] using hd
      obtain ⟨hfirst, hrest⟩ := List.pairwise_cons.1 h
      obtain ⟨hfirst', hrest'⟩ := List.pairwise_cons.1 h'
      -- each head is the first of its list, so they are of one location, whose first diagnostic they are
      have hab : locationLe a b = true := by
        rcases List.mem_cons.1 ((hmem b).2 List.mem_cons_self) with rfl | hb
        · exact locationLe_of_eq rfl
        · exact hfirst b hb
      have hba : locationLe b a = true := by
        rcases List.mem_cons.1 ((hmem a).1 List.mem_cons_self) with rfl | ha
        · exact locationLe_of_eq rfl
        · exact hfirst' a ha
      have hlocation := locationLe_antisymm hab hba
      have hhead := hsame b.location
      rw [List.filter_cons_of_pos (by simp [hlocation]), List.filter_cons_of_pos (by simp)] at hhead
      obtain ⟨rfl, -⟩ := List.cons.inj hhead
      refine congrArg (a :: ·) (ih hrest hrest' fun location => ?_)
      have htail := hsame location
      rw [List.filter_cons, List.filter_cons] at htail
      split at htail
      · exact (List.cons.inj htail).2
      · exact htail

/-- What is given out depends only on the diagnostics of each location, in their order. -/
theorem InOrder.unique {held held' given given' : List Diagnostic} (h : InOrder held given) (h' : InOrder held' given')
    (hsame : ∀ location, held.filter (fun d => d.location == location) =
      held'.filter fun d => d.location == location) : given = given' := by
  refine eq_of_sorted h.sorted h'.sorted fun location => ?_
  rw [h.stable, h'.stable, hsame]

end Diagnostic

end HaxeBackend
