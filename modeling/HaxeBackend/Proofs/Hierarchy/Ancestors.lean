import HaxeBackend.Proofs.Hierarchy.Chain
import Mathlib.Tactic.Tauto

/-!
# Ancestors

The closure under interfaces returns nothing else than what is brought in (`brought_of_mem_closeInterfaces`) and
with every class its interfaces (`closeInterfaces_closed`), so the ancestors of a class are what its chain brings in
(`mem_ancestors_iff`), and those of a superclass are among them (`ancestors_subset_of_above`).
-/

namespace HaxeBackend.Program

variable {p : Program} {c d i s : ClassModel}

/-! ### Interfaces -/

/-- The second class is one of the interfaces of the first. -/
def Brings (p : Program) (c i : ClassModel) : Prop := ∃ name ∈ c.interfaces, p.find? name = some i

theorem Brings.mem (h : p.Brings c i) : i ∈ p.classes := by
  obtain ⟨name, -, hname⟩ := h
  exact (mem_of_find? hname).1

/-- The fresh interfaces among names: those that are there and not yet seen, each once. -/
theorem freshInterfaces_spec (names : List Name) {seen : List ClassModel} (hseen : ∀ c ∈ seen, c ∈ p.classes) :
    (∀ i ∈ p.freshInterfaces seen names, (∃ name ∈ names, p.find? name = some i) ∧ i ∉ seen) ∧
      (p.freshInterfaces seen names).Nodup ∧
      ∀ name ∈ names, ∀ i, p.find? name = some i → i ∈ seen ∨ i ∈ p.freshInterfaces seen names := by
  induction names generalizing seen with
  | nil => simp [freshInterfaces]
  | cons name rest ih =>
    have hlift : ∀ {i : ClassModel}, (∃ n ∈ rest, p.find? n = some i) → ∃ n ∈ name :: rest, p.find? n = some i := by
      rintro i ⟨n, hn, hfind⟩
      exact ⟨n, List.mem_cons_of_mem _ hn, hfind⟩
    cases hname : p.find? name with
    | none =>
      obtain ⟨hsound, hnodup, hcomplete⟩ := ih hseen
      rw [freshInterfaces, hname]
      refine ⟨fun i hi => ⟨hlift (hsound i hi).1, (hsound i hi).2⟩, hnodup, ?_⟩
      intro n hn i hfind
      rcases List.mem_cons.1 hn with rfl | hn
      · rw [hname] at hfind
        cases hfind
      · exact hcomplete n hn i hfind
    | some d =>
      have hd : d ∈ p.classes := (mem_of_find? hname).1
      rw [freshInterfaces, hname]
      dsimp only
      -- a class counts as seen by its name, and names are unique among the classes of the program
      by_cases hnamed : named seen d.name = true
      · rw [if_pos hnamed]
        obtain ⟨hsound, hnodup, hcomplete⟩ := ih hseen
        refine ⟨fun i hi => ⟨hlift (hsound i hi).1, (hsound i hi).2⟩, hnodup, ?_⟩
        intro n hn i hfind
        rcases List.mem_cons.1 hn with rfl | hn
        · rw [hname] at hfind
          cases hfind
          exact .inl ((named_iff hseen hd).1 hnamed)
        · exact hcomplete n hn i hfind
      · rw [if_neg hnamed]
        have hseen' : ∀ c ∈ d :: seen, c ∈ p.classes := by
          intro c hc
          rcases List.mem_cons.1 hc with rfl | hc
          · exact hd
          · exact hseen c hc
        obtain ⟨hsound, hnodup, hcomplete⟩ := ih hseen'
        refine ⟨?_, List.nodup_cons.2 ⟨fun hmem => (hsound d hmem).2 List.mem_cons_self, hnodup⟩, ?_⟩
        · intro i hi
          rcases List.mem_cons.1 hi with rfl | hi
          · exact ⟨⟨name, List.mem_cons_self, hname⟩, fun hmem => hnamed ((named_iff hseen hd).2 hmem)⟩
          · exact ⟨hlift (hsound i hi).1, fun hmem => (hsound i hi).2 (List.mem_cons_of_mem _ hmem)⟩
        · intro n hn i hfind
          rcases List.mem_cons.1 hn with rfl | hn
          · rw [hname] at hfind
            cases hfind
            exact .inr List.mem_cons_self
          · rcases hcomplete n hn i hfind with hmem | hmem
            · rcases List.mem_cons.1 hmem with rfl | hmem
              · exact .inr List.mem_cons_self
              · exact .inl hmem
            · exact .inr (List.mem_cons_of_mem _ hmem)

/-! ### The closure under interfaces -/

/-- A visit without fuel stops where it is. -/
theorem closeInterfaces_zero (done todo : List ClassModel) : p.closeInterfaces 0 done todo = done ++ todo := by
  cases todo with
  | nil => exact (List.append_nil done).symm
  | cons => rfl

theorem closeInterfaces_nil (fuel : Nat) (done : List ClassModel) : p.closeInterfaces fuel done [] = done := by
  cases fuel <;> rfl

theorem closeInterfaces_cons (fuel : Nat) (done : List ClassModel) (c : ClassModel) (todo : List ClassModel) :
    p.closeInterfaces (fuel + 1) done (c :: todo) =
      p.closeInterfaces fuel (done ++ [c]) (todo ++ p.freshInterfaces (done ++ c :: todo) c.interfaces) := rfl

/-- What stands in front of the visit and is put aside by it. -/
private structure Visiting (p : Program) (fuel : Nat) (done todo : List ClassModel) : Prop where
  mem : ∀ c ∈ done ++ todo, c ∈ p.classes
  nodup : (done ++ todo).Nodup
  /-- The interfaces of what was visited are not lost. -/
  closed : ∀ c ∈ done, ∀ i, p.Brings c i → i ∈ done ++ todo
  enough : p.classes.length ≤ fuel + done.length

private theorem Visiting.step {fuel : Nat} {done todo : List ClassModel}
    (h : Visiting p (fuel + 1) done (c :: todo)) :
    Visiting p fuel (done ++ [c]) (todo ++ p.freshInterfaces (done ++ c :: todo) c.interfaces) := by
  obtain ⟨hsound, hnodup, hcomplete⟩ := freshInterfaces_spec c.interfaces h.mem
  -- what is done and what is queued only grow together, at the end
  have happend : done ++ [c] ++ (todo ++ p.freshInterfaces (done ++ c :: todo) c.interfaces) =
      (done ++ c :: todo) ++ p.freshInterfaces (done ++ c :: todo) c.interfaces := by
    simp
  refine ⟨?_, ?_, ?_, ?_⟩
  · rw [happend]
    intro d hd
    rcases List.mem_append.1 hd with hd | hd
    · exact h.mem d hd
    · obtain ⟨⟨name, -, hname⟩, -⟩ := hsound d hd
      exact (mem_of_find? hname).1
  · rw [happend, List.nodup_append]
    refine ⟨h.nodup, hnodup, ?_⟩
    rintro a ha b hb rfl
    exact (hsound a hb).2 ha
  · rw [happend]
    intro d hd i hi
    rcases List.mem_append.1 hd with hd | hd
    · exact List.mem_append_left _ (h.closed d hd i hi)
    · rw [List.mem_singleton.1 hd] at hi
      obtain ⟨name, hname, hfind⟩ := hi
      exact List.mem_append.2 (hcomplete name hname i hfind)
  · have henough := h.enough
    rw [List.length_append, List.length_singleton]
    omega

/-- A visit with enough fuel returns everything and the interfaces of everything that it returns. -/
private theorem closeInterfaces_closed {fuel : Nat} {done todo : List ClassModel} (h : Visiting p fuel done todo) :
    (∀ c ∈ done ++ todo, c ∈ p.closeInterfaces fuel done todo) ∧
      ∀ c ∈ p.closeInterfaces fuel done todo, ∀ i, p.Brings c i → i ∈ p.closeInterfaces fuel done todo := by
  induction fuel generalizing done todo with
  | zero =>
    -- as many classes as there are have been visited, so none is left
    have hlength := (List.subperm_of_subset h.nodup h.mem).length_le
    have henough := h.enough
    rw [List.length_append] at hlength
    obtain rfl : todo = [] := List.length_eq_zero_iff.1 (by omega)
    rw [closeInterfaces_nil, List.append_nil]
    refine ⟨fun c hc => hc, fun c hc i hi => ?_⟩
    simpa using h.closed c hc i hi
  | succ fuel ih =>
    cases todo with
    | nil =>
      rw [closeInterfaces_nil, List.append_nil]
      refine ⟨fun c hc => hc, fun c hc i hi => ?_⟩
      simpa using h.closed c hc i hi
    | cons c todo =>
      rw [closeInterfaces_cons]
      obtain ⟨hmem, hclosed⟩ := ih h.step
      refine ⟨fun d hd => hmem d ?_, hclosed⟩
      simp only [List.mem_append, List.mem_cons] at hd ⊢
      tauto

private theorem nodup_closeInterfaces {fuel : Nat} {done todo : List ClassModel} (h : Visiting p fuel done todo) :
    (p.closeInterfaces fuel done todo).Nodup := by
  induction fuel generalizing done todo with
  | zero =>
    rw [closeInterfaces_zero]
    exact h.nodup
  | succ fuel ih =>
    cases todo with
    | nil => simpa [closeInterfaces_nil] using h.nodup
    | cons c todo => exact ih h.step

/-- A visit returns what was there and what that brings in. -/
private theorem brought_of_mem_closeInterfaces {fuel : Nat} {done todo : List ClassModel}
    (hmem : ∀ c ∈ done ++ todo, c ∈ p.classes) (h : d ∈ p.closeInterfaces fuel done todo) :
    d ∈ done ∨ ∃ s ∈ todo, Relation.ReflTransGen p.Brings s d := by
  induction fuel generalizing done todo with
  | zero =>
    rw [closeInterfaces_zero] at h
    rcases List.mem_append.1 h with h | h
    · exact .inl h
    · exact .inr ⟨d, h, .refl⟩
  | succ fuel ih =>
    cases todo with
    | nil => exact .inl (by rwa [closeInterfaces_nil] at h)
    | cons c todo =>
      obtain ⟨hsound, -, -⟩ := freshInterfaces_spec c.interfaces hmem
      -- the visit goes on with the class done and its interfaces at the end of the queue
      have hmem' : ∀ e ∈ done ++ [c] ++ (todo ++ p.freshInterfaces (done ++ c :: todo) c.interfaces),
          e ∈ p.classes := by
        intro e he
        by_cases hfresh : e ∈ p.freshInterfaces (done ++ c :: todo) c.interfaces
        · exact Brings.mem (hsound e hfresh).1
        · refine hmem e ?_
          simp only [List.mem_append, List.mem_cons, hfresh, List.not_mem_nil, or_false] at he ⊢
          tauto
      rw [closeInterfaces_cons] at h
      rcases ih hmem' h with hd | ⟨s, hs, hbrought⟩
      · rcases List.mem_append.1 hd with hd | hd
        · exact .inl hd
        · rw [List.mem_singleton.1 hd]
          exact .inr ⟨c, List.mem_cons_self, .refl⟩
      · rcases List.mem_append.1 hs with hs | hs
        · exact .inr ⟨s, List.mem_cons_of_mem _ hs, hbrought⟩
        · exact .inr ⟨c, List.mem_cons_self, .head (hsound s hs).1 hbrought⟩

/-! ### Ancestors -/

/-- The second class is an ancestor of the first: the class itself, one above it, or what one of these brings in. -/
def Inherits (p : Program) (c d : ClassModel) : Prop := ∃ s, p.AtOrAbove c s ∧ Relation.ReflTransGen p.Brings s d

private theorem visiting_ancestors (name : Name) :
    Visiting p p.classes.length [] (p.chainFrom p.classes.length [] (p.find? name)) :=
  ⟨fun _ hs => mem_of_mem_chainFrom hs, nodup_chainFrom name, by simp, by simp⟩

/-- The ancestors of a class are what its chain brings in, also where the hierarchy goes round in circles. -/
theorem mem_ancestors_iff {name : Name} :
    d ∈ p.ancestors name ↔ ∃ c, p.find? name = some c ∧ p.Inherits c d := by
  constructor
  · intro h
    rcases brought_of_mem_closeInterfaces (visiting_ancestors name).mem h with h | ⟨s, hs, hbrought⟩
    · cases h
    · obtain ⟨c, hc, habove⟩ := mem_chainFrom_iff.1 hs
      exact ⟨c, hc, s, habove, hbrought⟩
  · rintro ⟨c, hc, s, habove, hbrought⟩
    obtain ⟨hkept, hclosed⟩ := closeInterfaces_closed (visiting_ancestors (p := p) name)
    induction hbrought with
    | refl => exact hkept s (mem_chainFrom_iff.2 ⟨c, hc, habove⟩)
    | tail _ hbrings ih => exact hclosed _ ih _ hbrings

theorem mem_ancestors (hc : c ∈ p.classes) : d ∈ p.ancestors c.name ↔ p.Inherits c d := by
  simp [mem_ancestors_iff, find?_name hc]

theorem mem_of_mem_ancestors {name : Name} (hd : d ∈ p.ancestors name) : d ∈ p.classes := by
  rcases brought_of_mem_closeInterfaces (visiting_ancestors name).mem hd with hd | ⟨s, hs, hbrought⟩
  · cases hd
  · cases hbrought with
    | refl => exact mem_of_mem_chainFrom hs
    | tail _ hbrings => exact hbrings.mem

/-- What has been visited stays in front. -/
private theorem prefix_closeInterfaces (fuel : Nat) (done todo : List ClassModel) :
    done <+: p.closeInterfaces fuel done todo := by
  induction fuel generalizing done todo with
  | zero => simp [closeInterfaces_zero]
  | succ fuel ih =>
    cases todo with
    | nil => simp [closeInterfaces_nil]
    | cons c todo => exact (List.prefix_append done [c]).trans (ih (done ++ [c]) _)

/-- A class is the first of its ancestors. -/
theorem ancestors_eq_cons (hc : c ∈ p.classes) : ∃ above, p.ancestors c.name = c :: above := by
  obtain ⟨fuel, hfuel⟩ := Nat.exists_eq_succ_of_ne_zero (Nat.ne_of_gt (List.length_pos_of_mem hc))
  unfold ancestors
  rw [hfuel, find?_name hc]
  obtain ⟨above, habove⟩ := prefix_closeInterfaces (p := p) fuel [c]
    (p.chainFrom fuel [c] (p.superclass? c) ++
      p.freshInterfaces ([] ++ c :: p.chainFrom fuel [c] (p.superclass? c)) c.interfaces)
  exact ⟨above, habove.symm⟩

theorem nodup_ancestors (name : Name) : (p.ancestors name).Nodup := nodup_closeInterfaces (visiting_ancestors name)

theorem ancestors_of_not_mem {name : Name} (h : p.find? name = none) : p.ancestors name = [] := by
  rw [ancestors, h]
  cases p.classes.length <;> rfl

/-- The ancestors of a superclass are ancestors. -/
theorem ancestors_subset_of_above (hc : c ∈ p.classes) (hs : p.Above c s) (hd : d ∈ p.ancestors s.name) :
    d ∈ p.ancestors c.name := by
  obtain ⟨t, ht, hbrought⟩ := (mem_ancestors hs.mem).1 hd
  exact (mem_ancestors hc).2 ⟨t, hs.to_reflTransGen.trans ht, hbrought⟩

end HaxeBackend.Program
