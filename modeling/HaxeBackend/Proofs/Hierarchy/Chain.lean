import HaxeBackend.Model.Program
import Mathlib.Data.List.Nodup
import Mathlib.Data.List.Pairwise
import Mathlib.Data.List.Perm.Subperm
import Mathlib.Logic.Relation
import Mathlib.Tactic.Tauto

/-!
# Superclass chains

Strict superclasses as a relation.  Where no class is above itself, the walk over the superclasses is never cut off
(`superclasses_eq`) and meets exactly the classes above (`mem_superclasses`).  The walk that the ancestors start with
ends at the first class that repeats, so it meets the class and those above it in any program (`mem_chainFrom_iff`).
-/

namespace HaxeBackend.Program

variable {p : Program} {c s : ClassModel}

/-! ### Classes by name -/

theorem mem_of_find? {name : Name} (h : p.find? name = some c) : c ∈ p.classes ∧ c.name = name :=
  ⟨List.mem_of_find?_eq_some h, by simpa using List.find?_some h⟩

/-- Names are distinct. -/
theorem eq_of_name_eq (hc : c ∈ p.classes) (hs : s ∈ p.classes) (h : c.name = s.name) : c = s :=
  List.inj_on_of_nodup_map p.distinct hc hs h

theorem find?_name (hc : c ∈ p.classes) : p.find? c.name = some c := by
  cases h : p.find? c.name with
  | none =>
    rw [find?, List.find?_eq_none] at h
    exact absurd (beq_self_eq_true c.name) (h c hc)
  | some d =>
    obtain ⟨hd, hname⟩ := mem_of_find? h
    rw [eq_of_name_eq hd hc hname]

theorem mem_of_superclass? (h : p.superclass? c = some s) : s ∈ p.classes := by
  unfold superclass? at h
  obtain ⟨name, -, hname⟩ := Option.bind_eq_some_iff.1 h
  exact (mem_of_find? hname).1

/-! ### Classes above -/

/-- The second class is a strict superclass of the first. -/
def Above (p : Program) : ClassModel → ClassModel → Prop := Relation.TransGen fun c s => p.superclass? c = some s

/-- No class is above itself. -/
def Acyclic (p : Program) : Prop := ∀ c, ¬p.Above c c

theorem Above.mem (h : p.Above c s) : s ∈ p.classes := by
  cases h with
  | single h => exact mem_of_superclass? h
  | tail _ h => exact mem_of_superclass? h

/-- No class is above itself where a rank goes down with every step. -/
theorem acyclic_of_rank (rank : Name → Nat)
    (h : ∀ c ∈ p.classes, ∀ s ∈ p.classes, c.superclass = some s.name → rank s.name < rank c.name) : p.Acyclic := by
  have hstep : ∀ {c s : ClassModel}, c ∈ p.classes → p.superclass? c = some s → rank s.name < rank c.name := by
    intro c s hc hs
    obtain ⟨name, hname, hfind⟩ := Option.bind_eq_some_iff.1 hs
    obtain ⟨hmem, rfl⟩ := mem_of_find? hfind
    exact h c hc s hmem hname
  intro c hcycle
  have hc : c ∈ p.classes := hcycle.mem
  have hdown : ∀ s, p.Above c s → rank s.name < rank c.name := by
    intro s hs
    induction hs with
    | single hs => exact hstep hc hs
    | tail habove hs ih => exact Nat.lt_trans (hstep (Above.mem habove) hs) ih
  exact Nat.lt_irrefl _ (hdown c hcycle)

/-- What a walk meets is above where it starts, and everything is above what was met before. -/
private theorem above_of_mem_go (n : Nat) (c : ClassModel) :
    (∀ s ∈ superclasses.go p n (p.superclass? c), p.Above c s) ∧
      (superclasses.go p n (p.superclass? c)).Pairwise p.Above := by
  induction n generalizing c with
  | zero => simp [superclasses.go]
  | succ n ih =>
    cases hsuper : p.superclass? c with
    | none => simp [superclasses.go]
    | some d =>
      obtain ⟨habove, hpairwise⟩ := ih d
      rw [superclasses.go]
      refine ⟨?_, List.pairwise_cons.2 ⟨habove, hpairwise⟩⟩
      intro s hs
      rcases List.mem_cons.1 hs with rfl | hs
      · exact .single hsuper
      · exact .head hsuper (habove s hs)

private theorem nodup_of_pairwise_above (hacyclic : p.Acyclic) {l : List ClassModel} (h : l.Pairwise p.Above) :
    l.Nodup := by
  refine h.imp ?_
  rintro a b hab rfl
  exact hacyclic a hab

/-- A walk that is not cut off does not get longer. -/
private theorem go_eq_of_length_le (n : Nat) (o : Option ClassModel) (h : (superclasses.go p (n + 1) o).length ≤ n) :
    superclasses.go p n o = superclasses.go p (n + 1) o := by
  induction n generalizing o with
  | zero =>
    rw [List.length_eq_zero_iff.1 (Nat.le_zero.1 h)]
    rfl
  | succ n ih =>
    cases o with
    | none => rfl
    | some c =>
      rw [superclasses.go, List.length_cons] at h
      rw [superclasses.go, superclasses.go, ih _ (by omega)]

/-- As many classes as the program has are enough for the walk from any of them. -/
private theorem go_some (hacyclic : p.Acyclic) (hs : s ∈ p.classes) :
    superclasses.go p p.classes.length (some s) = s :: p.superclasses s := by
  obtain ⟨habove, hpairwise⟩ := above_of_mem_go (p := p) p.classes.length s
  have hnodup := nodup_of_pairwise_above hacyclic (List.pairwise_cons.2 ⟨habove, hpairwise⟩)
  have hmem : ∀ d ∈ s :: superclasses.go p p.classes.length (p.superclass? s), d ∈ p.classes := by
    intro d hd
    rcases List.mem_cons.1 hd with rfl | hd
    · exact hs
    · exact (habove d hd).mem
  have hlength := (List.subperm_of_subset hnodup hmem).length_le
  -- the class and what the walk meets are different classes of the program, so the last step of the walk is free
  obtain ⟨n, hn⟩ : ∃ n, p.classes.length = n + 1 := by
    rw [List.length_cons] at hlength
    exact ⟨p.classes.length - 1, by omega⟩
  show _ = s :: superclasses.go p p.classes.length (p.superclass? s)
  rw [hn] at hlength ⊢
  rw [superclasses.go, go_eq_of_length_le n _ (by simpa using hlength)]

/-- The superclasses are the next one and those above it. -/
theorem superclasses_eq (hacyclic : p.Acyclic) (c : ClassModel) :
    p.superclasses c =
      match p.superclass? c with
      | none => []
      | some s => s :: p.superclasses s := by
  cases hsuper : p.superclass? c with
  | none =>
    rw [superclasses, hsuper]
    cases p.classes.length <;> rfl
  | some s =>
    rw [superclasses, hsuper]
    exact go_some hacyclic (mem_of_superclass? hsuper)

/-- The walk over the superclasses meets the classes above. -/
theorem mem_superclasses (hacyclic : p.Acyclic) : s ∈ p.superclasses c ↔ p.Above c s := by
  refine ⟨(above_of_mem_go _ c).1 s, fun h => ?_⟩
  induction h using Relation.TransGen.head_induction_on with
  | single h =>
    rw [superclasses_eq hacyclic, h]
    exact List.mem_cons_self
  | head h _ ih =>
    rw [superclasses_eq hacyclic, h]
    exact List.mem_cons_of_mem _ ih

/-! ### Stretches of superclasses -/

/-- A walk with enough steps starts with any stretch of superclasses. -/
private theorem go_of_isChain {l : List ClassModel} {n : Nat}
    (hchain : (c :: l).IsChain fun c s => p.superclass? c = some s) (hn : l.length ≤ n) :
    l <+: superclasses.go p n (p.superclass? c) := by
  induction l generalizing c n with
  | nil => exact List.nil_prefix
  | cons s l ih =>
    obtain ⟨hs, hchain⟩ := List.isChain_cons_cons.1 hchain
    cases n with
    | zero => simp at hn
    | succ n =>
      rw [hs, superclasses.go, List.cons_prefix_cons]
      exact ⟨rfl, ih hchain (by simpa using hn)⟩

/-- The walk over the superclasses meets every stretch that does not repeat, also where it goes round in circles. -/
private theorem mem_superclasses_of_isChain {l : List ClassModel}
    (hchain : (c :: l).IsChain fun c s => p.superclass? c = some s) (hnodup : l.Nodup) (hs : s ∈ l) :
    s ∈ p.superclasses c := by
  have hmem : ∀ {l : List ClassModel} {c : ClassModel}, (c :: l).IsChain (fun c s => p.superclass? c = some s) →
      ∀ d ∈ l, d ∈ p.classes := by
    intro l
    induction l with
    | nil => simp
    | cons d l ih =>
      intro c hchain e he
      obtain ⟨hd, hchain⟩ := List.isChain_cons_cons.1 hchain
      rcases List.mem_cons.1 he with rfl | he
      · exact mem_of_superclass? hd
      · exact ih hchain e he
  have hlength := (List.subperm_of_subset hnodup (hmem hchain)).length_le
  exact (go_of_isChain hchain hlength).subset hs

/-- Of two classes of such a stretch one is a superclass of the other. -/
theorem isChain_comparable {l : List ClassModel} (hchain : l.IsChain fun c s => p.superclass? c = some s)
    (hnodup : l.Nodup) (hc : c ∈ l) (hs : s ∈ l) : c = s ∨ s ∈ p.superclasses c ∨ c ∈ p.superclasses s := by
  have hpairwise : l.Pairwise fun c s => c = s ∨ s ∈ p.superclasses c ∨ c ∈ p.superclasses s := by
    clear hc hs
    induction l with
    | nil => exact .nil
    | cons d l ih =>
      have hrest := (List.nodup_cons.1 hnodup).2
      refine .cons (fun s hs => .inr (.inl (mem_superclasses_of_isChain hchain hrest hs))) (ih hchain.of_cons hrest)
  have hsymm : Std.Symm fun c s => c = s ∨ s ∈ p.superclasses c ∨ c ∈ p.superclasses s :=
    ⟨fun a b h => h.imp Eq.symm Or.symm⟩
  exact hpairwise.forall_of_forall (fun a _ => .inl rfl) hc hs

/-! ### The walk for the ancestors -/

/-- In a list of classes of the program, a class is there when its name is. -/
theorem named_iff {l : List ClassModel} (hl : ∀ c ∈ l, c ∈ p.classes) (hs : s ∈ p.classes) :
    named l s.name ↔ s ∈ l := by
  rw [named, List.any_eq_true]
  constructor
  · rintro ⟨d, hd, hname⟩
    rw [← eq_of_name_eq (hl d hd) hs (by simpa using hname)]
    exact hd
  · intro hmem
    exact ⟨s, hmem, by simp⟩

/-- The second class is the first or above it. -/
def AtOrAbove (p : Program) : ClassModel → ClassModel → Prop :=
  Relation.ReflTransGen fun c s => p.superclass? c = some s

private theorem mem_cons_classes {l : List ClassModel} (hc : c ∈ p.classes) (hl : ∀ d ∈ l, d ∈ p.classes) :
    ∀ d ∈ c :: l, d ∈ p.classes := List.forall_mem_cons.2 ⟨hc, hl⟩

/-- The walk meets classes of the program, each once and none of those seen before. -/
private theorem fresh_of_chainFrom {fuel : Nat} {seen : List ClassModel} {first : Option ClassModel}
    (hseen : ∀ d ∈ seen, d ∈ p.classes) (hfirst : ∀ c, first = some c → c ∈ p.classes) :
    (p.chainFrom fuel seen first).Nodup ∧ ∀ d ∈ p.chainFrom fuel seen first, d ∈ p.classes ∧ d ∉ seen := by
  induction fuel generalizing seen first with
  | zero => simp [chainFrom]
  | succ fuel ih =>
    cases first with
    | none => simp [chainFrom]
    | some c =>
      have hc : c ∈ p.classes := hfirst c rfl
      rw [chainFrom]
      by_cases hnamed : named seen c.name = true
      · rw [if_pos hnamed]
        simp
      · rw [if_neg hnamed]
        obtain ⟨hnodup, hfresh⟩ := ih (mem_cons_classes hc hseen) fun s hs => mem_of_superclass? hs
        refine ⟨List.nodup_cons.2 ⟨fun hmem => (hfresh c hmem).2 List.mem_cons_self, hnodup⟩, ?_⟩
        intro d hd
        rcases List.mem_cons.1 hd with rfl | hd
        · exact ⟨hc, fun hmem => hnamed ((named_iff hseen hc).2 hmem)⟩
        · obtain ⟨hmem, hnew⟩ := hfresh d hd
          exact ⟨hmem, fun hd => hnew (List.mem_cons_of_mem c hd)⟩

/-- A walk with enough fuel stops only where a class was seen before or has no superclass. -/
private theorem closed_chainFrom {fuel : Nat} {seen : List ClassModel} {first : Option ClassModel}
    (hseen : ∀ d ∈ seen, d ∈ p.classes) (hnodup : seen.Nodup) (hfirst : ∀ c, first = some c → c ∈ p.classes)
    (henough : p.classes.length ≤ fuel + seen.length) :
    (∀ c, first = some c → c ∈ seen ++ p.chainFrom fuel seen first) ∧
      ∀ d ∈ p.chainFrom fuel seen first, ∀ s, p.superclass? d = some s → s ∈ seen ++ p.chainFrom fuel seen first := by
  induction fuel generalizing seen first with
  | zero =>
    -- every class of the program has been seen
    have hall : seen.Perm p.classes := (List.subperm_of_subset hnodup hseen).perm_of_length_le (by omega)
    refine ⟨fun c hc => List.mem_append_left _ (hall.mem_iff.2 (hfirst c hc)), ?_⟩
    intro d hd
    cases hd
  | succ fuel ih =>
    cases first with
    | none => simp [chainFrom]
    | some c =>
      have hc : c ∈ p.classes := hfirst c rfl
      rw [chainFrom]
      by_cases hnamed : named seen c.name = true
      · rw [if_pos hnamed]
        have hmem : c ∈ seen := (named_iff hseen hc).1 hnamed
        simpa using hmem
      · rw [if_neg hnamed]
        have hfresh : c ∉ seen := fun hmem => hnamed ((named_iff hseen hc).2 hmem)
        obtain ⟨hnext, hclosed⟩ := ih (mem_cons_classes hc hseen) (List.nodup_cons.2 ⟨hfresh, hnodup⟩)
          (fun s hs => mem_of_superclass? hs) (by rw [List.length_cons]; omega)
        have hsame : ∀ s, s ∈ (c :: seen) ++ p.chainFrom fuel (c :: seen) (p.superclass? c) ↔
            s ∈ seen ++ c :: p.chainFrom fuel (c :: seen) (p.superclass? c) := by
          intro s
          simp only [List.mem_append, List.mem_cons]
          tauto
        refine ⟨?_, ?_⟩
        · rintro d ⟨rfl⟩
          exact List.mem_append_right _ List.mem_cons_self
        · intro d hd s hs
          rcases List.mem_cons.1 hd with rfl | hd
          · exact (hsame s).1 (hnext s hs)
          · exact (hsame s).1 (hclosed d hd s hs)

private theorem atOrAbove_of_mem_chainFrom {fuel : Nat} {seen : List ClassModel} {first : Option ClassModel}
    {d : ClassModel} (h : d ∈ p.chainFrom fuel seen first) : ∃ c, first = some c ∧ p.AtOrAbove c d := by
  induction fuel generalizing seen first with
  | zero => cases h
  | succ fuel ih =>
    cases first with
    | none => cases h
    | some c =>
      rw [chainFrom] at h
      split at h
      · cases h
      · rcases List.mem_cons.1 h with rfl | h
        · exact ⟨d, rfl, .refl⟩
        · obtain ⟨s, hs, habove⟩ := ih h
          exact ⟨c, rfl, .head hs habove⟩

/-- The chain of a class: the class and its superclasses, up to the first that repeats. -/
theorem mem_chainFrom_iff {name : Name} {d : ClassModel} :
    d ∈ p.chainFrom p.classes.length [] (p.find? name) ↔ ∃ c, p.find? name = some c ∧ p.AtOrAbove c d := by
  refine ⟨atOrAbove_of_mem_chainFrom, ?_⟩
  rintro ⟨c, hc, habove⟩
  obtain ⟨hfirst, hclosed⟩ := @closed_chainFrom p p.classes.length [] (p.find? name) (by simp) List.nodup_nil
    (fun c hc => (mem_of_find? hc).1) (by simp)
  induction habove with
  | refl => exact hfirst c hc
  | tail _ hs ih => exact hclosed _ ih _ hs

theorem nodup_chainFrom (name : Name) : (p.chainFrom p.classes.length [] (p.find? name)).Nodup :=
  (fresh_of_chainFrom (by simp) fun _ hc => (mem_of_find? hc).1).1

theorem mem_of_mem_chainFrom {name : Name} {d : ClassModel}
    (h : d ∈ p.chainFrom p.classes.length [] (p.find? name)) : d ∈ p.classes :=
  ((fresh_of_chainFrom (by simp) fun _ hc => (mem_of_find? hc).1).2 d h).1

/-! ### The chain of a class -/

/-- Of two classes of a chain one is above the other. -/
theorem chain_comparable {d : ClassModel} (hs : s ∈ c :: p.superclasses c) (hd : d ∈ c :: p.superclasses c) :
    s = d ∨ p.Above s d ∨ p.Above d s := by
  obtain ⟨habove, hpairwise⟩ := above_of_mem_go (p := p) p.classes.length c
  have hchain : (c :: p.superclasses c).Pairwise fun a b => a = b ∨ p.Above a b ∨ p.Above b a :=
    (List.pairwise_cons.2 ⟨habove, hpairwise⟩).imp fun h => .inr (.inl h)
  have hsymm : Std.Symm fun a b => a = b ∨ p.Above a b ∨ p.Above b a :=
    ⟨fun a b h => h.imp Eq.symm Or.symm⟩
  exact hchain.forall_of_forall (fun a _ => .inl rfl) hs hd

theorem mem_chain_of_above (hacyclic : p.Acyclic) {d : ClassModel} (hs : s ∈ c :: p.superclasses c)
    (hd : p.Above s d) : d ∈ c :: p.superclasses c := by
  refine List.mem_cons_of_mem _ ((mem_superclasses hacyclic).2 ?_)
  rcases List.mem_cons.1 hs with rfl | hs
  · exact hd
  · exact ((mem_superclasses hacyclic).1 hs).trans hd

theorem mem_of_mem_chain (hc : c ∈ p.classes) (h : s ∈ c :: p.superclasses c) : s ∈ p.classes := by
  rcases List.mem_cons.1 h with rfl | h
  · exact hc
  · exact ((above_of_mem_go _ c).1 s h).mem

end HaxeBackend.Program
