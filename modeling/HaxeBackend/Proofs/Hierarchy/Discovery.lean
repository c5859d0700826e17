import HaxeBackend.Proofs.FirstUse
import HaxeBackend.Proofs.Hierarchy.Order

/-!
# Discovery of ancestors

The walk up the superclasses and the visit of the interfaces as runs without a bound on their steps.  On any hierarchy
both come to an end with the ancestors (`walk_chainFrom`, `visit_closeInterfaces`), so what a run preserves holds of
these: the chain stays in front, what is added was listed by a class in front of it (`Visit.listed`), and names come
in the order in which they are first met (`Visit.names_eq`).
-/

namespace HaxeBackend.Program

/-! ### Runs without a bound -/

/-- The walk up from a class ends with these classes, none of which was seen before. -/
inductive Walk (p : Program) : List ClassModel → Option ClassModel → List ClassModel → Prop
  | top {seen : List ClassModel} : Walk p seen none []
  | again {seen : List ClassModel} {c : ClassModel} (hseen : named seen c.name = true) : Walk p seen (some c) []
  | up {seen out : List ClassModel} {c : ClassModel} (hnew : ¬named seen c.name = true)
      (hrest : Walk p (c :: seen) (p.superclass? c) out) : Walk p seen (some c) (c :: out)

/-- The visit of what is to do ends with these classes, where each visit adds the interfaces that are new. -/
inductive Visit (p : Program) : List ClassModel → List ClassModel → List ClassModel → Prop
  | finish {done : List ClassModel} : Visit p done [] done
  | next {done todo out : List ClassModel} {c : ClassModel}
      (hrest : Visit p (done ++ [c]) (todo ++ p.freshInterfaces (done ++ c :: todo) c.interfaces) out) :
      Visit p done (c :: todo) out

variable {p : Program} {c d : ClassModel} {seen done todo out : List ClassModel} {first : Option ClassModel}

/-! ### Their end -/

/-- As many steps as there are classes that were not seen are enough for the walk. -/
theorem walk_chainFrom {fuel : Nat} (hseen : ∀ d ∈ seen, d ∈ p.classes) (hnodup : seen.Nodup)
    (hfirst : ∀ c, first = some c → c ∈ p.classes) (henough : p.classes.length ≤ fuel + seen.length) :
    p.Walk seen first (p.chainFrom fuel seen first) := by
  induction fuel generalizing seen first with
  | zero =>
    cases first with
    | none => exact .top
    | some c =>
      -- without steps left every class was seen, so this one was
      have hall : seen.Perm p.classes := (List.subperm_of_subset hnodup hseen).perm_of_length_le (by omega)
      exact .again ((named_iff hseen (hfirst c rfl)).2 (hall.mem_iff.2 (hfirst c rfl)))
  | succ fuel ih =>
    cases first with
    | none => exact .top
    | some c =>
      have hc : c ∈ p.classes := hfirst c rfl
      rw [chainFrom]
      by_cases hnamed : named seen c.name = true
      · rw [if_pos hnamed]
        exact .again hnamed
      · rw [if_neg hnamed]
        have hfresh : c ∉ seen := mt (named_iff hseen hc).2 hnamed
        refine .up hnamed (ih (List.forall_mem_cons.2 ⟨hc, hseen⟩) (List.nodup_cons.2 ⟨hfresh, hnodup⟩)
          (fun s hs => mem_of_superclass? hs) ?_)
        rw [List.length_cons]
        omega

/-- What a visit has found: classes of the program, each once. -/
private def Found (p : Program) (l : List ClassModel) : Prop := (∀ c ∈ l, c ∈ p.classes) ∧ l.Nodup

private theorem Found.length_le {l : List ClassModel} (h : Found p l) : l.length ≤ p.classes.length :=
  (List.subperm_of_subset h.2 h.1).length_le

private theorem visited_append (p : Program) (done todo : List ClassModel) (c : ClassModel) :
    done ++ [c] ++ (todo ++ p.freshInterfaces (done ++ c :: todo) c.interfaces) =
      (done ++ c :: todo) ++ p.freshInterfaces (done ++ c :: todo) c.interfaces := by simp

private theorem Found.step (h : Found p (done ++ c :: todo)) :
    Found p (done ++ [c] ++ (todo ++ p.freshInterfaces (done ++ c :: todo) c.interfaces)) := by
  obtain ⟨hsound, hnodup, -⟩ := freshInterfaces_spec c.interfaces h.1
  rw [visited_append]
  refine ⟨fun d hd => ?_, List.nodup_append.2 ⟨h.2, hnodup, ?_⟩⟩
  · rcases List.mem_append.1 hd with hd | hd
    · exact h.1 d hd
    · exact Brings.mem (hsound d hd).1
  · rintro a ha b hb rfl
    exact (hsound a hb).2 ha

/-- As many steps as there are classes that were not visited are enough for the visit. -/
theorem visit_closeInterfaces {fuel : Nat} (hmem : ∀ c ∈ done ++ todo, c ∈ p.classes) (hnodup : (done ++ todo).Nodup)
    (henough : p.classes.length ≤ fuel + done.length) : p.Visit done todo (p.closeInterfaces fuel done todo) := by
  have hfound : Found p (done ++ todo) := ⟨hmem, hnodup⟩
  clear hmem hnodup
  induction fuel generalizing done todo with
  | zero =>
    have hlength := hfound.length_le
    rw [List.length_append] at hlength
    obtain rfl : todo = [] := List.length_eq_zero_iff.1 (by omega)
    exact .finish
  | succ fuel ih =>
    cases todo with
    | nil => exact .finish
    | cons c todo =>
      refine .next (ih ?_ hfound.step)
      rw [List.length_append, List.length_singleton]
      omega

/-! ### What a walk meets -/

/-- Each class is the superclass of the one before it. -/
theorem Walk.isChain (h : p.Walk seen first out) :
    out.IsChain (fun c s => p.superclass? c = some s) ∧ ∀ d, out.head? = some d → first = some d := by
  induction h with
  | top | again => exact ⟨.nil, fun _ h => nomatch h⟩
  | @up seen out c hnew hrest ih =>
    obtain ⟨hchain, hhead⟩ := ih
    refine ⟨?_, fun d hd => hd⟩
    cases out with
    | nil => exact .singleton c
    | cons s out => exact .cons_cons (hhead s rfl) hchain

theorem Walk.head?_eq (h : p.Walk [] first out) : out.head? = first := by
  cases h with
  | top | up => rfl
  | again hseen => cases hseen

/-! ### What a visit preserves -/

theorem Visit.found_prefix (h : p.Visit done todo out) : done ++ todo <+: out := by
  induction h with
  | finish => simp
  | @next done todo out c hrest ih =>
    rw [visited_append] at ih
    exact (List.prefix_append _ _).trans ih

/-- Behind the chain every class is brought in by one in front of it. -/
def Listed (p : Program) (chain l : List ClassModel) : Prop :=
  ∀ before d after, l = before ++ d :: after → d ∈ chain ∨ ∃ c ∈ before, p.Brings c d

private theorem listed_self (l : List ClassModel) : p.Listed l l := by
  rintro before d after rfl
  exact .inl (by simp)

private theorem Listed.append {chain l fresh : List ClassModel} (h : p.Listed chain l)
    (hfresh : ∀ d ∈ fresh, ∃ c ∈ l, p.Brings c d) : p.Listed chain (l ++ fresh) := by
  intro before d after heq
  rcases List.append_eq_append_iff.1 heq with ⟨between, rfl, rfl⟩ | ⟨between, rfl, hafter⟩
  · obtain ⟨c, hc, hbrings⟩ := hfresh d (by simp)
    exact .inr ⟨c, List.mem_append_left _ hc, hbrings⟩
  · cases between with
    | nil =>
      obtain ⟨c, hc, hbrings⟩ := hfresh d (by rw [← List.nil_append fresh, ← hafter]; simp)
      exact .inr ⟨c, by simpa using hc, hbrings⟩
    | cons e between =>
      obtain ⟨rfl, -⟩ := List.cons_eq_cons.1 hafter
      exact h before d between rfl

theorem Visit.listed {chain : List ClassModel} (h : p.Visit done todo out)
    (hmem : ∀ c ∈ done ++ todo, c ∈ p.classes) (hlisted : p.Listed chain (done ++ todo)) : p.Listed chain out := by
  induction h with
  | finish => rwa [List.append_nil] at hlisted
  | @next done todo out c hrest ih =>
    obtain ⟨hsound, -, -⟩ := freshInterfaces_spec c.interfaces hmem
    refine ih ?_ ?_ <;> rw [visited_append]
    · intro d hd
      rcases List.mem_append.1 hd with hd | hd
      · exact hmem d hd
      · exact Brings.mem (hsound d hd).1
    · exact hlisted.append fun d hd => ⟨c, by simp, (hsound d hd).1⟩

/-! ### The order of names -/

/-- The interfaces of a class that are in the program, as they are listed. -/
def presentInterfaces (p : Program) (c : ClassModel) : List Name := c.interfaces.filter fun i => (p.find? i).isSome

/-- New interfaces are added in the order in which they are listed. -/
private theorem names_freshInterfaces (names : List Name) (seen : List ClassModel) :
    (p.freshInterfaces seen names).map ClassModel.name =
      ((names.filter fun i => (p.find? i).isSome).removeAll (seen.map ClassModel.name)).eraseDups := by
  induction names generalizing seen with
  | nil => rfl
  | cons name names ih =>
    rw [freshInterfaces]
    cases hname : p.find? name with
    | none =>
      rw [List.filter_cons_of_neg (by simp [hname])]
      exact ih seen
    | some i =>
      obtain ⟨-, rfl⟩ := mem_of_find? hname
      rw [List.filter_cons_of_pos (by simp [hname])]
      have hnamed : named seen i.name = true ↔ i.name ∈ seen.map ClassModel.name := by simp [named]
      dsimp only
      -- an interface is skipped when one of its name was seen before or in front of it
      by_cases hseen : named seen i.name = true
      · rw [if_pos hseen, ih seen]
        rw [List.removeAll, List.removeAll, List.filter_cons_of_neg (by simpa using hnamed.1 hseen)]
      · rw [if_neg hseen, List.map_cons, ih (i :: seen)]
        have hnew := mt hnamed.2 hseen
        rw [List.removeAll, List.removeAll, List.filter_cons_of_pos (by simpa using hnew), List.eraseDups_cons]
        rw [List.filter_filter (p := fun b => !b == i.name)]
        refine congrArg (fun l => i.name :: List.eraseDups l) (List.filter_congr fun name _ => ?_)
        rw [List.map_cons, List.elem_cons]
        cases name == i.name <;> rfl

/-- Names come in the order in which they are first met: those that are there, then the interfaces of each class that
is visited. -/
theorem Visit.names_eq (h : p.Visit done todo out) (hmem : ∀ c ∈ done ++ todo, c ∈ p.classes)
    (hnodup : (done ++ todo).Nodup) :
    out.map ClassModel.name =
      ((done ++ todo).map ClassModel.name ++ (out.drop done.length).flatMap p.presentInterfaces).eraseDups := by
  have hfound : Found p (done ++ todo) := ⟨hmem, hnodup⟩
  clear hmem hnodup
  have hnames : ∀ {l : List ClassModel}, Found p l → (l.map ClassModel.name).Nodup := by
    intro l hl
    exact (List.nodup_map_iff_inj_on hl.2).2 fun c hc d hd heq => eq_of_name_eq (hl.1 c hc) (hl.1 d hd) heq
  induction h with
  | @finish done =>
    rw [List.drop_length, List.flatMap_nil, List.append_nil, List.append_nil, eraseDups_of_nodup]
    simpa using hnames hfound
  | @next done todo out c hrest ih =>
    have hdrop : out.drop done.length = c :: out.drop (done ++ [c]).length := by
      obtain ⟨behind, rfl⟩ := hrest.found_prefix
      simp
    rw [ih hfound.step, visited_append, hdrop, List.flatMap_cons, List.map_append, names_freshInterfaces]
    rw [← eraseDups_append_of_nodup (hnames hfound), eraseDups_eraseDups_append, List.append_assoc]
    rfl

/-! ### Ancestors -/

/-- The walk and the visit end with the ancestors on every hierarchy.  These are the chain of superclasses and what it
brings in, each class once: the chain in front and in its order, then classes that one in front of them lists, in the
order of their distance and of the places where they are first met. -/
theorem discovery_ancestors (p : Program) (name : Name) :
    ∃ chain later, p.ancestors name = chain ++ later ∧
      p.Walk [] (p.find? name) chain ∧ p.Visit [] chain (p.ancestors name) ∧
      (p.ancestors name).Nodup ∧
      (chain.head? = p.find? name ∧ chain.IsChain (fun c s => p.superclass? c = some s) ∧
        ∀ d, d ∈ chain ↔ ∃ c, p.find? name = some c ∧ p.AtOrAbove c d) ∧
      (∀ d, d ∈ p.ancestors name ↔ ∃ s ∈ chain, Relation.ReflTransGen p.Brings s d) ∧
      (∀ before d after, later = before ++ d :: after → ∃ c ∈ chain ++ before, p.Brings c d) ∧
      (p.ancestors name).Pairwise (p.NoFarther name) ∧
      (p.ancestors name).map ClassModel.name =
        (chain.map ClassModel.name ++ (p.ancestors name).flatMap p.presentInterfaces).eraseDups := by
  have hmem : ∀ d ∈ p.chainFrom p.classes.length [] (p.find? name), d ∈ p.classes :=
    fun _ hd => mem_of_mem_chainFrom hd
  have hwalk : p.Walk [] (p.find? name) (p.chainFrom p.classes.length [] (p.find? name)) :=
    walk_chainFrom (by simp) List.nodup_nil (fun _ hc => (mem_of_find? hc).1) (by simp)
  have hvisit : p.Visit [] (p.chainFrom p.classes.length [] (p.find? name)) (p.ancestors name) :=
    visit_closeInterfaces hmem (nodup_chainFrom name) (by simp)
  obtain ⟨later, hlater⟩ := hvisit.found_prefix
  refine ⟨_, later, hlater.symm, hwalk, hvisit, nodup_ancestors name, ⟨hwalk.head?_eq, hwalk.isChain.1,
    fun d => mem_chainFrom_iff⟩, fun d => ?_, ?_, pairwise_ancestors name, ?_⟩
  · rw [mem_ancestors_iff]
    constructor
    · rintro ⟨c, hc, s, habove, hbrought⟩
      exact ⟨s, mem_chainFrom_iff.2 ⟨c, hc, habove⟩, hbrought⟩
    · rintro ⟨s, hs, hbrought⟩
      obtain ⟨c, hc, habove⟩ := mem_chainFrom_iff.1 hs
      exact ⟨c, hc, s, habove, hbrought⟩
  · rintro before d after rfl
    have hnodup := nodup_ancestors (p := p) name
    rw [← hlater] at hnodup
    -- what is behind the chain was not found on it, so a class in front lists it
    rcases hvisit.listed hmem (listed_self _) (_ ++ before) d after (by simpa using hlater.symm) with hd | hd
    · exact absurd rfl ((List.nodup_append.1 hnodup).2.2 d hd d (by simp))
    · simpa using hd
  · exact hvisit.names_eq hmem (nodup_chainFrom name)

end HaxeBackend.Program
