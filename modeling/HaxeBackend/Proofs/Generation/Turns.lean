import HaxeBackend.Proofs.FirstUse
import HaxeBackend.Proofs.Generation.Outcome
import HaxeBackend.Proofs.Generation.SourceMaps

/-!
# Methods in turn

The methods of a unit are generated one after the other, and each adds to what the unit collects.  What can become of
one method is said once (`method_cases`), so what each of them adds is known of all that are translated into a unit
(`inTurn_methods`, `inTurn_dispatchClass`).
-/

namespace HaxeBackend.Generation

variable {α β : Type} {env : Env} {c : ClassModel} {f : Target.Function} {x : GenM α} {seen : List Name}
  {st st' : UnitState}

/-! ### Steps that collect nothing -/

/-- The step leaves the pooled literals and the references as they are. -/
def Spares (x : GenM α) : Prop := ∀ st a st', Runs x st a st' → st'.literals = st.literals ∧ st'.refs = st.refs

theorem Spares.bind {g : α → GenM β} (hx : Spares x) (hg : ∀ a, Spares (g a)) : Spares (x >>= g) := by
  intro st b st' h
  obtain ⟨a, mid, hmid, h⟩ := runs_bind.1 h
  obtain ⟨hliterals, hrefs⟩ := hx st a mid hmid
  obtain ⟨hliterals', hrefs'⟩ := hg a mid b st' h
  exact ⟨hliterals'.trans hliterals, hrefs'.trans hrefs⟩

theorem spares_pure (a : α) : Spares (pure a : GenM α) := by
  intro st b st' h
  rw [(runs_pure.1 h).2]
  exact ⟨rfl, rfl⟩

private theorem spares_report (d : Diagnostic) : Spares (report d) := by
  intro st b st' h
  rw [runs_modify.1 h]
  exact ⟨rfl, rfl⟩

theorem spares_markLines (type : Name) : Spares (markLines c type) := by
  unfold markLines
  split
  · exact spares_pure _
  · split
    · exact spares_pure _
    · exact (spares_report _).bind fun _ => spares_pure _

theorem spares_unitHeader : Spares (unitHeader c) :=
  (spares_markLines _).bind fun _ => (spares_markLines _).bind fun _ => (spares_markLines _).bind fun _ =>
    spares_pure _

private theorem spares_givenText? (m : Method) (at_ : Location) : Spares (givenText? m at_) := by
  have huses : Spares (bodyUses m at_) := by
    unfold bodyUses
    dsimp only
    split
    · exact spares_pure _
    · split
      · exact spares_pure _
      · exact (spares_report _).bind fun _ => spares_pure _
  have hbodies : ∀ uses, Spares (givenBodies at_ uses) := by
    intro uses
    induction uses with
    | nil => exact spares_pure _
    | cons use uses ih =>
      rw [givenBodies]
      split
      · exact ih.bind fun _ => spares_pure _
      · exact (spares_report _).bind fun _ => ih
  unfold givenText?
  refine huses.bind fun uses => (hbodies uses).bind fun bodies => ?_
  split
  · exact spares_pure _
  · exact spares_pure _

/-! ### One method -/

/-- What becomes of a method: its body is not translated and nothing is collected, or its translation fails or gives
the body of the function, and what that collected is kept. -/
theorem method_cases {x : MethodSite × Method} (h : Runs (method env x.1 x.2) st f st') :
    ∃ start, start.literals = st.literals ∧ start.refs = st.refs ∧
      (((∃ text, f.body = .given text) ∨ ∃ owner id, f.body = .missing owner id) ∧ st' = start ∨
        ∃ source, x.2.body = some source ∧
          st'.literals = (Lowering.lowerBody env.program env.options (bodySite x.1 x.2) source start).2.literals ∧
          st'.refs = (Lowering.lowerBody env.program env.options (bodySite x.1 x.2) source start).2.refs ∧
          ((∃ className member message, f.body = .errored className member message) ∨
            ∃ b returnsThis, f.body = .lowered b returnsThis ∧
              (Lowering.lowerBody env.program env.options (bodySite x.1 x.2) source start).1 = .ok b)) := by
  obtain ⟨body, mid, hbody, hpure⟩ := runs_bind.1 h
  obtain ⟨rfl, rfl⟩ := runs_pure.1 hpure
  unfold methodBody at hbody
  obtain ⟨given, start, hgiven, hbody⟩ := runs_bind.1 hbody
  obtain ⟨hliterals, hrefs⟩ := spares_givenText? _ _ _ _ _ hgiven
  refine ⟨start, hliterals, hrefs, ?_⟩
  split at hbody
  · obtain ⟨rfl, rfl⟩ := runs_pure.1 hbody
    exact .inl ⟨.inl ⟨_, rfl⟩, rfl⟩
  · rename_i source hsource
    refine .inr ⟨source, hsource, ?_⟩
    unfold Runs at hbody
    rw [run_lowerMethodBody] at hbody
    -- the body was translated, and what it collected is kept either way
    rcases hlowered : Lowering.lowerBody env.program env.options (bodySite x.1 x.2) source start with ⟨e | b, unit⟩
    · rw [hlowered] at hbody
      dsimp only at hbody
      split at hbody
      · cases hbody
      · cases hbody
        exact ⟨rfl, rfl, .inl ⟨_, _, _, rfl⟩⟩
    · rw [hlowered] at hbody
      cases hbody
      exact ⟨rfl, rfl, .inr ⟨_, _, rfl, rfl⟩⟩
  · obtain ⟨rfl, rfl⟩ := runs_pure.1 hbody
    exact .inl ⟨.inr ⟨_, _, rfl⟩, rfl⟩

/-! ### Rows of methods -/

variable {table : UnitState → List Name}
  {For : List Name → (MethodSite × Method) × Target.Function → List Name → Prop}

/-- What a row of methods collects, each behind the one before it, and what the functions have to do with it, whatever
is collected later. -/
def InTurn (table : UnitState → List Name)
    (For : List Name → (MethodSite × Method) × Target.Function → List Name → Prop) (seen : List Name)
    (xfs : List ((MethodSite × Method) × Target.Function)) (last : UnitState) : Prop :=
  ∃ met : List (List Name), table last = (seen ++ met.flatten).eraseDups ∧
    ∀ later, table last <+: later → List.Forall₂ (For later) xfs met

private theorem InTurn.nil (hseen : table st = seen.eraseDups) : InTurn table For seen [] st :=
  ⟨[], by rw [List.flatten_nil, List.append_nil, hseen], fun _ _ => .nil⟩

theorem InTurn.append {xfs xfs' : List ((MethodSite × Method) × Target.Function)} {last : UnitState}
    (h : InTurn table For seen xfs st)
    (hrest : ∀ seen', table st = seen'.eraseDups → InTurn table For seen' xfs' last) :
    InTurn table For seen (xfs ++ xfs') last := by
  obtain ⟨met, htable, hall⟩ := h
  obtain ⟨met', htable', hall'⟩ := hrest _ htable
  have hbefore : table st <+: table last := by
    rw [htable, htable']
    exact eraseDups_prefix_append _ _
  refine ⟨met ++ met', ?_, fun later hlater => List.rel_append (hall later (hbefore.trans hlater)) (hall' later hlater)⟩
  rw [List.flatten_append, ← List.append_assoc]
  exact htable'

theorem InTurn.single {met : List Name} {xf : (MethodSite × Method) × Target.Function}
    (htable : table st = (seen ++ met).eraseDups) (hfor : ∀ later, table st <+: later → For later xf met) :
    InTurn table For seen [xf] st :=
  ⟨[met], by rw [List.flatten_singleton, htable], fun later hlater => .cons (hfor later hlater) .nil⟩

/-- What stands on the left has something on the right. -/
theorem exists_of_mem_left {γ δ : Type} {R : γ → δ → Prop} {l : List γ} {l' : List δ} (h : List.Forall₂ R l l')
    {a : γ} (ha : a ∈ l) : ∃ b ∈ l', R a b := by
  induction h with
  | nil => cases ha
  | cons hab _ ih =>
    rcases List.mem_cons.1 ha with rfl | ha
    · exact ⟨_, List.mem_cons_self, hab⟩
    · obtain ⟨b, hb, hrel⟩ := ih ha
      exact ⟨b, List.mem_cons_of_mem _ hb, hrel⟩

section Rows

variable (hmethod : ∀ {x : MethodSite × Method} {st f st' seen}, Runs (method env x.1 x.2) st f st' →
  table st = seen.eraseDups → InTurn table For seen [(x, f)] st')

include hmethod

theorem inTurn_methods {l : List (MethodSite × Method)} {fs : List Target.Function}
    (h : Runs (methods env l) st fs st') (hseen : table st = seen.eraseDups) :
    InTurn table For seen (l.zip fs) st' := by
  induction l generalizing st fs seen with
  | nil =>
    obtain ⟨rfl, rfl⟩ := runs_pure.1 h
    exact .nil hseen
  | cons x l ih =>
    obtain ⟨first, mid, hfirst, h⟩ := runs_bind.1 h
    obtain ⟨rest, mid', hrest, h⟩ := runs_bind.1 h
    obtain ⟨rfl, rfl⟩ := runs_pure.1 h
    exact (hmethod hfirst hseen).append fun seen' hseen' => ih hrest hseen'

private theorem inTurn_adapterMethods {entries : List MethodEntry} {methods : List Target.AdapterMethod}
    (h : Runs (adapterMethods env c entries) st methods st') (hseen : table st = seen.eraseDups) :
    InTurn table For seen (((entries.filter fun e => e.method.hasBody).map (copiedEntry env.program c)).zip
      (methods.filterMap Target.AdapterMethod.function?)) st' := by
  induction entries generalizing st methods seen with
  | nil =>
    obtain ⟨rfl, rfl⟩ := runs_pure.1 h
    exact .nil hseen
  | cons e entries ih =>
    obtain ⟨first, mid, hfirst, h⟩ := runs_bind.1 h
    obtain ⟨rest, mid', hrest, h⟩ := runs_bind.1 h
    obtain ⟨rfl, rfl⟩ := runs_pure.1 h
    unfold adapterMethod at hfirst
    by_cases hbody : e.method.hasBody = true
    · rw [if_pos hbody] at hfirst
      obtain ⟨function, _, hfunction, hpure⟩ := runs_bind.1 hfirst
      obtain ⟨rfl, rfl⟩ := runs_pure.1 hpure
      rw [List.filter_cons, if_pos hbody]
      exact (hmethod (x := copiedEntry env.program c e) hfunction hseen).append fun seen' hseen' => ih hrest hseen'
    · rw [if_neg hbody] at hfirst
      obtain ⟨rfl, rfl⟩ := runs_pure.1 hfirst
      rw [List.filter_cons, if_neg hbody, List.filterMap_cons_none rfl]
      exact ih hrest hseen

theorem inTurn_dispatchClass {d : Target.DispatchClass} (h : Runs (dispatchClass env c) st d st')
    (hseen : table st = seen.eraseDups) :
    InTurn table For seen ((adapterCopies env.program c).zip d.functions) st' := by
  unfold dispatchClass at h
  unfold adapterCopies
  cases hdispatch : env.program.dispatch c with
  | proxy =>
    rw [hdispatch] at h
    obtain ⟨rfl, rfl⟩ := runs_pure.1 h
    exact .nil hseen
  | adapter =>
    rw [hdispatch] at h
    obtain ⟨adapter, mid, hadapter, hpure⟩ := runs_bind.1 h
    obtain ⟨rfl, rfl⟩ := runs_pure.1 hpure
    unfold adapterClass at hadapter
    cases hfind : (env.program.methodsToImplement c.name).find? fun e => !e.method.hasBody with
    | none =>
      simp only [hfind] at hadapter
      obtain ⟨rfl, rfl⟩ := runs_pure.1 hadapter
      exact .nil hseen
    | some e =>
      simp only [hfind] at hadapter
      obtain ⟨methods, _, hmethods, hpure⟩ := runs_bind.1 hadapter
      obtain ⟨rfl, rfl⟩ := runs_pure.1 hpure
      exact inTurn_adapterMethods hmethod hmethods hseen

end Rows

end HaxeBackend.Generation
