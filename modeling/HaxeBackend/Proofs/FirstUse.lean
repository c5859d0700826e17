import HaxeBackend.Proofs.Run
import Mathlib.Data.List.Nodup

/-!
# Order of first use

A list keeps of every element its first place when its repetitions are removed.  What is added to such a list is again
one (`eraseDups_append_of_nodup`), whether the part in front was cleaned before or not (`eraseDups_eraseDups_append`).
Steps that collect elements in a state are put together to runs that collect them in turn (`Collects.bind`).
-/

namespace HaxeBackend

/-! ### Lists -/

section Lists

variable {α : Type} [BEq α] [LawfulBEq α]

theorem nodup_eraseDups (l : List α) : l.eraseDups.Nodup := by
  match l with
  | [] => exact List.nodup_nil
  | a :: l =>
    rw [List.eraseDups_cons, List.nodup_cons]
    refine ⟨fun h => ?_, nodup_eraseDups _⟩
    have hmem := List.mem_eraseDups.1 h
    simp at hmem
termination_by l.length
decreasing_by exact Nat.lt_succ_of_le (List.length_filter_le _ _)

theorem eraseDups_of_nodup {l : List α} (h : l.Nodup) : l.eraseDups = l := by
  induction l with
  | nil => rfl
  | cons a l ih =>
    obtain ⟨hfresh, hrest⟩ := List.nodup_cons.1 h
    have hfilter : l.filter (fun b => !b == a) = l := by
      refine List.filter_eq_self.2 fun b hb => ?_
      have hne : b ≠ a := fun heq => hfresh (heq ▸ hb)
      simp [hne]
    rw [List.eraseDups_cons, hfilter, ih hrest]

private theorem removeAll_congr {l l' : List α} (h : ∀ a, a ∈ l ↔ a ∈ l') (xs : List α) :
    xs.removeAll l = xs.removeAll l' := by
  refine List.filter_congr fun a _ => ?_
  have hmem := h a
  by_cases ha : a ∈ l
  · simp [ha, hmem.1 ha]
  · simp [ha, mt hmem.2 ha]

/-- What is new in the second list follows the first. -/
theorem eraseDups_append_of_nodup {l : List α} (h : l.Nodup) (xs : List α) :
    (l ++ xs).eraseDups = l ++ (xs.removeAll l).eraseDups := by
  rw [List.eraseDups_append, eraseDups_of_nodup h]

theorem eraseDups_eraseDups_append (l xs : List α) : (l.eraseDups ++ xs).eraseDups = (l ++ xs).eraseDups := by
  rw [eraseDups_append_of_nodup (nodup_eraseDups l), List.eraseDups_append,
    removeAll_congr fun a => List.mem_eraseDups]

theorem eraseDups_concat_of_mem {l : List α} {a : α} (h : a ∈ l) : (l ++ [a]).eraseDups = l.eraseDups := by
  simp [List.eraseDups_append, List.removeAll, h]

theorem eraseDups_concat_of_not_mem {l : List α} {a : α} (h : a ∉ l) :
    (l ++ [a]).eraseDups = l.eraseDups ++ [a] := by
  simp [List.eraseDups_append, List.removeAll, h, List.eraseDups_cons]

/-- What was there stays in front. -/
theorem eraseDups_prefix_append (seen met : List α) : seen.eraseDups <+: (seen ++ met).eraseDups := by
  rw [List.eraseDups_append]
  exact List.prefix_append _ _

end Lists

/-! ### Steps that collect -/

section Steps

variable {α ε σ β γ : Type} [BEq α] {holds : σ → List α → Prop} {log log' : List α}

/-- The step collects these in order, or those up to the place where it fails, and then its result is like this for
anything that has what is collected by then in front. -/
def Collects (holds : σ → List α → Prop) (x : ExceptT ε (StateM σ) β) (log : List α) (Q : β → List α → Prop) : Prop :=
  ∀ st seen, holds st seen →
    ∃ met, met <+: log ∧ holds (x.run.run st).2 (seen ++ met) ∧
      ∀ b, (x.run.run st).1 = .ok b → met = log ∧ ∀ later, (seen ++ met).eraseDups <+: later → Q b later

theorem Collects.bind [LawfulBEq α] {x : ExceptT ε (StateM σ) β} {f : β → ExceptT ε (StateM σ) γ}
    {Q : β → List α → Prop} {R : γ → List α → Prop} (hx : Collects holds x log Q)
    (hf : ∀ b, Collects holds (f b) log' fun c later => Q b later → R c later) :
    Collects holds (x >>= f) (log ++ log') R := by
  intro st seen hseen
  obtain ⟨met, hmet, hmid, hresult⟩ := hx st seen hseen
  rw [run_bind]
  rcases hrun : x.run.run st with ⟨e | b, mid⟩
  · rw [hrun] at hmid
    exact ⟨met, hmet.trans (List.prefix_append _ _), hmid, fun c hc => nomatch hc⟩
  · rw [hrun] at hmid hresult
    obtain ⟨rfl, hQ⟩ := hresult b rfl
    obtain ⟨met', hmet', hlast, hresult'⟩ := hf b mid _ hmid
    refine ⟨met ++ met', (List.prefix_append_right_inj met).2 hmet', ?_, fun c hc => ?_⟩
    · rw [← List.append_assoc]
      exact hlast
    · obtain ⟨rfl, hR⟩ := hresult' c hc
      refine ⟨rfl, fun later hlater => ?_⟩
      rw [← List.append_assoc] at hlater
      exact hR later hlater (hQ later ((eraseDups_prefix_append _ _).trans hlater))

theorem Collects.imp {x : ExceptT ε (StateM σ) β} {Q R : β → List α → Prop} (hx : Collects holds x log Q)
    (h : ∀ b later, Q b later → R b later) : Collects holds x log R := by
  intro st seen hseen
  obtain ⟨met, hmet, hlast, hresult⟩ := hx st seen hseen
  refine ⟨met, hmet, hlast, fun b hb => ⟨(hresult b hb).1, fun later hlater => ?_⟩⟩
  exact h b later ((hresult b hb).2 later hlater)

/-- Steps that collect nothing may come last. -/
theorem Collects.bind_quiet [LawfulBEq α] {x : ExceptT ε (StateM σ) β} {f : β → ExceptT ε (StateM σ) γ}
    {Q : β → List α → Prop} {R : γ → List α → Prop} (hx : Collects holds x log Q)
    (hf : ∀ b, Collects holds (f b) [] fun c later => Q b later → R c later) : Collects holds (x >>= f) log R := by
  have h := hx.bind hf
  rwa [List.append_nil] at h

/-- A step that leaves what is collected as it is. -/
theorem collects_quiet {x : ExceptT ε (StateM σ) β} {Q : β → Prop}
    (h : ∀ st seen, holds st seen → holds (x.run.run st).2 seen ∧ ∀ b, (x.run.run st).1 = .ok b → Q b) :
    Collects holds x [] fun b _ => Q b := by
  intro st seen hseen
  refine ⟨[], List.prefix_refl _, ?_, fun b hb => ⟨rfl, fun _ _ => (h st seen hseen).2 b hb⟩⟩
  rw [List.append_nil]
  exact (h st seen hseen).1

theorem collects_pure {b : β} {Q : β → List α → Prop} (h : ∀ later, Q b later) :
    Collects holds (pure b : ExceptT ε (StateM σ) β) [] Q := by
  intro st seen hseen
  refine ⟨[], List.prefix_refl _, ?_, fun b' hb => ⟨rfl, fun later _ => ?_⟩⟩
  · rw [List.append_nil]
    exact hseen
  · cases hb
    exact h later

theorem collects_throw (e : ε) (log : List α) (Q : β → List α → Prop) :
    Collects holds (throw e : ExceptT ε (StateM σ) β) log Q := by
  intro st seen hseen
  refine ⟨[], List.nil_prefix, ?_, fun b hb => nomatch hb⟩
  rw [List.append_nil]
  exact hseen

theorem Collects.bind_pure [LawfulBEq α] {x : ExceptT ε (StateM σ) β} {f : β → γ} {Q : β → List α → Prop}
    {R : γ → List α → Prop} (hx : Collects holds x log Q) (hf : ∀ b later, Q b later → R (f b) later) :
    Collects holds (x >>= fun b => pure (f b)) log R :=
  hx.bind_quiet fun b => collects_pure fun later hb => hf b later hb

theorem Looks.collects {x : ExceptT ε (StateM σ) β} {Q : β → Prop} (hx : Looks x Q) :
    Collects holds x [] fun b _ => Q b := by
  refine collects_quiet fun st seen hseen => ⟨?_, (hx st).2⟩
  rw [(hx st).1]
  exact hseen

/-- Behind a step that only looks at the state, what is collected may depend on its result. -/
theorem collects_look {x : ExceptT ε (StateM σ) β} {f : β → ExceptT ε (StateM σ) γ} {P : β → Prop}
    {R : γ → List α → Prop} (hx : Looks x P) (hf : ∀ b, P b → Collects holds (f b) log R) :
    Collects holds (x >>= f) log R := by
  intro st seen hseen
  obtain ⟨hsame, hresult⟩ := hx st
  rw [run_bind]
  rcases hrun : x.run.run st with ⟨e | b, mid⟩
  · rw [hrun] at hsame
    obtain rfl : mid = st := hsame
    exact collects_throw e log R mid seen hseen
  · rw [hrun] at hsame hresult
    obtain rfl : mid = st := hsame
    exact hf b (hresult b rfl) mid seen hseen

end Steps

end HaxeBackend
