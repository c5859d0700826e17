/-!
# Runs of steps with a state

A step that succeeds, and what it makes of the state.  A run of two steps in a row is a run of each (`runs_bind`),
so a run of any definition in such a monad is taken apart step by step.  Most steps only look something up: they leave
the state as it is and say something about what they found (`Looks`).
-/

namespace HaxeBackend

variable {ε σ α β : Type} {x : ExceptT ε (StateM σ) α} {a : α} {st st' : σ}

/-- The step succeeds with this result and leaves this state. -/
def Runs (x : ExceptT ε (StateM σ) α) (st : σ) (a : α) (st' : σ) : Prop := x.run.run st = (.ok a, st')

theorem Runs.unique {b : α} {mid : σ} (h : Runs x st a st') (h' : Runs x st b mid) : a = b ∧ st' = mid := by
  unfold Runs at h h'
  rw [h] at h'
  cases h'
  exact ⟨rfl, rfl⟩

theorem run_bind {f : α → ExceptT ε (StateM σ) β} :
    (x >>= f).run.run st =
      match x.run.run st with
      | (.ok a, mid) => (f a).run.run mid
      | (.error e, mid) => (.error e, mid) := by
  rw [ExceptT.run_bind, StateT.run_bind]
  show (match x.run.run st with | (r, mid) => _) = _
  rcases x.run.run st with ⟨_ | a, mid⟩ <;> rfl

theorem runs_bind {f : α → ExceptT ε (StateM σ) β} {b : β} :
    Runs (x >>= f) st b st' ↔ ∃ a mid, Runs x st a mid ∧ Runs (f a) mid b st' := by
  unfold Runs
  rw [run_bind]
  rcases hx : x.run.run st with ⟨e | a, mid⟩
  · constructor
    · intro h
      cases h
    · rintro ⟨a, mid', h, -⟩
      cases h
  · constructor
    · intro h
      exact ⟨a, mid, rfl, h⟩
    · rintro ⟨a', mid', h, h'⟩
      cases h
      exact h'

@[simp]
theorem runs_pure {b : α} : Runs (pure b : ExceptT ε (StateM σ) α) st a st' ↔ a = b ∧ st = st' := by
  constructor
  · intro h
    cases h
    exact ⟨rfl, rfl⟩
  · rintro ⟨rfl, rfl⟩
    rfl

@[simp]
theorem runs_throw {e : ε} : ¬Runs (throw e : ExceptT ε (StateM σ) α) st a st' := by
  intro h
  cases h

@[simp]
theorem runs_get {s : σ} : Runs (get : ExceptT ε (StateM σ) σ) st s st' ↔ st = s ∧ st = st' := by
  constructor
  · intro h
    cases h
    exact ⟨rfl, rfl⟩
  · rintro ⟨rfl, rfl⟩
    rfl

@[simp]
theorem runs_set {s : σ} {u : PUnit} : Runs (set s : ExceptT ε (StateM σ) PUnit) st u st' ↔ st' = s := by
  constructor
  · intro h
    cases h
    rfl
  · rintro rfl
    rfl

@[simp]
theorem runs_modify {f : σ → σ} {u : PUnit} :
    Runs (modify f : ExceptT ε (StateM σ) PUnit) st u st' ↔ st' = f st := by
  constructor
  · intro h
    cases h
    rfl
  · rintro rfl
    rfl

/-! ### Results -/

/-- Whatever the step gives is like this. -/
def Always (x : ExceptT ε (StateM σ) α) (Q : α → Prop) : Prop := ∀ st a st', Runs x st a st' → Q a

theorem always_pure {Q : α → Prop} (h : Q a) : Always (pure a : ExceptT ε (StateM σ) α) Q := by
  intro st a' st' hrun
  obtain ⟨rfl, -⟩ := runs_pure.1 hrun
  exact h

theorem Always.bind {f : α → ExceptT ε (StateM σ) β} {Q : α → Prop} {R : β → Prop} (hx : Always x Q)
    (hf : ∀ a, Q a → Always (f a) R) : Always (x >>= f) R := by
  intro st b st' hrun
  obtain ⟨a, mid, hfirst, hrun⟩ := runs_bind.1 hrun
  exact hf a (hx st a mid hfirst) mid b st' hrun

theorem Always.bind_pure {f : α → β} {Q : α → Prop} {R : β → Prop} (hx : Always x Q) (hf : ∀ a, Q a → R (f a)) :
    Always (x >>= fun a => pure (f a)) R :=
  hx.bind fun a ha => always_pure (hf a ha)

/-- A step whose result does not matter. -/
theorem always_skip {f : α → ExceptT ε (StateM σ) β} {R : β → Prop} (hf : ∀ a, Always (f a) R) :
    Always (x >>= f) R := by
  intro st b st' hrun
  obtain ⟨a, mid, -, hrun⟩ := runs_bind.1 hrun
  exact hf a mid b st' hrun

theorem always_throw {e : ε} {Q : α → Prop} : Always (throw e : ExceptT ε (StateM σ) α) Q :=
  fun _ _ _ hrun => absurd hrun runs_throw

/-! ### Look-ups -/

/-- The step leaves the state as it is, whether it succeeds or not, and what it gives is like this. -/
def Looks (x : ExceptT ε (StateM σ) α) (P : α → Prop) : Prop :=
  ∀ st, (x.run.run st).2 = st ∧ ∀ a, (x.run.run st).1 = .ok a → P a

section Looks

variable {P : α → Prop}

theorem looks_pure (h : P a) : Looks (pure a : ExceptT ε (StateM σ) α) P := by
  refine fun st => ⟨rfl, fun b hb => ?_⟩
  cases hb
  exact h

theorem looks_throw {e : ε} : Looks (throw e : ExceptT ε (StateM σ) α) P := fun _ => ⟨rfl, fun _ h => nomatch h⟩

theorem looks_get : Looks (get : ExceptT ε (StateM σ) σ) fun _ => True := fun _ => ⟨rfl, fun _ _ => trivial⟩

theorem Looks.runs (h : Looks x P) (hrun : Runs x st a st') : P a ∧ st = st' := by
  obtain ⟨hsame, ha⟩ := h st
  rw [show x.run.run st = (.ok a, st') from hrun] at hsame ha
  exact ⟨ha a rfl, hsame.symm⟩

theorem Looks.imp {Q : α → Prop} (h : Looks x P) (hPQ : ∀ a, P a → Q a) : Looks x Q :=
  fun st => ⟨(h st).1, fun a ha => hPQ a ((h st).2 a ha)⟩

theorem Looks.always (h : Looks x P) : Always x P := fun _ _ _ hrun => (h.runs hrun).1

theorem Looks.bind {f : α → ExceptT ε (StateM σ) β} {Q : β → Prop} (hx : Looks x P) (hf : ∀ a, P a → Looks (f a) Q) :
    Looks (x >>= f) Q := by
  intro st
  obtain ⟨hsame, ha⟩ := hx st
  rw [run_bind]
  rcases hrun : x.run.run st with ⟨e | a, mid⟩
  · rw [hrun] at hsame
    exact ⟨hsame, fun _ h => nomatch h⟩
  · rw [hrun] at hsame ha
    obtain rfl : mid = st := hsame
    exact hf a (ha a rfl) mid

theorem looks_forM {γ : Type} {l : List γ} {f : γ → ExceptT ε (StateM σ) PUnit}
    (h : ∀ c, Looks (f c) fun _ => True) : Looks (l.forM f) fun _ => True := by
  induction l with
  | nil => exact looks_pure trivial
  | cons c l ih => exact (h c).bind fun _ _ => ih

end Looks

end HaxeBackend
