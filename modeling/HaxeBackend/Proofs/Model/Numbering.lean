import HaxeBackend.Proofs.FirstUse
import HaxeBackend.Proofs.Model.Interner

/-!
# Numbers of texts

A new table has the empty text, and as long as there is room, the texts that are to be numbered follow it in the order
of their first use (`texts_after`).  A number that was given out for a text stays its number (`get?_of_mem_issued`).
So texts and numbers tell each other after any steps (`numbering_ofSteps`).
-/

namespace HaxeBackend

/-- What is done with a table. -/
inductive InternStep where
  | intern (s : String)
  | tryIntern (s : String)
  | get (s : String)
  | lookup (n : Nat)

/-- The text that the step is to number. -/
def InternStep.text? : InternStep → Option String
  | intern s | tryIntern s => some s
  | get _ | lookup _ => none

namespace Interner

variable {t : Interner} {s : String} {seen : List String}

/-! ### Steps -/

/-- The table after a step, and the text that the step numbered with the number that it gave out. -/
def step (t : Interner) : InternStep → Option (String × Nat) × Interner
  | .intern s => (some (s, (t.intern s).1), (t.intern s).2)
  | .tryIntern s =>
    match t.tryIntern s with
    | .ok (n, t') => (some (s, n), t')
    | .error _ => (none, t)
  | .get _ | .lookup _ => (none, t)

/-- The table after steps in order. -/
def after (t : Interner) (steps : List InternStep) : Interner := steps.foldl (fun t x => (t.step x).2) t

/-- The texts that steps numbered with the numbers that they gave out. -/
def issued (t : Interner) : List InternStep → List (String × Nat)
  | [] => []
  | x :: steps => (t.step x).1.toList ++ (t.step x).2.issued steps

/-- The table after steps from a new one. -/
def ofSteps (steps : List InternStep) : Interner := after {} steps

/-- The texts that steps are to number. -/
def numbered (steps : List InternStep) : List String := steps.filterMap InternStep.text?

/-- Where there is room, a text is numbered in either way. -/
theorem tryIntern_eq (h : t.size < capacity) (s : String) : t.tryIntern s = .ok (t.intern s) := by
  simp [tryIntern, h]

private theorem eq_intern_of_tryIntern {r : Nat × Interner} (h : t.tryIntern s = .ok r) : r = t.intern s := by
  unfold tryIntern at h
  split at h
  · exact (Except.ok.inj h).symm
  · cases h

theorem step_of_text? {x : InternStep} (h : t.size < capacity) (hx : x.text? = some s) :
    t.step x = (some (s, (t.intern s).1), (t.intern s).2) := by
  cases x with
  | intern s' =>
    obtain rfl : s' = s := Option.some_inj.1 hx
    rfl
  | tryIntern s' =>
    obtain rfl : s' = s := Option.some_inj.1 hx
    rw [step, tryIntern_eq h]
  | get s' => cases hx
  | lookup n => cases hx

theorem step_of_text?_eq_none {x : InternStep} (hx : x.text? = none) : t.step x = (none, t) := by
  cases x with
  | intern s => cases hx
  | tryIntern s => cases hx
  | get s => rfl
  | lookup n => rfl

/-- A step leaves the table as it is, or it numbers a text. -/
theorem step_cases (t : Interner) (x : InternStep) :
    t.step x = (none, t) ∨ ∃ s, t.step x = (some (s, (t.intern s).1), (t.intern s).2) := by
  cases x with
  | intern s => exact .inr ⟨s, rfl⟩
  | tryIntern s =>
    rw [step]
    split
    · rename_i n t' htry
      obtain ⟨rfl, rfl⟩ := Prod.mk.inj (eq_intern_of_tryIntern htry)
      exact .inr ⟨s, rfl⟩
    · exact .inl rfl
  | get s => exact .inl rfl
  | lookup n => exact .inl rfl

/-- A step only extends the table, and the number that it gives out is that of its text. -/
theorem step_spec (t : Interner) (x : InternStep) :
    t.Extends (t.step x).2 ∧ ∀ y ∈ (t.step x).1, (t.step x).2.get? y.1 = some y.2 := by
  obtain hstep | ⟨s, hstep⟩ := t.step_cases x
  · rw [hstep]
    exact ⟨.refl t, fun y hy => nomatch hy⟩
  · rw [hstep]
    refine ⟨t.extends_intern s, fun y hy => ?_⟩
    obtain rfl := Option.some_inj.1 hy
    exact t.get?_intern s

theorem extends_after (t : Interner) (steps : List InternStep) : t.Extends (t.after steps) := by
  induction steps generalizing t with
  | nil => exact .refl t
  | cons x steps ih => exact (t.step_spec x).1.trans (ih _)

theorem get?_of_mem_issued {steps : List InternStep} {y : String × Nat} (hy : y ∈ t.issued steps) :
    (t.after steps).get? y.1 = some y.2 := by
  induction steps generalizing t with
  | nil => cases hy
  | cons x steps ih =>
    rcases List.mem_append.1 hy with hy | hy
    · exact (extends_after _ steps).get?_eq ((t.step_spec x).2 y (Option.mem_toList.1 hy))
    · exact ih hy

/-! ### Texts in order -/

theorem mem_texts_iff : s ∈ t.texts ↔ (t.get? s).isSome = true := by
  rw [List.mem_iff_getElem?, Option.isSome_iff_exists]
  exact exists_congr fun n => get?_eq_some_iff.symm

/-- A table with the texts in the order of first use is still one after one more text. -/
theorem texts_intern (h : t.texts = seen.eraseDups) (s : String) : (t.intern s).2.texts = (seen ++ [s]).eraseDups := by
  have hseen : s ∈ seen ↔ (t.get? s).isSome = true := by rw [← List.mem_eraseDups, ← h, mem_texts_iff]
  unfold intern
  split
  · rename_i n hn
    rw [eraseDups_concat_of_mem (hseen.2 (Option.isSome_of_eq_some hn)), h]
  · rename_i hnone
    have hnew : s ∉ seen := fun hs => by simp [hnone] at hseen; exact hseen hs
    rw [eraseDups_concat_of_not_mem hnew, ← h]
    rfl

/-- As long as there is room, every text gets a number, and texts are in the order of first use. -/
theorem texts_after {steps : List InternStep} (hsize : (t.after steps).size < capacity)
    (h : t.texts = seen.eraseDups) :
    (t.after steps).texts = (seen ++ numbered steps).eraseDups ∧ (t.issued steps).map Prod.fst = numbered steps := by
  induction steps generalizing t seen with
  | nil => exact ⟨by rw [numbered, List.filterMap_nil, List.append_nil]; exact h, rfl⟩
  | cons x steps ih =>
    have hroom : t.size < capacity := Nat.lt_of_le_of_lt (t.extends_after (x :: steps)).length_le hsize
    cases hx : x.text? with
    | none =>
      have hstep : t.step x = (none, t) := step_of_text?_eq_none hx
      rw [after, List.foldl_cons, hstep] at hsize ⊢
      rw [issued, hstep, numbered, List.filterMap_cons_none hx]
      exact ih hsize h
    | some s =>
      have hstep := step_of_text? hroom hx
      rw [after, List.foldl_cons, hstep] at hsize ⊢
      have hrest := ih hsize (texts_intern h s)
      rw [issued, hstep, numbered, List.filterMap_cons_some hx]
      rw [List.append_assoc] at hrest
      exact ⟨hrest.1, congrArg (s :: ·) hrest.2⟩

/-! ### Numbers -/

/-- After any steps that leave room in the table, texts and numbers are inverse to each other, and texts are numbered in
the order of their first use, the empty one first.  Every text that was to be numbered got a number, which is still its
number and leads back to it, so two of these numbers are the same exactly when their texts are.  No other text but the
empty one has a number, and every other number has the empty text. -/
theorem numbering_ofSteps {steps : List InternStep} (h : (ofSteps steps).size < capacity) :
    (∀ s n, (ofSteps steps).numbers.lookup s = some n ↔ (ofSteps steps).texts[n]? = some s) ∧
    (ofSteps steps).texts = ("" :: numbered steps).eraseDups ∧
    (issued {} steps).map Prod.fst = numbered steps ∧
    (∀ x ∈ issued {} steps, (ofSteps steps).get? x.1 = some x.2 ∧ (ofSteps steps).lookup x.2 = x.1) ∧
    (∀ x ∈ issued {} steps, ∀ y ∈ issued {} steps, x.2 = y.2 ↔ x.1 = y.1) ∧
    (∀ s, ((ofSteps steps).get? s).isSome = true ↔ s = "" ∨ s ∈ numbered steps) ∧
    ∀ n, n ∉ (issued {} steps).map Prod.snd → (ofSteps steps).lookup n = "" := by
  have hnew : ({} : Interner).texts = [""].eraseDups := rfl
  obtain ⟨htexts, hissued⟩ := texts_after h hnew
  have hget : ∀ x ∈ issued {} steps, (ofSteps steps).get? x.1 = some x.2 := fun x => get?_of_mem_issued
  have hmem : ∀ s, ((ofSteps steps).get? s).isSome = true ↔ s = "" ∨ s ∈ numbered steps := by
    intro s
    rw [← mem_texts_iff, show (ofSteps steps).texts = _ from htexts, List.mem_eraseDups]
    exact List.mem_cons
  refine ⟨(ofSteps steps).inverse, htexts, hissued, fun x hx => ⟨hget x hx, lookup_of_get? (hget x hx)⟩, ?_, hmem, ?_⟩
  · intro x hx y hy
    constructor
    · intro heq
      rw [← lookup_of_get? (hget x hx), heq, lookup_of_get? (hget y hy)]
    · intro heq
      have hsame := hget y hy
      rw [← heq, hget x hx] at hsame
      exact Option.some_inj.1 hsame
  · intro n hn
    cases hs : (ofSteps steps).texts[n]? with
    | none =>
      rw [lookup, hs, show (ofSteps steps).texts = _ from htexts, List.singleton_append, List.eraseDups_cons]
      rfl
    | some s =>
      have hnumber := get?_eq_some_iff.2 hs
      rw [lookup_of_get? hnumber]
      -- a text that is there without having been numbered is the empty one
      refine ((hmem s).1 (Option.isSome_of_eq_some hnumber)).resolve_right fun hs => ?_
      rw [← hissued] at hs
      obtain ⟨x, hx, rfl⟩ := List.mem_map.1 hs
      have hsame := hget x hx
      rw [hnumber] at hsame
      exact hn (List.mem_map.2 ⟨x, hx, (Option.some_inj.1 hsame).symm⟩)

private def repeated : List InternStep :=
  [.get "job", .intern "run", .lookup 7, .tryIntern "", .tryIntern "job", .lookup 2, .intern "run"]

/-- The empty text and one that was numbered before get the numbers that they have. -/
theorem numbering_ofSteps_repeated :
    (ofSteps repeated).size < capacity ∧ issued {} repeated = [("run", 1), ("", 0), ("job", 2), ("run", 1)] ∧
      (∀ x ∈ issued {} repeated, (ofSteps repeated).lookup x.2 = x.1) ∧ (ofSteps repeated).lookup 7 = "" := by
  have hsize : (ofSteps repeated).size < capacity := by decide
  obtain ⟨-, -, -, hissued, -, -, hother⟩ := numbering_ofSteps hsize
  exact ⟨hsize, by decide, fun x hx => (hissued x hx).2, hother 7 (by decide)⟩

end Interner

end HaxeBackend
