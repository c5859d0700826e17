/-!
# String tables

Texts numbered densely in the order of their first occurrence.  The empty text always has number 0.  A table is read in
both directions: it has the texts in the order of their numbers, and the number of each text.
-/

namespace HaxeBackend

namespace Interner

/-- Each of the two tells what the other tells. -/
def Inverse (texts : List String) (numbers : List (String × Nat)) : Prop :=
  ∀ s n, numbers.lookup s = some n ↔ texts[n]? = some s

theorem inverse_nil : Inverse [] [] := by
  intro s n
  simp

/-- A new text gets the next number. -/
theorem Inverse.push {texts : List String} {numbers : List (String × Nat)} (h : Inverse texts numbers) {s : String}
    (hs : numbers.lookup s = none) : Inverse (texts ++ [s]) ((s, texts.length) :: numbers) := by
  intro s' n
  rw [List.lookup_cons, List.getElem?_append, List.getElem?_singleton]
  by_cases heq : s' = s
  · subst heq
    have hnew : texts[n]? ≠ some s' := fun hn => by
      rw [(h s' n).2 hn] at hs
      cases hs
    rw [beq_self_eq_true, Option.some.injEq]
    split
    · exact iff_of_false (by omega) hnew
    · have hlast : n - texts.length = 0 ↔ texts.length = n := by omega
      simp [hlast]
  · rw [beq_eq_false_iff_ne.2 heq, h]
    split
    · rfl
    · rename_i hge
      rw [List.getElem?_eq_none (Nat.le_of_not_lt hge)]
      simp [Ne.symm heq]

theorem inverse_new : Inverse [""] [("", 0)] := inverse_nil.push rfl

end Interner

structure Interner where
  /-- The texts in the order of their numbers. -/
  texts : List String := [""]
  /-- The numbers of the texts, the latest first. -/
  numbers : List (String × Nat) := [("", 0)]
  inverse : Interner.Inverse texts numbers := by exact HaxeBackend.Interner.inverse_new

/-- Why a text gets no number. -/
inductive InternError where
  /-- The table is full; it has this many texts. -/
  | overflow (count : Nat)
  deriving DecidableEq, Repr

namespace Interner

/-- How many texts have a number of 32 bits. -/
def capacity : Nat := 4294967296

def size (t : Interner) : Nat := t.texts.length

/-- The number of a text that has one. -/
def get? (t : Interner) (s : String) : Option Nat := t.numbers.lookup s

/-- Gives the next number to a new text. -/
def push (t : Interner) (s : String) (h : t.get? s = none) : Interner where
  texts := t.texts ++ [s]
  numbers := (s, t.size) :: t.numbers
  inverse := t.inverse.push h

/-- The number of a text, the next free one if it is new. -/
def intern (t : Interner) (s : String) : Nat × Interner :=
  match h : t.get? s with
  | some n => (n, t)
  | none => (t.size, t.push s h)

/-- The number of a text, unless it is new and the table is full. -/
def tryIntern (t : Interner) (s : String) : Except InternError (Nat × Interner) :=
  if (t.get? s).isSome || t.size < capacity then .ok (t.intern s) else .error (.overflow t.size)

/-- The text with a number; a number that was never given out has the first text, which is empty. -/
def lookup (t : Interner) (n : Nat) : String := t.texts[n]?.getD (t.texts.headD "")

end Interner

def InternError.message : InternError → String
  | overflow count => s!"interner exceeded capacity: {count} strings, max is {Interner.capacity - 1}"

end HaxeBackend
