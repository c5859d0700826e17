import HaxeBackend.Model.Interner

/-!
# Tables that grow

A table only ever grows at its end, so a text that has a number keeps it (`Extends.get?_eq`), and the number keeps its
text (`lookup_of_get?`).  Interning extends the table, and then the text has the number that was given out.
-/

namespace HaxeBackend.Interner

variable {t t' t'' : Interner} {s s' : String} {n : Nat}

/-- The second table has the texts of the first one and perhaps more behind them. -/
def Extends (t t' : Interner) : Prop := t.texts <+: t'.texts

theorem Extends.refl (t : Interner) : t.Extends t := List.prefix_refl _

theorem Extends.trans (h : t.Extends t') (h' : t'.Extends t'') : t.Extends t'' := List.IsPrefix.trans h h'

theorem get?_eq_some_iff : t.get? s = some n ↔ t.texts[n]? = some s := t.inverse s n

theorem lookup_of_get? (h : t.get? s = some n) : t.lookup n = s := by
  rw [lookup, get?_eq_some_iff.1 h, Option.getD_some]

/-- A text keeps its number. -/
theorem Extends.get?_eq (h : t.Extends t') (hs : t.get? s = some n) : t'.get? s = some n := by
  rw [get?_eq_some_iff] at hs ⊢
  obtain ⟨hlt, -⟩ := List.getElem?_eq_some_iff.1 hs
  obtain ⟨more, hmore⟩ := h
  rw [← hmore, List.getElem?_append_left hlt, hs]

theorem extends_intern (t : Interner) (s : String) : t.Extends (t.intern s).2 := by
  unfold intern
  split
  · exact .refl t
  · exact List.prefix_append _ _

theorem get?_intern (t : Interner) (s : String) : (t.intern s).2.get? s = some (t.intern s).1 := by
  unfold intern
  split
  · assumption
  · exact List.lookup_cons_self

/-- Whether a text has a number. -/
def shows (t : Interner) (s : String) : Bool := (t.get? s).isSome

theorem Extends.shows (h : t.Extends t') (hs : t.shows s = true) : t'.shows s = true := by
  obtain ⟨n, hn⟩ := Option.isSome_iff_exists.1 hs
  rw [Interner.shows, h.get?_eq hn]
  rfl

/-- The table has a number for each of the texts. -/
def Holds (t : Interner) (texts : List String) : Prop := ∀ s ∈ texts, t.shows s = true

instance (t : Interner) (texts : List String) : Decidable (t.Holds texts) :=
  inferInstanceAs (Decidable (∀ s ∈ texts, t.shows s = true))

theorem Holds.of_extends {texts : List String} (h : t.Holds texts) (hextends : t.Extends t') : t'.Holds texts :=
  fun s hs => hextends.shows (h s hs)

theorem Holds.of_flatMap {α : Type} {texts : α → List String} {l : List α} {x : α} (h : t.Holds (l.flatMap texts))
    (hx : x ∈ l) : t.Holds (texts x) := fun s hs => h s (List.mem_flatMap.2 ⟨x, hx, hs⟩)

end HaxeBackend.Interner
