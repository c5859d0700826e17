import HaxeBackend.Naming.Encoding
import HaxeBackend.Model.Descriptor
import Mathlib.Algebra.Group.Nat.Defs

/-!
# Encodings can be read back

Characters are encoded by words of which none is the start of another (`Escapes.splits`), so a text of such words is
taken apart in one way only (`flatMap_split`).  The key facts: an encoded identifier and an encoded path end where no
word of their code follows (`encodeIdent_split`, `encodePath_split`).
-/

namespace HaxeBackend.Naming

/-! ### Words -/

section Words

variable {α κ : Type} {word : α → List Char} {key : α → κ} {valid : α → Prop} {r r' : List Char}

/-- Two texts that start with words and agree start with words of the same key and agree behind them. -/
def Splits (word : α → List Char) (key : α → κ) (valid : α → Prop) : Prop :=
  ∀ {a b : α} {r r' : List Char}, valid a → valid b → word a ++ r = word b ++ r' → key a = key b ∧ r = r'

/-- No word is in front. -/
def Stops (word : α → List Char) (r : List Char) : Prop := ∀ (a : α) (r' : List Char), word a ++ r' ≠ r

theorem flatMap_split (hsplits : Splits word key valid) {xs ys : List α} (hxs : ∀ a ∈ xs, valid a)
    (hys : ∀ a ∈ ys, valid a) (hr : Stops word r) (hr' : Stops word r')
    (h : xs.flatMap word ++ r = ys.flatMap word ++ r') : xs.map key = ys.map key ∧ r = r' := by
  induction xs generalizing ys with
  | nil =>
    cases ys with
    | nil => exact ⟨rfl, h⟩
    | cons b ys =>
      rw [List.flatMap_cons, List.append_assoc] at h
      exact absurd h.symm (hr b _)
  | cons a xs ih =>
    cases ys with
    | nil =>
      rw [List.flatMap_cons, List.append_assoc] at h
      exact absurd h (hr' a _)
    | cons b ys =>
      rw [List.flatMap_cons, List.flatMap_cons, List.append_assoc, List.append_assoc] at h
      obtain ⟨hkey, h⟩ := hsplits (hxs a List.mem_cons_self) (hys b List.mem_cons_self) h
      obtain ⟨hkeys, hrest⟩ := ih (fun a ha => hxs a (List.mem_cons_of_mem _ ha))
        (fun a ha => hys a (List.mem_cons_of_mem _ ha)) h
      exact ⟨by rw [List.map_cons, List.map_cons, hkey, hkeys], hrest⟩

end Words

/-! ### Escapes by code point -/

private theorem hexDigit_inj : ∀ a < 16, ∀ b < 16, Text.hexDigit a = Text.hexDigit b → a = b := by decide

private theorem hexDigits_inj (width : Nat) {a b : Nat}
    (h : Text.hexDigits Text.hexDigit width a = Text.hexDigits Text.hexDigit width b) :
    a % 16 ^ width = b % 16 ^ width := by
  induction width generalizing a b with
  | zero => rw [Nat.pow_zero, Nat.mod_one, Nat.mod_one]
  | succ width ih =>
    rw [Text.hexDigits, Text.hexDigits] at h
    obtain ⟨hhigh, hlow⟩ := List.append_inj h (by simp)
    have hlow := hexDigit_inj _ (Nat.mod_lt a (by decide)) _ (Nat.mod_lt b (by decide)) (List.singleton_inj.1 hlow)
    rw [Nat.pow_succ, Nat.mul_comm, Nat.mod_mul, Nat.mod_mul, ih hhigh, hlow]

private theorem toNat_lt (c : Char) : c.toNat < 16 ^ 6 := by
  have hvalid := c.valid
  simp only [UInt32.isValidChar, Nat.isValidChar] at hvalid
  show c.val.toNat < 16 ^ 6
  omega

private theorem hexEscape_split {tag a b : Char} {r r' : List Char}
    (h : hexEscape tag a ++ r = hexEscape tag b ++ r') : a = b ∧ r = r' := by
  unfold hexEscape at h
  obtain ⟨hdigits, hrest⟩ := List.append_inj (List.cons.inj (List.cons.inj h).2).2 (by simp)
  have hcode := hexDigits_inj 6 hdigits
  rw [Nat.mod_eq_of_lt (toNat_lt a), Nat.mod_eq_of_lt (toNat_lt b)] at hcode
  exact ⟨Char.toNat_inj.1 hcode, hrest⟩

/-! ### Codes with escapes -/

/-- A code that keeps letters and digits: any other character has a short escape, of which `meaning` says what it
stands for, or one by code point behind the tag `long`. -/
structure Escapes (word : Char → List Char) (key : Char → Char) (long : Char) (meaning : Char → Option Char) : Prop where
  cases : ∀ c, isAsciiAlnum c = true ∧ word c = [c] ∨
    (∃ tag, meaning tag = some (key c) ∧ word c = ['_', tag]) ∨ word c = hexEscape long c
  long_free : meaning long = none

theorem ne_underscore_of_alnum {c : Char} (h : isAsciiAlnum c = true) : c ≠ '_' := by
  rintro rfl
  exact absurd h (by decide)

section Escapes

variable {word : Char → List Char} {key : Char → Char} {long : Char} {meaning : Char → Option Char}

theorem Escapes.splits (hcode : Escapes word key long meaning) : Splits word key fun _ => True := by
  intro a b r r' _ _ h
  have hlong : ∀ {c tag : Char}, meaning tag = some (key c) → tag ≠ long := by
    rintro c tag htag rfl
    rw [hcode.long_free] at htag
    cases htag
  -- the first two characters tell a kept character, a short escape and an escape by code point apart
  rcases hcode.cases a with ⟨ha, hword⟩ | ⟨tag, htag, hword⟩ | hword <;>
    rcases hcode.cases b with ⟨hb, hword'⟩ | ⟨tag', htag', hword'⟩ | hword' <;>
    rw [hword, hword'] at h
  · obtain ⟨rfl, hrest⟩ := List.cons.inj h
    exact ⟨rfl, hrest⟩
  · exact absurd (List.cons.inj h).1 (ne_underscore_of_alnum ha)
  · exact absurd (List.cons.inj h).1 (ne_underscore_of_alnum ha)
  · exact absurd (List.cons.inj h).1.symm (ne_underscore_of_alnum hb)
  · obtain ⟨rfl, hrest⟩ := List.cons.inj (List.cons.inj h).2
    exact ⟨Option.some.inj (htag.symm.trans htag'), hrest⟩
  · exact absurd (List.cons.inj (List.cons.inj h).2).1 (hlong htag)
  · exact absurd (List.cons.inj h).1.symm (ne_underscore_of_alnum hb)
  · exact absurd (List.cons.inj (List.cons.inj h).2).1.symm (hlong htag')
  · obtain ⟨rfl, hrest⟩ := hexEscape_split h
    exact ⟨rfl, hrest⟩

/-- A text starts with a word only if it starts with a letter, a digit or an escape. -/
theorem Escapes.head (hcode : Escapes word key long meaning) (c : Char) (r : List Char) :
    (∃ d r', word c ++ r = d :: r' ∧ isAsciiAlnum d = true) ∨
      ∃ tag r', word c ++ r = '_' :: tag :: r' ∧ (tag = long ∨ meaning tag ≠ none) := by
  rcases hcode.cases c with ⟨hc, hword⟩ | ⟨tag, htag, hword⟩ | hword
  · exact .inl ⟨c, r, by rw [hword]; rfl, hc⟩
  · exact .inr ⟨tag, r, by rw [hword]; rfl, .inr (by rw [htag]; exact Option.some_ne_none _)⟩
  · exact .inr ⟨long, _, by rw [hword]; rfl, .inl rfl⟩

theorem Escapes.stops_nil (hcode : Escapes word key long meaning) : Stops word [] := by
  intro c r h
  rcases hcode.head c r with ⟨d, r', heq, -⟩ | ⟨tag, r', heq, -⟩ <;> rw [heq] at h <;> cases h

/-- A text that starts with another escape starts with no word. -/
theorem Escapes.stops_tag (hcode : Escapes word key long meaning) {tag : Char} (htag : tag ≠ long)
    (hmeaning : meaning tag = none) (r : List Char) : Stops word ('_' :: tag :: r) := by
  intro c r' h
  rcases hcode.head c r' with ⟨d, r'', heq, hd⟩ | ⟨tag', r'', heq, htag'⟩
  · rw [heq] at h
    exact ne_underscore_of_alnum hd (List.cons.inj h).1
  · rw [heq] at h
    rw [(List.cons.inj (List.cons.inj h).2).1] at htag'
    rcases htag' with htag' | htag'
    · exact htag htag'
    · exact htag' hmeaning

/-- A bare underscore is no word. -/
theorem Escapes.stops_underscore (hcode : Escapes word key long meaning) : Stops word ['_'] := by
  intro c r h
  rcases hcode.head c r with ⟨d, r', heq, hd⟩ | ⟨tag, r', heq, -⟩
  · rw [heq] at h
    exact ne_underscore_of_alnum hd (List.cons.inj h).1
  · rw [heq] at h
    cases h

end Escapes

/-! ### Identifiers -/

/-- What the short escapes of identifiers stand for. -/
def identMeaning (tag : Char) : Option Char :=
  if tag = 'u' then some '_' else if tag = 'd' then some '$' else none

theorem escapes_encodeIdentChar : Escapes encodeIdentChar id 'x' identMeaning where
  cases c := by
    unfold encodeIdentChar
    split
    · exact .inl ⟨‹_›, rfl⟩
    · split
      · exact .inr (.inl ⟨'u', by simp [identMeaning, *], rfl⟩)
      · split
        · exact .inr (.inl ⟨'d', by simp [identMeaning, *], rfl⟩)
        · exact .inr (.inr rfl)
  long_free := by decide

/-- The mark stands in front of no character of a name that starts without one. -/
private theorem flatMap_ne_mark {text r r' : List Char} (h : needsMark text = false) :
    text.flatMap encodeIdentChar ++ r ≠ '_' :: 'n' :: r' := by
  cases text with
  | nil => cases h
  | cons c text =>
    rw [List.flatMap_cons, List.append_assoc]
    exact escapes_encodeIdentChar.stops_tag (by decide) (by decide) r' c _

/-- No encoded identifier starts with an escape that its code does not have. -/
theorem encodeIdent_ne_tag {tag : Char} (hmark : tag ≠ 'n') (hlong : tag ≠ 'x') (hmeaning : identMeaning tag = none)
    (text r r' : List Char) : encodeIdent text ++ r ≠ '_' :: tag :: r' := by
  unfold encodeIdent
  cases hneeds : needsMark text with
  | true => simp [Ne.symm hmark]
  | false =>
    cases text with
    | nil => cases hneeds
    | cons c text =>
      rw [if_neg Bool.false_ne_true, List.nil_append, List.flatMap_cons, List.append_assoc]
      exact escapes_encodeIdentChar.stops_tag hlong hmeaning r' c _

/-- An encoded identifier ends where no word of its code follows. -/
theorem encodeIdent_split {text text' r r' : List Char} (hr : Stops encodeIdentChar r)
    (hr' : Stops encodeIdentChar r') (h : encodeIdent text ++ r = encodeIdent text' ++ r') :
    text = text' ∧ r = r' := by
  have hflatMap : text.flatMap encodeIdentChar ++ r = text'.flatMap encodeIdentChar ++ r' := by
    unfold encodeIdent at h
    cases hmark : needsMark text <;> cases hmark' : needsMark text' <;>
      simp only [hmark, hmark', Bool.false_eq_true, if_true, if_false, List.nil_append, List.cons_append,
        List.cons.injEq, true_and] at h
    · exact h
    · exact absurd h (flatMap_ne_mark hmark)
    · exact absurd h.symm (flatMap_ne_mark hmark')
    · exact h
  obtain ⟨hkeys, hrest⟩ := flatMap_split escapes_encodeIdentChar.splits (by simp) (by simp) hr hr' hflatMap
  exact ⟨by simpa using hkeys, hrest⟩

/-! ### Paths -/

/-- What the short escapes of paths stand for. -/
def pathMeaning (tag : Char) : Option Char :=
  if tag = '_' then some '_' else if tag = 'S' then some '.' else if tag = 'D' then some '$' else none

theorem escapes_encodePathChar : Escapes encodePathChar Ty.dotted 'X' pathMeaning where
  cases c := by
    unfold encodePathChar
    split
    · exact .inl ⟨‹_›, rfl⟩
    · split
      · exact .inr (.inl ⟨'_', by simp [pathMeaning, Ty.dotted, *], rfl⟩)
      · split
        · rename_i hslash
          refine .inr (.inl ⟨'S', ?_, rfl⟩)
          rcases hslash with rfl | rfl <;> rfl
        · split
          · exact .inr (.inl ⟨'D', by simp [pathMeaning, Ty.dotted, *], rfl⟩)
          · exact .inr (.inr rfl)
  long_free := by decide

/-- An encoded path ends at the terminator of paths or at the end of the text. -/
theorem encodePath_split {path path' r r' : List Char} (hr : Stops encodePathChar r)
    (hr' : Stops encodePathChar r') (h : encodePath path ++ r = encodePath path' ++ r') :
    path.map Ty.dotted = path'.map Ty.dotted ∧ r = r' :=
  flatMap_split escapes_encodePathChar.splits (by simp) (by simp) hr hr' h

end HaxeBackend.Naming
