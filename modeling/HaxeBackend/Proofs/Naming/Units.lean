import HaxeBackend.Naming.Basic
import HaxeBackend.Proofs.Document.Types
import HaxeBackend.Proofs.Naming.Codes
import HaxeBackend.Proofs.Store.Below
import Mathlib.Data.List.Nodup

/-!
# Names and paths of units

A class and each segment of its package are encoded identifiers, with a stem in front where the first letter has the
wrong case and a `_` behind where the word is taken.  Stems, marks and the suffixes of companions are no escapes, so
they can be told from the encoded name (`adjust_split`), and the dots and slashes between the parts stand in none of
them.  The key fact: a path determines its class (`filePath_injective`).
-/

namespace HaxeBackend

/-- All kinds of companions. -/
def Companion.all : List Companion := [staticHolder, proxy, adapter, annotationImpl, library]

@[simp]
theorem Companion.mem_all (kind : Companion) : kind ∈ all := by cases kind <;> simp [all]

namespace Naming

variable {r r' : List Char} {source source' : Name}

/-! ### Characters of names -/

/-- A text of letters, digits and underscores that is not empty. -/
def IsWord (text : List Char) : Prop := text ≠ [] ∧ ∀ c ∈ text, isAsciiAlnum c = true ∨ c = '_'

private theorem isAsciiAlnum_hexDigit : ∀ n < 16, isAsciiAlnum (Text.hexDigit n) = true := by decide

theorem isAsciiAlnum_hexDigits {width n : Nat} {c : Char} (h : c ∈ Text.hexDigits Text.hexDigit width n) :
    isAsciiAlnum c = true := by
  induction width generalizing n with
  | zero => cases h
  | succ width ih =>
    rw [Text.hexDigits, List.mem_append, List.mem_singleton] at h
    rcases h with h | rfl
    · exact ih h
    · exact isAsciiAlnum_hexDigit _ (Nat.mod_lt n (by decide))

private theorem encodeIdentChar_word {c d : Char} (h : d ∈ encodeIdentChar c) : isAsciiAlnum d = true ∨ d = '_' := by
  rcases escapes_encodeIdentChar.cases c with ⟨hc, hword⟩ | ⟨tag, htag, hword⟩ | hword <;> rw [hword] at h
  · rw [List.mem_singleton.1 h]
    exact .inl hc
  · have htag' : isAsciiAlnum tag = true := by
      unfold identMeaning at htag
      split at htag
      · rename_i heq
        rw [heq]
        decide
      · split at htag
        · rename_i heq
          rw [heq]
          decide
        · cases htag
    simp only [List.mem_cons, List.not_mem_nil, or_false] at h
    rcases h with rfl | rfl
    · exact .inr rfl
    · exact .inl htag'
  · simp only [hexEscape, List.mem_cons] at h
    rcases h with rfl | rfl | h
    · exact .inr rfl
    · exact .inl (by decide)
    · exact .inl (isAsciiAlnum_hexDigits h)

theorem isWord_encodeIdent (text : List Char) : IsWord (encodeIdent text) := by
  constructor
  · intro h
    cases text with
    | nil => simp [encodeIdent, needsMark] at h
    | cons c text =>
      rw [encodeIdent, List.append_eq_nil_iff, List.flatMap_cons, List.append_eq_nil_iff] at h
      exact escapes_encodeIdentChar.stops_nil c [] (by rw [h.2.1]; rfl)
  · intro c hc
    rw [encodeIdent, List.mem_append] at hc
    rcases hc with hc | hc
    · split at hc
      · simp only [List.mem_cons, List.not_mem_nil, or_false] at hc
        rcases hc with rfl | rfl
        · exact .inr rfl
        · exact .inl (by decide)
      · cases hc
    · obtain ⟨d, -, hd⟩ := List.mem_flatMap.1 hc
      exact encodeIdentChar_word hd

theorem IsWord.append {text text' : List Char} (h : IsWord text) (h' : ∀ c ∈ text', isAsciiAlnum c = true ∨ c = '_') :
    IsWord (text ++ text') := by
  refine ⟨by simp [h.1], ?_⟩
  intro c hc
  rcases List.mem_append.1 hc with hc | hc
  · exact h.2 c hc
  · exact h' c hc

theorem IsWord.not_mem {text : List Char} (h : IsWord text) {c : Char} (hc : isAsciiAlnum c = false)
    (hunderscore : c ≠ '_') : c ∉ text := by
  intro hmem
  rcases h.2 c hmem with halnum | rfl
  · rw [hc] at halnum
    cases halnum
  · exact hunderscore rfl

/-! ### Adjusted words -/

/-- What may stand behind an adjusted word: nothing, or an underscore and an upper-case letter. -/
def IsEnding (r : List Char) : Prop := r = [] ∨ ∃ tag r', r = '_' :: tag :: r' ∧ isAsciiUpper tag = true

/-- Behind the encoded name of an adjusted word stands no escape, and nothing that continues a stem. -/
private theorem stops_ending (hr : IsEnding r) (taken : Bool) :
    Stops encodeIdentChar ((if taken then ['_'] else []) ++ r) ∧
      ∀ rest, (if taken then ['_'] else []) ++ r ≠ '_' :: 'l' :: rest := by
  have hlower : ∀ {tag : Char}, isAsciiUpper tag = true → tag ≠ 'x' ∧ identMeaning tag = none ∧ tag ≠ 'l' := by
    intro tag htag
    refine ⟨?_, ?_, ?_⟩
    · rintro rfl
      exact absurd htag (by decide)
    · unfold identMeaning
      split
      · rename_i heq
        exact absurd (heq ▸ htag) (by decide)
      · split
        · rename_i heq
          exact absurd (heq ▸ htag) (by decide)
        · rfl
    · rintro rfl
      exact absurd htag (by decide)
  rcases hr with rfl | ⟨tag, r', rfl, htag⟩ <;> cases taken
  · exact ⟨escapes_encodeIdentChar.stops_nil, by simp⟩
  · exact ⟨escapes_encodeIdentChar.stops_underscore, by simp⟩
  · exact ⟨escapes_encodeIdentChar.stops_tag (hlower htag).1 (hlower htag).2.1 _, by simp [(hlower htag).2.2]⟩
  · exact ⟨escapes_encodeIdentChar.stops_tag (by decide) (by decide) _, by simp⟩

/-- An encoded identifier does not start with a stem. -/
private theorem encodeIdent_ne_stem {first : Char} (hfirst : first ≠ '_') {text tail rest : List Char}
    (htail : ∀ rest, tail ≠ '_' :: 'l' :: rest) : encodeIdent text ++ tail ≠ first :: '_' :: 'l' :: rest := by
  intro h
  cases hneeds : needsMark text with
  | true =>
    rw [encodeIdent, hneeds, if_pos rfl] at h
    exact hfirst (List.cons.inj h).1.symm
  | false =>
    cases text with
    | nil => cases hneeds
    | cons c text =>
      rw [encodeIdent, hneeds, if_neg Bool.false_ne_true, List.nil_append, List.flatMap_cons, List.append_assoc] at h
      rcases escapes_encodeIdentChar.cases c with ⟨-, hword⟩ | ⟨tag, -, hword⟩ | hword <;> rw [hword] at h
      · -- the first character is kept, and the next escape is none of the code
        cases text with
        | nil => exact htail rest (List.cons.inj h).2
        | cons c' text =>
          rw [List.flatMap_cons, List.append_assoc] at h
          exact escapes_encodeIdentChar.stops_tag (by decide) (by decide) rest c' _ (List.cons.inj h).2
      · exact hfirst (List.cons.inj h).1.symm
      · exact hfirst (List.cons.inj h).1.symm

section Adjust

variable {stem : String} {wanted : Char → Bool} {taken : List String}

theorem toList_adjust (stem : String) (wanted : Char → Bool) (taken : List String) (text : List Char) :
    ∃ isTaken : Bool, (adjust stem wanted taken text).toList =
      (if text.head?.any wanted then [] else stem.toList) ++ text ++ if isTaken then ['_'] else [] := by
  unfold adjust
  dsimp only
  split <;> split
  · exact ⟨true, by simp⟩
  · exact ⟨false, by simp⟩
  · exact ⟨true, by simp⟩
  · exact ⟨false, by simp⟩

/-- An adjusted word tells the name it was made for and ends where an ending starts. -/
theorem adjust_split (first : Char) (hstem : stem.toList = [first, '_', 'l']) (hfirst : first ≠ '_') {text text' : List Char}
    (hr : IsEnding r) (hr' : IsEnding r')
    (h : (adjust stem wanted taken (encodeIdent text)).toList ++ r =
      (adjust stem wanted taken (encodeIdent text')).toList ++ r') : text = text' ∧ r = r' := by
  have htext : text = text' := by
    obtain ⟨isTaken, heq⟩ := toList_adjust stem wanted taken (encodeIdent text)
    obtain ⟨isTaken', heq'⟩ := toList_adjust stem wanted taken (encodeIdent text')
    obtain ⟨hstops, hlower⟩ := stops_ending hr isTaken
    obtain ⟨hstops', hlower'⟩ := stops_ending hr' isTaken'
    rw [heq, heq', List.append_assoc, List.append_assoc, List.append_assoc, List.append_assoc, hstem] at h
    cases hwanted : (encodeIdent text).head?.any wanted <;> cases hwanted' : (encodeIdent text').head?.any wanted <;>
      simp only [hwanted, hwanted', if_true, Bool.false_eq_true, if_false, List.nil_append] at h
    · exact (encodeIdent_split hstops hstops' (List.append_cancel_left h)).1
    · exact absurd h.symm (encodeIdent_ne_stem hfirst hlower')
    · exact absurd h (encodeIdent_ne_stem hfirst hlower)
    · exact (encodeIdent_split hstops hstops' h).1
  rw [htext] at h
  exact ⟨htext, List.append_cancel_left h⟩

theorem isWord_adjust (hstem : IsWord stem.toList) (text : List Char) :
    IsWord (adjust stem wanted taken (encodeIdent text)).toList := by
  obtain ⟨isTaken, heq⟩ := toList_adjust stem wanted taken (encodeIdent text)
  have hword := isWord_encodeIdent text
  rw [heq]
  refine IsWord.append ?_ (by cases isTaken <;> simp)
  split
  · exact hword
  · exact hstem.append hword.2

/-- An adjusted word is not taken. -/
theorem adjust_not_mem (htaken : ∀ word ∈ taken, '_' ∉ word.toList) (text : List Char) :
    adjust stem wanted taken text ∉ taken := by
  unfold adjust
  dsimp only
  split <;> split
  · exact fun h => htaken _ h (by simp)
  · rename_i hfree
    simpa using hfree
  · exact fun h => htaken _ h (by simp)
  · rename_i hfree
    simpa using hfree

end Adjust

/-! ### Classes and companions -/

/-- The segments of the package of a class, as they are in the source. -/
def packageParts (source : Name) : List (List Char) :=
  match (Text.splitLast '.' source.toList).1 with
  | none => []
  | some segments => Text.splitAt '.' segments

/-- The name of a class without its package, as it is in the source. -/
def simplePart (source : Name) : List Char := (Text.splitLast '.' source.toList).2

/-- A name is made up of its parts. -/
theorem eq_of_parts (hpackage : packageParts source = packageParts source')
    (hsimple : simplePart source = simplePart source') : source = source' := by
  unfold packageParts at hpackage
  unfold simplePart at hsimple
  refine String.toList_inj.1 ?_
  rcases Text.splitLast_eq '.' source.toList with ⟨h, -⟩ | ⟨before, after, h, heq, -⟩ <;>
    rcases Text.splitLast_eq '.' source'.toList with ⟨h', -⟩ | ⟨before', after', h', heq', -⟩ <;>
    rw [h, h'] at hpackage hsimple <;> dsimp only at hpackage hsimple
  · exact hsimple
  · exact absurd hpackage.symm (Text.splitAt_ne_nil _ _)
  · exact absurd hpackage (Text.splitAt_ne_nil _ _)
  · have hbefore : before = before' := by
      rw [← Text.intercalate_splitAt '.' before, hpackage, Text.intercalate_splitAt]
    rw [heq, heq', hbefore, hsimple]

theorem package_eq (source : Name) : package source = ".".intercalate ((packageParts source).map packageSegment) := by
  unfold package packageParts
  cases (Text.splitLast '.' source.toList).1 <;> rfl

theorem simple_split (hr : IsEnding r) (hr' : IsEnding r')
    (h : (simple source).toList ++ r = (simple source').toList ++ r') :
    simplePart source = simplePart source' ∧ r = r' :=
  adjust_split 'C' (by decide) (by decide) hr hr' h

theorem packageSegment_injective : Function.Injective packageSegment := by
  intro a b h
  have hlist : (packageSegment a).toList ++ [] = (packageSegment b).toList ++ [] := by rw [h]
  exact (adjust_split 'p' (by decide) (by decide) (.inl rfl) (.inl rfl) hlist).1

private theorem isWord_of_all {text : List Char} (hne : text ≠ [])
    (h : (text.all fun c => isAsciiAlnum c || c == '_') = true) : IsWord text := by
  refine ⟨hne, fun c hc => ?_⟩
  have hword := List.all_eq_true.1 h c hc
  rwa [Bool.or_eq_true, beq_iff_eq] at hword

theorem isWord_packageSegment (segment : List Char) : IsWord (packageSegment segment).toList :=
  isWord_adjust (isWord_of_all (by decide) (by decide)) segment

theorem isWord_simple (source : Name) : IsWord (simple source).toList :=
  isWord_adjust (isWord_of_all (by decide) (by decide)) _

theorem isWord_companionSimple (source : Name) (kind : Companion) : IsWord (companionSimple source kind).toList := by
  have hsuffix : IsWord kind.suffix.toList := by
    cases kind <;> exact isWord_of_all (by decide) (by decide)
  rw [companionSimple, String.toList_append]
  exact (isWord_simple source).append hsuffix.2

/-! ### Packages and paths -/

/-- The segments of a package. -/
def segmentsOf (package : String) : List String :=
  if package.isEmpty then [] else (Text.splitAt '.' package.toList).map String.ofList

private theorem not_mem_segments {sep : Char} (hsep : isAsciiAlnum sep = false) (hunderscore : sep ≠ '_') :
    ∀ segment ∈ (packageParts source).map fun part => (packageSegment part).toList, sep ∉ segment := by
  intro segment hsegment
  obtain ⟨part, -, rfl⟩ := List.mem_map.1 hsegment
  exact (isWord_packageSegment part).not_mem hsep hunderscore

private theorem toList_package (source : Name) :
    (package source).toList = ['.'].intercalate ((packageParts source).map fun part => (packageSegment part).toList) := by
  rw [package_eq, String.toList_intercalate, List.map_map]
  rfl

private theorem isEmpty_package (source : Name) : (package source).isEmpty = (packageParts source).isEmpty := by
  cases hparts : packageParts source with
  | nil =>
    rw [package_eq, hparts]
    rfl
  | cons part parts =>
    have hne : (package source).toList ≠ [] := by
      obtain ⟨c, word, hword⟩ := List.exists_cons_of_ne_nil (isWord_packageSegment part).1
      rw [toList_package, hparts, List.map_cons, hword]
      cases parts <;> simp [List.intercalate_cons_cons]
    simpa using hne

theorem segmentsOf_package (source : Name) :
    segmentsOf (package source) = (packageParts source).map packageSegment := by
  unfold segmentsOf
  rw [isEmpty_package]
  split
  · rename_i hempty
    rw [List.isEmpty_iff.1 hempty, List.map_nil]
  · rename_i hempty
    have hne : ((packageParts source).map fun part => (packageSegment part).toList) ≠ [] := by simpa using hempty
    rw [toList_package, Text.splitAt_intercalate hne (not_mem_segments (by decide) (by decide)), List.map_map]
    simp

theorem packageParts_eq (h : package source = package source') : packageParts source = packageParts source' := by
  have hsegments := congrArg segmentsOf h
  rw [segmentsOf_package, segmentsOf_package] at hsegments
  exact packageSegment_injective.list_map hsegments

private theorem map_intercalate (sep : Char) {sep' : Char} {parts : List (List Char)} (h : ∀ part ∈ parts, sep ∉ part) :
    ([sep].intercalate parts).map (fun c => if c = sep then sep' else c) = [sep'].intercalate parts := by
  have hpart : ∀ part ∈ parts, part.map (fun c => if c = sep then sep' else c) = part := by
    intro part hmem
    refine (List.map_congr_left fun c hc => if_neg ?_).trans (List.map_id part)
    rintro rfl
    exact h part hmem hc
  induction parts with
  | nil => rfl
  | cons part parts ih =>
    have hfirst := hpart part List.mem_cons_self
    cases parts with
    | nil => simpa using hfirst
    | cons next parts =>
      have hrest := ih (fun part hmem => h part (List.mem_cons_of_mem _ hmem))
        fun part hmem => hpart part (List.mem_cons_of_mem _ hmem)
      rw [List.intercalate_cons_cons, List.intercalate_cons_cons, List.map_append, List.map_append, hfirst, hrest]
      simp

private theorem intercalate_concat {sep : Char} {parts : List (List Char)} (hne : parts ≠ []) (last : List Char) :
    [sep].intercalate (parts ++ [last]) = [sep].intercalate parts ++ sep :: last := by
  induction parts with
  | nil => exact absurd rfl hne
  | cons part parts ih =>
    cases parts with
    | nil => simp [List.intercalate_cons_cons]
    | cons next parts =>
      have hrest := ih (by simp)
      rw [List.cons_append, List.cons_append, List.intercalate_cons_cons, List.intercalate_cons_cons,
        ← List.cons_append, hrest]
      simp

/-- The pieces of the path of a unit: the segments of the package, and the file. -/
theorem pieces_filePath (source : Name) :
    (FilePath.ofText (filePath source)).pieces =
      (packageParts source).map packageSegment ++ [simple source ++ ".hx"] := by
  have hsep : '/' ∉ (simple source ++ ".hx").toList := by
    rw [String.toList_append, List.mem_append, not_or]
    exact ⟨(isWord_simple source).not_mem (by decide) (by decide), by decide⟩
  have hpath : (filePath source).toList = ['/'].intercalate
      (((packageParts source).map fun part => (packageSegment part).toList) ++ [(simple source ++ ".hx").toList]) := by
    unfold filePath
    -- a class without a package has the file as its only piece
    rw [isEmpty_package]
    split
    · rename_i hempty
      rw [List.isEmpty_iff.1 hempty, List.map_nil, List.nil_append, List.intercalate_singleton]
    · rename_i hempty
      have hne : ((packageParts source).map fun part => (packageSegment part).toList) ≠ [] := by simpa using hempty
      rw [intercalate_concat hne, ← map_intercalate '.' (not_mem_segments (by decide) (by decide)),
        ← toList_package]
      simp
  unfold FilePath.ofText
  rw [hpath, Text.splitAt_intercalate (by simp), List.map_append, List.map_map]
  · simp
  · intro part hpart
    rcases List.mem_append.1 hpart with hpart | hpart
    · exact not_mem_segments (by decide) (by decide) part hpart
    · rw [List.mem_singleton.1 hpart]
      exact hsep

/-- Different classes have different paths. -/
theorem filePath_injective : Function.Injective filePath := by
  intro source source' h
  have hpieces : (packageParts source).map packageSegment ++ [simple source ++ ".hx"] =
      (packageParts source').map packageSegment ++ [simple source' ++ ".hx"] := by
    rw [← pieces_filePath, h, pieces_filePath]
  obtain ⟨hsegments, hfile⟩ := List.append_inj' hpieces (by rw [List.length_singleton, List.length_singleton])
  have hsimple : (simple source).toList ++ [] = (simple source').toList ++ [] := by
    have hlist := congrArg String.toList (List.singleton_inj.1 hfile)
    rw [String.toList_append, String.toList_append] at hlist
    rw [List.append_cancel_right hlist]
  exact eq_of_parts (packageSegment_injective.list_map hsegments) (simple_split (.inl rfl) (.inl rfl) hsimple).1

theorem outputComponents_filePath (source : Name) :
    outputComponents (filePath source) = .ok (FilePath.ofText (filePath source)).pieces := by
  have hstep : ∀ piece ∈ (FilePath.ofText (filePath source)).pieces, FilePath.IsStep piece := by
    -- a piece starts with the first character of a word, which is no dot
    have hword : ∀ {word : String} (rest : String), IsWord word.toList → FilePath.IsStep (word ++ rest) := by
      intro word rest hword
      obtain ⟨c, tail, hc⟩ := List.exists_cons_of_ne_nil hword.1
      have hdot := hword.not_mem (c := '.') (by decide) (by decide)
      rw [hc, List.mem_cons, not_or] at hdot
      refine ⟨?_, ?_, ?_⟩ <;> intro h <;> have hlist := congrArg String.toList h <;>
        rw [String.toList_append, hc] at hlist
      · cases hlist
      · exact hdot.1 (List.cons.inj hlist).1.symm
      · exact hdot.1 (List.cons.inj hlist).1.symm
    intro piece hpiece
    rw [pieces_filePath, List.mem_append, List.mem_singleton] at hpiece
    rcases hpiece with hpiece | rfl
    · obtain ⟨part, -, rfl⟩ := List.mem_map.1 hpiece
      simpa using hword "" (isWord_packageSegment part)
    · exact hword ".hx" (isWord_simple source)
  have hall : pathComponents (filePath source) = (FilePath.ofText (filePath source)).pieces := by
    refine List.filter_eq_self.2 fun piece hpiece => ?_
    simpa using (hstep piece hpiece).1
  unfold outputComponents
  dsimp only
  rw [hall, if_neg]
  simp only [Bool.not_eq_true, List.any_eq_false, Bool.or_eq_true, decide_eq_true_eq, not_or]
  exact fun piece hpiece => (hstep piece hpiece).2

/-! ### The types of a program -/

/-- The name of a type that comes of a class: its own, or that of a companion. -/
def typeName (source : Name) : Option Companion → String
  | none => simple source
  | some kind => companionSimple source kind

/-- The package and the name of every type that can come of the classes of a program. -/
def typeNames (p : Program) : List (String × String) :=
  (p.classes.filter fun c => !isNative p c.name).flatMap fun c =>
    (none :: Companion.all.map some).map fun kind => (package c.name, typeName c.name kind)

private theorem isEnding_suffix (kind : Companion) : IsEnding kind.suffix.toList := by
  cases kind <;> exact .inr ⟨_, _, rfl, by decide⟩

private theorem suffix_injective {kind kind' : Companion} (h : kind.suffix = kind'.suffix) : kind = kind' := by
  have hall : ∀ kind ∈ Companion.all, ∀ kind' ∈ Companion.all, kind.suffix = kind'.suffix → kind = kind' := by decide
  exact hall kind kind.mem_all kind' kind'.mem_all h

/-- What stands behind the name of the class in the name of a type. -/
private def ending : Option Companion → List Char
  | none => []
  | some kind => kind.suffix.toList

private theorem toList_typeName (source : Name) (kind : Option Companion) :
    (typeName source kind).toList = (simple source).toList ++ ending kind := by
  cases kind with
  | none => simp [typeName, ending]
  | some kind => simp [typeName, companionSimple, ending]

theorem typeName_inj {kind kind' : Option Companion} (hpackage : package source = package source')
    (h : typeName source kind = typeName source' kind') : source = source' ∧ kind = kind' := by
  have hending : ∀ kind, IsEnding (ending kind) := by
    intro kind
    cases kind with
    | none => exact .inl rfl
    | some kind => exact isEnding_suffix kind
  have hlist := congrArg String.toList h
  rw [toList_typeName, toList_typeName] at hlist
  obtain ⟨hsimple, htail⟩ := simple_split (hending kind) (hending kind') hlist
  refine ⟨eq_of_parts (packageParts_eq hpackage) hsimple, ?_⟩
  have hne : ∀ kind : Companion, kind.suffix.toList ≠ [] := by
    intro kind
    cases kind <;> decide
  cases kind with
  | none =>
    cases kind' with
    | none => rfl
    | some kind' => exact absurd htail.symm (hne kind')
  | some kind =>
    cases kind' with
    | none => exact absurd htail (hne kind)
    | some kind' => rw [suffix_injective (String.toList_inj.1 htail)]

/-! ### Full names -/

theorem toList_generated (source : Name) :
    (generated source).toList = ['.'].intercalate
      (((packageParts source).map fun part => (packageSegment part).toList) ++ [(simple source).toList]) := by
  unfold generated qualify
  rw [isEmpty_package]
  split
  · rename_i hempty
    rw [List.isEmpty_iff.1 hempty, List.map_nil, List.nil_append, List.intercalate_singleton]
  · rename_i hempty
    have hne : ((packageParts source).map fun part => (packageSegment part).toList) ≠ [] := by simpa using hempty
    rw [intercalate_concat hne, ← toList_package]
    simp

private theorem not_mem_generated (source : Name) :
    ∀ part ∈ ((packageParts source).map fun part => (packageSegment part).toList) ++ [(simple source).toList],
      '.' ∉ part := by
  refine List.forall_mem_append.2 ⟨not_mem_segments (by decide) (by decide), List.forall_mem_singleton.2 ?_⟩
  exact (isWord_simple source).not_mem (by decide) (by decide)

/-- The words of the full name of a generated class. -/
theorem splitAt_generated (source : Name) :
    Text.splitAt '.' (generated source).toList =
      ((packageParts source).map fun part => (packageSegment part).toList) ++ [(simple source).toList] := by
  rw [toList_generated, Text.splitAt_intercalate (by simp) (not_mem_generated source)]

/-- The words of the full name of a companion, which stands below that of its class. -/
theorem splitAt_companion (source : Name) (kind : Companion) :
    Text.splitAt '.' (companion source kind).toList =
      ((packageParts source).map fun part => (packageSegment part).toList) ++ [(simple source).toList] ++
        [(companionSimple source kind).toList] := by
  have hword : '.' ∉ (companionSimple source kind).toList :=
    (isWord_companionSimple source kind).not_mem (by decide) (by decide)
  have hlist : (companion source kind).toList = ['.'].intercalate
      (((packageParts source).map fun part => (packageSegment part).toList) ++ [(simple source).toList] ++
        [(companionSimple source kind).toList]) := by
    rw [intercalate_concat (by simp), ← toList_generated]
    simp [companion]
  rw [hlist, Text.splitAt_intercalate (by simp)]
  exact List.forall_mem_append.2 ⟨not_mem_generated source, List.forall_mem_singleton.2 hword⟩

theorem generated_injective : Function.Injective generated := by
  intro source source' h
  have hwords := congrArg (fun name : String => Text.splitAt '.' name.toList) h
  simp only [splitAt_generated] at hwords
  obtain ⟨hsegments, hsimple⟩ := List.append_inj' hwords (by rw [List.length_singleton, List.length_singleton])
  have hlast : (simple source).toList ++ [] = (simple source').toList ++ [] := by rw [List.singleton_inj.1 hsimple]
  refine eq_of_parts ?_ (simple_split (.inl rfl) (.inl rfl) hlast).1
  have hinjective : Function.Injective fun part => (packageSegment part).toList :=
    fun a b h => packageSegment_injective (String.toList_inj.1 h)
  exact hinjective.list_map hsegments

theorem companion_inj {kind kind' : Companion} (h : companion source kind = companion source' kind') :
    source = source' ∧ kind = kind' := by
  have hwords := congrArg (fun name : String => Text.splitAt '.' name.toList) h
  simp only [splitAt_companion, ← splitAt_generated] at hwords
  obtain ⟨hclass, hname⟩ := List.append_inj' hwords (by rw [List.length_singleton, List.length_singleton])
  have hsource : generated source = generated source' := by
    rw [← String.toList_inj, ← Text.intercalate_splitAt '.' (generated source).toList, hclass, Text.intercalate_splitAt]
  obtain rfl := generated_injective hsource
  have htype : typeName source (some kind) = typeName source (some kind') :=
    String.toList_inj.1 (List.singleton_inj.1 hname)
  exact ⟨rfl, Option.some_inj.1 (typeName_inj rfl htype).2⟩

theorem companion_ne_generated {kind : Companion} : companion source kind ≠ generated source' := by
  intro h
  have hwords := congrArg (fun name : String => Text.splitAt '.' name.toList) h
  simp only [splitAt_companion, splitAt_generated] at hwords
  obtain ⟨-, hname⟩ := List.append_inj' hwords (by rw [List.length_singleton, List.length_singleton])
  have hlast : (simple source).toList ++ kind.suffix.toList = (simple source').toList ++ [] := by
    rw [← String.toList_append, List.append_nil]
    exact List.singleton_inj.1 hname
  have hsuffix := (simple_split (isEnding_suffix kind) (.inl rfl) hlast).2
  cases kind <;> cases hsuffix

/-- A name without a dot is not that of a companion. -/
theorem companion_ne_of_not_mem {kind : Companion} {name : String} (h : '.' ∉ name.toList) :
    companion source kind ≠ name := by
  rintro rfl
  exact h (by simp [companion])

private theorem typeNames_nodup (p : Program) : (typeNames p).Nodup := by
  unfold typeNames
  rw [List.nodup_flatMap]
  constructor
  · intro c _
    refine List.Nodup.map ?_ (by decide)
    intro kind kind' h
    exact (typeName_inj rfl (Prod.mk.inj h).2).2
  · have hnames : (p.classes.filter fun c => !isNative p c.name).Pairwise fun c c' => c.name ≠ c'.name :=
      (List.pairwise_map.1 p.distinct).filter _
    refine hnames.imp ?_
    intro c c' hne names hmem hmem'
    obtain ⟨kind, -, rfl⟩ := List.mem_map.1 hmem
    obtain ⟨kind', -, h⟩ := List.mem_map.1 hmem'
    obtain ⟨hpackage, hname⟩ := Prod.mk.inj h
    exact hne (typeName_inj hpackage hname).1.symm

private theorem typeName_not_mem (source : Name) (kind : Option Companion) :
    typeName source kind ∉ standardTypes ++ supportTypes := by
  have hfree : ∀ word ∈ standardTypes ++ supportTypes, '_' ∉ word.toList := by decide
  cases kind with
  | none => exact adjust_not_mem hfree _
  | some kind =>
    refine fun h => hfree _ h ?_
    rw [toList_typeName, List.mem_append]
    refine .inr ?_
    cases kind <;> decide

private theorem packageSegment_not_mem (segment : List Char) :
    packageSegment segment ∉ keywords ++ standardPackages :=
  adjust_not_mem (by decide) _

/-- The types that come of the classes of a program have names of their own, which no type of the target or of the
support library has, in packages that keywords and standard packages do not get in the way of; and every class has a
path of its own, of plain words, that leads to one file below the output directory. -/
theorem type_names_separate (p : Program) :
    (typeNames p).Nodup ∧
    (∀ names ∈ typeNames p, names.2 ∉ standardTypes ++ supportTypes ∧
      ∀ segment ∈ segmentsOf names.1, segment ∉ keywords ++ standardPackages) ∧
    Function.Injective filePath ∧
    ∀ source : Name, ∃ directories file,
      (FilePath.ofText (filePath source)).pieces = directories ++ [file ++ ".hx"] ∧
      (∀ word ∈ directories ++ [file], IsWord word.toList) ∧
      outputComponents (filePath source) = .ok (directories ++ [file ++ ".hx"]) ∧
      ∀ (root : FilePath) (t : FileTree) (text : String) (place : List String),
        (t.writeBelow root (filePath source) text).2.get? place ≠ t.get? place →
          place = t.placeOf root ++ (directories ++ [file ++ ".hx"]) := by
  refine ⟨typeNames_nodup p, ?_, filePath_injective, ?_⟩
  · intro names hnames
    obtain ⟨c, -, hmem⟩ := List.mem_flatMap.1 hnames
    obtain ⟨kind, -, rfl⟩ := List.mem_map.1 hmem
    refine ⟨typeName_not_mem c.name kind, ?_⟩
    intro segment hsegment
    rw [segmentsOf_package] at hsegment
    obtain ⟨part, -, rfl⟩ := List.mem_map.1 hsegment
    exact packageSegment_not_mem part
  · intro source
    -- the pieces of a path are the segments of the package and the simple name, all plain words
    have hparts := outputComponents_filePath source
    rw [pieces_filePath] at hparts
    refine ⟨(packageParts source).map packageSegment, simple source, pieces_filePath source, ?_, hparts,
      fun root t text place h => FileTree.eq_of_get?_writeBelow_ne hparts h⟩
    intro word hword
    rw [List.mem_append, List.mem_singleton] at hword
    rcases hword with hword | rfl
    · obtain ⟨part, -, rfl⟩ := List.mem_map.1 hword
      exact isWord_packageSegment part
    · exact isWord_simple source

/-- Classes whose names are taken, of the wrong case, or look like those of companions. -/
def lookalikeText : String :=
  "\x7b\"classes\": [\x7b\"name\": \"Std\"\x7d, \x7b\"name\": \"Std_Proxy\"\x7d, \x7b\"name\": \"Std_\"\x7d, \x7b\"name\": \"haxe.if..std\"\x7d]\x7d"

theorem type_names_separate_lookalike :
    ∃ p, Program.ofText lookalikeText = .ok p ∧ (typeNames p).Nodup ∧ ("", "Std__Proxy") ∈ typeNames p ∧
      ("", "Std_uProxy") ∈ typeNames p ∧ ("haxe_.if_.p_l_n", "C_lstd") ∈ typeNames p ∧
      "Std__Proxy" ∉ standardTypes ++ supportTypes ∧ "if_" ∉ keywords ++ standardPackages ∧
      filePath "Std" ≠ filePath "Std_" ∧ IsWord "C_lstd".toList := by
  have hcheck : ((Program.ofText lookalikeText).toOption.any fun p =>
      (typeNames p).contains ("", "Std__Proxy") && (typeNames p).contains ("", "Std_uProxy") &&
        (typeNames p).contains ("haxe_.if_.p_l_n", "C_lstd")) = true := by decide +kernel
  obtain ⟨p, hload, hcheck⟩ := Program.exists_of_any_ofText hcheck
  simp only [Bool.and_eq_true, List.contains_iff_mem] at hcheck
  obtain ⟨⟨hproxy, hword⟩, hstd⟩ := hcheck
  obtain ⟨hnodup, hnames, hinjective, hpaths⟩ := type_names_separate p
  obtain ⟨directories, file, hpieces, hwords, -, -⟩ := hpaths "std"
  have hpiece : directories ++ [file ++ ".hx"] = ["C_lstd.hx"] := hpieces.symm.trans (by decide +kernel)
  obtain rfl : directories = [] := by
    cases directories with
    | nil => rfl
    | cons _ _ => simp at hpiece
  obtain rfl : file = "C_lstd" := by
    have hlist := congrArg String.toList (List.singleton_inj.1 hpiece)
    rw [String.toList_append, ← show "C_lstd".toList ++ ".hx".toList = "C_lstd.hx".toList by decide] at hlist
    exact String.toList_inj.1 (List.append_cancel_right hlist)
  exact ⟨p, hload, hnodup, hproxy, hword, hstd, (hnames _ hproxy).1, (hnames _ hstd).2 "if_" (by decide +kernel),
    fun h => absurd (hinjective h) (by decide), hwords "C_lstd" (by simp)⟩

end Naming

end HaxeBackend
