import HaxeBackend.Proofs.Naming.Units

/-!
# Names that variables can have

Variables are told apart by a number behind an underscore (`IsNumbered`).  No word of the full name of a generated
class looks like this (`not_isNumbered_head`), since an underscore in it has a letter behind it or nothing.  A word
without underscores is the name of a variable only if that is its own name (`escapeMember_eq_iff`).
-/

namespace HaxeBackend.Naming

/-- A name with a number behind it. -/
def IsNumbered (name : String) : Prop := ∃ (base : String) (n : Nat), name = s!"{base}_{n}"

private theorem toList_numbered (base : String) (n : Nat) :
    (s!"{base}_{n}").toList = base.toList ++ '_' :: Nat.toDigits 10 n := by
  simp [toString, Nat.repr_eq_ofList_toDigits]

theorem not_isNumbered_of_not_mem {name : String} (h : '_' ∉ name.toList) : ¬IsNumbered name := by
  rintro ⟨base, n, rfl⟩
  rw [toList_numbered] at h
  exact h (by simp)

/-- A numbered name ends in a digit. -/
theorem not_isNumbered_of_getLast? {name : String} {c : Char} (h : name.toList.getLast? = some c)
    (hc : c.isDigit = false) : ¬IsNumbered name := by
  rintro ⟨base, n, rfl⟩
  obtain ⟨digits, d, hdigits⟩ : ∃ digits d, Nat.toDigits 10 n = digits ++ [d] :=
    ⟨_, _, (List.dropLast_concat_getLast Nat.toDigits_ne_nil).symm⟩
  have hmem : d ∈ Nat.toDigits 10 n := by simp [hdigits]
  have hd : d.isDigit = true := Nat.isDigit_of_mem_toDigits (by decide) (by decide) hmem
  rw [toList_numbered, hdigits, ← List.cons_append, ← List.append_assoc, List.getLast?_concat] at h
  cases h
  rw [hd] at hc
  cases hc

/-- Different numbers give different names, and a numbered name is not the name without the number. -/
theorem numbered_injective (base : String) : Function.Injective fun n : Nat => s!"{base}_{n}" := by
  intro n m h
  have hlist := congrArg String.toList h
  simp only [toList_numbered, List.append_cancel_left_eq, List.cons.injEq, true_and] at hlist
  have hnumber := congrArg (fun digits => Nat.ofDigitChars 10 digits 0) hlist
  simpa using hnumber

theorem numbered_ne (base : String) (n : Nat) : s!"{base}_{n}" ≠ base := by
  intro h
  have hlength := congrArg (List.length ∘ String.toList) h
  simp only [Function.comp_apply, toList_numbered, List.length_append, List.length_cons] at hlength
  omega

private theorem underscore_not_mem_toDigits (n : Nat) : '_' ∉ Nat.toDigits 10 n := fun h =>
  absurd (Nat.isDigit_of_mem_toDigits (by decide) (by decide) h) (by decide)

/-- The number stands behind the last underscore, so a numbered name says what was numbered. -/
theorem numbered_inj {base other : String} {n m : Nat} (h : s!"{base}_{n}" = s!"{other}_{m}") :
    base = other ∧ n = m := by
  have hlist := congrArg String.toList h
  rw [toList_numbered, toList_numbered, List.append_eq_append_iff] at hlist
  have hbase : base = other := by
    rcases hlist with ⟨_ | ⟨c, more⟩, hother, hrest⟩ | ⟨_ | ⟨c, more⟩, hbase, hrest⟩
    · exact String.toList_injective (by simpa using hother.symm)
    · obtain ⟨rfl, hdigits⟩ := List.cons.inj hrest
      exact absurd (hdigits ▸ List.mem_append_right _ List.mem_cons_self) (underscore_not_mem_toDigits n)
    · exact String.toList_injective (by simpa using hbase)
    · obtain ⟨rfl, hdigits⟩ := List.cons.inj hrest
      exact absurd (hdigits ▸ List.mem_append_right _ List.mem_cons_self) (underscore_not_mem_toDigits m)
  subst hbase
  exact ⟨rfl, numbered_injective base h⟩

/-! ### Words of class names -/

/-- No digit stands right behind an underscore. -/
private def noDigitBehind : List Char → Bool
  | '_' :: c :: cs => !c.isDigit && noDigitBehind (c :: cs)
  | _ :: cs => noDigitBehind cs
  | [] => true

private theorem noDigitBehind_mark (c : Char) (cs : List Char) :
    noDigitBehind ('_' :: c :: cs) = (!c.isDigit && noDigitBehind (c :: cs)) := rfl

private theorem noDigitBehind_cons {c : Char} (hc : c ≠ '_') (cs : List Char) :
    noDigitBehind (c :: cs) = noDigitBehind cs := by
  rw [noDigitBehind]
  rintro c' cs' rfl
  exact absurd rfl hc

private theorem noDigitBehind_append {cs : List Char} (hcs : ∀ c ∈ cs, c ≠ '_') (rest : List Char) :
    noDigitBehind (cs ++ rest) = noDigitBehind rest := by
  induction cs with
  | nil => rfl
  | cons c cs ih =>
    obtain ⟨hc, hcs⟩ := List.forall_mem_cons.1 hcs
    rw [List.cons_append, noDigitBehind_cons hc, ih hcs]

/-- A digit behind an underscore is found wherever it is. -/
private theorem noDigitBehind_digit (pre : List Char) {d : Char} (hd : d.isDigit = true) (post : List Char) :
    noDigitBehind (pre ++ '_' :: d :: post) = false := by
  induction pre with
  | nil => simp [noDigitBehind_mark, hd]
  | cons c pre ih =>
    by_cases hc : c = '_'
    · subst hc
      cases pre with
      | nil => simp [noDigitBehind_mark, hd]
      | cons c' pre =>
        rw [List.cons_append, List.cons_append, noDigitBehind_mark, ← List.cons_append, ih, Bool.and_false]
    · rw [List.cons_append, noDigitBehind_cons hc, ih]

private theorem not_isNumbered_of_noDigitBehind {name : String} (h : noDigitBehind name.toList = true) :
    ¬IsNumbered name := by
  rintro ⟨base, n, rfl⟩
  rw [toList_numbered] at h
  cases hdigits : Nat.toDigits 10 n with
  | nil => exact absurd hdigits Nat.toDigits_ne_nil
  | cons d ds =>
    have hd : d.isDigit = true :=
      Nat.isDigit_of_mem_toDigits (by decide) (by decide) (hdigits ▸ List.mem_cons_self)
    rw [hdigits, noDigitBehind_digit base.toList hd] at h
    cases h

private theorem noDigitBehind_encodeIdentChar (c : Char) (rest : List Char) :
    noDigitBehind (encodeIdentChar c ++ rest) = noDigitBehind rest := by
  have hletter : ∀ tag : Char, tag.isDigit = false → tag ≠ '_' → ∀ cs,
      noDigitBehind ('_' :: tag :: cs) = noDigitBehind cs := by
    intro tag htag htag' cs
    rw [noDigitBehind_mark, htag, noDigitBehind_cons htag']
    rfl
  unfold encodeIdentChar
  split
  · rename_i halnum
    refine noDigitBehind_cons ?_ rest
    rintro rfl
    exact absurd halnum (by decide)
  · split
    · exact hletter 'u' (by decide) (by decide) rest
    · split
      · exact hletter 'd' (by decide) (by decide) rest
      · show noDigitBehind ('_' :: 'x' :: (Text.hexDigits Text.hexDigit 6 c.toNat ++ rest)) = _
        rw [hletter 'x' (by decide) (by decide), noDigitBehind_append]
        rintro d hd rfl
        exact absurd (isAsciiAlnum_hexDigits hd) (by decide)

private theorem noDigitBehind_encodeIdent (text : List Char) : noDigitBehind (encodeIdent text) = true := by
  have hflat : noDigitBehind (text.flatMap encodeIdentChar) = true := by
    induction text with
    | nil => rfl
    | cons c text ih => rw [List.flatMap_cons, noDigitBehind_encodeIdentChar, ih]
  unfold encodeIdent
  split
  · show noDigitBehind ('_' :: 'n' :: text.flatMap encodeIdentChar) = true
    rw [noDigitBehind_mark, noDigitBehind_cons (by decide), hflat]
    rfl
  · exact hflat

private theorem noDigitBehind_concat {cs : List Char} (h : noDigitBehind cs = true) :
    noDigitBehind (cs ++ ['_']) = true := by
  induction cs using noDigitBehind.induct with
  | case1 c cs ih =>
    rw [noDigitBehind_mark, Bool.and_eq_true] at h
    show noDigitBehind ('_' :: c :: (cs ++ ['_'])) = true
    rw [noDigitBehind_mark, h.1]
    exact ih h.2
  | case2 c cs hc ih =>
    cases cs with
    | nil =>
      by_cases hc' : c = '_'
      · subst hc'
        decide
      · rw [List.cons_append, noDigitBehind_cons hc']
        rfl
    | cons c' cs =>
      have hne : c ≠ '_' := fun h => hc c' cs h rfl
      rw [noDigitBehind_cons hne] at h
      rw [List.cons_append, noDigitBehind_cons hne]
      exact ih h
  | case3 => rfl

private theorem noDigitBehind_adjust {stem : String} (hstem : ∀ cs, noDigitBehind (stem.toList ++ cs) = noDigitBehind cs)
    (wanted : Char → Bool) (taken : List String) (text : List Char) :
    noDigitBehind (adjust stem wanted taken (encodeIdent text)).toList = true := by
  obtain ⟨isTaken, heq⟩ := toList_adjust stem wanted taken (encodeIdent text)
  have hword : noDigitBehind ((if (encodeIdent text).head?.any wanted then [] else stem.toList) ++ encodeIdent text) =
      true := by
    split
    · exact noDigitBehind_encodeIdent text
    · rw [hstem, noDigitBehind_encodeIdent]
  rw [heq]
  cases isTaken with
  | true => exact noDigitBehind_concat hword
  | false => simpa using hword

private theorem noDigitBehind_packageSegment (segment : List Char) :
    noDigitBehind (packageSegment segment).toList = true := by
  refine noDigitBehind_adjust (fun cs => ?_) _ _ _
  show noDigitBehind ('p' :: '_' :: 'l' :: cs) = _
  rw [noDigitBehind_cons (by decide), noDigitBehind_mark, noDigitBehind_cons (by decide)]
  rfl

private theorem noDigitBehind_simple (source : Name) : noDigitBehind (simple source).toList = true := by
  refine noDigitBehind_adjust (fun cs => ?_) _ _ _
  show noDigitBehind ('C' :: '_' :: 'l' :: cs) = _
  rw [noDigitBehind_cons (by decide), noDigitBehind_mark, noDigitBehind_cons (by decide)]
  rfl

/-- The part of a name in front of its first dot. -/
def headWord (name : String) : String := String.ofList ((Text.splitAt '.' name.toList).headD [])

/-- The first word of the full name of a generated class. -/
theorem headWord_generated (source : Name) :
    headWord (generated source) = (packageParts source).head?.elim (simple source) packageSegment := by
  unfold headWord
  rw [splitAt_generated]
  cases packageParts source with
  | nil => simp
  | cons part parts => simp

/-- Companions stand below their class. -/
theorem headWord_companion (source : Name) (kind : Companion) :
    headWord (companion source kind) = headWord (generated source) := by
  unfold headWord
  rw [splitAt_companion, splitAt_generated]
  cases packageParts source with
  | nil => simp
  | cons part parts => simp

theorem not_isNumbered_head (source : Name) : ¬IsNumbered (headWord (generated source)) := by
  rw [headWord_generated]
  cases (packageParts source).head? with
  | none =>
    rw [Option.elim_none]
    exact not_isNumbered_of_noDigitBehind (noDigitBehind_simple source)
  | some part =>
    rw [Option.elim_some]
    exact not_isNumbered_of_noDigitBehind (noDigitBehind_packageSegment part)

private theorem head?_adjust_ne {stem : String} {wanted : Char → Bool} {taken : List String}
    (hstem : ∀ cs, (stem.toList ++ cs).head? ≠ some '_') (hwanted : wanted '_' = false) (text : List Char) :
    (adjust stem wanted taken (encodeIdent text)).toList.head? ≠ some '_' := by
  obtain ⟨isTaken, heq⟩ := toList_adjust stem wanted taken (encodeIdent text)
  rw [heq, List.append_assoc]
  split
  · rename_i hhead
    obtain ⟨c, hc, hcwanted⟩ := (Option.any_eq_true _ _).1 hhead
    rw [List.nil_append, List.head?_append, hc]
    intro h
    rw [Option.some_or, Option.some_inj] at h
    exact Bool.false_ne_true (hwanted.symm.trans (h ▸ hcwanted))
  · exact hstem _

/-- The name of a generated class starts with a letter. -/
theorem head?_headWord_ne (source : Name) : (headWord (generated source)).toList.head? ≠ some '_' := by
  rw [headWord_generated]
  cases (packageParts source).head? with
  | none =>
    rw [Option.elim_none, simple]
    exact head?_adjust_ne (fun cs => by simp) (by decide) _
  | some part =>
    rw [Option.elim_some, packageSegment]
    exact head?_adjust_ne (fun cs => by simp) (by decide) _

/-! ### Names of their own -/

/-- A reserved word is no target name of anything: there is an underscore behind it. -/
theorem escapeMember_ne {word : String} (hreserved : isReserved word.toList = true)
    (hlast : word.toList.getLast? ≠ some '_') (text : Name) : escapeMember text ≠ word := by
  rintro rfl
  unfold escapeMember at hreserved hlast
  dsimp only at hreserved hlast
  split at hreserved
  · rename_i hword
    rw [if_pos hword, String.toList_ofList, List.getLast?_concat] at hlast
    exact hlast rfl
  · rename_i hword
    rw [String.toList_ofList] at hreserved
    exact hword hreserved

/-- A name without an underscore that is not reserved is only the target name of itself. -/
theorem escapeMember_eq_iff {word : String} (hword : ∀ c ∈ word.toList, isAsciiAlnum c = true)
    (hmark : needsMark word.toList = false) (hreserved : isReserved word.toList = false) {text : Name} :
    escapeMember text = word ↔ text = word := by
  have hunderscore : '_' ∉ word.toList := fun h => absurd (hword '_' h) (by decide)
  have hkept : word.toList.map (fun c => if isAsciiAlnum c || c = '_' then c else '_') = word.toList := by
    conv_rhs => rw [← List.map_id word.toList]
    exact List.map_congr_left fun c hc => by simp [hword c hc]
  constructor
  · intro h
    have hlist := congrArg String.toList h
    unfold escapeMember at hlist
    dsimp only at hlist
    split at hlist
    · rw [String.toList_ofList] at hlist
      exact absurd (hlist ▸ List.mem_append_right _ List.mem_cons_self) hunderscore
    · rw [String.toList_ofList] at hlist
      unfold sanitize at hlist
      dsimp only at hlist
      split at hlist
      · exact absurd (hlist ▸ List.mem_cons_self) hunderscore
      · -- no character was replaced, since none became an underscore
        have hsame : ∀ c ∈ text.toList, (if isAsciiAlnum c || c = '_' then c else '_') = c := by
          intro c hc
          split
          · rfl
          · rename_i hother
            have hmem : '_' ∈ word.toList := by
              rw [← hlist, List.mem_map]
              exact ⟨c, hc, if_neg hother⟩
            exact absurd hmem hunderscore
        rw [List.map_congr_left hsame, List.map_id'] at hlist
        exact String.toList_injective hlist
  · rintro rfl
    unfold escapeMember sanitize
    simp only [hkept, hmark, Bool.false_eq_true, if_false, hreserved]
    exact String.ofList_toList

end HaxeBackend.Naming
