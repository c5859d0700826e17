/-!
# Lines of a text

A line ends at a line feed, and a carriage return right before that line feed belongs to the line end.  A carriage
return anywhere else is an ordinary character, and a text that ends in a line end has no empty last line.
-/

namespace HaxeBackend.Text

/-- The lines of a list of characters, without their line ends. -/
def splitLines : List Char → List (List Char)
  | [] => []
  | '\n' :: cs => [] :: splitLines cs
  | '\r' :: '\n' :: cs => [] :: splitLines cs
  | c :: cs =>
    match splitLines cs with
    | [] => [[c]]
    | line :: rest => (c :: line) :: rest

/-- A line feed ends a line, and a carriage return right before it is not part of the line. -/
theorem splitLines_append {cs : List Char} (h : '\n' ∉ cs) (rest : List Char) :
    splitLines (cs ++ '\n' :: rest) = (if cs.getLast? = some '\r' then cs.dropLast else cs) :: splitLines rest := by
  induction cs with
  | nil => simp [splitLines]
  | cons c cs ih =>
    simp only [List.mem_cons, not_or] at h
    cases cs with
    | nil =>
      by_cases hc : c = '\r'
      · subst hc
        simp [splitLines]
      · simp [splitLines, hc, Ne.symm h.1]
    | cons d cs =>
      have hd : d ≠ '\n' := fun heq => h.2 (heq ▸ List.mem_cons_self)
      have hnext := ih h.2
      have hstep : splitLines (c :: d :: cs ++ '\n' :: rest) =
          match splitLines (d :: cs ++ '\n' :: rest) with
          | [] => [[c]]
          | line :: more => (c :: line) :: more :=
        splitLines.eq_4 c _ (fun heq => h.1 heq.symm) fun more _ heq => hd (List.cons.inj heq).1
      rw [hstep, hnext]
      simp only [List.getLast?_cons_cons, List.dropLast_cons_cons]
      split <;> rfl

theorem not_mem_of_mem_splitLines {cs line : List Char} (h : line ∈ splitLines cs) : '\n' ∉ line := by
  fun_induction splitLines cs generalizing line with
  | case1 => cases h
  | case2 cs ih =>
    rcases List.mem_cons.1 h with rfl | h
    · exact List.not_mem_nil
    · exact ih h
  | case3 cs ih =>
    rcases List.mem_cons.1 h with rfl | h
    · exact List.not_mem_nil
    · exact ih h
  | case4 c cs hc _ hnone ih =>
    rw [List.mem_singleton.1 h]
    simpa using fun heq => hc heq.symm
  | case5 c cs hc _ first rest hsome ih =>
    rcases List.mem_cons.1 h with rfl | h
    · have hfirst : '\n' ∉ first := ih (by rw [hsome]; exact List.mem_cons_self)
      simp only [List.mem_cons, not_or]
      exact ⟨fun heq => hc heq.symm, hfirst⟩
    · exact ih (by rw [hsome]; exact List.mem_cons_of_mem _ h)

/-- The lines of a text, without their line ends. -/
def lines (text : String) : List String :=
  (splitLines text.toList).map String.ofList

theorem not_mem_of_mem_lines {text line : String} (h : line ∈ lines text) : '\n' ∉ line.toList := by
  obtain ⟨part, hpart, rfl⟩ := List.mem_map.1 h
  rw [String.toList_ofList]
  exact not_mem_of_mem_splitLines hpart

/-- Splits at every occurrence of `sep`; there is always one part more than separators. -/
def splitAt (sep : Char) : List Char → List (List Char)
  | [] => [[]]
  | c :: cs =>
    if c = sep then
      [] :: splitAt sep cs
    else
      match splitAt sep cs with
      | [] => [[c]]
      | part :: rest => (c :: part) :: rest

theorem splitAt_ne_nil (sep : Char) (cs : List Char) : splitAt sep cs ≠ [] := by
  cases cs with
  | nil => simp [splitAt]
  | cons c cs =>
    unfold splitAt
    split
    · simp
    · split <;> simp

theorem not_mem_of_mem_splitAt {sep : Char} {cs part : List Char} (h : part ∈ splitAt sep cs) : sep ∉ part := by
  induction cs generalizing part with
  | nil =>
    rw [List.mem_singleton.1 h]
    exact List.not_mem_nil
  | cons c cs ih =>
    unfold splitAt at h
    split at h
    · rcases List.mem_cons.1 h with rfl | h
      · exact List.not_mem_nil
      · exact ih h
    · rename_i hc
      obtain ⟨first, rest, hparts⟩ := List.exists_cons_of_ne_nil (splitAt_ne_nil sep cs)
      rw [hparts] at h ih
      rcases List.mem_cons.1 h with rfl | h
      · simp only [List.mem_cons, not_or]
        exact ⟨Ne.symm hc, ih List.mem_cons_self⟩
      · exact ih (List.mem_cons_of_mem _ h)

theorem splitAt_of_not_mem {sep : Char} {cs : List Char} (h : sep ∉ cs) : splitAt sep cs = [cs] := by
  induction cs with
  | nil => rfl
  | cons c cs ih =>
    simp only [List.mem_cons, not_or] at h
    simp only [splitAt, Ne.symm h.1, if_false, ih h.2]

theorem splitAt_append {sep : Char} {cs : List Char} (h : sep ∉ cs) (rest : List Char) :
    splitAt sep (cs ++ sep :: rest) = cs :: splitAt sep rest := by
  induction cs with
  | nil => simp [splitAt]
  | cons c cs ih =>
    simp only [List.mem_cons, not_or] at h
    simp only [List.cons_append, splitAt, Ne.symm h.1, if_false, ih h.2]

/-- Parts without the separator that were joined by it are found again. -/
theorem splitAt_intercalate {sep : Char} {parts : List (List Char)} (hne : parts ≠ [])
    (h : ∀ part ∈ parts, sep ∉ part) : splitAt sep ([sep].intercalate parts) = parts := by
  induction parts with
  | nil => exact absurd rfl hne
  | cons part parts ih =>
    cases parts with
    | nil =>
      rw [List.intercalate_singleton]
      exact splitAt_of_not_mem (h part (by simp))
    | cons next parts =>
      rw [List.intercalate_cons_cons, List.append_assoc, List.singleton_append, splitAt_append (h part (by simp)),
        ih (by simp) fun part hpart => h part (List.mem_cons_of_mem _ hpart)]

/-- The parts of a text make it up again. -/
theorem intercalate_splitAt (sep : Char) (cs : List Char) : [sep].intercalate (splitAt sep cs) = cs := by
  induction cs with
  | nil => rfl
  | cons c cs ih =>
    obtain ⟨part, parts, hparts⟩ := List.exists_cons_of_ne_nil (splitAt_ne_nil sep cs)
    rw [hparts] at ih
    unfold splitAt
    rw [hparts]
    split
    · rename_i heq
      rw [List.intercalate_cons_cons, ih, heq]
      rfl
    · cases parts with
      | nil => simpa using ih
      | cons next parts => simpa using ih

/-- Splits at the last occurrence of `sep`: what stands before it (if it occurs) and what stands after it. -/
def splitLast (sep : Char) (cs : List Char) : Option (List Char) × List Char :=
  match cs.reverse.dropWhile (· ≠ sep) with
  | [] => (none, cs)
  | _ :: before => (some before.reverse, (cs.reverse.takeWhile (· ≠ sep)).reverse)

/-- The two sides make up the text again. -/
theorem splitLast_eq (sep : Char) (cs : List Char) :
    (splitLast sep cs = (none, cs) ∧ sep ∉ cs) ∨
      ∃ before after, splitLast sep cs = (some before, after) ∧ cs = before ++ sep :: after ∧ sep ∉ after := by
  unfold splitLast
  have hall := List.takeWhile_append_dropWhile (p := (· ≠ sep)) (l := cs.reverse)
  have hfree : sep ∉ cs.reverse.takeWhile (· ≠ sep) := by
    intro hmem
    simpa using List.all_eq_true.1 List.all_takeWhile sep hmem
  split
  · rename_i hdrop
    refine .inl ⟨rfl, ?_⟩
    rw [hdrop, List.append_nil] at hall
    rw [hall] at hfree
    simpa using hfree
  · rename_i c before hdrop
    have hc := List.head?_dropWhile_not (· ≠ sep) cs.reverse
    rw [hdrop] at hc hall
    obtain rfl : c = sep := by simpa using hc
    refine .inr ⟨before.reverse, _, rfl, ?_, by simpa using hfree⟩
    simpa using (congrArg List.reverse hall).symm

end HaxeBackend.Text
