import HaxeBackend.Proofs.Naming.Units

/-!
# Names of members are words

The encodings of names, paths and descriptors use letters, digits and underscores only, so the name of a field or of a
method is one word, whatever its source name is.
-/

namespace HaxeBackend.Naming

variable {p : Program} {owner name : Name}

private theorem hexEscape_word {tag c d : Char} (htag : isAsciiAlnum tag = true) (h : d ∈ hexEscape tag c) :
    isAsciiAlnum d = true ∨ d = '_' := by
  rcases List.mem_cons.1 h with rfl | h
  · exact .inr rfl
  · rcases List.mem_cons.1 h with rfl | h
    · exact .inl htag
    · exact .inl (isAsciiAlnum_hexDigits h)

private theorem encodePathChar_word {c d : Char} (h : d ∈ encodePathChar c) : isAsciiAlnum d = true ∨ d = '_' := by
  have hpair : ∀ tag : Char, isAsciiAlnum tag = true ∨ tag = '_' → d ∈ ['_', tag] →
      isAsciiAlnum d = true ∨ d = '_' := by
    intro tag htag hd
    rcases List.mem_cons.1 hd with rfl | hd
    · exact .inr rfl
    · rwa [List.mem_singleton.1 hd]
  unfold encodePathChar at h
  split at h
  · rename_i hc
    rw [List.mem_singleton.1 h]
    exact .inl hc
  · split at h
    · exact hpair _ (.inr rfl) h
    · split at h
      · exact hpair _ (.inl (by decide)) h
      · split at h
        · exact hpair _ (.inl (by decide)) h
        · exact hexEscape_word (by decide) h

theorem encodePath_word {path : List Char} {d : Char} (h : d ∈ encodePath path) : isAsciiAlnum d = true ∨ d = '_' := by
  obtain ⟨c, -, hd⟩ := List.mem_flatMap.1 h
  exact encodePathChar_word hd

private theorem encodeSignatureChar_word {c d : Char} (h : d ∈ encodeSignatureChar c) :
    isAsciiAlnum d = true ∨ d = '_' := by
  unfold encodeSignatureChar at h
  split at h
  · exact .inr (List.mem_singleton.1 h)
  · split at h
    · rw [List.mem_singleton.1 h]
      exact .inl (by decide)
    · split at h
      · rename_i hc
        rw [List.mem_singleton.1 h]
        exact .inl hc
      · exact hexEscape_word (by decide) h

theorem mangle_word {inPath : Bool} {cs : List Char} {d : Char} (h : d ∈ mangle inPath cs) :
    isAsciiAlnum d = true ∨ d = '_' := by
  have hletter : ∀ {tag : Char}, isAsciiAlnum tag = true → d = tag → isAsciiAlnum d = true ∨ d = '_' := by
    rintro tag htag rfl
    exact .inl htag
  induction cs generalizing inPath with
  | nil =>
    cases inPath with
    | false => cases h
    | true =>
      rcases List.mem_cons.1 h with rfl | h
      · exact .inr rfl
      · exact hletter (by decide) (List.mem_singleton.1 h)
  | cons c cs ih =>
    unfold mangle at h
    split at h
    · split at h
      · rcases List.mem_cons.1 h with rfl | h
        · exact .inr rfl
        · rcases List.mem_cons.1 h with rfl | h
          · exact hletter (by decide) rfl
          · exact ih h
      · rcases List.mem_append.1 h with h | h
        · exact encodePathChar_word h
        · exact ih h
    · split at h
      · rcases List.mem_cons.1 h with rfl | h
        · exact hletter (by decide) rfl
        · exact ih h
      · rcases List.mem_append.1 h with h | h
        · exact encodeSignatureChar_word h
        · exact ih h

/-! ### Members -/

theorem isWord_field : IsWord (field p owner name).toList := by
  have hbase : IsWord (encodeMember name.toList) := by
    unfold encodeMember
    dsimp only
    split
    · exact (isWord_encodeIdent _).append fun c hc => .inr (List.mem_singleton.1 hc)
    · exact isWord_encodeIdent _
  unfold field
  dsimp only
  split
  · split
    · rw [String.toList_ofList]
      refine hbase.append fun c hc => ?_
      rcases List.mem_cons.1 hc with rfl | hc
      · exact .inr rfl
      · rcases List.mem_cons.1 hc with rfl | hc
        · exact .inl (by decide)
        · exact encodePath_word hc
    · rwa [String.toList_ofList]
  · rwa [String.toList_ofList]

theorem isWord_virtualMethod (name : Name) (type : MethodTy) : IsWord (virtualMethod name type).toList := by
  rw [virtualMethod, String.toList_ofList]
  exact (isWord_encodeIdent _).append fun _ => mangle_word

theorem isWord_method (owner : Name) (m : Method) : IsWord (method owner m).toList := by
  have htail : ∀ {c : Char}, c ∈ mangle false m.type.signature ++ '_' :: encodePath owner.toList →
      isAsciiAlnum c = true ∨ c = '_' := by
    intro c hc
    rcases List.mem_append.1 hc with hc | hc
    · exact mangle_word hc
    · rcases List.mem_cons.1 hc with rfl | hc
      · exact .inr rfl
      · exact encodePath_word hc
  have hstem : IsWord ['_', 'i', 'n', 'i', 't'] := by simp [IsWord, isAsciiAlnum, isAsciiLower]
  unfold method
  dsimp only
  split
  · rw [String.toList_ofList, List.append_assoc]
    exact hstem.append fun _ => htail
  · split
    · rw [String.toList_ofList, List.append_assoc]
      exact (isWord_encodeIdent _).append fun _ => htail
    · exact isWord_virtualMethod _ _

/-- A parenthesis behind the name of a method is the end of the name. -/
theorem paren_not_mem_method (owner : Name) (m : Method) : '(' ∉ (method owner m).toList :=
  (isWord_method owner m).not_mem (by decide) (by decide)

end HaxeBackend.Naming
