import HaxeBackend.Target.Support
import Mathlib.Data.List.TakeWhile
import Mathlib.Tactic.Ring

/-!
# Quoted literals read back

How a double-quoted literal of the target is read: up to the first quotation mark that no backslash takes, and every
escape stands for one character.  An escape says itself where it ends, so whatever follows a literal, it is read as the
text that it was written for (`readLiteral?_quote`).  Main result: the form of literals, and that they tell texts apart
(`quote_reads_back`).
-/

namespace HaxeBackend.Target

/-! ### The reader -/

/-- The number that hexadecimal digits stand for, behind digits that stand for `n`. -/
def hexNumber? (n : Nat) : List Char → Option Nat
  | [] => some n
  | c :: cs =>
    match Text.hexValue? c with
    | some digit => hexNumber? (16 * n + digit) cs
    | none => none

/-- The character that digits name by its code point; there has to be a digit. -/
def codePoint? (digits : List Char) : Option Char :=
  match digits, hexNumber? 0 digits with
  | _ :: _, some n => if n.isValidChar then some (Char.ofNat n) else none
  | _, _ => none

/-- The character that an escape stands for and what follows it, behind the backslash. -/
def readEscape? : List Char → Option (Char × List Char)
  | '"' :: cs => some ('"', cs)
  | '\\' :: cs => some ('\\', cs)
  | 'n' :: cs => some ('\n', cs)
  | 'r' :: cs => some ('\r', cs)
  | 't' :: cs => some ('\t', cs)
  | 'x' :: high :: low :: cs => (codePoint? [high, low]).map fun c => (c, cs)
  | 'u' :: '\x7b' :: cs =>
    match cs.dropWhile (· ≠ '\x7d') with
    | [] => none
    | _ :: rest => (codePoint? (cs.takeWhile (· ≠ '\x7d'))).map fun c => (c, rest)
  | _ => none

theorem length_readEscape? {cs rest : List Char} {c : Char} (h : readEscape? cs = some (c, rest)) :
    rest.length < cs.length := by
  unfold readEscape? at h
  split at h
  iterate 5 (cases h; simp)
  · obtain ⟨_, -, heq⟩ := Option.map_eq_some_iff.1 h
    cases heq
    simp
    omega
  · rename_i cs
    split at h
    · cases h
    · rename_i hdrop
      obtain ⟨_, -, heq⟩ := Option.map_eq_some_iff.1 h
      cases heq
      have hlength := (List.dropWhile_sublist (· ≠ '\x7d') (l := cs)).length_le
      rw [hdrop] at hlength
      simp at hlength ⊢
      omega
  · cases h

/-- The text of a literal up to its closing quotation mark, and what follows the literal. -/
def readQuoted? : List Char → Option (List Char × List Char)
  | [] => none
  | '"' :: rest => some ([], rest)
  | '\\' :: cs =>
    match _h : readEscape? cs with
    | some (c, rest) => (readQuoted? rest).map fun (text, after) => (c :: text, after)
    | none => none
  | c :: cs => (readQuoted? cs).map fun (text, after) => (c :: text, after)
termination_by cs => cs.length
decreasing_by
  · have := length_readEscape? _h
    simp only [List.length_cons]
    omega
  · simp

/-- A literal at the front of a text: what it stands for, and what follows it. -/
def readLiteral? : List Char → Option (List Char × List Char)
  | '"' :: cs => readQuoted? cs
  | _ => none

/-- How many quotation marks of a text no backslash takes. -/
def bareQuotes : List Char → Nat
  | [] => 0
  | '\\' :: _ :: cs => bareQuotes cs
  | c :: cs => if c = '"' then bareQuotes cs + 1 else bareQuotes cs

/-- Visible characters of ASCII and blanks, so all on one line. -/
def isPrintable (c : Char) : Bool := 32 ≤ c.toNat && c.toNat < 127

/-! ### Hexadecimal numbers -/

private theorem hexValue?_hexDigitUpper :
    ∀ k < 16, Text.hexValue? (Text.hexDigitUpper k) = some k ∧ isPrintable (Text.hexDigitUpper k) = true ∧
      Text.hexDigitUpper k ≠ '"' ∧ Text.hexDigitUpper k ≠ '\\' ∧ Text.hexDigitUpper k ≠ '\x7d' := by
  decide

private theorem hexNumber?_append (n : Nat) (cs cs' : List Char) :
    hexNumber? n (cs ++ cs') = (hexNumber? n cs).bind fun m => hexNumber? m cs' := by
  induction cs generalizing n with
  | nil => rfl
  | cons c cs ih =>
    simp only [List.cons_append, hexNumber?]
    cases Text.hexValue? c with
    | none => rfl
    | some digit => exact ih (16 * n + digit)

/-- Digits are read as the number that they were written for, as far as there are enough of them. -/
private theorem hexNumber?_hexDigits (start width n : Nat) :
    hexNumber? start (Text.hexDigits Text.hexDigitUpper width n) = some (start * 16 ^ width + n % 16 ^ width) := by
  induction width generalizing n with
  | zero => simp [Text.hexDigits, hexNumber?, Nat.mod_one]
  | succ width ih =>
    have hlast := (hexValue?_hexDigitUpper (n % 16) (Nat.mod_lt n (by decide))).1
    rw [Text.hexDigits, hexNumber?_append, ih, Option.bind_some]
    simp only [hexNumber?, hlast]
    congr 1
    have hsplit : n % 16 ^ (width + 1) = n % 16 + 16 * (n / 16 % 16 ^ width) := by
      rw [Nat.pow_succ', Nat.mod_mul]
    rw [hsplit, Nat.pow_succ]
    ring

private theorem lt_hexWidth (n : Nat) : n < 16 ^ Text.hexWidth n := by
  have hlog : n < 2 ^ (n.log2 + 1) := Nat.lt_log2_self
  have hwidth : n.log2 + 1 ≤ 4 * Text.hexWidth n := by
    unfold Text.hexWidth
    omega
  have hpower : 16 ^ Text.hexWidth n = 2 ^ (4 * Text.hexWidth n) := by
    rw [Nat.pow_mul]
  rw [hpower]
  exact Nat.lt_of_lt_of_le hlog (Nat.pow_le_pow_right (by decide) hwidth)

private theorem codePoint?_hexDigits {c : Char} {width : Nat} (hwidth : width ≠ 0) (h : c.toNat < 16 ^ width) :
    codePoint? (Text.hexDigits Text.hexDigitUpper width c.toNat) = some c := by
  have hnumber := hexNumber?_hexDigits 0 width c.toNat
  have hlength := Text.length_hexDigits Text.hexDigitUpper width c.toNat
  rw [Nat.zero_mul, Nat.zero_add, Nat.mod_eq_of_lt h] at hnumber
  generalize Text.hexDigits Text.hexDigitUpper width c.toNat = digits at hnumber hlength
  cases digits with
  | nil => exact absurd hlength.symm hwidth
  | cons d digits =>
    have hvalid : c.toNat.isValidChar := c.valid
    simp only [codePoint?, hnumber, if_pos hvalid, Char.ofNat_toNat]

private theorem of_mem_hexDigits {width n : Nat} {d : Char} (h : d ∈ Text.hexDigits Text.hexDigitUpper width n) :
    isPrintable d = true ∧ d ≠ '"' ∧ d ≠ '\\' ∧ d ≠ '\x7d' := by
  induction width generalizing n with
  | zero => cases h
  | succ width ih =>
    rcases List.mem_append.1 h with h | h
    · exact ih h
    · rw [List.mem_singleton.1 h]
      exact (hexValue?_hexDigitUpper (n % 16) (Nat.mod_lt n (by decide))).2

/-! ### Characters -/

/-- The characters `word` stand for `c` in a literal, whatever follows them. -/
private structure Spells (c : Char) (word : List Char) : Prop where
  printable : ∀ d ∈ word, isPrintable d = true
  bareQuotes_eq : ∀ rest, bareQuotes (word ++ rest) = bareQuotes rest
  reads : ∀ rest, readQuoted? (word ++ rest) = (readQuoted? rest).map fun (text, after) => (c :: text, after)

private theorem bareQuotes_append {word : List Char} (h : ∀ d ∈ word, d ≠ '"' ∧ d ≠ '\\') (rest : List Char) :
    bareQuotes (word ++ rest) = bareQuotes rest := by
  induction word with
  | nil => rfl
  | cons d word ih =>
    obtain ⟨⟨hquote, hslash⟩, hword⟩ := List.forall_mem_cons.1 h
    rw [List.cons_append, bareQuotes.eq_3 _ _ (fun _ _ heq => absurd heq hslash), if_neg hquote, ih hword]

private theorem spells_plain {c : Char} (hprintable : isPrintable c = true) (hquote : c ≠ '"') (hslash : c ≠ '\\') :
    Spells c [c] := by
  refine ⟨List.forall_mem_singleton.2 hprintable, ?_, ?_⟩
  · exact bareQuotes_append (List.forall_mem_singleton.2 ⟨hquote, hslash⟩)
  · intro rest
    rw [List.singleton_append, readQuoted?]
    · exact hquote
    · exact hslash

/-- A backslash and an escape, of which the first character may be anything. -/
private theorem spells_escape {c tag : Char} {more : List Char} (htag : isPrintable tag = true)
    (hmore : ∀ d ∈ more, isPrintable d = true ∧ d ≠ '"' ∧ d ≠ '\\')
    (hreads : ∀ rest, readEscape? (tag :: (more ++ rest)) = some (c, rest)) : Spells c ('\\' :: tag :: more) := by
  refine ⟨?_, ?_, ?_⟩
  · intro d hd
    rcases List.mem_cons.1 hd with rfl | hd
    · decide
    · rcases List.mem_cons.1 hd with rfl | hd
      · exact htag
      · exact (hmore d hd).1
  · intro rest
    rw [List.cons_append, List.cons_append, bareQuotes]
    exact bareQuotes_append (fun d hd => (hmore d hd).2) rest
  · intro rest
    rw [List.cons_append, List.cons_append, readQuoted?]
    split
    · rename_i heq
      rw [hreads] at heq
      cases heq
      rfl
    · rename_i heq
      rw [hreads] at heq
      cases heq

private theorem spells_letter {c tag : Char} (htag : isPrintable tag = true)
    (hreads : ∀ rest, readEscape? (tag :: rest) = some (c, rest)) : Spells c ['\\', tag] :=
  spells_escape htag (fun _ hd => absurd hd List.not_mem_nil) hreads

private theorem spells_byte {c : Char} (h : c.toNat < 256) :
    Spells c ('\\' :: 'x' :: Text.hexDigits Text.hexDigitUpper 2 c.toNat) := by
  refine spells_escape (by decide) (fun d hd => ?_) fun rest => ?_
  · obtain ⟨hprintable, hquote, hslash, -⟩ := of_mem_hexDigits hd
    exact ⟨hprintable, hquote, hslash⟩
  · have hcode := codePoint?_hexDigits (show 2 ≠ 0 by decide) h
    have hlength := Text.length_hexDigits Text.hexDigitUpper 2 c.toNat
    generalize Text.hexDigits Text.hexDigitUpper 2 c.toNat = digits at hcode hlength
    match digits, hlength with
    | [high, low], _ =>
      show (codePoint? [high, low]).map (fun c => (c, rest)) = _
      rw [hcode]
      rfl

private theorem spells_codePoint (c : Char) :
    Spells c ('\\' :: 'u' :: '\x7b' :: (Text.hexUpper c.toNat ++ ['\x7d'])) := by
  have hdigit : ∀ d ∈ Text.hexUpper c.toNat, isPrintable d = true ∧ d ≠ '"' ∧ d ≠ '\\' ∧ d ≠ '\x7d' :=
    fun d hd => of_mem_hexDigits hd
  refine spells_escape (by decide) (fun d hd => ?_) fun rest => ?_
  · rcases List.mem_cons.1 hd with rfl | hd
    · decide
    · rcases List.mem_append.1 hd with hd | hd
      · obtain ⟨hprintable, hquote, hslash, -⟩ := hdigit d hd
        exact ⟨hprintable, hquote, hslash⟩
      · rw [List.mem_singleton.1 hd]
        decide
  · -- the digits end at the first closing brace, so nothing of what follows is taken for a digit
    have hspan : ∀ d ∈ Text.hexUpper c.toNat, decide (d ≠ '\x7d') = true :=
      fun d hd => decide_eq_true (hdigit d hd).2.2.2
    have hcode : codePoint? (Text.hexUpper c.toNat) = some c :=
      codePoint?_hexDigits (Nat.succ_ne_zero _) (lt_hexWidth c.toNat)
    have htake : (Text.hexUpper c.toNat ++ '\x7d' :: rest).takeWhile (· ≠ '\x7d') = Text.hexUpper c.toNat := by
      rw [List.takeWhile_append_of_pos hspan]
      simp
    have hdrop : (Text.hexUpper c.toNat ++ '\x7d' :: rest).dropWhile (· ≠ '\x7d') = '\x7d' :: rest := by
      rw [List.dropWhile_append_of_pos hspan]
      simp
    rw [List.cons_append, List.append_assoc, List.singleton_append, readEscape?, htake, hdrop]
    simp [hcode]

private theorem spells_quoteChar (c : Char) : Spells c (quoteChar c) := by
  unfold quoteChar
  split
  · exact spells_letter (by decide) fun _ => rfl
  · exact spells_letter (by decide) fun _ => rfl
  · exact spells_letter (by decide) fun _ => rfl
  · exact spells_letter (by decide) fun _ => rfl
  · exact spells_letter (by decide) fun _ => rfl
  · rename_i hquote hslash _ _ _
    split
    · exact spells_byte (by omega)
    · split
      · exact spells_codePoint c
      · refine spells_plain ?_ hquote hslash
        simp only [isPrintable, Bool.and_eq_true, decide_eq_true_eq]
        omega

/-! ### Texts -/

private theorem readQuoted?_flatMap (text rest : List Char) :
    readQuoted? (text.flatMap quoteChar ++ '"' :: rest) = some (text, rest) := by
  induction text with
  | nil => rw [List.flatMap_nil, List.nil_append, readQuoted?]
  | cons c text ih =>
    rw [List.flatMap_cons, List.append_assoc, (spells_quoteChar c).reads, ih]
    rfl

private theorem bareQuotes_flatMap (text rest : List Char) :
    bareQuotes (text.flatMap quoteChar ++ rest) = bareQuotes rest := by
  induction text with
  | nil => rfl
  | cons c text ih => rw [List.flatMap_cons, List.append_assoc, (spells_quoteChar c).bareQuotes_eq, ih]

theorem toList_quote (text : String) : (quote text).toList = '"' :: (text.toList.flatMap quoteChar ++ ['"']) := by
  rw [quote, String.toList_ofList, quoteChars]

/-- A literal is read as the text that it was written for, whatever follows it. -/
theorem readLiteral?_quote (text : String) (rest : List Char) :
    readLiteral? ((quote text).toList ++ rest) = some (text.toList, rest) := by
  rw [toList_quote, List.cons_append, List.append_assoc, List.singleton_append]
  exact readQuoted?_flatMap text.toList rest

/-- A literal has no characters but visible ones and blanks, starts and ends with its only two quotation marks that no
backslash takes, and is read to its end as the text that it was written for; so no two texts have the same literal. -/
theorem quote_reads_back (text : String) :
    (quote text).toList.all isPrintable = true ∧
    (∃ inner, (quote text).toList = '"' :: (inner ++ ['"']) ∧ bareQuotes inner = 0 ∧ bareQuotes (inner ++ ['"']) = 1) ∧
    (∀ rest, readLiteral? ((quote text).toList ++ rest) = some (text.toList, rest)) ∧
    ∀ other, quote other = quote text → other = text := by
  have hinner := bareQuotes_flatMap text.toList []
  rw [List.append_nil] at hinner
  refine ⟨?_, ⟨_, toList_quote text, hinner, bareQuotes_flatMap text.toList ['"']⟩, readLiteral?_quote text, ?_⟩
  · rw [toList_quote, List.all_eq_true]
    intro c hc
    rcases List.mem_cons.1 hc with rfl | hc
    · decide
    · rcases List.mem_append.1 hc with hc | hc
      · obtain ⟨d, -, hd⟩ := List.mem_flatMap.1 hc
        exact (spells_quoteChar d).printable c hd
      · rw [List.mem_singleton.1 hc]
        decide
  · intro other heq
    have hother := readLiteral?_quote other []
    rw [heq, readLiteral?_quote text []] at hother
    obtain ⟨htext, -⟩ := Prod.mk.inj (Option.some_inj.1 hother)
    exact (String.toList_inj.1 htext).symm

/-- Behind an escape come characters that could be its digits. -/
example : quote "\u0001F\u00e9F" = "\"\\x01F\\u\x7bE9\x7dF\"" := by decide +kernel

end HaxeBackend.Target
