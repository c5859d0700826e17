import HaxeBackend.Lowering.Operator

/-!
# Calls in the text of expressions

The word in front of an opening parenthesis tells what stands there: operators have none, and the support library is
called by a few names (`helperNames`); every other word belongs to a call or an allocation of the program.  A `Scan`
reads a text with that in mind and leaves quoted literals out.  `Reveals` says of a text that the reading of it finds a
call, or finds none, and is proved for each form of an expression from its parts.
-/

namespace HaxeBackend.Target

/-! ### Words -/

/-- The functions and methods of the support library that generated expressions call. -/
def helperNames : List String :=
  ["get", "getBool", "isOfType", "cast", "resolveClass", "box", "unbox", "lnew", "lneg", "zand", "zor", "i", "i2b",
    "i2c", "i2s", "i2j", "i2z", "z2i", "l2i", "f2i", "d2i", "f2j", "d2j", "j2f", "j2d", "d2f"] ++
  BinaryOp.all.flatMap (fun op =>
    (if op.isComparisonHelper then [op.name] else []) ++
    (if Lowering.needsIntHelper op then ["i" ++ op.name] else []) ++ ["l" ++ op.name]) ++
  [Prim.bool, .byte, .short, .char, .int, .long, .float, .double].flatMap fun kind =>
    ["box" ++ Lowering.boxKind kind, "unbox" ++ Lowering.boxKind kind]

/-- What stands in front of the parenthesis of an operator or of a helper. -/
def isHelper (word : List Char) : Bool := word.isEmpty || helperNames.any fun name => name.toList = word

/-- What can stand in front of an opening parenthesis that is no call. -/
def endsWord (c : Char) : Bool := c = ' ' || c = '.' || c = '[' || c = '-' || c = '!' || c = '~'

/-- The word after one more character. -/
def nextWord (word : List Char) (c : Char) : List Char := if endsWord c then [] else word ++ [c]

/-- The word that a text ends in. -/
def lastWord (text : List Char) : List Char := text.foldl nextWord []

/-! ### Reading a text -/

inductive Place where
  | code
  | quoted
  /-- Behind a backslash of a quoted literal. -/
  | escaped
  deriving DecidableEq

def Place.next : Place → Char → Place
  | .code, c => if c = '"' then .quoted else .code
  | .quoted, c => if c = '\\' then .escaped else if c = '"' then .code else .quoted
  | .escaped, _ => .quoted

structure Scan where
  place : Place := .code
  /-- The word that has been read last. -/
  word : List Char := []
  /-- Whether something else than a helper has been called. -/
  calls : Bool := false

namespace Scan

def next (s : Scan) (c : Char) : Scan where
  place := s.place.next c
  word := if s.place = .code then if c = '"' ∨ c = '(' then [] else nextWord s.word c else s.word
  calls := s.calls || (s.place = .code && c = '(' && !isHelper s.word)

def read (s : Scan) (text : List Char) : Scan := text.foldl next s

variable {s : Scan} {text : List Char}

@[simp]
theorem read_cons (c : Char) : s.read (c :: text) = (s.next c).read text := rfl

@[simp]
theorem read_append (text' : List Char) : s.read (text ++ text') = (s.read text).read text' :=
  List.foldl_append

theorem place_read : (s.read text).place = text.foldl Place.next s.place := by
  induction text generalizing s with
  | nil => rfl
  | cons c text ih => exact ih

theorem calls_read (h : s.calls = true) : (s.read text).calls = true := by
  induction text generalizing s with
  | nil => exact h
  | cons c text ih =>
    refine ih ?_
    rw [next, h, Bool.true_or]

end Scan

variable {text text' : List Char} {s : Scan}

/-! ### Texts that keep the place -/

/-- A reader outside of quotation marks is outside of them again behind the text. -/
def IsBalanced (text : List Char) : Prop := text.foldl Place.next .code = .code

instance : DecidablePred IsBalanced := fun _ => inferInstanceAs (Decidable (_ = _))

theorem IsBalanced.place (h : IsBalanced text) (hs : s.place = .code) : (s.read text).place = .code := by
  rw [Scan.place_read, hs]
  exact h

theorem IsBalanced.append (h : IsBalanced text) (h' : IsBalanced text') : IsBalanced (text ++ text') := by
  unfold IsBalanced at h h' ⊢
  rw [List.foldl_append, h, h']

theorem IsBalanced.cons {c : Char} (hc : c ≠ '"') (h : IsBalanced text) : IsBalanced (c :: text) := by
  unfold IsBalanced
  rwa [List.foldl_cons, Place.next, if_neg hc]

theorem isBalanced_of_not_mem (hquote : '"' ∉ text) : IsBalanced text := by
  induction text with
  | nil => rfl
  | cons c text ih =>
    rw [List.mem_cons, not_or] at hquote
    exact (ih hquote.2).cons (Ne.symm hquote.1)

/-- Neither quotation marks nor parentheses. -/
def IsPlain (text : List Char) : Prop := '"' ∉ text ∧ '(' ∉ text

instance : DecidablePred IsPlain := fun _ => inferInstanceAs (Decidable (_ ∧ _))

@[simp]
theorem isPlain_nil : IsPlain [] := by decide

@[simp]
theorem isPlain_append : IsPlain (text ++ text') ↔ IsPlain text ∧ IsPlain text' := by
  simp only [IsPlain, List.mem_append, not_or]
  exact and_and_and_comm

@[simp]
theorem isPlain_cons {c : Char} : IsPlain (c :: text) ↔ (c ≠ '"' ∧ c ≠ '(') ∧ IsPlain text := by
  simp only [IsPlain, List.mem_cons, not_or, ne_comm]
  exact and_and_and_comm

theorem IsPlain.isBalanced (h : IsPlain text) : IsBalanced text := isBalanced_of_not_mem h.1

/-- A plain text only changes the word. -/
theorem IsPlain.read (h : IsPlain text) (hs : s.place = .code) :
    s.read text = { s with word := text.foldl nextWord s.word } := by
  obtain ⟨hquote, hparen⟩ := h
  induction text generalizing s with
  | nil => rfl
  | cons c text ih =>
    rw [List.mem_cons, not_or] at hquote hparen
    have hnext : s.next c = { s with word := nextWord s.word c } := by
      simp [Scan.next, Place.next, hs, Ne.symm hquote.1, Ne.symm hparen.1]
    rw [Scan.read_cons, hnext]
    exact ih (s := { s with word := nextWord s.word c }) hs hquote.2 hparen.2

/-! ### Texts that show a call, or none -/

/-- Behind the text a reader is outside of quotation marks and has found a call if there is one.  A text without calls
may be the rest of a word that is called, so it has to start a word. -/
def Reveals (calls : Bool) (text : List Char) : Prop :=
  ∀ s : Scan, s.place = .code → (calls = false → s.word = []) →
    (s.read text).place = .code ∧ (s.read text).calls = (s.calls || calls)

theorem Reveals.isBalanced {calls : Bool} (h : Reveals calls text) : IsBalanced text := by
  have hplace := (h {} rfl fun _ => rfl).1
  rwa [Scan.place_read] at hplace

/-- A text shows that there is a call or that there is none, not both. -/
theorem Reveals.unique {calls calls' : Bool} (h : Reveals calls text) (h' : Reveals calls' text) : calls = calls' := by
  have hfirst := (h {} rfl fun _ => rfl).2
  have hsecond := (h' {} rfl fun _ => rfl).2
  rw [Bool.false_or] at hfirst hsecond
  exact hfirst.symm.trans hsecond

theorem IsPlain.reveals (h : IsPlain text) : Reveals false text := by
  intro s hs _
  rw [h.read hs]
  exact ⟨hs, (Bool.or_false _).symm⟩

/-- A plain text behind another one adds nothing to be called. -/
theorem Reveals.append_plain {calls : Bool} (h : Reveals calls text) (h' : IsPlain text') :
    Reveals calls (text ++ text') := by
  intro s hs hword
  obtain ⟨hplace, hcalls⟩ := h s hs hword
  rw [Scan.read_append, h'.read hplace]
  exact ⟨hplace, hcalls⟩

/-- A call in a text is shown, whatever stands in front … -/
theorem Reveals.behind_balanced (hbalanced : IsBalanced text) (h : Reveals true text') :
    Reveals true (text ++ text') := by
  intro s hs _
  obtain ⟨hplace, hcalls⟩ := h (s.read text) (hbalanced.place hs) fun h => nomatch h
  rw [Bool.or_true] at hcalls
  rw [Scan.read_append, Bool.or_true]
  exact ⟨hplace, hcalls⟩

/-- … and behind. -/
theorem Reveals.append_balanced (h : Reveals true text) (hbalanced : IsBalanced text') :
    Reveals true (text ++ text') := by
  intro s hs hword
  obtain ⟨hplace, hcalls⟩ := h s hs hword
  rw [Bool.or_true] at hcalls
  rw [Scan.read_append, Bool.or_true]
  exact ⟨hbalanced.place hplace, Scan.calls_read hcalls⟩

/-- A text in front that calls nothing at the start of a word. -/
theorem Reveals.behind_opening {calls : Bool} (hbalanced : IsBalanced text)
    (hopening : ∀ s : Scan, s.place = .code → s.word = [] → s.read text = s) (h : Reveals calls text') :
    Reveals calls (text ++ text') := by
  cases calls with
  | true => exact h.behind_balanced hbalanced
  | false =>
    intro s hs hword
    rw [Scan.read_append, hopening s hs (hword rfl)]
    exact h s hs hword

/-- Parentheses around a text. -/
theorem Reveals.paren {calls : Bool} (h : Reveals calls text) : Reveals calls ('(' :: (text ++ [')'])) := by
  have hopening : ∀ s : Scan, s.place = .code → s.word = [] → s.read ['('] = s := by
    rintro ⟨_, _, _⟩ rfl rfl
    simp [Scan.read, Scan.next, Place.next, isHelper]
  exact Reveals.behind_opening (by decide) hopening (h.append_plain (by decide))

/-- Behind the text a word starts, and the text calls at most a helper. -/
def Separates (text : List Char) : Prop := ∀ s : Scan, s.place = .code → s.read text = { s with word := [] }

theorem Separates.behind {calls : Bool} (h : Separates text) (h' : Reveals calls text') :
    Reveals calls (text ++ text') := by
  intro s hs _
  rw [Scan.read_append, h s hs]
  exact h' { s with word := [] } hs fun _ => rfl

theorem Reveals.join {calls calls' : Bool} {between : List Char} (h : Reveals calls text) (hbetween : Separates between)
    (h' : Reveals calls' text') : Reveals (calls || calls') (text ++ (between ++ text')) := by
  intro s hs hword
  have hplace := h.isBalanced.place hs
  rw [Scan.read_append, Scan.read_append, hbetween _ hplace]
  obtain ⟨hplace', hcalls'⟩ := h' { s.read text with word := [] } hplace fun _ => rfl
  refine ⟨hplace', hcalls'.trans ?_⟩
  cases calls' with
  | true => rw [Bool.or_true, Bool.or_true, Bool.or_true]
  | false =>
    rw [Bool.or_false] at hword ⊢
    rw [Bool.or_false]
    exact (h s hs hword).2

/-! ### Texts with a parenthesis -/

/-- A word that would be called behind the text. -/
theorem IsPlain.separates (h : IsPlain text) (hhelper : ∀ word, isHelper (text.foldl nextWord word) = true) :
    Separates (text ++ ['(']) := by
  intro s hs
  rw [Scan.read_append, h.read hs]
  simp [Scan.read, Scan.next, Place.next, hs, hhelper]

theorem IsPlain.separates_of_nil (h : IsPlain text) (hword : ∀ word, text.foldl nextWord word = []) :
    Separates text := by
  intro s hs
  rw [h.read hs, hword]

/-- A call, whatever stands around it. -/
theorem reveals_call {front rest : List Char} (hfront : IsBalanced front) (h : IsPlain text)
    (hcalled : ∀ word, isHelper (text.foldl nextWord word) = false) (hrest : IsBalanced rest) :
    Reveals true (front ++ (text ++ '(' :: rest)) := by
  intro s hs _
  have hplace := hfront.place hs
  have hnext : ((({ s.read front with word := text.foldl nextWord (s.read front).word } : Scan)).next '(') =
      { s.read front with word := [], calls := true } := by
    simp [Scan.next, Place.next, hplace, hcalled]
  rw [Scan.read_append, Scan.read_append, h.read hplace, Scan.read_cons, hnext, Bool.or_true]
  exact ⟨hrest.place hplace, Scan.calls_read rfl⟩

/-! ### Names -/

theorem foldl_nextWord {word : List Char} (h : ∀ c ∈ text, endsWord c = false) :
    text.foldl nextWord word = word ++ text := by
  induction text generalizing word with
  | nil => exact (List.append_nil word).symm
  | cons c text ih =>
    obtain ⟨hc, htext⟩ := List.forall_mem_cons.1 h
    rw [List.foldl_cons, ih htext, nextWord, hc]
    simp

theorem foldl_nextWord_behind {front : List Char} {c : Char} (hc : endsWord c = true) (word : List Char) :
    (front ++ c :: text).foldl nextWord word = lastWord text := by
  rw [List.foldl_append, List.foldl_cons, nextWord, if_pos hc]
  rfl

theorem lastWord_of_word (h : ∀ c ∈ text, endsWord c = false) : lastWord text = text := foldl_nextWord h

/-- The name of a member of the program, which is called behind a dot. -/
def IsCalled (name : List Char) : Prop := IsPlain name ∧ (∀ c ∈ name, endsWord c = false) ∧ isHelper name = false

instance : DecidablePred IsCalled := fun name =>
  decidable_of_iff (IsPlain name ∧ (name.all fun c => !endsWord c) = true ∧ isHelper name = false) (by simp [IsCalled])

/-- The full name of a class that is not called like a helper. -/
def IsAllocated (name : List Char) : Prop := IsPlain name ∧ isHelper (lastWord name) = false

instance : DecidablePred IsAllocated := fun _ => inferInstanceAs (Decidable (_ ∧ _))

private theorem all_helperNames :
    helperNames.all (fun name => name.toList.all fun c => !endsWord c && c != '"' && c != '(') = true := by
  decide +kernel

/-- Helpers start with a lower-case letter and have no underscore. -/
theorem helperNames_lower :
    ∀ name ∈ helperNames, name.toList.head?.any Naming.isAsciiUpper = false ∧ '_' ∉ name.toList := by
  decide +kernel

/-- The names of helpers are words that a reader tells from calls of the program. -/
theorem isPlain_helper {name : String} (h : name ∈ helperNames) :
    IsPlain name.toList ∧ (∀ c ∈ name.toList, endsWord c = false) ∧ isHelper name.toList = true := by
  have hall : ∀ c ∈ name.toList, (endsWord c = false ∧ c ≠ '"') ∧ c ≠ '(' := by
    simpa using List.all_eq_true.1 all_helperNames name h
  refine ⟨⟨fun hmem => (hall _ hmem).1.2 rfl, fun hmem => (hall _ hmem).2 rfl⟩, fun c hc => (hall c hc).1.1, ?_⟩
  exact Bool.or_eq_true_iff.2 (.inr (List.any_eq_true.2 ⟨name, h, decide_eq_true rfl⟩))

/-- A helper behind a dot. -/
theorem separates_helper {front : List Char} (hfront : IsPlain front) {name : String} (h : name ∈ helperNames) :
    Separates (front ++ '.' :: (name.toList ++ ['('])) := by
  obtain ⟨hplain, hword, hhelper⟩ := isPlain_helper h
  have hall : IsPlain (front ++ '.' :: name.toList) := by
    simp_all [IsPlain]
  have hcall := hall.separates fun word => by
    rw [foldl_nextWord_behind rfl, lastWord_of_word hword]
    exact hhelper
  rwa [List.append_assoc] at hcall

/-- A helper without anything in front. -/
theorem read_helper {name : String} (h : name ∈ helperNames) (hs : s.place = .code) (hword : s.word = []) :
    s.read (name.toList ++ ['(']) = s := by
  obtain ⟨hplain, hname, hhelper⟩ := isPlain_helper h
  rw [Scan.read_append, hplain.read hs, foldl_nextWord hname, hword]
  cases s
  simp_all [Scan.read, Scan.next, Place.next]

/-! ### Quoted literals -/

private theorem exists_of_mem_hexDigits {digit : Nat → Char} {width n : Nat} {c : Char}
    (h : c ∈ Text.hexDigits digit width n) : ∃ k < 16, c = digit k := by
  induction width generalizing n with
  | zero => cases h
  | succ width ih =>
    rcases List.mem_append.1 h with h | h
    · exact ih h
    · exact ⟨_, Nat.mod_lt _ (by decide), List.mem_singleton.1 h⟩

private theorem hexDigitUpper_ne : ∀ k < 16, Text.hexDigitUpper k ≠ '"' ∧ Text.hexDigitUpper k ≠ '\\' := by decide

/-- Inside of quotation marks only quotation marks and backslashes matter. -/
private theorem read_quoted (hs : s.place = .quoted)
    (h : ∀ c ∈ text, c ≠ '"' ∧ c ≠ '\\') : s.read text = s := by
  induction text with
  | nil => rfl
  | cons c text ih =>
    obtain ⟨⟨hquote, hslash⟩, htext⟩ := List.forall_mem_cons.1 h
    have hnext : s.next c = s := by
      cases s
      simp_all [Scan.next, Place.next]
    rw [Scan.read_cons, hnext, ih htext]

private theorem read_escape {s : Scan} (hs : s.place = .quoted) (c : Char) : s.read ['\\', c] = s := by
  cases s
  simp_all [Scan.read, Scan.next, Place.next]

private theorem read_quoteChar {s : Scan} (hs : s.place = .quoted) (c : Char) : s.read (quoteChar c) = s := by
  have hhex : ∀ {width n : Nat}, ∀ d ∈ Text.hexDigits Text.hexDigitUpper width n, d ≠ '"' ∧ d ≠ '\\' := by
    intro width n d hd
    obtain ⟨k, hk, rfl⟩ := exists_of_mem_hexDigits hd
    exact hexDigitUpper_ne k hk
  -- an escape ends behind its letter, and the digits behind it are read as text
  have hnumber : ∀ (tag : Char) (digits : List Char), (∀ d ∈ digits, d ≠ '"' ∧ d ≠ '\\') →
      s.read ('\\' :: tag :: digits) = s := by
    intro tag digits hdigits
    rw [show '\\' :: tag :: digits = ['\\', tag] ++ digits from rfl, Scan.read_append, read_escape hs,
      read_quoted hs hdigits]
  unfold quoteChar
  split
  iterate 5 exact read_escape hs _
  split
  · exact hnumber _ _ hhex
  · split
    · refine hnumber _ _ fun d hd => ?_
      rcases List.mem_cons.1 hd with rfl | hd
      · decide
      · rcases List.mem_append.1 hd with hd | hd
        · exact hhex d hd
        · rw [List.mem_singleton.1 hd]
          decide
    · refine read_quoted hs (List.forall_mem_singleton.2 ⟨?_, ?_⟩)
      · assumption
      · assumption

theorem reveals_quote (text : String) : Reveals false (quote text).toList := by
  intro s hs _
  have hinner : ∀ cs : List Char, ∀ s : Scan, s.place = .quoted → s.read (cs.flatMap quoteChar) = s := by
    intro cs s hs
    induction cs with
    | nil => rfl
    | cons c cs ih => rw [List.flatMap_cons, Scan.read_append, read_quoteChar hs, ih]
  rw [quote, String.toList_ofList, quoteChars, Scan.read_cons, Scan.read_append,
    hinner _ _ (by simp [Scan.next, Place.next, hs])]
  simp [Scan.read, Scan.next, Place.next, hs]

/-! ### Patterns -/

/-- Whether a pattern has a place for the operand. -/
def mentionsSelf : List Char → Bool
  | [] => false
  | '@' :: 's' :: 'e' :: 'l' :: 'f' :: _ => true
  | _ :: cs => mentionsSelf cs

variable {value pattern : List Char}

theorem isBalanced_fillSelf (hvalue : IsBalanced value) (hquote : '"' ∉ pattern) :
    IsBalanced (fillSelf value pattern) := by
  fun_induction fillSelf value pattern with
  | case1 => rfl
  | case2 cs ih => exact hvalue.append (ih fun h => hquote (by simp [h]))
  | case3 c cs _ ih =>
    rw [List.mem_cons, not_or] at hquote
    exact (ih hquote.2).cons (Ne.symm hquote.1)

/-- The operand stands somewhere in a pattern that mentions it. -/
theorem reveals_fillSelf (hvalue : Reveals true value) (hquote : '"' ∉ pattern) (hself : mentionsSelf pattern = true) :
    Reveals true (fillSelf value pattern) := by
  fun_induction fillSelf value pattern with
  | case1 => cases hself
  | case2 cs ih =>
    exact hvalue.append_balanced (isBalanced_fillSelf hvalue.isBalanced fun h => hquote (by simp [h]))
  | case3 c cs hne ih =>
    rw [List.mem_cons, not_or] at hquote
    rw [mentionsSelf.eq_3 c cs hne] at hself
    have hchar : IsBalanced [c] := isBalanced_of_not_mem (by simpa using hquote.1)
    exact (ih hquote.2 hself).behind_balanced hchar

end HaxeBackend.Target
