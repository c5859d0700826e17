import HaxeBackend.Proofs.Arithmetic.Preservation
import HaxeBackend.Proofs.Decimal.Reading
import HaxeBackend.Proofs.Generation.Pool
import HaxeBackend.Proofs.Naming.Words

/-!
# Constants of static fields

A constant is written into the declaration of its field where it has a text there (`denotes_constantText?`), and a
string is set by the initialization of the class, between the pool and the static initializer.  Main result: of the
static constants of a unit these are all but the classes, which nothing sets, and the strings that share a name, which
are set more than once (`constant_installed_iff`).
-/

namespace HaxeBackend

/-! ### What texts denote -/

namespace Target

open Binary (Format Number)
open Decimal (read?_text)

variable {f : Format}

/-- The floating-point number that a text denotes. -/
def numberOf? (f : Format) (text : String) : Option Number :=
  if text = floatSpelling.nan then some .nan
  else if text = floatSpelling.infinite then some (.infinite false)
  else if text = floatSpelling.negativeInfinite then some (.infinite true)
  else Decimal.read? f text

private theorem numberOf?_of_read? {text : String} {x : Number} (h : Decimal.read? f text = some x) :
    numberOf? f text = some x := by
  have hwords : ∀ word ∈ ["Math.NaN", "Math.POSITIVE_INFINITY", "Math.NEGATIVE_INFINITY"],
      Decimal.read? f word = none := by
    intro word hword
    simp only [List.mem_cons, List.not_mem_nil, or_false] at hword
    rcases hword with rfl | rfl | rfl <;> rfl
  have hne : ∀ word ∈ ["Math.NaN", "Math.POSITIVE_INFINITY", "Math.NEGATIVE_INFINITY"], text ≠ word := by
    rintro word hword rfl
    rw [hwords _ hword] at h
    cases h
  unfold numberOf?
  rw [if_neg (hne _ (by decide)), if_neg (hne _ (by decide)), if_neg (hne _ (by decide)), h]

/-- The text of a bit pattern denotes its number. -/
theorem numberOf?_text (hexponent : 2 ≤ f.exponentBits) (hnarrow : Decimal.IsNarrow f) (bits : Nat) :
    numberOf? f (floatSpelling.text f (f.decode bits)) = some (f.decode bits) := by
  cases hdecode : f.decode bits with
  | nan => rfl
  | infinite negative => cases negative <;> rfl
  | finite negative m e =>
    exact numberOf?_of_read? (read?_text floatSpelling hnarrow (Binary.isCanonical_of_decode hexponent hdecode))

end Target

namespace Generation

open Support (Operand)
open Target (quote numCall poolIdent)

variable {env : Env} {p : Program} {c : ClassModel} {u : Target.SourceUnit} {f : Field} {s : Target.Statics}
  {name value text : String}

/-- The text is an integer expression without variables that has this value. -/
def EvaluatesTo (text : String) (x : Operand) : Prop :=
  ∃ t, Arithmetic.read text = some t ∧ t.eval (fun _ => none) = pure x

/-- The text denotes the constant.  A floating-point number is read in the format of the constant.

The target reads every text in double precision.  For a single-precision constant that is the double nearest to the
shortest decimal of the constant (`Decimal.read?_text_shortest`), which differs from the constant where the decimal does
by more than half a place of a double: in place of the single nearest to a tenth there is the double nearest to it. -/
def Denotes (text : String) : Literal → Prop
  | .null => text = Target.Expr.null.text
  | .bool value => EvaluatesTo text (.bool value)
  | .int value => EvaluatesTo text (.int value.toInt)
  | .long value => EvaluatesTo text (.long value)
  | .float bits => Target.numberOf? Binary.single text = some (Binary.single.decode bits.toNat)
  | .double bits => Target.numberOf? Binary.double text = some (Binary.double.decode bits.toNat)
  | .string name => text = numCall "str" [quote name]
  | .classRef type => text = (Lowering.classLiteral type).text

theorem EvaluatesTo.of_computes {e : Target.Expr} {x : Operand} (h : Arithmetic.Computes (fun _ => none) e (pure x)) :
    EvaluatesTo e.text x := by
  obtain ⟨t, ht, heval⟩ := h
  exact ⟨t, Arithmetic.read_text ht, heval⟩

/-- The text of a constant in a declaration denotes it. -/
theorem denotes_constantText? {k : Literal} (h : constantText? k = some text) : Denotes text k := by
  cases k with
  | null =>
    cases h
    rfl
  | bool value =>
    cases h
    exact .of_computes (Arithmetic.computes_bool value)
  | int value =>
    cases h
    exact .of_computes (Arithmetic.computes_int value)
  | long value =>
    cases h
    exact .of_computes (Arithmetic.computes_long value)
  | float bits =>
    cases h
    exact Target.numberOf?_text (by decide) Decimal.isNarrow_single bits.toNat
  | double bits =>
    cases h
    exact Target.numberOf?_text (by decide) Decimal.isNarrow_double bits.toNat
  | string _ => cases h
  | classRef _ => cases h

private theorem toList_numCall_str (name : Name) :
    ∃ rest, (numCall "str" [quote name]).toList = 'N' :: '.' :: 's' :: rest :=
  ⟨_, Target.Expr.toList_num "str" [.quoted name]⟩

private theorem toList_classLiteral (type : Ty) : ∃ rest, (Lowering.classLiteral type).text.toList = 'H' :: rest :=
  ⟨_, Target.Expr.toList_natives "resolveClass" [.quoted (type.className?.getD type.descriptor)]⟩

/-- Zero values denote neither a string nor a class. -/
private theorem not_denotes_defaultValue (t : Ty) {k : Literal} (hk : constantText? k = none) :
    ¬Denotes (Naming.defaultValue t) k := by
  intro h
  have hdefault : Naming.defaultValue t ∈ ["false", "N.lnew(0, 0)", "0.0", "0", "null"] := by
    unfold Naming.defaultValue
    split <;> decide
  have hstart : ∀ word ∈ ["false", "N.lnew(0, 0)", "0.0", "0", "null"],
      word.toList.take 3 ≠ ['N', '.', 's'] ∧ word.toList.head? ≠ some 'H' := by decide
  obtain ⟨hstring, hclass⟩ := hstart _ hdefault
  cases k with
  | string name =>
    obtain ⟨rest, hrest⟩ := toList_numCall_str name
    rw [show Naming.defaultValue t = numCall "str" [quote name] from h, hrest] at hstring
    exact hstring rfl
  | classRef type =>
    obtain ⟨rest, hrest⟩ := toList_classLiteral type
    rw [show Naming.defaultValue t = (Lowering.classLiteral type).text from h, hrest] at hclass
    exact hclass rfl
  | _ => cases hk

/-! ### What the initialization sets -/

/-- A line that assigns to a variable. -/
def assignLine (name value : String) : String := name ++ " = " ++ value ++ ";"

def poolLine (entry : Nat × Name) : String := assignLine (poolIdent entry.1) (numCall "str" [quote entry.2])

def constantLine (constant : String × Nat) : String := assignLine constant.1 (poolIdent constant.2)

def callLine (name : String) : String := name ++ "();"

private theorem assignments_eq (s : Target.Statics) :
    s.assignments = s.pool.map poolLine ++ s.constants.map constantLine ++ s.initializer.toList.map callLine := rfl

/-- Whether a line assigns to the variable. -/
def sets (name line : String) : Bool := (name ++ " = ").toList.isPrefixOf line.toList

/-- The initialization sets the variable to the constant: once, behind the pool and in front of the initializer.  The
value is the constant, or a variable of the pool that has been set to it. -/
structure SetsOnce (s : Target.Statics) (name : String) (k : Literal) : Prop where
  once : s.assignments.countP (sets name) = 1
  placed : ∃ before after value, s.assignments = before ++ assignLine name value :: after ∧
    s.pool.map poolLine <+: before ∧ s.initializer.toList.map callLine <:+ after ∧
    (Denotes value k ∨ ∃ index text, value = poolIdent index ∧
      before.filter (sets value) = [assignLine value text] ∧ Denotes text k)

/-- The constant of a static field gets into the field: by its declaration, or by the initialization of the class. -/
def Installed (p : Program) (c : ClassModel) (u : Target.SourceUnit) (f : Field) (k : Literal) : Prop :=
  (fieldDecl p c f ∈ u.fields ∧ Denotes (fieldDecl p c f).value k) ∨
    SetsOnce u.statics (Naming.field p c.name f.name) k

/-! ### The lines of the initialization -/

private theorem takeWhile_blank {cs rest : List Char} (h : ' ' ∉ cs) :
    (cs ++ ' ' :: rest).takeWhile (· ≠ ' ') = cs := by
  rw [List.takeWhile_append_of_pos]
  · simp
  · intro c hc
    rw [decide_eq_true_eq]
    rintro rfl
    exact h hc

private theorem sets_assignLine {x : String} (hname : ' ' ∉ name.toList) (hx : ' ' ∉ x.toList) :
    sets name (assignLine x value) = true ↔ x = name := by
  have htext : (assignLine x value).toList = x.toList ++ ' ' :: ('=' :: ' ' :: (value.toList ++ [';'])) := by
    simp [assignLine]
  unfold sets
  rw [List.isPrefixOf_iff_prefix, htext]
  constructor
  · rintro ⟨rest, hrest⟩
    have hstart : (name ++ " = ").toList ++ rest = name.toList ++ ' ' :: ('=' :: ' ' :: rest) := by simp
    rw [hstart] at hrest
    have hword := congrArg (List.takeWhile (· ≠ ' ')) hrest
    rw [takeWhile_blank hname, takeWhile_blank hx] at hword
    exact (String.toList_inj.1 hword).symm
  · rintro rfl
    exact ⟨value.toList ++ [';'], by simp⟩

private theorem assignLine_inj {value' : String} (h : assignLine name value = assignLine name value') :
    value = value' := by
  have htext := congrArg String.toList h
  simp only [assignLine, String.toList_append, List.append_assoc, List.append_cancel_left_eq] at htext
  exact String.toList_inj.1 (List.append_cancel_right htext)

private theorem no_blank_poolIdent (index : Nat) : ' ' ∉ (poolIdent index).toList := by
  rw [Target.toList_poolIdent_eq, List.mem_append, not_or]
  refine ⟨by decide, fun h => ?_⟩
  have hdigit := Nat.isDigit_of_mem_toDigits (by decide) (by decide) h
  exact absurd hdigit (by decide)

/-- The names in the initialization of a class are words, and those of fields are not of the pool. -/
private structure IsTidy (s : Target.Statics) : Prop where
  fields : ∀ constant ∈ s.constants, ' ' ∉ constant.1.toList ∧ ∀ index, constant.1 ≠ poolIdent index
  initializer : ∀ name ∈ s.initializer, ' ' ∉ name.toList

private theorem not_sets_callLine {x : String} (hx : ' ' ∉ x.toList) : sets name (callLine x) = false := by
  rw [Bool.eq_false_iff]
  intro h
  obtain ⟨rest, hrest⟩ := List.isPrefixOf_iff_prefix.1 h
  have hmem : ' ' ∈ (callLine x).toList := by
    rw [← hrest]
    simp
  simp [callLine, hx] at hmem

/-- The lines that set a field are those of its constants. -/
private theorem IsTidy.countP_sets (h : IsTidy s) (hname : ' ' ∉ name.toList) (hfree : ∀ index, name ≠ poolIdent index) :
    s.assignments.countP (sets name) = s.constants.countP fun constant => constant.1 == name := by
  have hpool : (s.pool.map poolLine).countP (sets name) = 0 := by
    rw [List.countP_eq_zero]
    intro line hline hsets
    obtain ⟨entry, -, rfl⟩ := List.mem_map.1 hline
    exact hfree entry.1 ((sets_assignLine hname (no_blank_poolIdent _)).1 hsets).symm
  have hcall : (s.initializer.toList.map callLine).countP (sets name) = 0 := by
    rw [List.countP_eq_zero]
    intro line hline
    obtain ⟨x, hx, rfl⟩ := List.mem_map.1 hline
    rw [not_sets_callLine (h.initializer x (by simpa using hx))]
    exact Bool.false_ne_true
  rw [assignments_eq, List.countP_append, List.countP_append, hpool, hcall, List.countP_map, Nat.zero_add, Nat.add_zero]
  refine List.countP_congr fun constant hconstant => ?_
  rw [Function.comp_apply, constantLine, sets_assignLine hname (h.fields constant hconstant).1, beq_iff_eq]

/-- What is assigned is a text of the pool, or a variable of the pool to a field. -/
private theorem IsTidy.value_cases (h : IsTidy s) (hline : assignLine name value ∈ s.assignments)
    (hname : ' ' ∉ name.toList) :
    (∃ text, value = numCall "str" [quote text]) ∨
      (∀ index, name ≠ poolIdent index) ∧ ∃ index, value = poolIdent index := by
  have hsets : sets name (assignLine name value) = true := (sets_assignLine hname hname).2 rfl
  generalize hequal : assignLine name value = line at hline hsets
  rw [assignments_eq, List.mem_append, List.mem_append, List.mem_map, List.mem_map, List.mem_map] at hline
  rcases hline with (⟨entry, -, rfl⟩ | ⟨constant, hconstant, rfl⟩) | ⟨x, hx, rfl⟩
  · obtain rfl := (sets_assignLine hname (no_blank_poolIdent _)).1 hsets
    exact .inl ⟨_, assignLine_inj hequal⟩
  · obtain ⟨hblank, hfree⟩ := h.fields constant hconstant
    obtain rfl := (sets_assignLine hname hblank).1 hsets
    exact .inr ⟨hfree, _, assignLine_inj hequal⟩
  · rw [not_sets_callLine (h.initializer x (by simpa using hx))] at hsets
    cases hsets

/-- Nothing is set to a class. -/
private theorem IsTidy.not_setsOnce_classRef (h : IsTidy s) (hname : ' ' ∉ name.toList) (type : Ty) :
    ¬SetsOnce s name (.classRef type) := by
  rintro ⟨-, before, after, value, hlines, -, -, hdenotes⟩
  obtain ⟨rest, hrest⟩ := toList_classLiteral type
  have hpooled : ∀ text, numCall "str" [quote text] ≠ (Lowering.classLiteral type).text := by
    intro text heq
    obtain ⟨rest', hrest'⟩ := toList_numCall_str text
    rw [heq, hrest] at hrest'
    cases hrest'
  have hident : ∀ index, poolIdent index ≠ (Lowering.classLiteral type).text := by
    intro index heq
    obtain ⟨rest', hrest'⟩ := Naming.toList_poolIdent index
    rw [heq, hrest] at hrest'
    cases hrest'
  rcases hdenotes with hvalue | ⟨index, text, rfl, hfilter, htext⟩
  · have hassigned : assignLine name value ∈ s.assignments := by simp [hlines]
    rcases h.value_cases hassigned hname with ⟨text, rfl⟩ | ⟨-, index, rfl⟩
    · exact hpooled text hvalue
    · exact hident index hvalue
  · have hbefore : assignLine (poolIdent index) text ∈ before :=
      List.mem_of_mem_filter (hfilter ▸ List.mem_singleton_self _)
    rcases h.value_cases (by rw [hlines]; exact List.mem_append_left _ hbefore) (no_blank_poolIdent index) with
      ⟨text', rfl⟩ | ⟨hfree, -⟩
    · exact hpooled text' htext
    · exact hfree index rfl

/-- Of entries with different numbers one has a given number. -/
private theorem filter_fst_eq {entries : List (Nat × Name)} {entry : Nat × Name} (hnodup : (entries.map Prod.fst).Nodup)
    (hmem : entry ∈ entries) : entries.filter (fun e => e.1 == entry.1) = [entry] := by
  induction entries with
  | nil => cases hmem
  | cons e entries ih =>
    rw [List.map_cons, List.nodup_cons] at hnodup
    have hrest : ∀ {x : Nat × Name}, x ∈ entries → x.1 ≠ e.1 := by
      rintro x hx heq
      exact hnodup.1 (heq ▸ List.mem_map_of_mem hx)
    rcases List.mem_cons.1 hmem with rfl | hmem
    · rw [List.filter_cons_of_pos (by simp), List.filter_eq_nil_iff.2 fun x hx => by simpa using hrest hx]
    · rw [List.filter_cons_of_neg (by simpa using (hrest hmem).symm), ih hnodup.2 hmem]

/-- A variable of the pool is set by the line of its number. -/
private theorem filter_poolLines {index : Nat} {text : Name} (h : s.literals[index]? = some text) :
    (s.pool.map poolLine).filter (sets (poolIdent index)) = [poolLine (index, text)] := by
  have hfst : s.pool.map Prod.fst = List.range s.literals.length := List.map_fst_zip (by rw [List.length_range])
  have hnodup : (s.pool.map Prod.fst).Nodup := by
    rw [hfst]
    exact List.nodup_range
  have hmem : (index, text) ∈ s.pool := by
    obtain ⟨hlt, -⟩ := List.getElem?_eq_some_iff.1 h
    refine List.mem_iff_getElem?.2 ⟨index, List.getElem?_zip_eq_some.2 ⟨?_, h⟩⟩
    exact List.getElem?_range hlt
  have hsets : sets (poolIdent index) ∘ poolLine = fun entry => entry.1 == index := by
    funext entry
    rw [Bool.eq_iff_iff, Function.comp_apply, poolLine,
      sets_assignLine (no_blank_poolIdent _) (no_blank_poolIdent _), Target.poolIdent_injective.eq_iff, beq_iff_eq]
  rw [List.filter_map, hsets, filter_fst_eq hnodup hmem, List.map_singleton]

/-- A field with one constant is set to it. -/
private theorem IsTidy.setsOnce (h : IsTidy s) (index : Nat) {text : Name} (hmem : (name, index) ∈ s.constants)
    (hindex : s.literals[index]? = some text) (hunique : s.constants.countP (fun constant => constant.1 == name) = 1) :
    SetsOnce s name (.string text) := by
  obtain ⟨hblank, hfree⟩ := h.fields _ hmem
  refine ⟨by rw [h.countP_sets hblank hfree, hunique], ?_⟩
  obtain ⟨before, after, hconstants⟩ := List.append_of_mem hmem
  refine ⟨s.pool.map poolLine ++ before.map constantLine, after.map constantLine ++ s.initializer.toList.map callLine,
    poolIdent index, ?_, List.prefix_append _ _, List.suffix_append _ _, .inr ⟨index, _, rfl, ?_, rfl⟩⟩
  · rw [assignments_eq, hconstants]
    simp [constantLine]
  · have hbefore : (before.map constantLine).filter (sets (poolIdent index)) = [] := by
      rw [List.filter_eq_nil_iff]
      intro line hline hsets
      obtain ⟨constant, hconstant, rfl⟩ := List.mem_map.1 hline
      obtain ⟨hblank', hfree'⟩ := h.fields constant (hconstants ▸ List.mem_append_left _ hconstant)
      exact hfree' index ((sets_assignLine (no_blank_poolIdent index) hblank').1 hsets)
    rw [List.filter_append, filter_poolLines hindex, hbefore, List.append_nil]
    rfl

/-! ### Units -/

private theorem statics_of_unit? (h : unit? env c = some u) : Gives (statics env.program c) u.statics := by
  obtain ⟨-, i, rfl, hparts⟩ | ⟨-, k, rfl, hparts⟩ := unit?_cases h
  · exact hparts.statics
  · exact hparts.statics

private theorem isTidy_statics (h : unit? env c = some u) : IsTidy u.statics := by
  obtain ⟨met, hpooled⟩ := exists_pooled h
  refine ⟨fun constant hconstant => ?_, fun name hname => ?_⟩
  · rw [hpooled.constants] at hconstant
    obtain ⟨entry, hentry, rfl⟩ := List.mem_map.1 hconstant
    obtain ⟨field, -, hfield⟩ := List.mem_filterMap.1 hentry
    obtain ⟨text, -, rfl⟩ := Option.map_eq_some_iff.1 hfield
    exact ⟨Naming.isWord_field.not_mem (by decide) (by decide), Naming.isFree_field.2.2⟩
  · obtain ⟨st, st', hstatics⟩ := statics_of_unit? h
    unfold statics at hstatics
    obtain ⟨_, _, -, hstatics⟩ := runs_bind.1 hstatics
    obtain ⟨_, _, -, hstatics⟩ := runs_bind.1 hstatics
    obtain ⟨hequal, -⟩ := runs_pure.1 hstatics
    rw [hequal] at hname
    obtain ⟨m, -, rfl⟩ := Option.map_eq_some_iff.1 hname
    exact (Naming.isWord_method _ _).not_mem (by decide) (by decide)

/-- The fields of a class with a string constant of this name. -/
def stringNamesakes (c : ClassModel) (name : Name) : List Field :=
  (visibleFields c).filter fun f => f.name == name && (stringConstant? f).isSome

private theorem countP_constants (h : unit? env c = some u) (name : Name) :
    (u.statics.constants.countP fun constant => constant.1 == Naming.field env.program c.name name) =
      (stringNamesakes c name).length := by
  obtain ⟨met, hpooled⟩ := exists_pooled h
  have hsame : ∀ field : Field, Naming.field env.program c.name field.name = Naming.field env.program c.name name ↔
      field.name = name := fun field => ⟨fun heq => (Naming.field_split heq).1, fun heq => by rw [heq]⟩
  rw [hpooled.constants, List.countP_map, stringConstants, stringNamesakes, ← List.countP_eq_length_filter]
  generalize visibleFields c = fields
  induction fields with
  | nil => rfl
  | cons field fields ih =>
    rw [List.countP_cons, ← ih, List.filterMap_cons]
    cases stringConstant? field with
    | none => simp
    | some text => simp [List.countP_cons, hsame]

private theorem value_fieldDecl (hstatic : f.isStatic = true) {k : Literal} (hk : f.constant = some k) :
    (fieldDecl p c f).value = (constantText? k).getD (Naming.defaultValue f.type) := by
  unfold fieldDecl
  simp [hk, hstatic, Option.filter]

/-- A constant that has no text in a declaration is left to the initialization. -/
private theorem Installed.setsOnce {k : Literal} (h : Installed p c u f k) (hstatic : f.isStatic = true)
    (hk : f.constant = some k) (hnone : constantText? k = none) :
    SetsOnce u.statics (Naming.field p c.name f.name) k := by
  rcases h with ⟨-, hdenotes⟩ | hset
  · rw [value_fieldDecl hstatic hk, hnone] at hdenotes
    exact absurd hdenotes (not_denotes_defaultValue _ hnone)
  · exact hset

private theorem no_blank_field (p : Program) (owner name : Name) : ' ' ∉ (Naming.field p owner name).toList :=
  Naming.isWord_field.not_mem (by decide) (by decide)

private theorem not_installed_classRef (h : unit? env c = some u) (hstatic : f.isStatic = true) {type : Ty}
    (hk : f.constant = some (.classRef type)) : ¬Installed env.program c u f (.classRef type) :=
  fun hinstalled =>
    (isTidy_statics h).not_setsOnce_classRef (no_blank_field _ _ _) type (hinstalled.setsOnce hstatic hk rfl)

private theorem installed_string_iff (h : unit? env c = some u) (hf : f ∈ visibleFields c) (hstatic : f.isStatic = true)
    {text : Name} (hk : f.constant = some (.string text)) :
    Installed env.program c u f (.string text) ↔ (stringNamesakes c f.name).length = 1 := by
  obtain ⟨met, hpooled⟩ := exists_pooled h
  have hcount := (isTidy_statics h).countP_sets (no_blank_field env.program c.name f.name) Naming.isFree_field.2.2
  rw [countP_constants h] at hcount
  constructor
  · intro hinstalled
    rw [← hcount]
    exact (hinstalled.setsOnce hstatic hk rfl).once
  · intro hunique
    have hentry : (Naming.field env.program c.name f.name, text) ∈ stringConstants env.program c (visibleFields c) :=
      List.mem_filterMap.2 ⟨f, hf, by simp [stringConstant?, hk, hstatic]⟩
    have hliteral : text ∈ u.statics.literals := by
      rw [hpooled.literals, List.mem_eraseDups]
      exact List.mem_append_right _ (List.mem_map.2 ⟨_, hentry, rfl⟩)
    refine .inr ((isTidy_statics h).setsOnce (u.statics.literals.idxOf text) ?_ ?_ ?_)
    · rw [hpooled.constants]
      exact List.mem_map.2 ⟨_, hentry, rfl⟩
    · rw [List.getElem?_eq_getElem (List.idxOf_lt_length_of_mem hliteral), List.getElem_idxOf]
    · rw [countP_constants h, hunique]

/-- Of the static constants of a unit that are not removed by annotation, all are installed but the classes, and the
strings with a namesake. -/
theorem constant_installed_iff (h : unit? env c = some u) (hf : f ∈ visibleFields c) (hstatic : f.isStatic = true)
    {k : Literal} (hk : f.constant = some k) :
    Installed env.program c u f k ↔
      match k with
      | .classRef _ => False
      | .string _ => (stringNamesakes c f.name).length = 1
      | .null | .bool _ | .int _ | .long _ | .float _ | .double _ => True := by
  have hwritten : ∀ text, constantText? k = some text → Installed env.program c u f k := by
    intro text htext
    obtain ⟨met, hpooled⟩ := exists_pooled h
    refine .inl ⟨?_, ?_⟩
    · rw [hpooled.fields]
      exact List.mem_map_of_mem hf
    · rw [value_fieldDecl hstatic hk, htext]
      exact denotes_constantText? htext
  cases k with
  | classRef type => exact iff_of_false (not_installed_classRef h hstatic hk) not_false
  | string text => exact installed_string_iff h hf hstatic hk
  | null | bool _ | int _ | long _ | float _ | double _ => exact iff_of_true (hwritten _ rfl) trivial

/-- A public static constant. -/
private def constantField (name : Name) (type : Ty) (k : Literal) : Field := ⟨name, type, ⟨0x0019⟩, some k, []⟩

private def constantEnv (c : ClassModel) : Env where
  program := ⟨[c], List.nodup_singleton c.name⟩
  options := { reflection := false }

private def settings : ClassModel :=
  { bareClass "Settings" .plain none [] [] with
    fields := [constantField "NAME" (.ref stringClass) (.string "bob"),
      constantField "RATE" (.prim .float) (.float 0x3dcccccd)] }

/-- A string that the initialization sets, and a number that is declared. -/
theorem constant_installed_iff_settings :
    ∃ u, unit? (constantEnv settings) settings = some u ∧
      u.fields.map Target.FieldDecl.text =
        ["static public var NAME:java_.lang.String_ = null;", "static public var RATE:Float = 0.1;"] ∧
      u.statics.assignments = ["__str0 = N.str(\"bob\");", "NAME = __str0;"] ∧
      Installed (constantEnv settings).program settings u
        (constantField "NAME" (.ref stringClass) (.string "bob")) (.string "bob") ∧
      Installed (constantEnv settings).program settings u
        (constantField "RATE" (.prim .float) (.float 0x3dcccccd)) (.float 0x3dcccccd) := by
  have hunit : (unit? (constantEnv settings) settings).map
      (fun u => (u.fields.map Target.FieldDecl.text, u.statics.assignments)) =
      some (["static public var NAME:java_.lang.String_ = null;", "static public var RATE:Float = 0.1;"],
        ["__str0 = N.str(\"bob\");", "NAME = __str0;"]) := by
    with_unfolding_all rfl
  obtain ⟨u, hu, hparts⟩ := Option.map_eq_some_iff.1 hunit
  simp only [Prod.mk.injEq] at hparts
  refine ⟨u, hu, hparts.1, hparts.2, ?_, ?_⟩
  · exact (constant_installed_iff hu List.mem_cons_self (by decide) rfl).2 (by decide)
  · exact (constant_installed_iff hu (List.mem_cons_of_mem _ List.mem_cons_self) (by decide) rfl).2 trivial

private def kind : ClassModel :=
  { bareClass "Kind" .plain none [] [] with
    fields := [constantField "TYPE" (.ref Target.classClass) (.classRef (.ref "Kind"))] }

/-- A class that is a constant is never set. -/
theorem constant_installed_fails_kind :
    ∃ u, unit? (constantEnv kind) kind = some u ∧
      u.fields.map Target.FieldDecl.text = ["static public var TYPE:java_.lang.Class_ = null;"] ∧
      u.statics.assignments = [] ∧
      ¬Installed (constantEnv kind).program kind u
        (constantField "TYPE" (.ref Target.classClass) (.classRef (.ref "Kind"))) (.classRef (.ref "Kind")) := by
  have hunit : (unit? (constantEnv kind) kind).map
      (fun u => (u.fields.map Target.FieldDecl.text, u.statics.assignments)) =
      some (["static public var TYPE:java_.lang.Class_ = null;"], []) := by
    with_unfolding_all rfl
  obtain ⟨u, hu, hparts⟩ := Option.map_eq_some_iff.1 hunit
  simp only [Prod.mk.injEq] at hparts
  exact ⟨u, hu, hparts.1, hparts.2, not_installed_classRef hu (by decide) rfl⟩

end Generation

end HaxeBackend
