import HaxeBackend.Proofs.Lowering.Sharing

/-!
# Names of parameters

A parameter is called by its escaped name, or by that name with its position behind it when an earlier parameter is
called so already (`getElem?_targetNames`).  Which names are in use at a position can be told from the escaped names
alone (`mem_take_targetNames`).  A name with a position behind it is not looked up again, so the names are distinct
exactly when no such name is the escaped name of an earlier parameter (`nodup_targetNames_iff`).
-/

namespace HaxeBackend.Lowering

open Naming (escapeMember IsWord isAsciiDigit)

variable {m : Method} {param : Param} {bases : List String} {a name : String} {i n : Nat} {S : Set Name}

/-! ### The choice of a name -/

/-- A parameter is named with regard to those in front of it. -/
private theorem exists_named_paramNamesFrom (seen : List (String × Ty)) (params : List Param) :
    ∃ entries, paramNamesFrom seen.length seen params = seen ++ entries ∧
      entries.map Prod.snd = params.map Param.type ∧
      ∀ i param, params[i]? = some param →
        entries[i]? = some (paramName (seen ++ entries.take i) param, param.type) := by
  induction params generalizing seen with
  | nil => exact ⟨[], (List.append_nil seen).symm, rfl, fun i param h => by cases h⟩
  | cons param rest ih =>
    obtain ⟨entries, heq, htypes, hnamed⟩ := ih (seen ++ [(paramName seen param, param.type)])
    refine ⟨(paramName seen param, param.type) :: entries, ?_, by rw [List.map_cons, htypes, List.map_cons], ?_⟩
    · rw [paramNamesFrom_cons, heq, List.append_assoc, List.singleton_append]
    · intro i other hother
      cases i with
      | zero =>
        obtain rfl : param = other := Option.some.inj hother
        rw [List.take_zero, List.append_nil, List.getElem?_cons_zero]
      | succ i =>
        have hnext := hnamed i other hother
        rw [List.append_assoc, List.singleton_append] at hnext
        rw [List.getElem?_cons_succ, List.take_succ_cons, hnext]

/-- The escaped names of the parameters. -/
def baseNames (m : Method) : List String := m.params.map fun param => escapeMember param.name

/-- What the parameters are called. -/
def targetNames (m : Method) : List String := (paramNames m).map Prod.fst

theorem map_snd_paramNames (m : Method) : (paramNames m).map Prod.snd = m.params.map Param.type := by
  obtain ⟨entries, heq, htypes, -⟩ := exists_named_paramNamesFrom [] m.params
  rw [paramNames, ← List.length_nil, heq, List.nil_append, htypes]

theorem length_targetNames (m : Method) : (targetNames m).length = (baseNames m).length := by
  rw [targetNames, List.length_map, ← List.length_map (f := Prod.snd), map_snd_paramNames, List.length_map, baseNames,
    List.length_map]

/-- A parameter gets its own name, unless one in front of it has this name: then its position is put behind. -/
theorem getElem?_targetNames (h : (baseNames m)[i]? = some a) :
    (targetNames m)[i]? = some (if a ∈ (targetNames m).take i then s!"{a}_{i}" else a) := by
  obtain ⟨entries, heq, -, hnamed⟩ := exists_named_paramNamesFrom [] m.params
  have hparams : paramNames m = entries := by rw [paramNames, ← List.length_nil, heq, List.nil_append]
  rw [baseNames, List.getElem?_map, Option.map_eq_some_iff] at h
  obtain ⟨param, hparam, rfl⟩ := h
  have hentry := hnamed i param hparam
  rw [List.nil_append] at hentry
  have hlength : (entries.take i).length = i := by
    rw [List.length_take, Nat.min_eq_left (Nat.le_of_lt (List.getElem?_eq_some_iff.1 hentry).1)]
  have htaken : ((entries.take i).any fun x => x.1 == escapeMember param.name) = true ↔
      escapeMember param.name ∈ (targetNames m).take i := by
    rw [targetNames, hparams, ← List.map_take, List.any_eq_true, List.mem_map]
    simp only [beq_iff_eq]
  rw [targetNames, hparams, List.getElem?_map, hentry, Option.map_some, paramName, hlength]
  simp only [htaken, targetNames, hparams]

/-! ### Names in use -/

/-- Which names the parameters in front of a position have: their escaped names, and numbered ones where an escaped
name was in use. -/
inductive IsTaken (bases : List String) : String → Nat → Prop where
  | own {a : String} {i j : Nat} (hbase : bases[j]? = some a) (hlt : j < i) : IsTaken bases a i
  | numbered {b : String} {i j : Nat} (hbase : bases[j]? = some b) (hlt : j < i) (htaken : IsTaken bases b j) :
    IsTaken bases s!"{b}_{j}" i

private theorem exists_base (h : (targetNames m)[i]? = some name) : ∃ b, (baseNames m)[i]? = some b := by
  have hlt : i < (baseNames m).length := by
    rw [← length_targetNames]
    exact (List.getElem?_eq_some_iff.1 h).1
  exact ⟨_, List.getElem?_eq_getElem hlt⟩

private theorem mem_take_of_getElem? {l : List String} {j : Nat} (h : l[j]? = some name) (hlt : j < i) :
    name ∈ l.take i := by
  obtain ⟨hj, rfl⟩ := List.getElem?_eq_some_iff.1 h
  exact List.mem_take_iff_getElem.2 ⟨j, by omega, rfl⟩

private theorem exists_getElem?_of_mem_take {l : List String} (h : name ∈ l.take i) : ∃ j < i, l[j]? = some name := by
  obtain ⟨j, hj, rfl⟩ := List.mem_take_iff_getElem.1 h
  exact ⟨j, by omega, List.getElem?_eq_getElem (by omega)⟩

theorem mem_take_targetNames (m : Method) (a : String) (i : Nat) :
    a ∈ (targetNames m).take i ↔ IsTaken (baseNames m) a i := by
  -- what is in use at a position depends on what was in use at the positions in front of it
  induction i using Nat.strong_induction_on generalizing a with
  | _ i ih =>
    constructor
    · intro h
      obtain ⟨j, hlt, hname⟩ := exists_getElem?_of_mem_take h
      obtain ⟨b, hbase⟩ := exists_base hname
      rw [getElem?_targetNames hbase, Option.some_inj] at hname
      split at hname
      · rename_i htaken
        rw [← hname]
        exact .numbered hbase hlt ((ih j hlt b).1 htaken)
      · rw [← hname]
        exact .own hbase hlt
    · intro h
      cases h with
      | own hbase hlt =>
        rename_i j
        by_cases htaken : a ∈ (targetNames m).take j
        · exact List.take_subset_take_left _ (Nat.le_of_lt hlt) htaken
        · have hname := getElem?_targetNames hbase
          rw [if_neg htaken] at hname
          exact mem_take_of_getElem? hname hlt
      | numbered hbase hlt htaken =>
        have hname := getElem?_targetNames hbase
        rw [if_pos ((ih _ hlt _).2 htaken)] at hname
        exact mem_take_of_getElem? hname hlt

/-- A name in use gets a position behind it and is then the escaped name of an earlier parameter. -/
def Collides (bases : List String) : Prop :=
  ∃ i j a, bases[i]? = some a ∧ IsTaken bases a i ∧ j < i ∧ bases[j]? = some s!"{a}_{i}"

theorem nodup_targetNames_iff (m : Method) : (targetNames m).Nodup ↔ ¬Collides (baseNames m) := by
  rw [List.nodup_iff_getElem?_ne_getElem?]
  constructor
  · rintro hdistinct ⟨i, j, a, hbase, htaken, hlt, hother⟩
    have hname := getElem?_targetNames hbase
    rw [if_pos ((mem_take_targetNames m a i).2 htaken)] at hname
    -- an escaped name is in use behind its parameter, whoever has it
    obtain ⟨k, hk, hsame⟩ := exists_getElem?_of_mem_take ((mem_take_targetNames m _ i).2 (.own hother hlt))
    exact hdistinct k i hk (List.getElem?_eq_some_iff.1 hname).1 (hsame.trans hname.symm)
  · intro hfree j i hlt hi hsame
    obtain ⟨a, hbase⟩ := exists_base (List.getElem?_eq_getElem hi)
    obtain ⟨b, hother⟩ := exists_base (hsame.trans (List.getElem?_eq_getElem hi))
    have hname := getElem?_targetNames hbase
    have hmem := mem_take_of_getElem? (hsame.trans hname) hlt
    split at hname
    · rename_i htaken
      rw [if_pos htaken] at hmem
      have hbefore := getElem?_targetNames hother
      rw [hsame, hname, Option.some_inj] at hbefore
      split at hbefore
      · exact Nat.ne_of_lt hlt (Naming.numbered_inj hbefore).2.symm
      · exact hfree ⟨i, j, a, hbase, (mem_take_targetNames m a i).1 htaken, hlt, by rw [hother, hbefore]⟩
    · rename_i hown
      rw [if_neg hown] at hmem
      exact hown hmem

/-! ### Sets of names -/

/-- The first position whose number can be met is the third: a name in use and the numbered name are two different
names in front of it. -/
private theorem two_le_of_isTaken {j : Nat} (htaken : IsTaken bases a i) (hlt : j < i)
    (hbase : bases[j]? = some s!"{a}_{i}") : 2 ≤ i := by
  by_contra hsmall
  obtain ⟨rfl, rfl⟩ : i = 1 ∧ j = 0 := by omega
  cases htaken with
  | own hown hlt =>
    rw [Nat.lt_one_iff.1 hlt, hbase, Option.some_inj] at hown
    exact Naming.numbered_ne _ _ hown
  | numbered hother hlt htaken =>
    rw [Nat.lt_one_iff.1 hlt] at htaken
    cases htaken with
    | own _ hlt => exact Nat.not_lt_zero _ hlt
    | numbered _ hlt _ => exact Nat.not_lt_zero _ hlt

/-- A method with parameters of these names. -/
private def methodOf (params : List Name) : Method where
  id := 0
  name := "f"
  params := params.map fun name => ⟨name, .prim .int⟩
  ret := .void
  modifiers := .standard
  annotations := []
  paramAnnotations := []
  defaultValue := none
  body := none

private theorem baseNames_methodOf (params : List Name) : baseNames (methodOf params) = params.map escapeMember := by
  rw [baseNames, methodOf, List.map_map]
  rfl

private theorem collides_of_numbered {a b : Name} (hn : 2 ≤ n) (h : escapeMember a = s!"{escapeMember b}_{n}") :
    Collides (baseNames (methodOf (a :: List.replicate n b))) := by
  rw [baseNames_methodOf, List.map_cons, List.map_replicate]
  have hbehind : ∀ j, 1 ≤ j → j ≤ n →
      (escapeMember a :: List.replicate n (escapeMember b))[j]? = some (escapeMember b) := by
    intro j hpos hle
    obtain ⟨k, rfl⟩ := Nat.exists_eq_add_one_of_ne_zero (Nat.ne_of_gt hpos)
    rw [List.getElem?_cons_succ, List.getElem?_replicate, if_pos (by omega)]
  refine ⟨n, 0, escapeMember b, hbehind n (by omega) (Nat.le_refl n), ?_, by omega, by rw [List.getElem?_cons_zero, h]⟩
  exact .own (hbehind 1 (Nat.le_refl 1) (by omega)) (by omega)

private theorem nodup_iff_of_names (S : Set Name) :
    (∀ m : Method, (∀ param ∈ m.params, param.name ∈ S) → (targetNames m).Nodup) ↔
      ∀ a ∈ S, ∀ b ∈ S, ∀ n : Nat, 2 ≤ n → escapeMember a ≠ s!"{escapeMember b}_{n}" := by
  constructor
  · intro hall a ha b hb n hn heq
    refine (nodup_targetNames_iff _).1 (hall (methodOf (a :: List.replicate n b)) ?_) (collides_of_numbered hn heq)
    intro param hparam
    obtain ⟨name, hname, rfl⟩ := List.mem_map.1 hparam
    rcases List.mem_cons.1 hname with rfl | hname
    · exact ha
    · rw [List.eq_of_mem_replicate hname]
      exact hb
  · intro hnames m hS
    rw [nodup_targetNames_iff]
    rintro ⟨i, j, a, hbase, htaken, hlt, hother⟩
    have hi := two_le_of_isTaken htaken hlt hother
    rw [baseNames, List.getElem?_map, Option.map_eq_some_iff] at hbase hother
    obtain ⟨param, hparam, rfl⟩ := hbase
    obtain ⟨other, hmem, heq⟩ := hother
    exact hnames _ (hS other (List.mem_of_getElem? hmem)) _ (hS param (List.mem_of_getElem? hparam)) i hi heq

/-! ### Identifiers -/

/-- A name that a variable may have: a word that does not start with a digit and is no keyword. -/
structure IsIdentifier (name : String) : Prop where
  word : IsWord name.toList
  start : name.toList.head?.any isAsciiDigit = false
  notKeyword : name ∉ Naming.keywords

/-- Keywords end in a letter. -/
private theorem not_mem_keywords {c : Char} (h : name.toList.getLast? = some c) (hc : Naming.isAsciiLower c = false) :
    name ∉ Naming.keywords := by
  intro hmem
  have hletters : ∀ word ∈ Naming.keywords, word.toList.getLast?.all Naming.isAsciiLower = true := by decide
  have hlast := hletters name hmem
  rw [h, Option.all_some, hc] at hlast
  cases hlast

private theorem sanitize_spec (text : List Char) :
    IsWord (Naming.sanitize text) ∧ (Naming.sanitize text).head?.any isAsciiDigit = false := by
  have hkept : ∀ c ∈ text.map fun c => if Naming.isAsciiAlnum c || c = '_' then c else '_',
      Naming.isAsciiAlnum c = true ∨ c = '_' := by
    intro c hc
    obtain ⟨d, -, rfl⟩ := List.mem_map.1 hc
    split
    · rename_i hd
      simpa using hd
    · exact .inr rfl
  unfold Naming.sanitize
  generalize (text.map fun c => if Naming.isAsciiAlnum c || c = '_' then c else '_') = kept at hkept
  dsimp only
  split
  · exact ⟨⟨List.cons_ne_nil _ _, List.forall_mem_cons.2 ⟨.inr rfl, hkept⟩⟩, rfl⟩
  · rename_i hmark
    cases kept with
    | nil => exact absurd rfl hmark
    | cons c kept =>
      refine ⟨⟨List.cons_ne_nil _ _, hkept⟩, ?_⟩
      simpa [Naming.needsMark] using hmark

theorem isIdentifier_escapeMember (text : Name) : IsIdentifier (escapeMember text) := by
  obtain ⟨hword, hstart⟩ := sanitize_spec text.toList
  unfold escapeMember
  dsimp only
  split
  · refine ⟨?_, ?_, not_mem_keywords (c := '_') ?_ (by decide)⟩
    · rw [String.toList_ofList]
      exact hword.append fun c hc => .inr (List.mem_singleton.1 hc)
    · rw [String.toList_ofList, List.head?_append_of_ne_nil _ hword.1]
      exact hstart
    · rw [String.toList_ofList, List.getLast?_concat]
  · rename_i hreserved
    refine ⟨by rwa [String.toList_ofList], by rwa [String.toList_ofList], fun hmem => hreserved ?_⟩
    rw [Naming.isReserved, List.contains_iff_mem.2 hmem]
    rfl

theorem IsIdentifier.numbered (h : IsIdentifier name) (n : Nat) : IsIdentifier s!"{name}_{n}" := by
  have htext : (s!"{name}_{n}").toList = name.toList ++ '_' :: Nat.toDigits 10 n := by
    simp [toString, Nat.repr_eq_ofList_toDigits]
  have hdigit : ∀ d ∈ Nat.toDigits 10 n, isAsciiDigit d = true := by
    intro d hd
    have hd := Nat.isDigit_of_mem_toDigits (by decide) (by decide) hd
    simpa [Char.isDigit, isAsciiDigit, Char.le_def] using hd
  refine ⟨?_, ?_, ?_⟩
  · rw [htext]
    refine h.word.append fun c hc => ?_
    rcases List.mem_cons.1 hc with rfl | hc
    · exact .inr rfl
    · exact .inl (by rw [Naming.isAsciiAlnum, hdigit c hc]; rfl)
  · rw [htext, List.head?_append_of_ne_nil _ h.word.1]
    exact h.start
  · obtain ⟨digits, d, hdigits⟩ : ∃ digits d, Nat.toDigits 10 n = digits ++ [d] :=
      ⟨_, _, (List.dropLast_concat_getLast Nat.toDigits_ne_nil).symm⟩
    have hlast : isAsciiDigit d = true := hdigit d (by simp [hdigits])
    refine not_mem_keywords (c := d) ?_ ?_
    · rw [htext, hdigits, ← List.cons_append, ← List.append_assoc, List.getLast?_concat]
    · rw [isAsciiDigit, Bool.and_eq_true, decide_eq_true_eq, decide_eq_true_eq] at hlast
      rw [Naming.isAsciiLower, Bool.and_eq_false_iff, decide_eq_false_iff_not]
      exact .inl fun hle => absurd (Char.le_trans hle hlast.2) (by decide)

theorem isIdentifier_of_mem_targetNames (h : name ∈ targetNames m) : IsIdentifier name := by
  obtain ⟨i, hi⟩ := List.mem_iff_getElem?.1 h
  obtain ⟨base, hbase⟩ := exists_base hi
  have hname := getElem?_targetNames hbase
  rw [hi, Option.some_inj] at hname
  rw [baseNames, List.getElem?_map, Option.map_eq_some_iff] at hbase
  obtain ⟨param, -, rfl⟩ := hbase
  rw [hname]
  split
  · exact (isIdentifier_escapeMember param.name).numbered i
  · exact isIdentifier_escapeMember param.name

/-! ### All methods -/

/-- Every parameter gets an identifier and keeps its type.  The names of a method are distinct exactly when no name in
use gets a position behind it that makes it the escaped name of an earlier parameter; and they are in every method with
names from a set exactly when no name of the set is escaped to another one with a position from the third on. -/
theorem distinctParams_iff (m : Method) (S : Set Name) :
    ((paramNames m).map Prod.snd = m.params.map Param.type ∧
      (∀ name ∈ targetNames m, IsIdentifier name) ∧
      ((targetNames m).Nodup ↔ ¬Collides (baseNames m))) ∧
    ((∀ m' : Method, (∀ param ∈ m'.params, param.name ∈ S) → (targetNames m').Nodup) ↔
      ∀ a ∈ S, ∀ b ∈ S, ∀ n : Nat, 2 ≤ n → escapeMember a ≠ s!"{escapeMember b}_{n}") :=
  ⟨⟨map_snd_paramNames m, fun _ => isIdentifier_of_mem_targetNames, nodup_targetNames_iff m⟩, nodup_iff_of_names S⟩

/-- Parameters of one name, and one that is called like a keyword. -/
theorem distinctParams_iff_doubled :
    targetNames (methodOf ["a", "a", "var"]) = ["a", "a_1", "var_"] ∧
      (targetNames (methodOf ["a", "a", "var"])).Nodup := by
  refine ⟨by decide, (distinctParams_iff (methodOf []) fun name => name = "a" ∨ name = "var").2.2 ?_ _ ?_⟩
  · rintro a (rfl | rfl) b - n - heq
    · exact Naming.not_isNumbered_of_not_mem (by decide) ⟨_, n, heq⟩
    · exact Naming.not_isNumbered_of_getLast? (c := '_') (by decide) (by decide) ⟨_, n, heq⟩
  · show ∀ param ∈ [(⟨"a", .prim .int⟩ : Param), ⟨"a", .prim .int⟩, ⟨"var", .prim .int⟩],
      param.name = "a" ∨ param.name = "var"
    decide

/-- The second parameter called `a` gets the name that the first parameter has. -/
theorem distinctParams_fails :
    targetNames (methodOf ["a_2", "a", "a"]) = ["a_2", "a", "a_2"] ∧
      ¬(targetNames (methodOf ["a_2", "a", "a"])).Nodup := by
  decide

end HaxeBackend.Lowering
