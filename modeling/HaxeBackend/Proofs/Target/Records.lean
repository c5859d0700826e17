import HaxeBackend.Proofs.Target.Mappings
import Mathlib.Algebra.Group.Int.Defs
import Mathlib.Algebra.Group.Nat.Defs

/-!
# Recorded lines

Lines are recorded in any order and more than once.  What is read from the map is the first record of each line, in
the order of the lines, and nothing else (`decode_recorded`).  The text of a map is computed in 64-bit words: here is
that computation with a check of every word and every digit (`wordMappings?`), and none of them ever fails.
-/

namespace HaxeBackend.Target

/-! ### Words -/

/-- The word that is this number, unless the number is out of range. -/
def word? (n : Int) : Option Int64 := if -2 ^ 63 ≤ n ∧ n < 2 ^ 63 then some (Int64.ofInt n) else none

/-- The word with the sign in the lowest bit. -/
def packedWord? (value : Int64) : Option Int64 :=
  if value < 0 then do
    let magnitude ← word? (-value.toInt)
    let doubled ← word? (2 * magnitude.toInt)
    return doubled ||| 1
  else word? (2 * value.toInt)

/-- The digits of a word in so many rounds, each of them looked up in the table; there is no answer when a digit is not
there or the rounds are not enough. -/
def wordDigits? : Nat → Int64 → Option (List Char)
  | 0, _ => none
  | rounds + 1, v => do
    let rest := v >>> 5
    let digit := if 0 < rest then v &&& 31 ||| 32 else v &&& 31
    let c ← digits64[digit.toNatClampNeg]?
    if rest = 0 then return [c]
    return c :: (← wordDigits? rounds rest)

/-- A signed word; thirteen digits hold 64 bits. -/
def wordVlq? (value : Int64) : Option (List Char) := do
  let packed ← packedWord? value
  wordDigits? 13 packed

private theorem exists_word? {n : Int} (hlow : -2 ^ 63 ≤ n) (hhigh : n < 2 ^ 63) :
    ∃ w, word? n = some w ∧ w.toInt = n :=
  ⟨Int64.ofInt n, if_pos ⟨hlow, hhigh⟩, Int64.toInt_ofInt_of_le hlow hhigh⟩

section Bits

variable {w : Int64} {n : Nat}

private theorem toNat_of_toInt (h : w.toInt = n) : w.toBitVec.toNat = n ∧ n < 2 ^ 63 := by
  have hlt : w.toInt < 2 ^ 63 := Int64.toInt_lt w
  have hbits : w.toBitVec.toInt = n := h
  have hbound := w.toBitVec.isLt
  rw [BitVec.toInt_eq_toNat_cond] at hbits
  split at hbits <;> omega

private theorem toInt_of_toNat (h : w.toBitVec.toNat = n) (hlt : n < 2 ^ 63) : w.toInt = n := by
  show w.toBitVec.toInt = n
  rw [BitVec.toInt_eq_toNat_cond, h, if_pos (by omega)]

private theorem toInt_low (h : w.toInt = n) : (w &&& 31).toInt = (n % 32 : Nat) := by
  obtain ⟨hnat, hlt⟩ := toNat_of_toInt h
  refine toInt_of_toNat ?_ (by omega)
  rw [Int64.toBitVec_and, BitVec.toNat_and, hnat]
  exact Nat.and_two_pow_sub_one_eq_mod n 5

private theorem toInt_rest (h : w.toInt = n) : (w >>> 5).toInt = (n / 32 : Nat) := by
  show (w >>> 5).toBitVec.toInt = _
  rw [Int64.toBitVec_shiftRight]
  show (w.toBitVec.sshiftRight 5).toInt = _
  rw [BitVec.toInt_sshiftRight]
  show w.toInt >>> (5 : Nat) = _
  rw [h, Int.shiftRight_eq_div_pow]
  rfl

private theorem toInt_or {bit : Int64} {k m : Nat} (h : w.toInt = n) (hbit : bit.toBitVec.toNat = k)
    (hor : n ||| k = m) (hlt : m < 2 ^ 63) : (w ||| bit).toInt = m := by
  obtain ⟨hnat, -⟩ := toNat_of_toInt h
  refine toInt_of_toNat ?_ hlt
  rw [Int64.toBitVec_or, BitVec.toNat_or, hnat, hbit, hor]

private theorem toNatClampNeg_of_toInt (h : w.toInt = n) : w.toNatClampNeg = n := by
  show w.toInt.toNat = n
  rw [h, Int.toNat_natCast]

end Bits

private theorem digits64_getElem? : ∀ n < 64, digits64[n]? = some (digit64 n) := by decide +kernel

/-- Every digit is in the table, and enough rounds end. -/
private theorem wordDigits?_eq {rounds n : Nat} {w : Int64} (h : w.toInt = n) (hrounds : 0 < rounds)
    (hlt : n < 32 ^ rounds) : wordDigits? rounds w = some (groups64 n) := by
  induction rounds generalizing n w with
  | zero => omega
  | succ rounds ih =>
    have hrest := toInt_rest h
    have hlow := toInt_low h
    rw [wordDigits?, groups64]
    by_cases hsmall : n < 32
    · have hzero : w >>> 5 = 0 := by
        rw [← Int64.toInt_inj, hrest, Nat.div_eq_of_lt hsmall]
        rfl
      -- the last digit: nothing is left and the continuation bit is clear
      have hdigit : (w &&& 31).toNatClampNeg = n := by
        rw [toNatClampNeg_of_toInt hlow, Nat.mod_eq_of_lt hsmall]
      simp [hzero, hdigit, digits64_getElem? n (by omega), hsmall]
    · -- more digits follow, so the bit is set on top of the low five
      have hmore : (0 : Int64) < w >>> 5 := by
        rw [Int64.lt_iff_toInt_lt, hrest]
        show (0 : Int) < _
        omega
      have hne : w >>> 5 ≠ 0 := fun hzero => absurd hmore (by rw [hzero]; decide)
      have hor : n % 32 ||| 32 = 32 + n % 32 := by
        rw [Nat.or_comm]
        exact (Nat.two_pow_add_eq_or_of_lt (i := 5) (by omega) 1).symm
      have hdigit : (w &&& 31 ||| 32).toNatClampNeg = 32 + n % 32 :=
        toNatClampNeg_of_toInt (toInt_or hlow rfl hor (by omega))
      have hlt' : n / 32 < 32 ^ rounds := by
        rw [Nat.pow_succ] at hlt
        omega
      have hrounds' : 0 < rounds := by
        refine Nat.pos_of_ne_zero fun hnone => ?_
        rw [hnone, Nat.pow_zero] at hlt'
        omega
      simp [hmore, hne, hdigit, digits64_getElem? (32 + n % 32) (by omega), hsmall, ih hrest hrounds' hlt']

/-- No step from one number to the next is too large to be packed. -/
private theorem wordVlq?_eq {w : Int64} {value : Int} (h : w.toInt = value) (hlow : -2 ^ 62 < value)
    (hhigh : value < 2 ^ 62) : wordVlq? w = some (encodeVlq value) := by
  have hpacked : ∃ packed n, packedWord? w = some packed ∧ packed.toInt = (n : Nat) ∧ n < 2 ^ 63 ∧
      n = if value < 0 then 2 * value.natAbs + 1 else 2 * value.natAbs := by
    unfold packedWord?
    have hneg : w < 0 ↔ value < 0 := by
      rw [Int64.lt_iff_toInt_lt, h]
      rfl
    by_cases hsign : value < 0
    · obtain ⟨magnitude, hmagnitude, hvalue⟩ := exists_word? (n := -w.toInt) (by omega) (by omega)
      obtain ⟨doubled, hdoubled, htwice⟩ := exists_word? (n := 2 * magnitude.toInt) (by omega) (by omega)
      have hor : 2 * value.natAbs ||| 1 = 2 * value.natAbs + 1 :=
        (Nat.two_pow_add_eq_or_of_lt (i := 1) (by omega) value.natAbs).symm
      refine ⟨doubled ||| 1, 2 * value.natAbs + 1, ?_, ?_, by omega, (if_pos hsign).symm⟩
      · simp [hneg.2 hsign, hmagnitude, hdoubled]
      · exact toInt_or (n := 2 * value.natAbs) (by omega) rfl hor (by omega)
    · obtain ⟨doubled, hdoubled, htwice⟩ := exists_word? (n := 2 * w.toInt) (by omega) (by omega)
      refine ⟨doubled, 2 * value.natAbs, ?_, by omega, by omega, (if_neg hsign).symm⟩
      rw [if_neg (mt hneg.1 hsign), hdoubled]
  obtain ⟨packed, n, hsome, hn, hlt, rfl⟩ := hpacked
  unfold wordVlq? encodeVlq
  rw [hsome, Option.bind_eq_bind, Option.bind_some]
  exact wordDigits?_eq hn (by omega) (Nat.lt_trans hlt (by decide))

/-! ### Maps in words -/

namespace SourceMap

/-- The segments of entries, computed in words behind a segment with this source and line. -/
def wordSegments? (current : Nat) (source line : Int64) : List MapEntry → Option (List Char)
  | [] => some []
  | e :: rest => do
    let nextSource ← word? e.source
    let nextLine ← word? (lineIndex e)
    let sourceStep ← word? (nextSource.toInt - source.toInt)
    let lineStep ← word? (nextLine.toInt - line.toInt)
    let segment := (← wordVlq? 0) ++ (← wordVlq? sourceStep) ++ (← wordVlq? lineStep) ++ (← wordVlq? 0)
    let more ← wordSegments? e.generated nextSource nextLine rest
    return List.replicate (e.generated - current) ';' ++ segment ++ more

/-- The `mappings` text, computed in words. -/
def wordMappings? (m : SourceMap) : Option String := do
  let text ← wordSegments? 0 0 0 (m.entries.mergeSort fun a b => a.generated ≤ b.generated)
  return String.ofList text

/-- Sources and lines are 32-bit numbers, so the steps between them are in range. -/
private theorem wordSegments?_eq {current source line : Nat} {sourceWord lineWord : Int64} {entries : List MapEntry}
    (hsource : sourceWord.toInt = source) (hline : lineWord.toInt = line) (hsourceLt : source < 2 ^ 32)
    (hlineLt : line < 2 ^ 32) (hentries : ∀ e ∈ entries, e.source < 2 ^ 32 ∧ e.line < 2 ^ 32) :
    wordSegments? current sourceWord lineWord entries = some (segments current source line entries) := by
  induction entries generalizing current source line sourceWord lineWord with
  | nil => rfl
  | cons e rest ih =>
    obtain ⟨⟨hnextSource, hnextLine⟩, hrest⟩ := List.forall_mem_cons.1 hentries
    have hindex : lineIndex e < 2 ^ 32 := Nat.lt_of_le_of_lt (Nat.sub_le _ _) hnextLine
    obtain ⟨nextSource, hsourceWord, hsourceInt⟩ := exists_word? (n := e.source) (by omega) (by omega)
    obtain ⟨nextLine, hlineWord, hlineInt⟩ := exists_word? (n := lineIndex e) (by omega) (by omega)
    obtain ⟨sourceStep, hsourceStep, hsourceValue⟩ :=
      exists_word? (n := nextSource.toInt - sourceWord.toInt) (by omega) (by omega)
    obtain ⟨lineStep, hlineStep, hlineValue⟩ :=
      exists_word? (n := nextLine.toInt - lineWord.toInt) (by omega) (by omega)
    -- the column is always the first, so its step is zero
    have hzero : wordVlq? 0 = some (encodeVlq 0) := wordVlq?_eq rfl (by omega) (by omega)
    have hsourceVlq := wordVlq?_eq hsourceValue (by omega) (by omega)
    have hlineVlq := wordVlq?_eq hlineValue (by omega) (by omega)
    rw [hsourceInt, hsource] at hsourceVlq
    rw [hlineInt, hline] at hlineVlq
    have hmore : wordSegments? e.generated nextSource nextLine rest =
        some (segments e.generated e.source (lineIndex e) rest) :=
      ih hsourceInt hlineInt hnextSource hindex hrest
    simp only [wordSegments?, hsourceWord, hlineWord, hsourceStep, hlineStep, hzero, hsourceVlq, hlineVlq, hmore,
      Option.bind_eq_bind, Option.bind_some]
    rfl

/-! ### Records -/

end SourceMap

/-- A line as it is recorded, in 32-bit numbers. -/
structure LineRecord where
  generated : UInt32
  source : UInt32
  line : UInt32
  deriving DecidableEq, Repr

namespace LineRecord

def entry (r : LineRecord) : MapEntry := ⟨r.generated.toNat, r.source.toNat, r.line.toNat⟩

/-- The place that a record stands for; lines are counted from one, and line 0 is read as line 1. -/
def place (r : LineRecord) : Mapping := ⟨r.generated.toNat, 0, r.source.toNat, (max r.line.toNat 1 - 1 : Nat), 0⟩

private theorem place_entry (r : LineRecord) : r.entry.place = r.place := by
  have hline : SourceMap.lineIndex r.entry = max r.line.toNat 1 - 1 := by
    show r.line.toNat - 1 = _
    omega
  rw [MapEntry.place, hline]
  rfl

end LineRecord

namespace SourceMap

/-- The map of these sources after the records. -/
def recorded (file : String) (sources : List String) (records : List LineRecord) : SourceMap :=
  records.foldl (fun m r => m.record r.entry) { file := file, sources := sources }

/-- The entries are the first records of their lines. -/
private def HasFirst (m : SourceMap) (records : List LineRecord) : Prop :=
  ∀ e, e ∈ m.entries ↔ ∃ r, records.find? (fun r => r.generated.toNat == e.generated) = some r ∧ e = r.entry

/-- A line has an entry as soon as it has a record. -/
private theorem HasFirst.any_eq {m : SourceMap} {records : List LineRecord} (h : m.HasFirst records) (n : Nat) :
    (m.entries.any fun old => old.generated == n) = (records.find? fun r => r.generated.toNat == n).isSome := by
  rw [Bool.eq_iff_iff, List.any_eq_true, Option.isSome_iff_exists]
  constructor
  · rintro ⟨old, hold, heq⟩
    obtain rfl := beq_iff_eq.1 heq
    obtain ⟨r, hr, -⟩ := (h old).1 hold
    exact ⟨r, hr⟩
  · rintro ⟨r, hr⟩
    have hline := List.find?_some hr
    obtain rfl := beq_iff_eq.1 hline
    exact ⟨r.entry, (h r.entry).2 ⟨r, hr, rfl⟩, beq_self_eq_true _⟩

private theorem HasFirst.record {m : SourceMap} {records : List LineRecord} (h : m.HasFirst records) (r : LineRecord) :
    (m.record r.entry).HasFirst (records ++ [r]) := by
  intro e
  have hany := h.any_eq r.generated.toNat
  rw [List.find?_append]
  unfold SourceMap.record
  show e ∈ (if (m.entries.any fun old => old.generated == r.generated.toNat) = true then m else _).entries ↔ _
  cases hold : records.find? fun x => x.generated.toNat == e.generated with
  | some first =>
    -- the line of the entry has a record already
    have hmem : e ∈ m.entries ↔ e = first.entry := by
      rw [h e, hold]
      simp
    have hother : e = r.entry → (m.entries.any fun old => old.generated == r.generated.toNat) = true := by
      rintro rfl
      rw [hany, show r.generated.toNat = r.entry.generated from rfl, hold]
      rfl
    rw [Option.some_or]
    split
    · rw [hmem]
      simp
    · rename_i hfresh
      rw [List.mem_append, List.mem_singleton, or_iff_left fun heq => hfresh (hother heq), hmem]
      simp
  | none =>
    have hmem : e ∉ m.entries := by
      rw [h e, hold]
      simp
    rw [Option.none_or, List.find?_singleton]
    split
    · rename_i htaken
      -- the record is not of the line of the entry
      have hne : ¬r.generated.toNat = e.generated := by
        intro heq
        rw [hany, heq, hold] at htaken
        cases htaken
      simp [hmem, hne]
    · rw [List.mem_append, List.mem_singleton, or_iff_right hmem]
      by_cases heq : r.generated.toNat = e.generated
      · simp [heq]
      · have hne : e ≠ r.entry := by
          rintro rfl
          exact heq rfl
        simp [heq, hne]

private theorem recorded_spec (file : String) (sources : List String) (records : List LineRecord) :
    (recorded file sources records).IsDistinct ∧ (recorded file sources records).HasFirst records := by
  -- by what was recorded before, with the map so far
  have hsteps : ∀ (before after : List LineRecord) (m : SourceMap), m.IsDistinct → m.HasFirst before →
      (after.foldl (fun m r => m.record r.entry) m).IsDistinct ∧
        (after.foldl (fun m r => m.record r.entry) m).HasFirst (before ++ after) := by
    intro before after
    induction after generalizing before with
    | nil =>
      intro m hdistinct hfirst
      rw [List.append_nil]
      exact ⟨hdistinct, hfirst⟩
    | cons r after ih =>
      intro m hdistinct hfirst
      have hmore := ih (before ++ [r]) (m.record r.entry) (hdistinct.record _) (hfirst.record r)
      rwa [List.append_assoc] at hmore
  exact hsteps [] records _ List.Pairwise.nil fun e => by simp

/-- What is read from a map are the first records of the lines, each once, and no word on the way to its text is out of
range, nor any digit outside the table. -/
theorem decode_recorded (file : String) (sources : List String) (records : List LineRecord) :
    (∃ places, decode (recorded file sources records).mappings = some places ∧
      (places.Pairwise fun a b => a.generated < b.generated) ∧
      ∀ place, place ∈ places ↔
        ∃ r, records.find? (fun r => r.generated.toNat == place.generated) = some r ∧ place = r.place) ∧
    (recorded file sources records).wordMappings? = some (recorded file sources records).mappings := by
  obtain ⟨hdistinct, hfirst⟩ := recorded_spec file sources records
  refine ⟨⟨_, decode_mappings hdistinct, List.pairwise_map.2 hdistinct.pairwise_sorted, fun place => ?_⟩, ?_⟩
  · simp only [List.mem_map, List.mem_mergeSort]
    constructor
    · rintro ⟨e, he, rfl⟩
      obtain ⟨r, hr, rfl⟩ := (hfirst e).1 he
      exact ⟨r, hr, r.place_entry⟩
    · rintro ⟨r, hr, rfl⟩
      exact ⟨r.entry, (hfirst r.entry).2 ⟨r, hr, rfl⟩, r.place_entry⟩
  · have hentries : ∀ e ∈ (recorded file sources records).entries.mergeSort fun a b => a.generated ≤ b.generated,
        e.source < 2 ^ 32 ∧ e.line < 2 ^ 32 := by
      intro e he
      obtain ⟨r, -, rfl⟩ := (hfirst e).1 (List.mem_mergeSort.1 he)
      exact ⟨r.source.toNat_lt, r.line.toNat_lt⟩
    have hzero : (0 : Int64).toInt = (0 : Nat) := rfl
    unfold wordMappings?
    rw [wordSegments?_eq hzero hzero (by decide) (by decide) hentries]
    rfl

end SourceMap

end HaxeBackend.Target
