import HaxeBackend.Target.SourceMap
import HaxeBackend.Text.Lines

/-!
# Reading source maps

The text of a map is read back in the usual way: `;` ends a generated line, `,` divides the segments of a line, and
the four numbers of a segment are relative to those of the segment before, but the first starts anew on each line.
Main result: what is read from a map are its entries in the order of their lines (`decode_mappings`).
-/

namespace HaxeBackend.Target

/-! ### Numbers -/

@[irreducible]
def value64? (c : Char) : Option Nat := digits64.idxOf? c

/-- The digits of a number at the front of a text, and what follows. -/
def takeGroups : List Char → Option (Nat × List Char)
  | [] => none
  | c :: cs =>
    match value64? c with
    | none => none
    | some digit =>
      if digit < 32 then some (digit, cs)
      else (takeGroups cs).map fun (n, rest) => (digit - 32 + 32 * n, rest)

/-- The number whose sign is in the lowest bit. -/
def signed (n : Nat) : Int := if n % 2 = 1 then -(n / 2 : Nat) else (n / 2 : Nat)

/-- A signed number at the front of a text, and what follows. -/
def takeVlq (text : List Char) : Option (Int × List Char) :=
  (takeGroups text).map fun taken => (signed taken.1, taken.2)

private theorem value64?_digit64 : ∀ n < 64, value64? (digit64 n) = some n := by decide +kernel

private theorem takeGroups_cons {c : Char} {digit : Nat} (h : value64? c = some digit) (rest : List Char) :
    takeGroups (c :: rest) =
      if digit < 32 then some (digit, rest)
      else (takeGroups rest).map fun (n, rest) => (digit - 32 + 32 * n, rest) := by
  rw [takeGroups, h]

private theorem takeGroups_groups64 (n : Nat) (rest : List Char) :
    takeGroups (groups64 n ++ rest) = some (n, rest) := by
  induction n using Nat.strongRecOn with
  | ind n ih =>
    rw [groups64]
    split
    · rename_i hsmall
      have hdigit : value64? (digit64 n) = some n := value64?_digit64 n (by omega)
      rw [List.singleton_append, takeGroups_cons hdigit, if_pos hsmall]
    · rename_i hlarge
      have hdigit : value64? (digit64 (32 + n % 32)) = some (32 + n % 32) := value64?_digit64 _ (by omega)
      have hmore : ¬32 + n % 32 < 32 := by omega
      have hvalue : 32 + n % 32 - 32 + 32 * (n / 32) = n := by omega
      rw [List.cons_append, takeGroups_cons hdigit, if_neg hmore, ih (n / 32) (by omega), Option.map_some]
      exact congrArg (fun value => some (value, rest)) hvalue

theorem takeVlq_encodeVlq (value : Int) (rest : List Char) :
    takeVlq (encodeVlq value ++ rest) = some (value, rest) := by
  have hsigned : signed (if value < 0 then 2 * value.natAbs + 1 else 2 * value.natAbs) = value := by
    unfold signed
    split <;> split <;> omega
  unfold takeVlq encodeVlq
  rw [takeGroups_groups64, Option.map_some, hsigned]

private theorem mem_groups64 {n : Nat} {c : Char} (h : c ∈ groups64 n) : c ∈ digits64 := by
  have hmem : ∀ d, digit64 d ∈ digits64 := by
    intro d
    unfold digit64
    rw [List.getD_eq_getElem?_getD]
    cases hd : digits64[d]? with
    | none => decide
    | some c => exact List.mem_of_getElem? hd
  induction n using Nat.strongRecOn with
  | ind n ih =>
    rw [groups64] at h
    split at h
    · rw [List.mem_singleton.1 h]
      exact hmem n
    · rcases List.mem_cons.1 h with rfl | h
      · exact hmem _
      · exact ih (n / 32) (by omega) h

/-! ### Segments -/

/-- The numbers of a segment. -/
structure Segment where
  column : Int
  source : Int
  line : Int
  sourceColumn : Int

def Segment.ofText? (text : List Char) : Option Segment := do
  let (column, text) ← takeVlq text
  let (source, text) ← takeVlq text
  let (line, text) ← takeVlq text
  let (sourceColumn, text) ← takeVlq text
  if text.isEmpty then some ⟨column, source, line, sourceColumn⟩ else none

/-- A place in the generated text, by line and column from zero, and the place in a source that it comes from. -/
structure Mapping where
  generated : Nat
  column : Int
  source : Int
  line : Int
  sourceColumn : Int
  deriving DecidableEq, Repr

/-- The texts of the segments with the lines that they stand in, from line `first` on. -/
def segmentTexts (first : Nat) (text : List Char) : List (Nat × List Char) :=
  ((Text.splitAt ';' text).zipIdx first).flatMap fun (line, i) =>
    if line.isEmpty then [] else (Text.splitAt ',' line).map fun segment => (i, segment)

/-- The places that segments tell, behind another place. -/
def placesFrom (last : Mapping) : List (Nat × List Char) → Option (List Mapping)
  | [] => some []
  | (i, text) :: rest => do
    let s ← Segment.ofText? text
    let next : Mapping := ⟨i, (if i = last.generated then last.column else 0) + s.column, last.source + s.source,
      last.line + s.line, last.sourceColumn + s.sourceColumn⟩
    return next :: (← placesFrom next rest)

/-- Reads a `mappings` text. -/
def decode (text : String) : Option (List Mapping) := placesFrom ⟨0, 0, 0, 0, 0⟩ (segmentTexts 0 text.toList)

/-- The place that an entry is written for. -/
def MapEntry.place (e : MapEntry) : Mapping := ⟨e.generated, 0, e.source, SourceMap.lineIndex e, 0⟩

namespace SourceMap

private theorem ofText?_segment (source line : Nat) (e : MapEntry) :
    Segment.ofText? (segment source line e) = some ⟨0, e.source - source, lineIndex e - line, 0⟩ := by
  have hlast := takeVlq_encodeVlq 0 []
  rw [List.append_nil] at hlast
  unfold segment Segment.ofText?
  simp [List.append_assoc, takeVlq_encodeVlq, hlast]

private theorem not_mem_segment {c : Char} (hc : c ∉ digits64) (source line : Nat) (e : MapEntry) :
    c ∉ segment source line e := by
  unfold segment encodeVlq
  simp only [List.mem_append, not_or]
  exact ⟨⟨⟨fun h => hc (mem_groups64 h), fun h => hc (mem_groups64 h)⟩, fun h => hc (mem_groups64 h)⟩,
    fun h => hc (mem_groups64 h)⟩

private theorem segment_ne_nil (source line : Nat) (e : MapEntry) : segment source line e ≠ [] := by
  intro h
  have hread := ofText?_segment source line e
  rw [h] at hread
  cases hread

private theorem segmentTexts_replicate (k i : Nat) (text : List Char) :
    segmentTexts i (List.replicate k ';' ++ text) = segmentTexts (i + k) text := by
  induction k generalizing i with
  | zero => rfl
  | succ k ih =>
    have hstep : segmentTexts i (List.replicate (k + 1) ';' ++ text) =
        segmentTexts (i + 1) (List.replicate k ';' ++ text) := by
      simp [segmentTexts, List.replicate_succ, Text.splitAt]
    rw [hstep, ih, Nat.add_right_comm, Nat.add_assoc]

section Line

variable {text : List Char} (hne : text ≠ []) (hline : ';' ∉ text) (hsegment : ',' ∉ text)

include hne hline hsegment

private theorem segmentTexts_last (i : Nat) : segmentTexts i text = [(i, text)] := by
  simp [segmentTexts, Text.splitAt_of_not_mem hline, Text.splitAt_of_not_mem hsegment, hne]

private theorem segmentTexts_line (i : Nat) (rest : List Char) :
    segmentTexts i (text ++ ';' :: rest) = (i, text) :: segmentTexts (i + 1) rest := by
  simp [segmentTexts, Text.splitAt_append hline, Text.splitAt_of_not_mem hsegment, hne]

end Line

private theorem segments_of_lt {current source line : Nat} {e : MapEntry} (h : current < e.generated)
    (rest : List MapEntry) :
    segments current source line (e :: rest) = ';' :: segments (current + 1) source line (e :: rest) := by
  obtain ⟨k, hk⟩ : ∃ k, e.generated - current = k + 1 := ⟨e.generated - current - 1, by omega⟩
  have hk' : e.generated - (current + 1) = k := by omega
  rw [segments, segments, hk, hk', List.replicate_succ]
  rfl

/-- Entries in the order of their lines are read back behind any place at the same source and line. -/
private theorem placesFrom_segments (current : Nat) {last : Mapping} {source line : Nat} {entries : List MapEntry}
    (hsource : last.source = source) (hline : last.line = line) (hcolumn : last.column = 0)
    (hsourceColumn : last.sourceColumn = 0) (hsorted : entries.Pairwise fun a b => a.generated < b.generated)
    (hcurrent : ∀ e ∈ entries, current ≤ e.generated) :
    placesFrom last (segmentTexts current (segments current source line entries)) =
      some (entries.map MapEntry.place) := by
  induction entries generalizing current last source line with
  | nil => simp [segments, segmentTexts, Text.splitAt, placesFrom]
  | cons e rest ih =>
    obtain ⟨hlater, hrest⟩ := List.pairwise_cons.1 hsorted
    have hskip : current + (e.generated - current) = e.generated := by
      have := hcurrent e List.mem_cons_self
      omega
    have hsemicolon := not_mem_segment (c := ';') (by decide) source line e
    have hcomma := not_mem_segment (c := ',') (by decide) source line e
    have hne := segment_ne_nil source line e
    -- the line of the entry, and then the lines behind it
    have htexts : segmentTexts current (segments current source line (e :: rest)) =
        (e.generated, segment source line e) ::
          segmentTexts (e.generated + 1) (segments (e.generated + 1) e.source (lineIndex e) rest) := by
      rw [segments, List.append_assoc, segmentTexts_replicate, hskip]
      cases rest with
      | nil =>
        rw [segments, List.append_nil, segmentTexts_last hne hsemicolon hcomma]
        rfl
      | cons next rest =>
        rw [segments_of_lt (hlater next List.mem_cons_self), segmentTexts_line hne hsemicolon hcomma]
    have hplace : (⟨e.generated, (if e.generated = last.generated then last.column else 0) + 0,
        last.source + (e.source - source), last.line + (lineIndex e - line), last.sourceColumn + 0⟩ : Mapping) =
          e.place := by
      rw [hcolumn, hsource, hline, hsourceColumn, ite_self]
      simp only [MapEntry.place, Mapping.mk.injEq, true_and, and_true, Int.add_zero]
      constructor <;> omega
    have hnext := ih (e.generated + 1) (show e.place.source = e.source from rfl) rfl rfl rfl hrest hlater
    rw [htexts, placesFrom, ofText?_segment]
    simp only [Option.bind_eq_bind, Option.bind_some, hplace, hnext]
    rfl

/-- No generated line has two entries. -/
def IsDistinct (m : SourceMap) : Prop := m.entries.Pairwise fun a b => a.generated ≠ b.generated

theorem IsDistinct.record {m : SourceMap} (h : m.IsDistinct) (e : MapEntry) : (m.record e).IsDistinct := by
  unfold SourceMap.record
  split
  · exact h
  · rename_i hfresh
    refine List.pairwise_append.2 ⟨h, List.pairwise_singleton _ _, ?_⟩
    intro old hold e' he'
    rw [List.mem_singleton.1 he']
    intro heq
    exact hfresh (List.any_eq_true.2 ⟨old, hold, by simp [heq]⟩)

/-- Sorted by their lines, the lines of the entries grow. -/
theorem IsDistinct.pairwise_sorted {m : SourceMap} (h : m.IsDistinct) :
    (m.entries.mergeSort fun a b => a.generated ≤ b.generated).Pairwise fun a b => a.generated < b.generated := by
  have hle : (m.entries.mergeSort fun a b => a.generated ≤ b.generated).Pairwise fun a b =>
      decide (a.generated ≤ b.generated) = true :=
    List.pairwise_mergeSort (fun a b c hab hbc => by simp only [decide_eq_true_eq] at *; omega)
      (fun a b => by simp only [Bool.or_eq_true, decide_eq_true_eq]; omega) _
  have hne : (m.entries.mergeSort fun a b => a.generated ≤ b.generated).Pairwise fun a b =>
      a.generated ≠ b.generated :=
    (List.mergeSort_perm _ _).symm.pairwise h Ne.symm
  exact (hle.and hne).imp fun {a b} hab => Nat.lt_of_le_of_ne (of_decide_eq_true hab.1) hab.2

/-- A map says what its entries say, in the order of their lines. -/
theorem decode_mappings {m : SourceMap} (h : m.IsDistinct) :
    decode m.mappings =
      some ((m.entries.mergeSort fun a b => a.generated ≤ b.generated).map MapEntry.place) := by
  unfold decode mappings
  rw [String.toList_ofList]
  exact placesFrom_segments 0 rfl rfl rfl rfl h.pairwise_sorted fun _ _ => Nat.zero_le _

end SourceMap

end HaxeBackend.Target
