import HaxeBackend.Target.Code

/-!
# Pages of code

The page of code is laid out line by line, and every line keeps the mark that it took, also where code that was laid
out on its own is copied.  A writer keeps marks apart from the text, by row numbers that move when rows are copied.
Main result: it holds the text and the marks of the page (`Code.shows_write`), with the numbers that rows have when
every block header counts as one row.  These are the places of the lines where every header is one line
(`Code.marksOf_eq_placesOf`).
-/

namespace HaxeBackend.Target

/-! ### Lines and layouts -/

/-- A line of text with the mark that it took, and the number of its row. -/
structure PageLine where
  text : String
  mark : Option Nat
  row : Nat
  deriving DecidableEq, Repr

structure PageState where
  /-- The mark that the next row takes. -/
  pending : Option Nat := none
  /-- How many rows there are. -/
  count : Nat := 0

/-- What is put on a page, and what it leaves behind. -/
abbrev Layout := PageState → List PageLine × PageState

namespace Layout

def skip : Layout := fun st => ([], st)

def andThen (a b : Layout) : Layout := fun st => ((a st).1 ++ (b (a st).2).1, (b (a st).2).2)

/-- The lines of a text that is written as it is. -/
def breaks (text : String) : List String := (Text.splitAt '\n' text.toList).map String.ofList

/-- A text with tabs in front, unless it is empty. -/
def tabbed (depth : Nat) (text : String) : String := if text.isEmpty then "" else Writer.tabs depth ++ text

/-- One row, whose first line takes the pending mark. -/
def row (depth : Nat) (text : String) : Layout := fun st =>
  match breaks (tabbed depth text) with
  | [] => ([], ⟨none, st.count + 1⟩)
  | first :: rest =>
    (⟨first, st.pending, st.count⟩ :: rest.map fun line => ⟨line, none, st.count⟩, ⟨none, st.count + 1⟩)

def rows (depth : Nat) : List String → Layout
  | [] => skip
  | text :: rest => (row depth text).andThen (rows depth rest)

def blank : Layout := fun st => ([⟨"", none, st.count⟩], ⟨st.pending, st.count + 1⟩)

def mark (source : Nat) : Layout := fun st => ([], ⟨some source, st.count⟩)

/-- A line without the carriage return at its end. -/
def chomp (text : String) : String :=
  if text.toList.getLast? = some '\r' then String.ofList text.toList.dropLast else text

/-- A copy of what another layout gives on an empty page: a row for each line. -/
def copy (depth : Nat) (a : Layout) : Layout := fun st =>
  ((a {}).1.map fun line => ⟨tabbed depth (chomp line.text), line.mark, st.count + line.row⟩,
    ⟨st.pending, st.count + (a {}).1.length⟩)

end Layout

/-- The layout of code. -/
def Code.page (depth : Nat) : Code → Layout
  | .empty => .skip
  | .seq first rest => (first.page depth).andThen (rest.page depth)
  | .line text => .rows depth (Text.lines text)
  | .blank => .blank
  | .mark source => .mark source
  | .block header body =>
    (Layout.row depth (header ++ " \x7b")).andThen <| (body.page (depth + 1)).andThen (.row depth "\x7d")
  | .chain header body nextHeader nextBody =>
    (Layout.row depth (header ++ " \x7b")).andThen <| (body.page (depth + 1)).andThen <|
      (Layout.row depth ("\x7d " ++ nextHeader ++ " \x7b")).andThen <|
        (nextBody.page (depth + 1)).andThen (.row depth "\x7d")
  | .indented body => body.page (depth + 1)
  | .nested body => .copy depth (body.page 0)

/-- The marks of lines, by the numbers of their rows. -/
def marksOf (lines : List PageLine) : List LineMapping :=
  lines.filterMap fun line => line.mark.map fun source => ⟨line.row, source⟩

/-- The marks of lines, by the places of the lines in the text. -/
def placesOf (lines : List PageLine) : List LineMapping :=
  lines.zipIdx.filterMap fun x => x.1.mark.map fun source => ⟨x.2, source⟩

theorem marksOf_append (lines lines' : List PageLine) : marksOf (lines ++ lines') = marksOf lines ++ marksOf lines' :=
  List.filterMap_append

theorem map_source_marksOf (lines : List PageLine) :
    (marksOf lines).map LineMapping.source = lines.filterMap PageLine.mark := by
  unfold marksOf
  rw [List.map_filterMap]
  refine congrArg (List.filterMap · lines) (funext fun line => ?_)
  rw [Option.map_map]
  exact Option.map_id_apply

theorem map_source_placesOf (lines : List PageLine) :
    (placesOf lines).map LineMapping.source = lines.filterMap PageLine.mark := by
  have hfrom : ∀ start, ((lines.zipIdx start).filterMap fun x =>
      x.1.mark.map fun source => (⟨x.2, source⟩ : LineMapping)).map LineMapping.source =
        lines.filterMap PageLine.mark := by
    induction lines with
    | nil => exact fun _ => rfl
    | cons line lines ih =>
      intro start
      rw [List.zipIdx_cons, List.filterMap_cons, List.filterMap_cons]
      cases line.mark with
      | none => exact ih (start + 1)
      | some source => exact congrArg (source :: ·) (ih (start + 1))
  exact hfrom 0

/-! ### What a writer holds -/

/-- The lines of the text of a writer. -/
def Writer.lines (w : Writer) : List String := w.rows.toList.flatMap Layout.breaks

/-- The writer holds the lines of a page and their marks. -/
structure Shows (w : Writer) (depth : Nat) (page : List PageLine) (st : PageState) : Prop where
  depth_eq : w.depth = depth
  lines_eq : w.lines = page.map PageLine.text
  pending_eq : w.pending = st.pending
  count_eq : w.lineCount = st.count
  mappings_eq : w.mappings = marksOf page

theorem shows_empty : Shows {} 0 [] {} := ⟨rfl, rfl, rfl, rfl, rfl⟩

namespace Layout

theorem breaks_of_not_mem {text : String} (h : '\n' ∉ text.toList) : breaks text = [text] := by
  rw [breaks, Text.splitAt_of_not_mem h, List.map_singleton, String.ofList_toList]

theorem not_mem_tabbed {text : String} (h : '\n' ∉ text.toList) (depth : Nat) : '\n' ∉ (tabbed depth text).toList := by
  unfold tabbed
  split
  · exact List.not_mem_nil
  · rw [String.toList_append, List.mem_append, not_or]
    refine ⟨?_, h⟩
    rw [Writer.tabs, String.toList_ofList]
    exact fun hmem => absurd (List.eq_of_mem_replicate hmem) (by decide)

/-- What is put around a header that is one line leaves it one line. -/
theorem not_mem_header {header : String} (h : (!header.toList.contains '\n') = true) (start : String)
    (hstart : '\n' ∉ start.toList) : '\n' ∉ (start ++ header ++ " \x7b").toList := by
  simp only [String.toList_append, List.mem_append, not_or]
  exact ⟨⟨hstart, by simpa using h⟩, by decide⟩

/-- A row has at least one line, and only the first may be marked. -/
private theorem row_eq (depth : Nat) (text : String) :
    ∃ first rest, breaks (tabbed depth text) = first :: rest ∧ ∀ st, row depth text st =
      (⟨first, st.pending, st.count⟩ :: rest.map fun line => ⟨line, none, st.count⟩, ⟨none, st.count + 1⟩) := by
  obtain ⟨first, rest, hbreaks⟩ : ∃ first rest, breaks (tabbed depth text) = first :: rest := by
    refine List.exists_cons_of_ne_nil fun hnil => Text.splitAt_ne_nil '\n' (tabbed depth text).toList ?_
    exact List.map_eq_nil_iff.1 hnil
  refine ⟨first, rest, hbreaks, fun st => ?_⟩
  unfold row
  rw [hbreaks]

private theorem marksOf_row (depth : Nat) (text : String) (st : PageState) :
    marksOf (row depth text st).1 = (st.pending.map fun source => ⟨st.count, source⟩).toList := by
  obtain ⟨first, rest, -, hrow⟩ := row_eq depth text
  have hrest : marksOf (rest.map fun line => ⟨line, none, st.count⟩) = [] := by simp [marksOf, List.filterMap_map]
  rw [hrow, ← List.singleton_append, marksOf_append, hrest, List.append_nil]
  cases st.pending <;> rfl

private theorem marksOf_copy (a : Layout) (depth : Nat) (st : PageState) :
    marksOf (a.copy depth st).1 = (marksOf (a {}).1).map fun m => ⟨m.generated + st.count, m.source⟩ := by
  unfold marksOf copy
  rw [List.filterMap_map, List.map_filterMap]
  refine congrArg (List.filterMap · _) (funext fun line => ?_)
  simp [Function.comp_def, Nat.add_comm]

end Layout

theorem Writer.lines_push (w : Writer) (text : String) :
    (w.rows.push text).toList.flatMap Layout.breaks = w.lines ++ Layout.breaks text := by
  simp [lines]

theorem Writer.run_append (w : Writer) (steps steps' : List Step) :
    w.run (steps ++ steps') = (w.run steps).run steps' := by
  induction steps generalizing w with
  | nil => rfl
  | cons s steps ih =>
    rw [List.cons_append, run, run]
    exact ih (w.step s)

namespace Shows

variable {w : Writer} {depth : Nat} {page : List PageLine} {st : PageState}

theorem row (h : Shows w depth page st) (text : String) :
    Shows (w.row text) depth (page ++ (Layout.row depth text st).1) (Layout.row depth text st).2 := by
  obtain ⟨first, rest, hbreaks, hrow⟩ := Layout.row_eq depth text
  refine ⟨h.depth_eq, ?_, ?_, ?_, ?_⟩
  · have htext : (w.row text).lines = w.lines ++ Layout.breaks (Layout.tabbed depth text) := by
      rw [← h.depth_eq]
      exact w.lines_push _
    rw [htext, h.lines_eq, hbreaks, hrow, List.map_append, List.map_cons, List.map_map]
    exact congrArg _ (congrArg _ (List.map_id rest).symm)
  · rw [hrow]
    rfl
  · have hcount : (w.row text).lineCount = w.lineCount + 1 := by simp [Writer.row, Writer.lineCount]
    rw [hcount, h.count_eq, hrow]
  · have hmappings : (w.row text).mappings = w.mappings ++ w.taken := rfl
    rw [marksOf_append, Layout.marksOf_row, hmappings, h.mappings_eq, Writer.taken, h.pending_eq, h.count_eq]
    cases st.pending <;> rfl

theorem rows (h : Shows w depth page st) (texts : List String) :
    Shows (texts.foldl Writer.row w) depth (page ++ (Layout.rows depth texts st).1)
      (Layout.rows depth texts st).2 := by
  induction texts generalizing w page st with
  | nil => simpa [Layout.rows, Layout.skip] using h
  | cons text texts ih =>
    have hrest := ih (h.row text)
    rw [List.append_assoc] at hrest
    exact hrest

theorem blank (h : Shows w depth page st) :
    Shows w.blank depth (page ++ (Layout.blank st).1) (Layout.blank st).2 := by
  refine ⟨h.depth_eq, ?_, h.pending_eq, ?_, ?_⟩
  · have htext : w.blank.lines = w.lines ++ [""] := w.lines_push ""
    rw [htext, h.lines_eq]
    simp [Layout.blank]
  · have hcount : w.blank.lineCount = w.lineCount + 1 := by simp [Writer.blank, Writer.lineCount]
    rw [hcount, h.count_eq]
    rfl
  · rw [marksOf_append, ← h.mappings_eq]
    simp [Layout.blank, marksOf, Writer.blank]

theorem mark (h : Shows w depth page st) (source : Nat) :
    Shows (w.mark source) depth (page ++ (Layout.mark source st).1) (Layout.mark source st).2 := by
  have hpage : page ++ (Layout.mark source st).1 = page := List.append_nil page
  rw [hpage]
  exact ⟨h.depth_eq, h.lines_eq, rfl, h.count_eq, h.mappings_eq⟩

theorem indent (h : Shows w depth page st) : Shows w.indent (depth + 1) page st :=
  ⟨by rw [← h.depth_eq]; rfl, h.lines_eq, h.pending_eq, h.count_eq, h.mappings_eq⟩

theorem dedent (h : Shows w (depth + 1) page st) : Shows w.dedent depth page st :=
  ⟨by rw [Writer.dedent, h.depth_eq, Nat.add_sub_cancel], h.lines_eq, h.pending_eq, h.count_eq, h.mappings_eq⟩

end Shows

/-! ### Copies -/

private theorem flatMap_breaks (text : String) :
    (Layout.breaks text).flatMap (fun line => line.toList ++ ['\n']) = text.toList ++ ['\n'] := by
  have hends : ∀ parts : List (List Char), parts ≠ [] →
      parts.flatMap (· ++ ['\n']) = ['\n'].intercalate parts ++ ['\n'] := by
    intro parts hne
    induction parts with
    | nil => exact absurd rfl hne
    | cons part parts ih =>
      cases parts with
      | nil => simp
      | cons next parts => simp [List.intercalate_cons_cons, ih (by simp)]
  unfold Layout.breaks
  rw [List.flatMap_map]
  simp only [String.toList_ofList]
  rw [hends _ (Text.splitAt_ne_nil _ _), Text.intercalate_splitAt]

/-- The text of a writer consists of its lines, each ended by a line feed. -/
theorem Writer.toList_text (w : Writer) : w.text.toList = w.lines.flatMap fun line => line.toList ++ ['\n'] := by
  have hfold : ∀ (rows : List String) (text : String),
      (rows.foldl (fun text row => text ++ row ++ "\n") text).toList =
        text.toList ++ (rows.flatMap Layout.breaks).flatMap fun line => line.toList ++ ['\n'] := by
    intro rows
    induction rows with
    | nil => simp
    | cons row rows ih =>
      intro text
      rw [List.foldl_cons, ih, List.flatMap_cons, List.flatMap_append, flatMap_breaks]
      simp
  unfold Writer.text Writer.lines
  rw [← Array.foldl_toList, hfold]
  rfl

theorem Writer.not_mem_lines (w : Writer) : ∀ line ∈ w.lines, '\n' ∉ line.toList := by
  intro line hline
  obtain ⟨row, -, hrow⟩ := List.mem_flatMap.1 hline
  obtain ⟨part, hpart, rfl⟩ := List.mem_map.1 hrow
  rw [String.toList_ofList]
  exact Text.not_mem_of_mem_splitAt hpart

/-- The lines of a writer are the lines of its text, and nothing follows the last line feed. -/
theorem Writer.splitAt_text (w : Writer) :
    Text.splitAt '\n' w.text.toList = w.lines.map String.toList ++ [[]] := by
  have hsplit : ∀ lines : List String, (∀ line ∈ lines, '\n' ∉ line.toList) →
      Text.splitAt '\n' (lines.flatMap fun line => line.toList ++ ['\n']) = lines.map String.toList ++ [[]] := by
    intro lines hlines
    induction lines with
    | nil => rfl
    | cons line lines ih =>
      have hrest := ih fun line hline => hlines line (List.mem_cons_of_mem _ hline)
      rw [List.flatMap_cons, List.append_assoc, List.singleton_append,
        Text.splitAt_append (hlines line List.mem_cons_self), hrest]
      rfl
  rw [w.toList_text, hsplit w.lines w.not_mem_lines]

private theorem splitLines_flatMap {lines : List String} (h : ∀ line ∈ lines, '\n' ∉ line.toList) :
    (Text.splitLines (lines.flatMap fun line => line.toList ++ ['\n'])).map String.ofList =
      lines.map Layout.chomp := by
  induction lines with
  | nil => rfl
  | cons line lines ih =>
    have hfirst := Text.splitLines_append (h line List.mem_cons_self)
    rw [List.flatMap_cons, List.append_assoc, List.singleton_append, hfirst, List.map_cons, List.map_cons,
      ih fun line hline => h line (List.mem_cons_of_mem _ hline)]
    congr 1
    unfold Layout.chomp
    split
    · rfl
    · exact String.ofList_toList

/-- What is copied of a writer are its lines, without a carriage return at the end. -/
theorem Writer.lines_text (w : Writer) : Text.lines w.text = w.lines.map Layout.chomp := by
  unfold Text.lines
  rw [w.toList_text, splitLines_flatMap w.not_mem_lines]

/-- A line that is copied is one line, with tabs in front unless it is empty. -/
theorem Writer.lines_copyLine (w : Writer) {text : String} (h : '\n' ∉ text.toList) :
    (w.copyLine text).lines = w.lines ++ [Layout.tabbed w.depth text] := by
  rw [← Layout.breaks_of_not_mem (Layout.not_mem_tabbed h w.depth)]
  unfold Writer.copyLine
  split
  · rename_i hempty
    rw [Layout.tabbed, if_pos hempty]
    exact w.lines_push ""
  · exact w.lines_push _

/-- Rows that are copied where no mark is pending. -/
private theorem copyLine_foldl {w : Writer} (hpending : w.pending = none) {texts : List String}
    (htexts : ∀ text ∈ texts, '\n' ∉ text.toList) :
    (texts.foldl Writer.copyLine w).depth = w.depth ∧ (texts.foldl Writer.copyLine w).pending = none ∧
      (texts.foldl Writer.copyLine w).mappings = w.mappings ∧
      (texts.foldl Writer.copyLine w).lineCount = w.lineCount + texts.length ∧
      (texts.foldl Writer.copyLine w).lines = w.lines ++ texts.map (Layout.tabbed w.depth) := by
  induction texts generalizing w with
  | nil => simp [hpending]
  | cons text texts ih =>
    have hlines := w.lines_copyLine (htexts text List.mem_cons_self)
    -- an empty row is copied without indentation, which adds a line all the same
    have hrest : (w.copyLine text).depth = w.depth ∧ (w.copyLine text).pending = none ∧
        (w.copyLine text).mappings = w.mappings ∧ (w.copyLine text).lineCount = w.lineCount + 1 := by
      unfold Writer.copyLine
      split
      · exact ⟨rfl, hpending, rfl, by simp [Writer.blank, Writer.lineCount]⟩
      · refine ⟨rfl, rfl, ?_, by simp [Writer.row, Writer.lineCount]⟩
        simp [Writer.row, Writer.taken, hpending]
    obtain ⟨hdepth, hpending', hmappings, hcount⟩ := hrest
    have hnext := ih hpending' fun text hmem => htexts text (List.mem_cons_of_mem _ hmem)
    rw [hdepth, hmappings, hcount, hlines] at hnext
    obtain ⟨h₁, h₂, h₃, h₄, h₅⟩ := hnext
    refine ⟨h₁, h₂, h₃, ?_, ?_⟩
    · rw [List.foldl_cons, h₄, List.length_cons]
      omega
    · rw [List.foldl_cons, h₅, List.append_assoc]
      rfl

theorem Shows.copy {w inner : Writer} {depth : Nat} {page : List PageLine} {st : PageState} (h : Shows w depth page st)
    (hpending : st.pending = none) {a : Layout} (hinner : Shows inner 0 (a {}).1 (a {}).2) :
    Shows (w.append inner) depth (page ++ (Layout.copy depth a st).1) (Layout.copy depth a st).2 := by
  have htexts : Text.lines inner.text = (a {}).1.map fun line => Layout.chomp line.text := by
    rw [inner.lines_text, hinner.lines_eq, List.map_map]
    rfl
  have hfree : ∀ text ∈ Text.lines inner.text, '\n' ∉ text.toList := fun _ => Text.not_mem_of_mem_lines
  have hcopied := copyLine_foldl (h.pending_eq.trans hpending) hfree
  have happend : w.append inner = { (Text.lines inner.text).foldl Writer.copyLine w with
      mappings := ((Text.lines inner.text).foldl Writer.copyLine w).mappings ++
        inner.mappings.map fun m => ⟨m.generated + w.lineCount, m.source⟩ } := rfl
  rw [happend]
  generalize (Text.lines inner.text).foldl Writer.copyLine w = copied at hcopied ⊢
  obtain ⟨hdepth, hpending', hmappings, hcount, hlines⟩ := hcopied
  refine ⟨hdepth.trans h.depth_eq, ?_, hpending'.trans hpending.symm, ?_, ?_⟩
  · show copied.lines = _
    rw [hlines, h.lines_eq, h.depth_eq, htexts, List.map_append, List.map_map]
    simp [Layout.copy]
  · show copied.lineCount = _
    rw [hcount, h.count_eq, htexts, List.length_map]
    rfl
  · show copied.mappings ++ _ = _
    rw [marksOf_append, ← h.mappings_eq, hmappings, hinner.mappings_eq, h.count_eq, Layout.marksOf_copy]

/-! ### Marked lines -/

namespace Layout

variable {a b : Layout} {marks marks' : List Nat}

/-- Where nothing is pending, lines take these marks and leave nothing pending. -/
def Takes (a : Layout) (marks : List Nat) : Prop :=
  ∀ st, st.pending = none → (a st).1.filterMap PageLine.mark = marks ∧ (a st).2.pending = none

theorem takes_skip : skip.Takes [] := fun _ hst => ⟨rfl, hst⟩

theorem Takes.andThen (ha : a.Takes marks) (hb : b.Takes marks') : (a.andThen b).Takes (marks ++ marks') := by
  intro st hst
  obtain ⟨hmarks, hpending⟩ := ha st hst
  obtain ⟨hmarks', hpending'⟩ := hb _ hpending
  refine ⟨?_, hpending'⟩
  rw [Layout.andThen, List.filterMap_append, hmarks, hmarks']

/-- A row leaves nothing pending, whatever was. -/
theorem row_pending (depth : Nat) (text : String) (st : PageState) : (row depth text st).2.pending = none := by
  obtain ⟨_, _, -, hrow⟩ := row_eq depth text
  rw [hrow]

theorem takes_row (depth : Nat) (text : String) : (row depth text).Takes [] := by
  obtain ⟨first, rest, -, hrow⟩ := row_eq depth text
  intro st hst
  refine ⟨?_, row_pending depth text st⟩
  rw [hrow, hst]
  simp [List.filterMap_map]

theorem takes_rows (depth : Nat) (texts : List String) : (rows depth texts).Takes [] := by
  induction texts with
  | nil => exact takes_skip
  | cons text texts ih => exact (takes_row depth text).andThen ih

theorem takes_copy (a : Layout) (depth : Nat) : (a.copy depth).Takes ((a {}).1.filterMap PageLine.mark) := by
  intro st hst
  refine ⟨?_, hst⟩
  rw [copy, List.filterMap_map]
  rfl

end Layout

/-- The lines of code on an empty page. -/
def Code.pageLines (c : Code) : List PageLine := (c.page 0 {}).1

/-- The marks that lines of the code take, in order: not those that another mark or the end of the code follows before
the next line. -/
def Code.takenMarks (c : Code) : List Nat := c.pageLines.filterMap PageLine.mark

/-! ### Written code -/

namespace Code

variable {c : Code} {w : Writer} {depth : Nat} {page : List PageLine} {st : PageState}

/-- No code is copied. -/
def isPlain : Code → Bool
  | .seq first rest => first.isPlain && rest.isPlain
  | .block _ body | .indented body => body.isPlain
  | .chain _ body _ nextBody => body.isPlain && nextBody.isPlain
  | .nested _ => false
  | .empty | .line _ | .blank | .mark _ => true

/-- Nothing is marked but in code that is copied. -/
def isSheet : Code → Bool
  | .seq first rest => first.isSheet && rest.isSheet
  | .block _ body | .indented body => body.isSheet
  | .chain _ body _ nextBody => body.isSheet && nextBody.isSheet
  | .nested body => body.isPlain || body.isSheet
  | .mark _ => false
  | .empty | .line _ | .blank => true

/-- The marks that lines of a sheet take are those of the code that is copied. -/
def copiedMarks : Code → List Nat
  | .seq first rest => first.copiedMarks ++ rest.copiedMarks
  | .block _ body | .indented body => body.copiedMarks
  | .chain _ body _ nextBody => body.copiedMarks ++ nextBody.copiedMarks
  | .nested body => body.takenMarks
  | .empty | .line _ | .blank | .mark _ => []

theorem takes_page (h : c.isSheet = true) (depth : Nat) : (c.page depth).Takes c.copiedMarks := by
  induction c generalizing depth with
  | empty => exact Layout.takes_skip
  | seq first rest ihfirst ihrest =>
    rw [isSheet, Bool.and_eq_true] at h
    exact (ihfirst h.1 depth).andThen (ihrest h.2 depth)
  | line text => exact Layout.takes_rows depth _
  | blank => exact fun st hst => ⟨rfl, hst⟩
  | mark source => cases h
  | block header body ih =>
    have hbody := (ih h (depth + 1)).andThen (Layout.takes_row depth "\x7d")
    rw [List.append_nil] at hbody
    exact (Layout.takes_row depth _).andThen hbody
  | chain header body nextHeader nextBody ih ihnext =>
    rw [isSheet, Bool.and_eq_true] at h
    have hnext := (ihnext h.2 (depth + 1)).andThen (Layout.takes_row depth "\x7d")
    rw [List.append_nil] at hnext
    exact (Layout.takes_row depth _).andThen <| (ih h.1 (depth + 1)).andThen <|
      (Layout.takes_row depth _).andThen hnext
  | indented body ih => exact ih h (depth + 1)
  | nested body _ => exact Layout.takes_copy (body.page 0) depth

theorem takenMarks_eq (h : c.isSheet = true) : c.takenMarks = c.copiedMarks := (takes_page h 0 {} rfl).1

/-- Where code may be written: anything goes without copies, and copies where no mark is pending. -/
private def IsFit (c : Code) (st : PageState) : Prop := c.isPlain = true ∨ c.isSheet = true ∧ st.pending = none

/-- Writing code on a writer adds its lines to the page. -/
private theorem shows_run (h : Shows w depth page st) (hc : IsFit c st) :
    Shows (w.run c.steps) depth (page ++ (c.page depth st).1) (c.page depth st).2 := by
  induction c generalizing w depth page st with
  | empty => simpa [steps, Code.page, Layout.skip, Writer.run] using h
  | seq first rest ihfirst ihrest =>
    have hfirst : IsFit first st := hc.imp (fun hp => (Bool.and_eq_true_iff.1 hp).1)
      fun hs => ⟨(Bool.and_eq_true_iff.1 hs.1).1, hs.2⟩
    have hrest : IsFit rest (first.page depth st).2 := hc.imp (fun hp => (Bool.and_eq_true_iff.1 hp).2)
      fun hs => ⟨(Bool.and_eq_true_iff.1 hs.1).2, (takes_page (Bool.and_eq_true_iff.1 hs.1).1 depth st hs.2).2⟩
    have hshows := ihrest (ihfirst h hfirst) hrest
    rw [steps, Writer.run_append]
    rw [List.append_assoc] at hshows
    exact hshows
  | line text => exact h.rows _
  | blank => exact h.blank
  | mark source => exact h.mark source
  -- the header opens a level, the body is shown below it, and the brace closes the level again
  | block header body ih =>
    have hopen := (h.row (header ++ " \x7b")).indent
    have hbody := ih hopen (hc.imp id fun hs => ⟨hs.1, Layout.row_pending _ _ _⟩)
    have hclose := hbody.dedent.row "\x7d"
    rw [steps, Writer.run, Writer.step, Writer.run_append, Writer.run, Writer.step, Writer.run]
    simp only [List.append_assoc] at hclose
    simp only [Code.page, Layout.andThen]
    exact hclose
  | chain header body nextHeader nextBody ih ihnext =>
    have hfirst : IsFit body (Layout.row depth (header ++ " \x7b") st).2 :=
      hc.imp (fun hp => (Bool.and_eq_true_iff.1 hp).1)
        fun hs => ⟨(Bool.and_eq_true_iff.1 hs.1).1, Layout.row_pending _ _ _⟩
    have hopen := (h.row (header ++ " \x7b")).indent
    have hreopen := ((ih hopen hfirst).dedent.row ("\x7d " ++ nextHeader ++ " \x7b")).indent
    have hnext := ihnext hreopen (hc.imp (fun hp => (Bool.and_eq_true_iff.1 hp).2)
      fun hs => ⟨(Bool.and_eq_true_iff.1 hs.1).2, Layout.row_pending _ _ _⟩)
    have hclose := hnext.dedent.row "\x7d"
    rw [steps, Writer.run, Writer.step, Writer.run_append, Writer.run, Writer.step, Writer.run_append, Writer.run,
      Writer.step, Writer.run]
    simp only [List.append_assoc] at hclose
    simp only [Code.page, Layout.andThen]
    exact hclose
  | indented body ih =>
    have hbody := (ih h.indent hc).dedent
    rw [steps, Writer.run, Writer.step, Writer.run_append, Writer.run, Writer.step, Writer.run]
    exact hbody
  | nested body ih =>
    -- nested code is written on a writer of its own, so no pending mark may reach into it
    obtain hp | ⟨hs, hpending⟩ := hc
    · cases hp
    · have hinner := ih shows_empty ((Bool.or_eq_true_iff.1 hs).imp id fun hs => ⟨hs, rfl⟩)
      rw [List.nil_append] at hinner
      exact h.copy hpending hinner

/-- What is written of a sheet is its page: the text by its lines, and the marks by the rows. -/
theorem shows_write (h : c.isSheet = true) : Shows c.write 0 c.pageLines (c.page 0 {}).2 := by
  have hshows := shows_run (c := c) shows_empty (.inr ⟨h, rfl⟩)
  rw [List.nil_append] at hshows
  exact hshows

end Code

/-! ### Numbers of rows -/

namespace Layout

variable {a b : Layout}

/-- Rows are counted upwards, no faster than there are lines, and marked lines are in different rows. -/
structure IsOrdered (a : Layout) : Prop where
  count_le : ∀ st, st.count ≤ (a st).2.count
  count_le_length : ∀ st, (a st).2.count ≤ st.count + (a st).1.length
  within : ∀ st, ∀ m ∈ marksOf (a st).1, st.count ≤ m.generated ∧ m.generated < (a st).2.count
  sorted : ∀ st, (marksOf (a st).1).Pairwise fun m m' => m.generated < m'.generated

theorem isOrdered_skip : IsOrdered skip where
  count_le _ := Nat.le_refl _
  count_le_length _ := Nat.le_refl _
  within _ _ hm := absurd hm List.not_mem_nil
  sorted _ := List.Pairwise.nil

theorem IsOrdered.andThen (ha : IsOrdered a) (hb : IsOrdered b) : IsOrdered (a.andThen b) where
  count_le st := Nat.le_trans (ha.count_le st) (hb.count_le _)
  count_le_length st := by
    have hfirst := ha.count_le_length st
    have hnext := hb.count_le_length (a st).2
    simp only [Layout.andThen, List.length_append]
    omega
  within st m hm := by
    simp only [Layout.andThen, marksOf_append, List.mem_append] at hm ⊢
    rcases hm with hm | hm
    · have hm := ha.within st m hm
      have hnext := hb.count_le (a st).2
      omega
    · have hm := hb.within (a st).2 m hm
      have hfirst := ha.count_le st
      omega
  sorted st := by
    simp only [Layout.andThen, marksOf_append]
    refine List.pairwise_append.2 ⟨ha.sorted st, hb.sorted _, ?_⟩
    intro m hm m' hm'
    have hm := ha.within st m hm
    have hm' := hb.within _ m' hm'
    omega

theorem isOrdered_row (depth : Nat) (text : String) : IsOrdered (row depth text) := by
  obtain ⟨first, rest, -, hrow⟩ := row_eq depth text
  refine ⟨?_, ?_, ?_, ?_⟩ <;> intro st
  · rw [hrow]
    exact Nat.le_succ _
  · have hlength : (row depth text st).1.length = rest.length + 1 := by simp [hrow]
    have hcount : (row depth text st).2.count = st.count + 1 := by rw [hrow]
    omega
  · intro m hm
    rw [marksOf_row] at hm
    rw [hrow]
    cases hpending : st.pending with
    | none => simp [hpending] at hm
    | some source =>
      obtain rfl : m = ⟨st.count, source⟩ := by simpa [hpending] using hm
      exact ⟨Nat.le_refl _, Nat.lt_succ_self _⟩
  · rw [marksOf_row]
    cases st.pending <;> simp

theorem isOrdered_rows (depth : Nat) (texts : List String) : IsOrdered (rows depth texts) := by
  induction texts with
  | nil => exact isOrdered_skip
  | cons text texts ih => exact (isOrdered_row depth text).andThen ih

theorem isOrdered_blank : IsOrdered blank where
  count_le _ := Nat.le_succ _
  count_le_length _ := Nat.le_refl _
  within _ _ hm := absurd hm List.not_mem_nil
  sorted _ := List.Pairwise.nil

theorem isOrdered_mark (source : Nat) : IsOrdered (mark source) where
  count_le _ := Nat.le_refl _
  count_le_length _ := Nat.le_refl _
  within _ _ hm := absurd hm List.not_mem_nil
  sorted _ := List.Pairwise.nil

theorem IsOrdered.copy (ha : IsOrdered a) (depth : Nat) : IsOrdered (a.copy depth) := by
  refine ⟨?_, ?_, ?_, ?_⟩ <;> intro st
  · exact Nat.le_add_right _ _
  · simp [Layout.copy]
  · intro m hm
    rw [marksOf_copy] at hm
    obtain ⟨inner, hinner, rfl⟩ := List.mem_map.1 hm
    have hinner := (ha.within {} inner hinner).2
    have hlength : (a {}).2.count ≤ 0 + (a {}).1.length := ha.count_le_length {}
    simp only [Layout.copy]
    omega
  · rw [marksOf_copy, List.pairwise_map]
    exact (ha.sorted {}).imp fun hlt => Nat.add_lt_add_right hlt _

/-- Every line counts as one row. -/
def IsCounted (a : Layout) : Prop :=
  ∀ st, (a st).1.map PageLine.row = List.range' st.count (a st).1.length ∧
    (a st).2.count = st.count + (a st).1.length

theorem IsCounted.andThen (ha : IsCounted a) (hb : IsCounted b) : IsCounted (a.andThen b) := by
  intro st
  obtain ⟨hrows, hcount⟩ := ha st
  obtain ⟨hrows', hcount'⟩ := hb (a st).2
  simp only [Layout.andThen, List.map_append, List.length_append]
  constructor
  · rw [hrows, hrows', hcount, List.range'_append_1]
  · omega

theorem isCounted_row {depth : Nat} {text : String} (h : '\n' ∉ text.toList) : IsCounted (row depth text) := by
  intro st
  unfold row
  rw [breaks_of_not_mem (not_mem_tabbed h depth)]
  exact ⟨rfl, rfl⟩

theorem isCounted_rows {depth : Nat} {texts : List String} (h : ∀ text ∈ texts, '\n' ∉ text.toList) :
    IsCounted (rows depth texts) := by
  induction texts with
  | nil => exact fun _ => ⟨rfl, rfl⟩
  | cons text texts ih =>
    exact (isCounted_row (h text List.mem_cons_self)).andThen
      (ih fun text hmem => h text (List.mem_cons_of_mem _ hmem))

theorem IsCounted.copy (ha : IsCounted a) (depth : Nat) : IsCounted (a.copy depth) := by
  intro st
  obtain ⟨hrows, -⟩ := ha {}
  simp only [Layout.copy, List.map_map, List.length_map, and_true]
  have hshift : (a {}).1.map ((PageLine.row) ∘ fun line : PageLine =>
      ⟨tabbed depth (chomp line.text), line.mark, st.count + line.row⟩) =
        ((a {}).1.map PageLine.row).map (st.count + ·) := by
    rw [List.map_map]
    rfl
  rw [hshift, hrows, List.map_add_range']
  rfl

end Layout

namespace Code

/-- Every header of a block is one line. -/
def isFlat : Code → Bool
  | .seq first rest => first.isFlat && rest.isFlat
  | .block header body => !header.toList.contains '\n' && body.isFlat
  | .chain header body nextHeader nextBody =>
    !header.toList.contains '\n' && body.isFlat && (!nextHeader.toList.contains '\n' && nextBody.isFlat)
  | .indented body | .nested body => body.isFlat
  | .empty | .line _ | .blank | .mark _ => true

theorem isOrdered_page (c : Code) (depth : Nat) : (c.page depth).IsOrdered := by
  induction c generalizing depth with
  | empty => exact Layout.isOrdered_skip
  | seq first rest ihfirst ihrest => exact (ihfirst depth).andThen (ihrest depth)
  | line text => exact Layout.isOrdered_rows depth _
  | blank => exact Layout.isOrdered_blank
  | mark source => exact Layout.isOrdered_mark source
  | block header body ih =>
    exact (Layout.isOrdered_row depth _).andThen ((ih (depth + 1)).andThen (Layout.isOrdered_row depth _))
  | chain header body nextHeader nextBody ih ihnext =>
    exact (Layout.isOrdered_row depth _).andThen <| (ih (depth + 1)).andThen <|
      (Layout.isOrdered_row depth _).andThen <| (ihnext (depth + 1)).andThen (Layout.isOrdered_row depth _)
  | indented body ih => exact ih (depth + 1)
  | nested body ih => exact (ih 0).copy depth

private theorem isCounted_header {header : String} (h : (!header.toList.contains '\n') = true) (start : String)
    (hstart : '\n' ∉ start.toList) (depth : Nat) : (Layout.row depth (start ++ header ++ " \x7b")).IsCounted :=
  Layout.isCounted_row (Layout.not_mem_header h start hstart)

theorem isCounted_page {c : Code} (h : c.isFlat = true) (depth : Nat) : (c.page depth).IsCounted := by
  have hclose : ∀ depth, (Layout.row depth "\x7d").IsCounted := fun depth => Layout.isCounted_row (by decide)
  induction c generalizing depth with
  | empty => exact fun _ => ⟨rfl, rfl⟩
  | seq first rest ihfirst ihrest =>
    rw [isFlat, Bool.and_eq_true] at h
    exact (ihfirst h.1 depth).andThen (ihrest h.2 depth)
  | line text => exact Layout.isCounted_rows fun _ => Text.not_mem_of_mem_lines
  | blank => exact fun _ => ⟨rfl, rfl⟩
  | mark source => exact fun _ => ⟨rfl, rfl⟩
  | block header body ih =>
    rw [isFlat, Bool.and_eq_true] at h
    have hopen := isCounted_header h.1 "" (by decide) depth
    rw [String.empty_append] at hopen
    exact hopen.andThen ((ih h.2 (depth + 1)).andThen (hclose depth))
  | chain header body nextHeader nextBody ih ihnext =>
    rw [isFlat, Bool.and_eq_true, Bool.and_eq_true, Bool.and_eq_true] at h
    have hopen := isCounted_header h.1.1 "" (by decide) depth
    rw [String.empty_append] at hopen
    have hreopen := isCounted_header h.2.1 "\x7d " (by decide) depth
    exact hopen.andThen <| (ih h.1.2 (depth + 1)).andThen <|
      hreopen.andThen <| (ihnext h.2.2 (depth + 1)).andThen (hclose depth)
  | indented body ih => exact ih h (depth + 1)
  | nested body ih => exact (ih h 0).copy depth

/-- Where every header is one line, rows are lines. -/
theorem marksOf_eq_placesOf {c : Code} (h : c.isFlat = true) : marksOf c.pageLines = placesOf c.pageLines := by
  have hrows := (isCounted_page h 0 {}).1
  have hplaces : ∀ (lines : List PageLine) (start : Nat), lines.map PageLine.row = List.range' start lines.length →
      marksOf lines = (lines.zipIdx start).filterMap fun x => x.1.mark.map fun source => ⟨x.2, source⟩ := by
    intro lines
    induction lines with
    | nil => exact fun _ _ => rfl
    | cons first rest ih =>
      intro start hstart
      rw [List.map_cons, List.length_cons, List.range'_succ] at hstart
      obtain ⟨hfirst, hrest⟩ := List.cons.inj hstart
      rw [List.zipIdx_cons, List.filterMap_cons, ← ih _ hrest, marksOf, List.filterMap_cons, hfirst]
      rfl
  exact hplaces _ 0 hrows

end Code

end HaxeBackend.Target
