import HaxeBackend.Proofs.Target.Balance
import HaxeBackend.Proofs.Target.Page

/-!
# Places of marks

Steps leave marks and lines on their writer, and a copy leaves the lines of another writer there.  A mark belongs to the
first line behind it that takes marks, unless another mark comes before that line.  A writer only keeps the last mark
and counts rows, but step by step it ends up with the lines and with these places of the marks, also of those that were
made on a writer that was copied (`puts_step`, `puts_run`).  Main result: `positions_ofSteps`.
-/

namespace HaxeBackend.Target

/-! ### What steps leave on a writer -/

/-- A mark, or a line that takes a mark or does not. -/
inductive Item where
  | mark (source : Nat)
  | line (text : String) (takes : Bool)
  deriving DecidableEq, Repr

def Item.text? : Item → Option String
  | mark _ => none
  | line text _ => some text

def linesOf (items : List Item) : List String := items.filterMap Item.text?

/-- The number of the line that takes a mark in front of these items, the first of them having this number. -/
def takenAt (number : Nat) : List Item → Option Nat
  | [] | .mark _ :: _ => none
  | .line _ true :: _ => some number
  | .line _ false :: items => takenAt (number + 1) items

/-- The place of a mark in front of these items, if a line takes it. -/
def placeOf (source number : Nat) (items : List Item) : List LineMapping :=
  ((takenAt number items).map fun n => ⟨n, source⟩).toList

/-- The indentation after a step. -/
def Step.depthAfter (depth : Nat) : Step → Nat
  | .openBlock _ | .indent => depth + 1
  | .closeBlock | .dedent => depth - 1
  | .reopenBlock _ => depth - 1 + 1
  | .line _ | .blank | .mark _ | .append _ => depth

mutual

/-- What a step leaves on the writer that it is done on.  Of a copy these are the lines, without a carriage return at
the end and with the indentation in front, and empty ones do not take a mark. -/
def Step.items (depth : Nat) : Step → List Item
  | .line text => (Text.lines text).map fun line => .line (Layout.tabbed depth line) true
  | .openBlock header => [.line (Layout.tabbed depth (header ++ " \x7b")) true]
  | .reopenBlock header => [.line (Layout.tabbed (depth - 1) ("\x7d " ++ header ++ " \x7b")) true]
  | .closeBlock => [.line (Layout.tabbed (depth - 1) "\x7d") true]
  | .blank => [.line "" false]
  | .indent | .dedent => []
  | .mark source => [.mark source]
  | .append steps => ((linesOf (itemsOf 0 steps)).map Layout.chomp).map fun line =>
    .line (Layout.tabbed depth line) !line.isEmpty

def itemsOf (depth : Nat) : List Step → List Item
  | [] => []
  | s :: steps => s.items depth ++ itemsOf (s.depthAfter depth) steps

end

mutual

/-- The places of the marks that a step makes, on the writer that it is done on in front of later items, or on one that
it copies, whose lines move behind those that are there. -/
def Step.places (number : Nat) (later : List Item) : Step → List LineMapping
  | .mark source => placeOf source number later
  | .append steps => (placesIn 0 0 steps).map fun m => ⟨m.generated + number, m.source⟩
  | .line _ | .openBlock _ | .reopenBlock _ | .closeBlock | .blank | .indent | .dedent => []

/-- The places of the marks that steps make, the first line of them having this number. -/
def placesIn (depth number : Nat) : List Step → List LineMapping
  | [] => []
  | s :: steps =>
    s.places number (itemsOf (s.depthAfter depth) steps) ++
      placesIn (s.depthAfter depth) (number + (linesOf (s.items depth)).length) steps

end

mutual

/-- Every header of a block is one line. -/
def Step.isFlat : Step → Bool
  | .openBlock header | .reopenBlock header => !header.toList.contains '\n'
  | .append steps => areFlat steps
  | .line _ | .closeBlock | .blank | .indent | .dedent | .mark _ => true

def areFlat : List Step → Bool
  | [] => true
  | s :: steps => s.isFlat && areFlat steps

end

/-! ### Marks that are pending -/

/-- The mark that is pending behind items. -/
def pendingAfter (pending : Option Nat) : List Item → Option Nat
  | [] => pending
  | .mark source :: items => pendingAfter (some source) items
  | .line _ true :: items => pendingAfter none items
  | .line _ false :: items => pendingAfter pending items

/-- The place of the mark that is pending in front of items. -/
def pendingPlace (pending : Option Nat) (number : Nat) (items : List Item) : List LineMapping :=
  match pending with
  | some source => placeOf source number items
  | none => []

section Items

variable {items items' : List Item} {pending : Option Nat}

@[simp]
theorem linesOf_append (items items' : List Item) : linesOf (items ++ items') = linesOf items ++ linesOf items' :=
  List.filterMap_append

@[simp]
theorem linesOf_map_line {texts : List String} (text : String → String) (takes : String → Bool) :
    linesOf (texts.map fun t => .line (text t) (takes t)) = texts.map text := by
  rw [linesOf, List.filterMap_map]
  exact congrFun List.filterMap_eq_map texts

/-- No mark is among the items. -/
def Unmarked (items : List Item) : Prop := ∀ item ∈ items, item.text?.isSome = true

theorem pendingAfter_append (pending : Option Nat) (items items' : List Item) :
    pendingAfter pending (items ++ items') = pendingAfter (pendingAfter pending items) items' := by
  induction items generalizing pending with
  | nil => rfl
  | cons item items ih => rcases item with source | ⟨text, _ | _⟩ <;> exact ih _

private theorem pendingAfter_none (h : Unmarked items) : pendingAfter none items = none := by
  induction items with
  | nil => rfl
  | cons item items ih =>
    have hrest : Unmarked items := fun item hitem => h item (List.mem_cons_of_mem _ hitem)
    rcases item with source | ⟨text, _ | _⟩
    · cases h _ List.mem_cons_self
    · exact ih hrest
    · exact ih hrest

/-- A mark in front of lines has its place among these or among what follows. -/
theorem pendingPlace_append (h : Unmarked items) (pending : Option Nat) (number : Nat) (items' : List Item) :
    pendingPlace pending number (items ++ items') =
      pendingPlace pending number items ++
        pendingPlace (pendingAfter pending items) (number + (linesOf items).length) items' := by
  induction items generalizing pending number with
  | nil => cases pending <;> rfl
  | cons item items ih =>
    have hrest : Unmarked items := fun item hitem => h item (List.mem_cons_of_mem _ hitem)
    rcases item with source | ⟨text, _ | _⟩
    · cases h _ List.mem_cons_self
    · have hskip : ∀ items, pendingPlace pending number (.line text false :: items) =
          pendingPlace pending (number + 1) items := by
        intro items
        cases pending <;> rfl
      have hlength : number + (linesOf (.line text false :: items)).length = number + 1 + (linesOf items).length := by
        rw [Nat.add_assoc, Nat.add_comm 1]
        rfl
      rw [List.cons_append, hskip, hskip, ih hrest, hlength]
      rfl
    · -- the first line that takes marks takes the one that is pending
      have htaken : ∀ items, pendingPlace pending number (.line text true :: items) =
          pendingPlace pending number [.line text true] := by
        intro items
        cases pending <;> rfl
      have hafter : pendingAfter pending (.line text true :: items) = none := pendingAfter_none hrest
      rw [List.cons_append, htaken, htaken, hafter]
      exact (List.append_nil _).symm

end Items

/-! ### Writers -/

/-- The writer has got these items, and besides the places of its pending mark these places of marks. -/
structure Puts (w w' : Writer) (items : List Item) (places : List LineMapping) : Prop where
  lines_eq : w'.lines = w.lines ++ linesOf items
  count_eq : w'.lineCount = w.lineCount + (linesOf items).length
  pending_eq : w'.pending = pendingAfter w.pending items
  mappings_perm : w'.mappings.Perm (w.mappings ++ (pendingPlace w.pending w.lineCount items ++ places))

namespace Puts

variable {w w' w'' : Writer} {items items' : List Item} {places places' : List LineMapping}

theorem refl (w : Writer) : Puts w w [] [] := by
  have hplace : pendingPlace w.pending w.lineCount [] = [] := by cases w.pending <;> rfl
  exact ⟨(List.append_nil _).symm, rfl, rfl, by simp [hplace]⟩

/-- What is put behind lines. -/
theorem trans (h : Puts w w' items places) (hitems : Unmarked items) (h' : Puts w' w'' items' places') :
    Puts w w'' (items ++ items') (places ++ places') := by
  refine ⟨?_, ?_, ?_, ?_⟩
  · rw [h'.lines_eq, h.lines_eq, linesOf_append, List.append_assoc]
  · rw [h'.count_eq, h.count_eq, linesOf_append, List.length_append, Nat.add_assoc]
  · rw [h'.pending_eq, h.pending_eq, pendingAfter_append]
  · refine h'.mappings_perm.trans (List.perm_iff_count.2 fun m => ?_)
    rw [h.pending_eq, h.count_eq, pendingPlace_append hitems]
    simp only [List.count_append, h.mappings_perm.count_eq]
    omega

/-- What is put behind a mark. -/
theorem mark {source : Nat} (h : Puts (w.mark source) w' items places) :
    Puts w w' (.mark source :: items) (placeOf source w.lineCount items ++ places) := by
  have hlost : pendingPlace w.pending w.lineCount (.mark source :: items) = [] := by cases w.pending <;> rfl
  refine ⟨h.lines_eq, h.count_eq, h.pending_eq, ?_⟩
  rw [hlost]
  exact h.mappings_perm

theorem of_indent (h : Puts w.indent w' items places) : Puts w w' items places :=
  ⟨h.lines_eq, h.count_eq, h.pending_eq, h.mappings_perm⟩

theorem of_dedent (h : Puts w.dedent w' items places) : Puts w w' items places :=
  ⟨h.lines_eq, h.count_eq, h.pending_eq, h.mappings_perm⟩

/-- Places may be told in another order. -/
theorem perm (h : Puts w w' items places) (hplaces : places.Perm places') : Puts w w' items places' :=
  ⟨h.lines_eq, h.count_eq, h.pending_eq, h.mappings_perm.trans ((hplaces.append_left _).append_left _)⟩

end Puts

variable {text : String}

private theorem unmarked_line (text : String) (takes : Bool) : Unmarked [.line text takes] := by
  intro item hitem
  rw [List.mem_singleton.1 hitem]
  rfl

theorem puts_row (w : Writer) (h : '\n' ∉ text.toList) :
    Puts w (w.row text) [.line (Layout.tabbed w.depth text) true] [] := by
  refine ⟨?_, ?_, rfl, ?_⟩
  · have hbreaks := Layout.breaks_of_not_mem (Layout.not_mem_tabbed h w.depth)
    exact (w.lines_push _).trans (congrArg _ hbreaks)
  · simp [Writer.row, Writer.lineCount, linesOf, Item.text?]
  · have htaken : w.taken = pendingPlace w.pending w.lineCount [.line (Layout.tabbed w.depth text) true] := by
      unfold Writer.taken
      cases w.pending <;> rfl
    rw [List.append_nil, ← htaken]
    exact List.Perm.refl _

theorem puts_blank (w : Writer) : Puts w w.blank [.line "" false] [] := by
  refine ⟨w.lines_push "", ?_, rfl, ?_⟩
  · simp [Writer.blank, Writer.lineCount, linesOf, Item.text?]
  · have hplace : pendingPlace w.pending w.lineCount [.line "" false] = [] := by cases w.pending <;> rfl
    simp [hplace, Writer.blank]

theorem puts_copyLine (w : Writer) (h : '\n' ∉ text.toList) :
    Puts w (w.copyLine text) [.line (Layout.tabbed w.depth text) !text.isEmpty] [] := by
  unfold Writer.copyLine
  split
  · rename_i hempty
    rw [Layout.tabbed, if_pos hempty, hempty]
    exact puts_blank w
  · rename_i hempty
    rw [Bool.not_eq_true] at hempty
    rw [hempty]
    exact puts_row w h

/-- Lines that are written one after the other, each as one row. -/
theorem puts_foldl {write : Writer → String → Writer} {takes : String → Bool}
    (hdepth : ∀ w text, (write w text).depth = w.depth)
    (hwrite : ∀ w text, '\n' ∉ text.toList →
      Puts w (write w text) [.line (Layout.tabbed w.depth text) (takes text)] [])
    (w : Writer) {texts : List String} (h : ∀ text ∈ texts, '\n' ∉ text.toList) :
    Puts w (texts.foldl write w) (texts.map fun t => .line (Layout.tabbed w.depth t) (takes t)) [] := by
  induction texts generalizing w with
  | nil => exact .refl w
  | cons text texts ih =>
    have hfirst := hwrite w text (h text List.mem_cons_self)
    have hrest := ih (write w text) fun text htext => h text (List.mem_cons_of_mem _ htext)
    rw [hdepth] at hrest
    exact hfirst.trans (unmarked_line _ _) hrest

theorem puts_line (w : Writer) (text : String) :
    Puts w (w.line text) ((Text.lines text).map fun t => .line (Layout.tabbed w.depth t) true) [] := by
  have hdepth : ∀ (w : Writer) (text : String), (w.row text).depth = w.depth := fun _ _ => rfl
  exact puts_foldl hdepth (fun w _ => puts_row w) w fun _ => Text.not_mem_of_mem_lines

/-- A copy puts the lines of the other writer behind the lines that are there, and its marks with them. -/
theorem puts_append (w inner : Writer) :
    Puts w (w.append inner) ((Text.lines inner.text).map fun t => .line (Layout.tabbed w.depth t) !t.isEmpty)
      (inner.mappings.map fun m => ⟨m.generated + w.lineCount, m.source⟩) := by
  have hfree : ∀ text ∈ Text.lines inner.text, '\n' ∉ text.toList := fun _ => Text.not_mem_of_mem_lines
  have hcopied := puts_foldl Writer.depth_copyLine (fun w _ => puts_copyLine w) w hfree
  refine ⟨hcopied.lines_eq, hcopied.count_eq, hcopied.pending_eq, ?_⟩
  have hperm := hcopied.mappings_perm
  rw [List.append_nil] at hperm
  rw [← List.append_assoc]
  exact hperm.append_right _

/-! ### Runs -/

theorem depth_step (w : Writer) (s : Step) : (w.step s).depth = s.depthAfter w.depth := by
  cases s with
  | line text => exact Writer.depth_line w text
  | append steps => exact Writer.depth_append w _
  | openBlock _ | reopenBlock _ | closeBlock | blank | indent | dedent | mark _ => rfl

private theorem unmarked_lines {texts : List String} (f : String → String) (takes : String → Bool) :
    Unmarked (texts.map fun t => .line (f t) (takes t)) := by
  intro item hitem
  obtain ⟨text, -, rfl⟩ := List.mem_map.1 hitem
  rfl

mutual

/-- A step puts its items, and the places of its marks, on the writer, whatever is put behind them. -/
theorem puts_step {w w' : Writer} {later : List Item} {places : List LineMapping} :
    (s : Step) → s.isFlat = true → Puts (w.step s) w' later places →
      Puts w w' (s.items w.depth ++ later) (s.places w.lineCount later ++ places)
  | .line text, _, h => (puts_line w text).trans (unmarked_lines _ _) h
  | .openBlock header, hflat, h => by
    have hline := Layout.not_mem_header hflat "" (by decide)
    rw [String.empty_append] at hline
    exact (puts_row w hline).trans (unmarked_line _ _) h.of_indent
  | .reopenBlock header, hflat, h => by
    have hline := Layout.not_mem_header hflat "\x7d " (by decide)
    exact ((puts_row w.dedent hline).trans (unmarked_line _ _) h.of_indent).of_dedent
  | .closeBlock, _, h => ((puts_row w.dedent (by decide)).trans (unmarked_line _ _) h).of_dedent
  | .blank, _, h => (puts_blank w).trans (unmarked_line _ _) h
  | .indent, _, h => h.of_indent
  | .dedent, _, h => h.of_dedent
  | .mark source, _, h => h.mark
  | .append steps, hflat, h => by
    have hinner := puts_run steps hflat {}
    have hlines : Text.lines (Writer.run {} steps).text = (linesOf (itemsOf 0 steps)).map Layout.chomp := by
      rw [Writer.lines_text, hinner.lines_eq]
      rfl
    have hcopy := puts_append w (Writer.run {} steps)
    rw [hlines] at hcopy
    exact (hcopy.perm (hinner.mappings_perm.map _)).trans (unmarked_lines _ _) h

/-- Steps put their items, and the places of their marks, on the writer. -/
theorem puts_run : (steps : List Step) → areFlat steps = true → (w : Writer) →
    Puts w (w.run steps) (itemsOf w.depth steps) (placesIn w.depth w.lineCount steps)
  | [], _, w => .refl w
  | s :: steps, hflat, w => by
    obtain ⟨hs, hsteps⟩ := Bool.and_eq_true_iff.1 hflat
    have hcount := (puts_step s hs (.refl (w.step s))).count_eq
    have hrest := puts_run steps hsteps (w.step s)
    rw [List.append_nil] at hcount
    rw [depth_step, hcount] at hrest
    exact puts_step s hs hrest

end

/-! ### Texts and places -/

private theorem Writer.count_text (w : Writer) : w.text.toList.count '\n' = w.lines.length := by
  have hlines : ∀ lines : List String, (∀ line ∈ lines, '\n' ∉ line.toList) →
      (lines.flatMap fun line => line.toList ++ ['\n']).count '\n' = lines.length := by
    intro lines hfree
    induction lines with
    | nil => rfl
    | cons line lines ih =>
      have hline := List.count_eq_zero_of_not_mem (hfree line List.mem_cons_self)
      have hrest := ih fun line hmem => hfree line (List.mem_cons_of_mem _ hmem)
      rw [List.flatMap_cons, List.count_append, List.count_append, hline, hrest, List.length_cons, Nat.zero_add,
        List.count_singleton_self, Nat.add_comm]
  rw [w.toList_text, hlines w.lines w.not_mem_lines]

/-- What a copy adds to the text. -/
private theorem Writer.text_append (w inner : Writer) :
    (w.append inner).text =
      w.text ++ String.join ((Text.lines inner.text).map fun line => Layout.tabbed w.depth line ++ "\n") := by
  refine String.toList_injective ?_
  rw [Writer.toList_text, (puts_append w inner).lines_eq, linesOf_map_line, List.flatMap_append, ← Writer.toList_text,
    String.toList_append, String.toList_join, List.flatMap_map, List.flatMap_map]
  simp

/-- Where every header is one line, any steps leave a writer that counts the lines of its text; a copy adds a line for
each line of the other writer, with the indentation in front unless it is empty, and without a carriage return at the
end; and the writer maps every mark that a line takes to the place of this line in the text, and no other mark. -/
theorem positions_ofSteps {steps : List Step} (h : areFlat steps = true) :
    (Writer.ofSteps steps).lineCount = (Writer.ofSteps steps).text.toList.count '\n' ∧
    (Writer.ofSteps steps).lineCount = (Text.lines (Writer.ofSteps steps).text).length ∧
    (∀ inner, areFlat inner = true →
      (Writer.ofSteps (steps ++ [.append inner])).lineCount =
        (Writer.ofSteps steps).lineCount + (Writer.ofSteps inner).lineCount ∧
      (Writer.ofSteps (steps ++ [.append inner])).text = (Writer.ofSteps steps).text ++
        String.join ((Text.lines (Writer.ofSteps inner).text).map fun line =>
          Layout.tabbed (Writer.ofSteps steps).depth line ++ "\n")) ∧
    Text.splitAt '\n' (Writer.ofSteps steps).text.toList = (linesOf (itemsOf 0 steps)).map String.toList ++ [[]] ∧
    (Writer.ofSteps steps).mappings.Perm (placesIn 0 0 steps) := by
  have hcount : ∀ steps, areFlat steps = true →
      (Writer.ofSteps steps).lineCount = (Writer.ofSteps steps).lines.length := by
    intro steps hflat
    have hputs := puts_run steps hflat {}
    rw [Writer.ofSteps, hputs.count_eq, hputs.lines_eq, List.length_append]
    rfl
  have hputs := puts_run steps h {}
  refine ⟨?_, ?_, fun inner hinner => ?_, ?_, hputs.mappings_perm⟩
  · rw [hcount steps h, Writer.count_text]
  · rw [hcount steps h, Writer.lines_text, List.length_map]
  · -- a copy is the last step, so it starts from the writer that the steps in front leave
    have happend : Writer.ofSteps (steps ++ [.append inner]) = (Writer.ofSteps steps).append (Writer.ofSteps inner) :=
      Writer.run_append {} steps [.append inner]
    rw [happend, Writer.text_append, (puts_append _ _).count_eq, linesOf_map_line, List.length_map, Writer.lines_text,
      List.length_map, hcount inner hinner]
    exact ⟨rfl, rfl⟩
  · rw [Writer.splitAt_text, Writer.ofSteps, hputs.lines_eq]
    rfl

/-- A copy of a copy.  A mark is replaced, three writers end in a pending mark, and a line of only a carriage return
takes a mark where it is written, but not where it is copied to. -/
def nestedSteps : List Step :=
  [.mark 1, .mark 2, .blank, .openBlock "class A",
    .append [.line "var a\r\n\nvar b", .mark 3, .append [.mark 4, .blank, .line "\r", .line "f()", .mark 5], .mark 6],
    .mark 7, .blank, .append [.blank, .line "g()"], .mark 8, .closeBlock, .mark 9, .blank]

theorem positions_ofSteps_nested :
    areFlat nestedSteps = true ∧
    (Writer.ofSteps nestedSteps).text = "\nclass A \x7b\n\tvar a\n\n\tvar b\n\n\n\tf()\n\n\n\tg()\n\x7d\n\n" ∧
    (Writer.ofSteps nestedSteps).lineCount = (Writer.ofSteps nestedSteps).text.toList.count '\n' ∧
    (Writer.ofSteps nestedSteps).mappings.Perm [⟨1, 2⟩, ⟨6, 4⟩, ⟨7, 3⟩, ⟨10, 7⟩, ⟨11, 8⟩] := by
  have hflat : areFlat nestedSteps = true := by decide +kernel
  have hplaces : (placesIn 0 0 nestedSteps).Perm [⟨1, 2⟩, ⟨6, 4⟩, ⟨7, 3⟩, ⟨10, 7⟩, ⟨11, 8⟩] := by decide +kernel
  obtain ⟨hbreaks, -, -, -, hmappings⟩ := positions_ofSteps hflat
  exact ⟨hflat, by decide +kernel, hbreaks, hmappings.trans hplaces⟩

end HaxeBackend.Target
