import HaxeBackend.Proofs.Document.Reading
import HaxeBackend.Proofs.Model.Listing

/-!
# Bodies of documents

A body that was read has the variables, expressions and statements of its document at the places that they have there
(`isWritten_of_reads_body`).  The positions that a node lists are compared with the document by themselves: they are
read off the member of the node that has them (`Reading.writtenList?`).  Main result: `arenas_faithful`.
-/

namespace HaxeBackend

/-- What items and results have in common they have place by place. -/
private theorem map_getElem? {α β γ : Type} {f : α → γ} {g : β → γ} {items : List α} {results : List β}
    (h : items.map f = results.map g) (k : Nat) : items[k]?.map f = results[k]?.map g := by
  rw [← List.getElem?_map, h, List.getElem?_map]

/-! ### Where things are in a document -/

/-- The member of a record, unless it is left out or null. -/
def Json.memberAt? (known : List String) (key : String) (j : Json) : Option Json :=
  ((j.onlyMembers? known).bind (List.lookup key)).bind fun member =>
    match member with
    | .null => none
    | member => some member

namespace Reading

/-- The member that lists positions, for the kinds of nodes that have one. -/
def listKey? : String → Option String
  | "call" | "set_new_with_constructor" => some "args"
  | "new_array" => some "counts"
  | "block" => some "stmts"
  | _ => none

/-- The positions that are listed, as they are written. -/
def writtenPositions (items : List Json) : List (Option Nat) := items.map fun j => j.natural? UInt32.size

/-- The positions that a node lists, if it is of a kind that lists any. -/
def writtenList? (kind : String) (members : Members) : Option (List (Option Nat)) :=
  (listKey? kind).map fun key => writtenPositions (members.itemsAt key)

/-- The positions that an expression lists. -/
def exprList? (j : Json) : Option (List (Option Nat)) := do
  let head ← j.pickMembers? ["kind", "type"]
  let kind ← (head.lookup "kind").bind exprKindName?
  let members ← j.pickMembers? (exprMembers kind)
  writtenList? kind members

/-- The positions that a statement lists. -/
def stmtList? (j : Json) : Option (List (Option Nat)) := do
  let (kind, rest) ← stmtHead? j
  let members ← rest.knownMembers? (stmtMembers kind)
  writtenList? kind members

variable {j : Json} {members : Members} {key kind : String}

/-! ### Listed positions -/

theorem gives_natural : Gives (natural j) fun n => j.natural? UInt32.size = some n := by
  intro n h
  unfold natural shape at h
  cases hj : j.natural? UInt32.size with
  | none =>
    rw [hj] at h
    cases h
  | some m =>
    rw [hj] at h
    cases h
    rfl

theorem writtenPositions_of_map {items : List Json} {ids : List Nat} (h : items.map natural = ids.map pure) :
    writtenPositions items = ids.map some := map_of_gives (fun _ => gives_natural) h

theorem gives_positions_required :
    Gives (required members key positions) fun ids => writtenPositions (members.itemsAt key) = ids.map some :=
  fun _ h => writtenPositions_of_map (map_of_reads_required_items h)

theorem gives_positions_optional :
    Gives (optional members key [] positions) fun ids => writtenPositions (members.itemsAt key) = ids.map some :=
  fun _ h => writtenPositions_of_map (map_of_reads_optional_items h)

/-- An expression lists the positions that are written in the member for them. -/
theorem gives_exprKind : Gives (exprKind kind members) fun expr =>
    writtenList? kind members = expr.list?.map fun ids => ids.map some := by
  unfold exprKind
  split
  -- the kinds that list no positions have no member for them
  any_goals solve | simp [writtenList?, listKey?, ExprKind.list?]
  · simp only [callExpr, gives_seq, gives_map]
    refine gives_of_forall fun kind => gives_of_forall fun method => gives_positions_optional.imp fun args hargs => ?_
    exact gives_of_forall fun special => congrArg some hargs
  · rw [gives_map]
    exact gives_positions_required.imp fun counts hcounts => congrArg some hcounts

/-- A statement lists the positions that are written in the member for them. -/
theorem gives_stmtKind : Gives (stmtKind kind members) fun stmt =>
    writtenList? kind members = (stmt.exprList? <|> stmt.stmtList?).map fun ids => ids.map some := by
  unfold stmtKind
  split
  any_goals solve | simp [writtenList?, listKey?, StmtKind.exprList?, StmtKind.stmtList?]
  · simp only [gives_seq, gives_map]
    refine gives_of_forall fun id => gives_of_forall fun name => gives_of_forall fun method => ?_
    exact gives_positions_optional.imp fun args hargs => congrArg some hargs
  · rw [gives_map]
    exact gives_positions_required.imp fun stmts hstmts => congrArg some hstmts

theorem gives_exprNode : Gives (exprNode j) fun node => exprList? j = node.kind.list?.map fun ids => ids.map some := by
  intro node h
  unfold exprNode at h
  split at h
  · obtain ⟨head, hhead, h⟩ := reads_withMembers.1 h
    split at h
    · cases h
    · rename_i kind hkind
      obtain ⟨members, hmembers, h⟩ := reads_withMembers.1 h
      obtain ⟨_, type, hkind', -, rfl⟩ := reads_seq.1 h
      obtain ⟨expr, hexpr, rfl⟩ := reads_map.1 hkind'
      simp only [exprList?, hhead, hkind, hmembers, Option.bind_eq_bind, Option.bind_some]
      exact gives_exprKind expr hexpr
  · cases h

theorem gives_stmtNode : Gives (stmtNode j) fun stmt =>
    stmtList? j = (stmt.exprList? <|> stmt.stmtList?).map fun ids => ids.map some := by
  intro stmt h
  unfold stmtNode at h
  split at h
  · split at h
    · cases h
    · rename_i kind rest hhead
      obtain ⟨members, hmembers, h⟩ := reads_withMembers.1 h
      simp only [stmtList?, hhead, hmembers, Option.bind_eq_bind, Option.bind_some]
      exact gives_stmtKind stmt h
  · cases h

end Reading

/-! ### Bodies -/

namespace Body

/-- The body is what the document says.  Variables, expressions and statements have the positions of their places in the
document, where nodes have the positions that they list there, as they are written; and so has the root. -/
structure IsWritten (b : Body) (j : Json) : Prop where
  locals : ∀ k, (j.itemsAt Reading.bodyKeys "locals")[k]?.map Reading.localVar = (b.local? k).map pure
  exprs : ∀ k, (j.itemsAt Reading.bodyKeys "exprs")[k]?.map Reading.exprNode = (b.listedExpr? k).map pure
  stmts : ∀ k, (j.itemsAt Reading.bodyKeys "stmts")[k]?.map Reading.stmtNode = (b.listedStmt? k).map pure
  exprLists : ∀ k, (j.itemsAt Reading.bodyKeys "exprs")[k]?.map Reading.exprList? =
    (b.expr? k).map fun node => node.kind.list?.map fun range => (b.exprList range).map some
  stmtLists : ∀ k, (j.itemsAt Reading.bodyKeys "stmts")[k]?.map Reading.stmtList? =
    (b.stmt? k).map fun stmt =>
      (stmt.exprList?.map b.exprList <|> stmt.stmtList?.map b.stmtList).map fun ids => ids.map some
  root : Reading.writtenPositions (j.itemsAt Reading.bodyKeys "root") = b.rootList.map some

theorem isWritten_of_reads_body {b : Body} {j : Json} (h : Reading.Reads (Reading.body j) b) (hfit : b.ListsFit) :
    b.IsWritten j := by
  obtain ⟨members, hmembers, h⟩ := Reading.reads_withMembers.1 h
  simp only [Reading.reads_seq, Reading.reads_map] at h
  obtain ⟨_, root, ⟨_, stmts, ⟨_, exprs, ⟨_, labels, ⟨locals, hlocals, rfl⟩, -, rfl⟩, hexprs, rfl⟩, hstmts, rfl⟩,
    hroot, rfl⟩ := h
  have hitems (key : String) : j.itemsAt Reading.bodyKeys key = members.itemsAt key :=
    Reading.itemsAt_of_onlyMembers? hmembers
  have hlocals := Reading.map_of_reads_optional_items hlocals
  have hexprs := Reading.map_of_reads_optional_items hexprs
  have hstmts := Reading.map_of_reads_optional_items hstmts
  have hroot := Reading.map_of_reads_required_items hroot
  -- each table is read item by item, so its entries are those of the document at the same places
  constructor
  case locals =>
    intro k
    rw [hitems, local?_ofLists hfit, map_getElem? hlocals]
  case exprs =>
    intro k
    rw [hitems, listedExpr?_ofLists hfit, map_getElem? hexprs]
  case stmts =>
    intro k
    rw [hitems, listedStmt?_ofLists hfit, map_getElem? hstmts]
  case exprLists =>
    intro k
    have hlists := Reading.map_of_gives (fun _ => Reading.gives_exprNode) hexprs
    rw [hitems, map_getElem? hlists, ← listedExpr?_ofLists hfit, listedExpr?, Option.map_map]
    simp only [Function.comp_def, ExprKind.list?_mapList, Option.map_map]
  case stmtLists =>
    intro k
    have hlists := Reading.map_of_gives (fun _ => Reading.gives_stmtNode) hstmts
    rw [hitems, map_getElem? hlists, ← listedStmt?_ofLists hfit, listedStmt?, Option.map_map]
    simp only [Function.comp_def, StmtKind.exprList?_mapList, StmtKind.stmtList?_mapList]
  case root =>
    rw [hitems, rootList_ofLists hfit]
    exact Reading.writtenPositions_of_map hroot

end Body

/-! ### Programs -/

/-- The body of a method, by the places of the class and of the method in the document. -/
def Json.bodyAt? (j : Json) (i n : Nat) : Option Json :=
  (j.itemsAt ["classes"] "classes")[i]?.bind fun c =>
    (c.itemsAt Reading.classKeys "methods")[n]?.bind fun m => m.memberAt? Reading.methodKeys "body"

/-- The body of a method, by the places of the class and of the method. -/
def Program.bodyAt? (p : Program) (i n : Nat) : Option Body :=
  p.classes[i]?.bind fun c => c.methods[n]?.bind Method.body

namespace Reading

variable {α β : Type} {j : Json}

theorem map_memberAt?_of_reads_nullable {known : List String} {members : Members} {key : String}
    {read : Json → Reading α} {a : Option α} (hmembers : j.onlyMembers? known = some members)
    (h : Reads (nullable members key read) a) :
    (j.memberAt? known key).map read = a.map pure := by
  rw [Json.memberAt?, hmembers, Option.bind_some]
  unfold nullable at h
  split at h
  · rename_i hnone
    rw [hnone, ← reads_pure.1 h]
    rfl
  · rename_i hnull
    rw [hnull, ← reads_pure.1 h]
    rfl
  · rename_i member hne hmember
    obtain ⟨b, hb, rfl⟩ := reads_map.1 h
    rw [hmember]
    cases member with
    | null => exact absurd rfl hne
    | _ => exact congrArg some hb

theorem body_of_reads_method {m : Method} (h : Reads (method j) m) :
    (j.memberAt? methodKeys "body").map body = m.body.map pure := by
  obtain ⟨members, hmembers, h⟩ := reads_withMembers.1 h
  obtain ⟨g, body, hg, hbody, rfl⟩ := reads_seq.1 h
  have hbuild : (g body).body = body :=
    (show Gives _ fun g : Option Body → Method => (g body).body = body by simp) g hg
  rw [hbuild]
  exact map_memberAt?_of_reads_nullable hmembers hbody

private theorem map_bind {read : Json → Reading α} {read' : Json → Reading β} {x : Option Json} {y : Option α}
    {f : Json → Option Json} {g : α → Option β} (h : x.map read = y.map pure)
    (hread : ∀ j a, Reads (read j) a → (f j).map read' = (g a).map pure) :
    (x.bind f).map read' = (y.bind g).map pure := by
  cases x with
  | none =>
    cases y with
    | none => rfl
    | some a => cases h
  | some j =>
    cases y with
    | none => cases h
    | some a => exact hread j a (Option.some_inj.1 h)

end Reading

/-- The bodies of a loaded program are those of its document, at their places. -/
theorem Program.bodies_of_ofText {text : String} {p : Program} (h : ofText text = .ok p) :
    ∃ j, Json.parse? text = some j ∧ ∀ i n, (j.bodyAt? i n).map Reading.body = (p.bodyAt? i n).map pure := by
  obtain ⟨j, hj, hclasses⟩ := classes_of_ofText h
  refine ⟨j, hj, fun i n => ?_⟩
  refine Reading.map_bind (map_getElem? hclasses i) fun c _ hc => ?_
  refine Reading.map_bind (map_getElem? (Reading.methods_of_reads_classModel hc) n) fun m _ hm => ?_
  exact Reading.body_of_reads_method hm

/-- What any steps that leave room put into a body is there when it is finished, at the positions and ranges that were
given out, and nothing else is.  So a loaded program has the bodies of its document, each of them as it is written,
unless it lists more positions than there are. -/
theorem arenas_faithful :
    (∀ (steps : List BuildStep) (root : List Nat), (Body.ofSteps steps root).Fits →
      (Body.ofSteps steps root).IsFaithful (Body.entries {} steps) root) ∧
    ∀ (text : String) (p : Program), Program.ofText text = .ok p →
      ∃ j, Json.parse? text = some j ∧ ∀ i n,
        Option.Rel (fun b written => b.ListsFit → b.IsWritten written) (p.bodyAt? i n) (j.bodyAt? i n) := by
  refine ⟨fun steps root => Body.isFaithful_ofSteps, fun text p h => ?_⟩
  obtain ⟨j, hj, hbodies⟩ := Program.bodies_of_ofText h
  refine ⟨j, hj, fun i n => ?_⟩
  have hbody := hbodies i n
  revert hbody
  cases j.bodyAt? i n with
  | none =>
    cases p.bodyAt? i n with
    | none => exact fun _ => .none
    | some b => exact fun hbody => nomatch hbody
  | some written =>
    cases p.bodyAt? i n with
    | none => exact fun hbody => nomatch hbody
    | some b => exact fun hbody => .some (Body.isWritten_of_reads_body (Option.some_inj.1 hbody))

/-- A call lists the expressions that come before it, one of them an array with two counts, and the block comes before
the root is listed. -/
private def nestedSteps : List BuildStep :=
  [.addLocal ⟨"n", .prim .int⟩, .addReadLocal 0, .addExprList [0, 0],
    .addExpr ⟨.newArray ⟨0, 2⟩, .array (.prim .int) 2⟩, .addLabel, .addExprList [1, 0, 1],
    .addExpr ⟨.call .static ⟨"app.Job", "go", ⟨[], .void⟩⟩ ⟨2, 3⟩ false, .void⟩, .addStmt (.eval 2), .addBlock [0, 0]]

private def nestedText : String :=
  "\x7b\"classes\":[\x7b\"name\":\"J\",\"methods\":[\x7b\"id\":1,\"name\":\"g\",\"ret\":\"V\",\"body\":" ++
    "\x7b\"exprs\":[\x7b\"kind\":\"this\",\"type\":\"LJ;\"\x7d," ++
    "\x7b\"kind\":\"new_array\",\"counts\":[0,0],\"type\":\"[[I\"\x7d]," ++
    "\"stmts\":[\x7b\"kind\":\"block\",\"stmts\":[0,0]\x7d],\"root\":[0]\x7d\x7d]\x7d]\x7d"

theorem arenas_faithful_nested :
    (Body.ofSteps nestedSteps [1, 0]).Fits ∧
    (∀ e ∈ Body.entries {} nestedSteps, (Body.ofSteps nestedSteps [1, 0]).Has e) ∧
    (Body.ofSteps nestedSteps [1, 0]).exprList ⟨2, 3⟩ = [1, 0, 1] ∧
    (Body.ofSteps nestedSteps [1, 0]).rootList = [1, 0] ∧
    ∃ p b j written, Program.ofText nestedText = .ok p ∧ p.bodyAt? 0 0 = some b ∧ Json.parse? nestedText = some j ∧
      j.bodyAt? 0 0 = some written ∧ b.rootList = [0] ∧ b.IsWritten written := by
  have hfits : (Body.ofSteps nestedSteps [1, 0]).Fits := by
    refine ⟨⟨?_, ?_⟩, ?_, ?_, ?_⟩ <;> decide +kernel
  have hfaithful := arenas_faithful.1 nestedSteps [1, 0] hfits
  have hcheck : ((Program.ofText nestedText).toOption.any fun p => (p.bodyAt? 0 0).any fun b =>
      b.exprLists.size < UInt32.size && b.stmtLists.size < UInt32.size && b.rootList == [0]) = true := by
    decide +kernel
  obtain ⟨p, hload, hcheck⟩ := Program.exists_of_any_ofText hcheck
  obtain ⟨b, hb, hcheck⟩ := (Option.any_eq_true _ _).1 hcheck
  simp only [Bool.and_eq_true, decide_eq_true_eq, beq_iff_eq] at hcheck
  obtain ⟨⟨hexprs, hstmts⟩, hroot⟩ := hcheck
  obtain ⟨j, hj, hbodies⟩ := arenas_faithful.2 nestedText p hload
  have hbody := hbodies 0 0
  rw [hb] at hbody
  cases hwritten : j.bodyAt? 0 0 with
  | none =>
    rw [hwritten] at hbody
    cases hbody
  | some written =>
    rw [hwritten] at hbody
    cases hbody with
    | some h =>
      have hlist := hfaithful.has (.exprList ⟨2, 3⟩ [1, 0, 1]) (by decide +kernel)
      exact ⟨hfits, hfaithful.has, hlist.2, hfaithful.rootList, p, b, j, written, hload, hb, hj, hwritten, hroot,
        h ⟨hexprs, hstmts⟩⟩

end HaxeBackend
