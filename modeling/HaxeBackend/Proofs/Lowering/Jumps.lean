import HaxeBackend.Proofs.Lowering.Failure
import HaxeBackend.Proofs.Lowering.References

/-!
# Labels and jumps

Labels and jumps are written only where the target has them.  Lowering checks every one that a body reaches: without
support for jumps a body with any of them fails, and with it every label has to be one of the body
(`jumps_checked`).  Nothing else makes a body fail for an unsupported jump.
-/

namespace HaxeBackend

/-- The labels that a statement needs, without those of the statements inside. -/
def StmtKind.labelUses {σ : Type} : StmtKind σ → List LabelUse
  | .label id => [⟨.label, id⟩]
  | .goto target => [⟨.goto, target⟩]
  | .gotoIf _ target => [⟨.conditionalGoto, target⟩]
  | .jumpTable _ cases default => cases.map (fun arm => ⟨.switchGoto, arm.2⟩) ++ [⟨.switchGoto, default⟩]
  | _ => []

theorem StmtKind.isJump_iff {σ : Type} {kind : StmtKind σ} : kind.isJump = true ↔ ∃ j, j ∈ kind.labelUses := by
  cases kind <;> simp [isJump, labelUses]

theorem Stmt.mem_labelUses_ofList {j : LabelUse} {stmts : List Stmt} :
    j ∈ (Stmt.ofList stmts).labelUses ↔ ∃ stmt ∈ stmts, j ∈ stmt.labelUses := by
  induction stmts with
  | nil => simp [ofList, labelUses]
  | cons stmt rest ih => simp [ofList, labelUses, ih]

namespace Body

variable {b : Body} {j : LabelUse}

/-- The label or jump stands somewhere in the body. -/
def UsesLabel (b : Body) (j : LabelUse) : Prop :=
  ∃ id kind, b.ReachesStmt id ∧ b.stmt? id = some kind ∧ j ∈ kind.labelUses

/-- A node needs labels of its own and those of the statements inside. -/
theorem mem_labelUses_stmtOf {expr : Nat → Expr} {stmt : Nat → Stmt} {kind : StmtKind IdRange} :
    j ∈ (b.stmtOf expr stmt kind).labelUses ↔
      j ∈ kind.labelUses ∨ ∃ inner ∈ b.stmtOperands kind, j ∈ (stmt inner).labelUses := by
  cases kind with
  | block stmts => simp [stmtOf, Stmt.mem_labelUses_ofList, StmtKind.labelUses, stmtOperands]
  | ite condition thenBranch elseBranch =>
    cases elseBranch <;> simp [stmtOf, Stmt.labelUses, StmtKind.labelUses, stmtOperands]
  | switch subject cases default =>
    simp only [stmtOf, Stmt.labelUses, Stmt.mem_labelUses_ofList, StmtKind.labelUses, stmtOperands, List.not_mem_nil,
      false_or, List.mem_append, List.mem_map, List.mem_singleton]
    constructor
    · rintro ⟨_, ⟨arm, harm, rfl⟩ | rfl, hj⟩
      · exact ⟨arm.2, .inl ⟨arm, harm, rfl⟩, hj⟩
      · exact ⟨default, .inr rfl, hj⟩
    · rintro ⟨_, ⟨arm, harm, rfl⟩ | rfl, hj⟩
      · exact ⟨_, .inl ⟨arm, harm, rfl⟩, hj⟩
      · exact ⟨_, .inr rfl, hj⟩
  | _ => simp [stmtOf, Stmt.labelUses, StmtKind.labelUses, stmtOperands]

private theorem usesLabel_of_treeAt {expr : Nat → Expr} {depth id : Nat} (hid : b.ReachesStmt id)
    (hj : j ∈ ((b.stmtArena expr).treeAt depth id).labelUses) : b.UsesLabel j := by
  induction depth generalizing id with
  | zero => exact absurd hj List.not_mem_nil
  | succ depth ih =>
    rw [Arena.treeAt] at hj
    cases hkind : (b.stmtArena expr).nodes[id]? with
    | none =>
      rw [hkind] at hj
      exact absurd hj List.not_mem_nil
    | some kind =>
      rw [hkind] at hj
      rcases mem_labelUses_stmtOf.1 hj with hj | ⟨inner, hinner, hj⟩
      · exact ⟨id, kind, hid, hkind, hj⟩
      · exact ih (.inner hid hkind hinner) hj

theorem usesLabel_of_tree (hj : j ∈ b.tree.labelUses) : b.UsesLabel j := by
  obtain ⟨stmt, hstmt, hj⟩ := Stmt.mem_labelUses_ofList.1 hj
  obtain ⟨id, hid, rfl⟩ := List.mem_map.1 hstmt
  rw [Arena.lookIn_trees] at hj
  exact usesLabel_of_treeAt (.root hid) hj

end Body

namespace Lowering

/-! ### Bodies -/

variable {p : Program} {options : GenOptions} {site : BodySite} {body : Body} {unit : UnitState}

/-- In a body that is lowered, every jump can be written and has a label of the body. -/
theorem admits_of_usesLabel {result : Target.Body} {j : LabelUse}
    (h : (lowerBody p options site body unit).1 = .ok result) (hj : body.UsesLabel j) :
    options.supportsGoto = true ∧ body.isLabelValid j.label = true := by
  obtain ⟨id, kind, hid, hkind, hj⟩ := hj
  obtain ⟨kind', depth, hkind', st, t, st', hrun⟩ := (lowersStmt_of_reaches (succeeds_of_lowerBody h) hid).node
  obtain rfl : kind = kind' := Option.some_inj.1 (hkind.symm.trans hkind')
  obtain ⟨hgoto, hlabel⟩ := admits_of_runs hrun j (Body.mem_labelUses_stmtOf.2 (.inl hj))
  exact ⟨hgoto, decide_eq_true hlabel⟩

/-- A body fails for an unsupported jump only when it has one of that form and the target has none. -/
theorem usesLabel_of_unsupported {form : JumpForm} {subtarget : Subtarget}
    (h : (lowerBody p options site body unit).1 = .error (.unsupportedJump form subtarget)) :
    options.supportsGoto = false ∧ subtarget = options.subtarget ∧ ∃ label, body.UsesLabel ⟨form, label⟩ := by
  obtain ⟨hgoto, hsubtarget, ⟨_, label⟩, hj, rfl⟩ := blames_of_lowerBody h form subtarget rfl
  exact ⟨hgoto, hsubtarget, label, Body.usesLabel_of_tree hj⟩

/-- A body with labels or jumps is lowered only where the target has them, and then with labels of its own; a body
without any never fails for want of them. -/
theorem jumps_checked (p : Program) (options : GenOptions) (site : BodySite) (body : Body) (unit : UnitState) :
    (∀ result, (lowerBody p options site body unit).1 = .ok result → ∀ id kind, body.ReachesStmt id →
      body.stmt? id = some kind →
        (options.supportsGoto = false → kind.isJump = false) ∧
        (options.supportsGoto = true → ∀ j ∈ kind.labelUses, body.isLabelValid j.label = true)) ∧
    ∀ form subtarget, (lowerBody p options site body unit).1 = .error (.unsupportedJump form subtarget) →
      options.supportsGoto = false ∧ subtarget = options.subtarget ∧
        ∃ id kind, body.ReachesStmt id ∧ body.stmt? id = some kind ∧ kind.isJump = true ∧
          ∃ j ∈ kind.labelUses, j.form = form := by
  refine ⟨fun result h id kind hid hkind => ⟨fun hgoto => ?_, fun _ j hj => ?_⟩, fun form subtarget h => ?_⟩
  · rw [← Bool.not_eq_true, StmtKind.isJump_iff]
    rintro ⟨j, hj⟩
    have hsupported := (admits_of_usesLabel h ⟨id, kind, hid, hkind, hj⟩).1
    exact Bool.false_ne_true (hgoto.symm.trans hsupported)
  · exact (admits_of_usesLabel h ⟨id, kind, hid, hkind, hj⟩).2
  · obtain ⟨hgoto, hsubtarget, label, id, kind, hid, hkind, hj⟩ := usesLabel_of_unsupported h
    exact ⟨hgoto, hsubtarget, id, kind, hid, hkind, StmtKind.isJump_iff.2 ⟨_, hj⟩, _, hj, rfl⟩

section Countdown

/-- A loop around a label and a table of jumps back to it. -/
private def countdownBody : Body where
  exprs := #[⟨.literal (.int 3), .prim .int⟩, ⟨.literal (.bool true), .bool⟩]
  stmts := #[.label 0, .jumpTable 0 [(1, 0)] 0, .block ⟨0, 2⟩, .loop 1 2]
  stmtLists := #[0, 1, 3]
  labelCount := 1
  root := ⟨2, 1⟩

private def countdownSite : BodySite := ⟨[], false, none, .own⟩

private theorem reaches_countdown : countdownBody.ReachesStmt 1 := by
  have hloop : countdownBody.ReachesStmt 3 := .root List.mem_cons_self
  have hblock : countdownBody.ReachesStmt 2 := .inner hloop rfl List.mem_cons_self
  exact .inner hblock rfl (List.mem_cons_of_mem _ List.mem_cons_self)

/-- With jumps in the target the body is lowered and its labels are its own; without them its label fails it. -/
theorem jumps_checked_countdown :
    ((∃ result, (lowerBody .empty { nativeGoto := true } countdownSite countdownBody {}).1 = .ok result) ∧
      ∀ j ∈ StmtKind.labelUses (σ := IdRange) (.jumpTable 0 [(1, 0)] 0), countdownBody.isLabelValid j.label = true) ∧
    (lowerBody .empty {} countdownSite countdownBody {}).1 = .error (.unsupportedJump .label .cpp) ∧
      ∃ id kind, countdownBody.ReachesStmt id ∧ countdownBody.stmt? id = some kind ∧ kind.isJump = true := by
  have hlowered : ∃ result, (lowerBody .empty { nativeGoto := true } countdownSite countdownBody {}).1 = .ok result :=
    ⟨_, by with_unfolding_all rfl⟩
  have hfails : (lowerBody .empty {} countdownSite countdownBody {}).1 = .error (.unsupportedJump .label .cpp) := by
    with_unfolding_all rfl
  refine ⟨⟨hlowered, ?_⟩, hfails, ?_⟩
  · obtain ⟨result, hlowered⟩ := hlowered
    exact ((jumps_checked _ _ _ _ _).1 result hlowered 1 _ reaches_countdown rfl).2 rfl
  · obtain ⟨-, -, id, kind, hid, hkind, hjump, -⟩ := (jumps_checked _ _ _ _ _).2 _ _ hfails
    exact ⟨id, kind, hid, hkind, hjump⟩

end Countdown

end Lowering

end HaxeBackend
