import HaxeBackend.Proofs.Lowering.Outline
import HaxeBackend.Proofs.Target.Page

/-!
# Line markers

A body keeps its line markers when it is lowered, in the same order (`marks_of_lowerBody`): nothing else is marked,
and no statement changes places with another.
-/

namespace HaxeBackend

/-- The line markers of a statement, in order. -/
def Stmt.markers : Stmt → List Nat
  | .line number => [number]
  | .seq first rest => first.markers ++ rest.markers
  | .tryCatch body handler => body.markers ++ handler.markers
  | .ite _ thenBranch elseBranch => thenBranch.markers ++ elseBranch.markers
  | .when _ body | .loop _ body | .switch _ body | .arm _ body | .otherwise body => body.markers
  | _ => []

private theorem Stmt.markers_eq (stmt : Stmt) : stmt.markers = stmt.landmarks.filterMap Landmark.line? := by
  induction stmt with
  | seq first rest ihfirst ihrest | ite condition first rest ihfirst ihrest | tryCatch first rest ihfirst ihrest =>
    simp [markers, landmarks, Landmark.line?, List.filterMap_cons, ihfirst, ihrest]
  | «when» condition body ih | loop condition body ih | switch condition body ih =>
    simp [markers, landmarks, Landmark.line?, ih]
  | arm values body ih | otherwise body ih => exact ih
  | ret value => cases value <;> simp [markers, landmarks, Landmark.line?]
  | _ => simp [markers, landmarks, Landmark.line?]

/-- The marks in code, in order. -/
def Target.Code.marks : Target.Code → List Nat
  | .mark source => [source]
  | .seq first rest => first.marks ++ rest.marks
  | .block _ body | .indented body | .nested body => body.marks
  | .chain _ body _ nextBody => body.marks ++ nextBody.marks
  | .empty | .line _ | .blank => []

namespace Target

theorem Code.marks_ofList (codes : List Code) : (Code.ofList codes).marks = codes.flatMap Code.marks := by
  induction codes with
  | nil => rfl
  | cons c codes ih =>
    show c.marks ++ (ofList codes).marks = _
    rw [ih, List.flatMap_cons]

theorem Code.marks_lines (texts : List String) : (Code.lines texts).marks = [] := by
  rw [lines, marks_ofList, List.flatMap_map]
  exact List.flatMap_eq_nil_iff.2 fun _ _ => rfl

/-- The marks in the code of a statement are those of its landmarks that are lines. -/
private theorem Stmt.marks_code (t : Stmt) : t.code.marks = t.landmarks.filterMap Landmark.line? := by
  induction t with
  | seq first rest ihfirst ihrest | ite condition first rest ihfirst ihrest =>
    show first.code.marks ++ rest.code.marks = _
    simp [landmarks, Landmark.line?, ihfirst, ihrest]
  | tryCatch body handler ihbody ihhandler =>
    show body.code.marks ++ ([] ++ handler.code.marks) = _
    simp [landmarks, Landmark.line?, List.filterMap_cons, ihbody, ihhandler]
  | «when» condition body ih | loop condition body ih | switch condition body ih =>
    show body.code.marks = _
    simp [landmarks, Landmark.line?, ih]
  | arm values body ih | otherwise body ih => exact ih
  | jumpTable subject cases default =>
    show (Code.lines _).marks ++ [] = _
    simp [Code.marks_lines, landmarks, Landmark.line?]
  | ret value => cases value <;> simp [code, Code.marks, landmarks, Landmark.line?]
  | _ => simp [code, Code.marks, landmarks, Landmark.line?]

theorem Stmt.isPlain_code (t : Stmt) : t.code.isPlain = true := by
  have hlines : ∀ texts : List String, (Code.lines texts).isPlain = true := by
    intro texts
    induction texts with
    | nil => rfl
    | cons text texts ih => exact ih
  induction t with
  | seq first rest ihfirst ihrest => exact Bool.and_eq_true_iff.2 ⟨ihfirst, ihrest⟩
  | tryCatch body handler ihbody ihhandler => exact Bool.and_eq_true_iff.2 ⟨ihbody, ihhandler⟩
  | ite condition thenBranch elseBranch ihthen ihelse => exact Bool.and_eq_true_iff.2 ⟨ihthen, ihelse⟩
  | «when» condition body ih | loop condition body ih | switch subject body ih => exact ih
  | arm values body ih | otherwise body ih => exact ih
  | jumpTable subject cases default => exact Bool.and_eq_true_iff.2 ⟨hlines _, rfl⟩
  | ret value => cases value <;> rfl
  | _ => rfl

end Target

namespace Lowering

/-- A lowered body is marked where the body has line markers, and nowhere else. -/
theorem marks_of_lowerBody {p : Program} {options : GenOptions} {site : BodySite} {body : Body} {unit : UnitState}
    {b : Target.Body} (h : (lowerBody p options site body unit).1 = .ok b) : b.code.marks = body.tree.markers := by
  have hdecls :
      (Target.Code.ofList (b.decls.map fun d => (Target.Stmt.declare d.name d.tag d.value).code)).marks = [] := by
    rw [Target.Code.marks_ofList, List.flatMap_map]
    exact List.flatMap_eq_nil_iff.2 fun _ _ => rfl
  show (Target.Code.ofList _).marks ++ b.stmts.code.marks = _
  rw [hdecls, List.nil_append, Target.Stmt.marks_code, ← (landmarks_of_lowerBody h).lines_eq, Stmt.markers_eq]

end Lowering

end HaxeBackend
