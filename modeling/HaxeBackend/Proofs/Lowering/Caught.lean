import HaxeBackend.Proofs.Lowering.Outline
import HaxeBackend.Proofs.Target.Execution

/-!
# Caught values

All clauses of a body share one slot.  A lowered body has its clauses, its throws and its uses of caught values where
the source has them, and every use gives what was caught last (`caught_values_kept`).  A rethrow is meant to.  A caught
value in an expression is meant to be that of the clause around it, and it is as long as nothing else was caught inside
the clause; a `try` inside a clause that catches something replaces the value of the clause (`caught_value_replaced`).
-/

namespace HaxeBackend.Lowering

open Target (Entry Exec Read)

variable {p : Program} {options : GenOptions} {site : BodySite} {body : Body} {unit : UnitState} {b : Target.Body}

/-- A lowered body has its clauses, throws and uses of caught values in their places.  In every run of it a caught value
is what was caught last.  This is what the innermost clause around it was entered with exactly when the last value that
was caught since, if there is one, is the same.  It is so where no other clause was entered in between, and where no
clause has a clause inside, none ever is. -/
theorem caught_values_kept (h : (lowerBody p options site body unit).1 = .ok b) :
    Landmark.Kept body.tree.landmarks b.stmts.landmarks ∧
    ∀ reads ending st, Exec none b.stmts {} reads ending st →
      (∀ r ∈ reads, r.value = r.caught.getLast?.getD .null) ∧
      (∀ r ∈ reads, ∀ entered, r.clause = some entered →
        ∃ before since, r.caught = before ++ entered.value :: since ∧ entered.count = before.length + 1 ∧
          (r.value = entered.value ↔ ∀ v ∈ since.getLast?, v = entered.value)) ∧
      (∀ r ∈ reads, r.Undisturbed → ∀ entered, r.clause = some entered → r.value = entered.value) ∧
      (b.stmts.isFlat → ∀ r ∈ reads, r.Undisturbed) := by
  refine ⟨landmarks_of_lowerBody h, fun reads ending st hexec => ⟨?_, ?_, ?_, ?_⟩⟩
  · exact fun r hr => hexec.value_eq_last hr
  · exact fun r hr entered hclause => hexec.value_eq_iff hr hclause
  · exact fun r hr hundisturbed entered hclause => hexec.value_eq hr hundisturbed hclause
  · exact hexec.undisturbed_of_isFlat

section Nested

open Target (Ending)
open Support (Computation RunState Value)

variable {c : Option Entry} {st st' : RunState}

private def noProgram : Program := ⟨[], by decide⟩

private def plainSite : BodySite := ⟨[], false, none, .own⟩

/-- A statement that needs no guards. -/
private def unguarded (t : Target.Stmt) : Target.Stmt := .seq .skip t

private theorem exec_skip : Exec c .skip st [] .normal st := .leaf rfl

private theorem exec_unguarded {t : Target.Stmt} {l : List Read} {e : Ending} (h : Exec c t st l e st') :
    Exec c (unguarded t) st l e st' := .seq exec_skip h

private theorem exec_throw (n : Int32) :
    Exec c (unguarded (.throw (.int n))) st [] (.thrown (.thrown (.int n))) st :=
  exec_unguarded (.leaf ⟨_, rfl, rfl⟩)

private theorem exec_rethrow :
    Exec c (unguarded (.throw .caught)) st [⟨c, st.caught, st.current, true⟩] (.thrown (.thrown st.current)) st :=
  exec_unguarded (.leaf ⟨_, rfl, rfl⟩)

/-- Throws 1, throws and catches 2 while that is handled, and then returns the caught value. -/
private def nestedBody : Body where
  exprs := #[⟨.literal (.int 1), .prim .int⟩, ⟨.literal (.int 2), .prim .int⟩, ⟨.caught, .ref objectClass⟩]
  stmts := #[.throw 0, .throw 1, .nop, .tryCatch 1 2, .ret (some 2), .block ⟨0, 2⟩, .tryCatch 0 5]
  stmtLists := #[3, 4, 6]
  root := ⟨2, 1⟩

private def nestedHandler : Target.Stmt :=
  .seq (unguarded (.tryCatch (unguarded (.throw (.int 2))) .skip)) (.seq (unguarded (.ret (some .caught))) .skip)

private def nestedStmts : Target.Stmt :=
  .seq (unguarded (.tryCatch (unguarded (.throw (.int 1))) nestedHandler)) .skip

private theorem exec_nestedHandler :
    Exec (some ⟨.int 1, 1⟩) nestedHandler ⟨some (.int 1), [.int 1], 1⟩
      [⟨some ⟨.int 1, 1⟩, [.int 1, .int 2], .int 2, false⟩] .returned ⟨some (.int 2), [.int 1, .int 2], 2⟩ := by
  have hinner : Exec (some ⟨.int 1, 1⟩) (unguarded (.tryCatch (unguarded (.throw (.int 2))) .skip))
      ⟨some (.int 1), [.int 1], 1⟩ [] .normal ⟨some (.int 2), [.int 1, .int 2], 2⟩ :=
    exec_unguarded (.catches (exec_throw 2) exec_skip)
  have hread : Exec (some ⟨.int 1, 1⟩) (unguarded (.ret (some .caught))) ⟨some (.int 2), [.int 1, .int 2], 2⟩
      [⟨some ⟨.int 1, 1⟩, [.int 1, .int 2], .int 2, false⟩] .returned ⟨some (.int 2), [.int 1, .int 2], 2⟩ :=
    exec_unguarded (.leaf ⟨_, rfl, rfl⟩)
  exact .seq hinner (.seqEnds hread nofun)

/-- The caught value is used in the clause that was entered with 1, but what it gives is 2.  The support library does
the same. -/
theorem caught_value_replaced :
    (∃ b, (lowerBody noProgram {} plainSite nestedBody {}).1 = .ok b ∧
      ∃ reads st, Exec none b.stmts {} reads .returned st ∧
        ∃ r ∈ reads, r.clause = some ⟨.int 1, 1⟩ ∧ r.rethrows = false ∧ r.value = .int 2) ∧
    ((Computation.tryCatch (.throw (.int 1))
      (.seq [.tryCatch (.throw (.int 2)) (.value .null), .current])).run {}).1 = .ok (.int 2) := by
  have hlowered : (lowerBody noProgram {} plainSite nestedBody {}).1 = .ok ⟨[], true, nestedStmts⟩ := by
    with_unfolding_all rfl
  have hexec : Exec none nestedStmts {} [⟨some ⟨.int 1, 1⟩, [.int 1, .int 2], .int 2, false⟩] .returned
      ⟨some (.int 2), [.int 1, .int 2], 2⟩ :=
    .seqEnds (exec_unguarded (.catches (exec_throw 1) exec_nestedHandler)) nofun
  exact ⟨⟨_, hlowered, _, _, hexec, _, List.mem_cons_self, rfl, rfl, rfl⟩, rfl⟩

/-- Throws 1, reads it in a clause that throws 2, and rethrows that in the next clause. -/
private def chainBody : Body where
  exprs := #[⟨.literal (.int 1), .prim .int⟩, ⟨.literal (.int 2), .prim .int⟩, ⟨.caught, .ref "java.lang.Throwable"⟩]
  stmts := #[.throw 0, .eval 2, .throw 1, .block ⟨0, 2⟩, .tryCatch 0 3, .rethrow, .tryCatch 4 5]
  stmtLists := #[1, 2, 6]
  root := ⟨2, 1⟩

private def chainHandler : Target.Stmt :=
  .seq (unguarded (.eval .caught)) (.seq (unguarded (.throw (.int 2))) .skip)

private def chainInner : Target.Stmt := unguarded (.tryCatch (unguarded (.throw (.int 1))) chainHandler)

private def chainStmts : Target.Stmt :=
  .seq (unguarded (.tryCatch chainInner (unguarded (.throw .caught)))) .skip

private theorem exec_chainInner :
    Exec none chainInner {} [⟨some ⟨.int 1, 1⟩, [.int 1], .int 1, false⟩] (.thrown (.thrown (.int 2)))
      ⟨some (.int 1), [.int 1], 1⟩ := by
  have hread : Exec (some ⟨.int 1, 1⟩) (unguarded (.eval .caught)) ⟨some (.int 1), [.int 1], 1⟩
      [⟨some ⟨.int 1, 1⟩, [.int 1], .int 1, false⟩] .normal ⟨some (.int 1), [.int 1], 1⟩ :=
    exec_unguarded (.leaf ⟨_, rfl, rfl⟩)
  have hhandler : Exec (some ⟨.int 1, 1⟩) chainHandler ⟨some (.int 1), [.int 1], 1⟩
      [⟨some ⟨.int 1, 1⟩, [.int 1], .int 1, false⟩] (.thrown (.thrown (.int 2))) ⟨some (.int 1), [.int 1], 1⟩ :=
    .seq hread (.seqEnds (exec_throw 2) nofun)
  exact exec_unguarded (.catches (exec_throw 1) hhandler)

private theorem exec_chainStmts :
    Exec none chainStmts {} [⟨some ⟨.int 1, 1⟩, [.int 1], .int 1, false⟩,
      ⟨some ⟨.int 2, 2⟩, [.int 1, .int 2], .int 2, true⟩] (.thrown (.thrown (.int 2)))
      ⟨some (.int 2), [.int 1, .int 2], 2⟩ :=
  .seqEnds (exec_unguarded (.catches exec_chainInner exec_rethrow)) nofun

/-- Clauses in a row keep their values. -/
theorem caught_values_kept_chain :
    ∃ b, (lowerBody noProgram {} plainSite chainBody {}).1 = .ok b ∧
      ∃ reads ending st, Exec none b.stmts {} reads ending st ∧ reads.map Read.value = [.int 1, .int 2] ∧
        ∀ r ∈ reads, ∀ entered, r.clause = some entered → r.value = entered.value := by
  have hlowered : (lowerBody noProgram {} plainSite chainBody {}).1 = .ok ⟨[], true, chainStmts⟩ := by
    with_unfolding_all rfl
  obtain ⟨-, -, hkept, hflat⟩ := (caught_values_kept hlowered).2 _ _ _ exec_chainStmts
  have hclauses : chainStmts.isFlat :=
    List.forall_mem_cons.2 ⟨rfl, List.forall_mem_singleton.2 rfl⟩
  exact ⟨_, hlowered, _, _, _, exec_chainStmts, rfl, fun r hr => hkept r hr (hflat hclauses r hr)⟩

end Nested

end HaxeBackend.Lowering
