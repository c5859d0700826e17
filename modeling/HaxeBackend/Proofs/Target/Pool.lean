import HaxeBackend.Proofs.Target.Uses

/-!
# Pooled literals in generated code

The names of pooled literals that expressions, statements and units read, each with the class that it is reached
through, and those that a unit declares.  A variable or a member counts when it has such a name (`poolIndex?`).  Text
that is handed through (bodies given by annotations, conversion patterns) is not looked into.
-/

namespace HaxeBackend.Target

/-! ### Names of literals -/

/-- The number in the name of a pooled literal. -/
def poolIndex? (name : String) : Option Nat :=
  let index := Nat.ofDigitChars 10 (name.toList.drop poolStem.length) 0
  if poolIdent index = name then some index else none

theorem toList_poolIdent_eq (index : Nat) : (poolIdent index).toList = poolStem.toList ++ Nat.toDigits 10 index := by
  simp [poolIdent, toString, Nat.repr_eq_ofList_toDigits]

theorem poolIndex?_eq_some {name : String} {index : Nat} : poolIndex? name = some index ↔ name = poolIdent index := by
  unfold poolIndex?
  dsimp only
  constructor
  · intro h
    split at h
    · rename_i hname
      cases h
      exact hname.symm
    · cases h
  · rintro rfl
    have hdigits : Nat.ofDigitChars 10 ((poolIdent index).toList.drop poolStem.length) 0 = index := by
      rw [toList_poolIdent_eq, show poolStem.length = poolStem.toList.length from rfl, List.drop_left]
      simp
    rw [hdigits, if_pos rfl]

theorem poolIndex?_eq_none {name : String} : poolIndex? name = none ↔ ∀ index, name ≠ poolIdent index := by
  rw [Option.eq_none_iff_forall_ne_some]
  exact forall_congr' fun index => not_congr poolIndex?_eq_some

theorem poolIdent_injective : Function.Injective poolIdent := by
  intro index index' h
  have hsome := poolIndex?_eq_some.2 h
  rw [poolIndex?_eq_some.2 rfl] at hsome
  exact Option.some.inj hsome

/-- A read of a pooled literal: what stands in front of its name, if anything does, and its number. -/
structure PoolRef where
  holder : Option String
  index : Nat
  deriving DecidableEq, Repr

/-- The read that a name is behind this text. -/
def nameRefs (holder : Option String) (name : String) : List PoolRef :=
  ((poolIndex? name).map fun index => ⟨holder, index⟩).toList

theorem nameRefs_poolIdent (holder : Option String) (index : Nat) :
    nameRefs holder (poolIdent index) = [⟨holder, index⟩] := by
  rw [nameRefs, poolIndex?_eq_some.2 rfl]
  rfl

theorem nameRefs_eq_nil {holder : Option String} {name : String} (h : poolIndex? name = none) :
    nameRefs holder name = [] := by
  rw [nameRefs, h]
  rfl

/-! ### Expressions -/

namespace Expr

mutual

def poolRefs : Expr → List PoolRef
  | pooled index => [⟨none, index⟩]
  | var name => nameRefs none name
  | member object name => object.poolRefs ++ nameRefs (some object.text) name
  | num _ args | natives _ args | list args | construct _ args => poolRefsList args
  | binary _ left right => left.poolRefs ++ right.poolRefs
  | negate operand | not operand | complement operand | isOfType operand _ | castTo operand _ | template _ operand
  | adapter _ _ _ _ operand _ => operand.poolRefs
  | invoke object _ args => object.poolRefs ++ poolRefsList args
  | null | bool _ | int _ | single _ | double _ | quoted _ | this | super | caught | path _ => []

def poolRefsList : List Expr → List PoolRef
  | [] => []
  | e :: rest => e.poolRefs ++ poolRefsList rest

end

@[simp]
theorem poolRefsList_eq (es : List Expr) : poolRefsList es = es.flatMap poolRefs := by
  induction es with
  | nil => rfl
  | cons e es ih => rw [poolRefsList, ih, List.flatMap_cons]

end Expr

/-! ### Statements -/

namespace Stmt

def poolRefs : Stmt → List PoolRef
  | seq first rest => first.poolRefs ++ rest.poolRefs
  | tryCatch body handler => body.poolRefs ++ handler.poolRefs
  | gotoIf x _ | jumpTable x _ _ | eval x | throw x => x.poolRefs
  | assign target value => target.poolRefs ++ value.poolRefs
  | ret value => value.toList.flatMap Expr.poolRefs
  | when condition body | loop condition body | switch condition body => condition.poolRefs ++ body.poolRefs
  | ite condition thenBranch elseBranch => condition.poolRefs ++ (thenBranch.poolRefs ++ elseBranch.poolRefs)
  | arm _ body | otherwise body => body.poolRefs
  | skip | mark _ | guard _ | label _ | goto _ | declare .. | exitLoop | nextLoop => []

/-- The number of assignments. -/
def assignCount : Stmt → Nat
  | assign _ _ => 1
  | seq first rest => first.assignCount + rest.assignCount
  | tryCatch body handler => body.assignCount + handler.assignCount
  | when _ body | loop _ body | switch _ body | arm _ body | otherwise body => body.assignCount
  | ite _ thenBranch elseBranch => thenBranch.assignCount + elseBranch.assignCount
  | skip | mark _ | guard _ | label _ | goto _ | gotoIf .. | jumpTable .. | declare .. | eval _ | ret _ | throw _
  | exitLoop | nextLoop => 0

/-- Guards neither read literals nor assign. -/
theorem poolRefs_guards (holders : List String) : (ofList (holders.map guard)).poolRefs = [] := by
  induction holders with
  | nil => rfl
  | cons holder holders ih => exact ih

theorem assignCount_guards (holders : List String) : (ofList (holders.map guard)).assignCount = 0 := by
  induction holders with
  | nil => rfl
  | cons holder holders ih =>
    show 0 + (ofList (holders.map guard)).assignCount = 0
    rw [ih]

end Stmt

/-! ### Units -/

def FunctionBody.poolRefs : FunctionBody → List PoolRef
  | lowered body _ => body.stmts.poolRefs
  | given _ | missing .. | errored .. => []

def MemberEntry.poolRefs : MemberEntry → List PoolRef
  | field _ _ _ _ _ uses => uses.poolRefs
  | constructor _ _ _ _ uses paramUses | method _ _ _ _ _ _ uses paramUses => uses.poolRefs ++ paramUses.poolRefs

def ClassInfo.poolRefs (i : ClassInfo) : List PoolRef :=
  i.entry.uses.poolRefs ++ i.members.flatMap MemberEntry.poolRefs

/-- The arguments that a proxy hands on. -/
def DispatchClass.argRefs : DispatchClass → List PoolRef
  | proxy c => c.methods.flatMap fun m => m.args.flatMap Expr.poolRefs
  | adapter _ => []

namespace SourceUnit

def statics : SourceUnit → Statics
  | ofClass unit => unit.statics
  | ofInterface unit => unit.statics

def fields : SourceUnit → List FieldDecl
  | ofClass unit => unit.fields
  | ofInterface unit => unit.fields

def argRefs : SourceUnit → List PoolRef
  | ofClass _ => []
  | ofInterface unit => unit.dispatch.argRefs

/-- All reads of pooled literals in a unit. -/
def poolRefs (u : SourceUnit) : List PoolRef :=
  u.functions.flatMap (fun f => f.body.poolRefs) ++ u.statics.constants.map (fun constant => ⟨none, constant.2⟩) ++
    u.info?.toList.flatMap ClassInfo.poolRefs ++ u.argRefs

/-- The variables that the class of a unit declares, or the class that has the statics of an interface. -/
def declaredVars (u : SourceUnit) : List String :=
  u.fields.map FieldDecl.name ++ u.statics.pool.map (fun entry => poolIdent entry.1) ++ [initFlag]

end SourceUnit

end HaxeBackend.Target
