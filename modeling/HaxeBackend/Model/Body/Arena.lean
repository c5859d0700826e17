/-!
# Arenas and their trees

Nodes in an arena refer to others by position, and several may refer to the same one.  The tree at a position can
then be far larger than the arena, so the trees of all positions are made together, level by level (`table`), and a
shared operand is one value.  The table holds what recursion from a single position gives (`table_getD`).

Nothing keeps nodes from referring to each other in a circle.  No tree is at such a position, and a recursion without
`depth` would not end there; here it is cut off, and what is cut off is as if there were no node.
-/

namespace HaxeBackend

/-- Nodes that refer to others by position. -/
structure Arena (ν τ : Type) where
  nodes : Array ν
  /-- The positions that a node refers to. -/
  operands : ν → List Nat
  /-- The tree of a node, from the trees at its positions. -/
  build : (Nat → τ) → ν → τ
  /-- The tree where there is no node. -/
  missing : Nat → τ

namespace Arena

variable {ν τ : Type}

/-- The tree at a position, cut off below `depth` nodes. -/
def treeAt (a : Arena ν τ) : Nat → Nat → τ
  | 0, id => a.missing id
  | depth + 1, id =>
    match a.nodes[id]? with
    | none => a.missing id
    | some node => a.build (a.treeAt depth) node

/-- The trees at all positions, cut off below `depth` nodes. -/
def table (a : Arena ν τ) : Nat → Array τ
  | 0 => #[]
  | depth + 1 =>
    let below := a.table depth
    a.nodes.map (a.build fun id => below.getD id (a.missing id))

theorem table_getD (a : Arena ν τ) (depth id : Nat) :
    (a.table depth).getD id (a.missing id) = a.treeAt depth id := by
  induction depth generalizing id with
  | zero => simp [table, treeAt]
  | succ depth ih =>
    have below : (fun id => (a.table depth).getD id (a.missing id)) = a.treeAt depth := funext ih
    rw [table, treeAt, below, Array.getD_eq_getD_getElem?, Array.getElem?_map]
    cases a.nodes[id]? <;> rfl

/-- The positions whose trees are one level deeper than those that are settled, or less. -/
def settle (a : Arena ν τ) (settled : Array Bool) : Array Bool :=
  a.nodes.map fun node => (a.operands node).all fun id => settled.getD id true

/-- The levels until every position is settled, at most `fuel`. -/
def levels (a : Arena ν τ) : Nat → Array Bool → Nat
  | 0, _ => 0
  | fuel + 1, settled => if settled.all id then 0 else a.levels fuel (a.settle settled) + 1

/-- A depth that cuts nothing off in an arena without cycles, where no path is longer than the arena. -/
def depth (a : Arena ν τ) : Nat := a.levels (a.nodes.size + 1) (Array.replicate a.nodes.size false)

/-- The trees at all positions. -/
def trees (a : Arena ν τ) : Array τ := a.table a.depth

/-- What a table of trees has at a position. -/
def lookIn (a : Arena ν τ) (table : Array τ) (id : Nat) : τ := table.getD id (a.missing id)

theorem lookIn_trees (a : Arena ν τ) (id : Nat) : a.lookIn a.trees id = a.treeAt a.depth id :=
  a.table_getD a.depth id

end Arena

end HaxeBackend
