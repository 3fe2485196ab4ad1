import HeadlessErp.Entity.Field

/-!
# Field selections

The tree that `?fields=` stands for (`FieldSelection` of `apps/api/src/lib/api/query-parser.ts`), and
the selection that it gives the rows of a relation (`childOf` of
`apps/api/src/lib/services/collection-relations.service.ts`).
-/

namespace HeadlessErp

/-- A `FieldSelection`. -/
inductive FieldSelection where
  | node (all : Bool) (columns excludes : List String) (relations : List (String × FieldSelection))
    (expandDepth : Nat)

namespace FieldSelection

/-- `*`: the columns of the level. -/
def all : FieldSelection → Bool
  | node all _ _ _ _ => all

/-- The columns that are named. -/
def columns : FieldSelection → List String
  | node _ columns _ _ _ => columns

/-- The names that are left out. -/
def excludes : FieldSelection → List String
  | node _ _ excludes _ _ => excludes

/-- The paths below the level. -/
def relations : FieldSelection → List (String × FieldSelection)
  | node _ _ _ relations _ => relations

/-- The levels of relations that `*.*` expands. -/
def expandDepth : FieldSelection → Nat
  | node _ _ _ _ expandDepth => expandDepth

/-- All the columns, and further levels of relations. -/
def wildcard (expandDepth : Nat) : FieldSelection := node true [] [] [] expandDepth

/-- `childOf`: the selection for the rows of a relation, which is expanded where there is one. -/
def childOf (node : FieldSelection) (name : String) : Option FieldSelection :=
  match node.relations.lookup name with
  | some explicit => some explicit
  | none =>
    if 1 ≤ node.expandDepth then some (wildcard (node.expandDepth - 1))
    else if name ∈ node.columns then some (wildcard 0)
    else none

/-- The rows of a relation are resolved further. -/
def recurses (child : FieldSelection) : Bool :=
  !child.relations.isEmpty || 0 < child.expandDepth

mutual
/-- A bound on the levels of relations that a selection expands. -/
def levels : FieldSelection → Nat
  | node _ _ _ relations expandDepth => max (relationLevels relations) expandDepth + 1

/-- The bound for the paths below a level. -/
def relationLevels : List (String × FieldSelection) → Nat
  | [] => 0
  | (_, child) :: relations => max child.levels (relationLevels relations)
end

end FieldSelection

end HeadlessErp
