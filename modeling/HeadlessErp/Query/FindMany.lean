import Mathlib.Order.WithBot
import Mathlib.Data.List.Sort
import Mathlib.Data.String.Basic

/-!
# Pages of a repository

`Repository.findMany` of `packages/core/src/db/repository.ts`: the statement it runs, the page it
cuts from the rows and the cursors it returns. The table is a parameter: what a column holds in a
row, the text `String` makes of a value, the value that a bound text is for a column, and the order
in which the database returns rows, which is free among those that compare as equal. A null is `⊥`,
which SQLite sorts before every value.
-/

namespace HeadlessErp.Repository

/-- A direction of `orderBy`. -/
inductive SortDir where
  | asc
  | desc
  deriving DecidableEq, Repr

/-- The side of the cursor that is asked for. -/
inductive PageDir where
  | after
  | before
  deriving DecidableEq, Repr

/-- An item of a selection. -/
inductive Field (C : Type) where
  | all
  | column (c : C)
  deriving DecidableEq

/-- A value of `where`. -/
inductive WhereValue (V : Type) where
  | null
  | oneOf (vs : List V)
  | equals (v : V)

/-- A condition of a statement. -/
inductive Condition (C V : Type) where
  | isNull (c : C)
  | oneOf (c : C) (vs : List V)
  | equals (c : C) (v : V)
  | less (c : C) (bound : String)
  | greater (c : C) (bound : String)

/-- A SELECT statement. -/
structure SelectStatement (C V : Type) where
  columns : List (Field C)
  wheres : List (Condition C V)
  orderBy : List (C × SortDir)
  limit : Nat
  offset : Nat

/-- `FindManyOptions`. -/
structure FindManyOptions (C V : Type) where
  fields : List (Field C) := []
  where_ : List (C × WhereValue V) := []
  orderBy : List (C × SortDir) := []
  limit : Option Int := none
  offset : Option Int := none
  cursor : Option String := none
  dir : PageDir := .after

/-- `PaginatedResult`. -/
structure Page (Row : Type) where
  data : List Row
  limit : Int
  hasMore : Bool
  nextCursor : Option String
  prevCursor : Option String

/-- The order of a direction. -/
def keyLe {V : Type} [LinearOrder V] : SortDir → WithBot V → WithBot V → Bool
  | .asc, a, b => decide (a ≤ b)
  | .desc, a, b => decide (b ≤ a)

/-- A value is beyond a bound: greater, or less. A comparison with null is not true. -/
def follows {V : Type} [LinearOrder V] : SortDir → V → WithBot V → Bool
  | .asc, v, k => decide (k ≠ ⊥ ∧ ↑v < k)
  | .desc, v, k => decide (k ≠ ⊥ ∧ k < ↑v)

/-- The order of an ORDER BY clause. -/
def rowLe {C Row V : Type} [LinearOrder V] (value : Row → C → WithBot V) :
    List (C × SortDir) → Row → Row → Bool
  | [], _, _ => true
  | (c, d) :: es, a, b =>
    keyLe d (value a c) (value b c) && (!keyLe d (value b c) (value a c) || rowLe value es a b)

/-- A table, and the database's order of the rows of a statement. -/
structure Table (C Row V : Type) [LinearOrder V] where
  id : C
  rows : List Row
  value : Row → C → WithBot V
  text : V → String
  read : C → String → V
  /-- A column's value compares as equal to its own text. -/
  read_text : ∀ c v, read c (text v) = v
  order : SelectStatement C V → List Row → List Row
  order_perm : ∀ s l, (order s l).Perm l
  order_sorted : ∀ s l, (order s l).Pairwise fun a b => rowLe value s.orderBy a b = true

/-- `DEFAULT_PAGE_SIZE`. -/
def DEFAULT_PAGE_SIZE : Int := 25

section
variable {C Row V : Type} [DecidableEq C] [LinearOrder V]

/-- The condition of an entry of `where`. -/
def conditionOf : C × WhereValue V → Condition C V
  | (c, .null) => .isNull c
  | (c, .oneOf vs) => .oneOf c vs
  | (c, .equals v) => .equals c v

namespace Table
variable (T : Table C Row V)

/-- A row meets a condition. -/
def holds (r : Row) : Condition C V → Bool
  | .isNull c => decide (T.value r c = ⊥)
  | .oneOf c vs => vs.any fun v => decide (T.value r c = v)
  | .equals c v => decide (T.value r c = v)
  | .less c t => follows .desc (T.read c t) (T.value r c)
  | .greater c t => follows .asc (T.read c t) (T.value r c)

/-- The rows of a statement. -/
def all (s : SelectStatement C V) : List Row :=
  ((T.order s (T.rows.filter fun r => s.wheres.all (T.holds r))).drop s.offset).take s.limit

/-- The sort column and its direction: the first entry of `orderBy`, else the id, descending. -/
def sortEntry (o : FindManyOptions C V) : C × SortDir := o.orderBy.headD (T.id, .desc)

/-- `cursorOf`: the text of the sort column of a returned row, where it was selected. -/
def cursorOf (o : FindManyOptions C V) (r : Row) : Option String :=
  if o.fields.isEmpty || o.fields.any (fun f => f = .all ∨ f = .column (T.sortEntry o).1) then
    (T.value r (T.sortEntry o).1).recBotCoe none fun v => some (T.text v)
  else none

/-- The statement of `findMany`. -/
def selectOf (o : FindManyOptions C V) (limit offset : Nat) : SelectStatement C V :=
  let (sortCol, sortDir) := T.sortEntry o
  let wheres := o.where_.map conditionOf
  let orderBy := if o.orderBy.isEmpty then [(T.id, .desc)] else o.orderBy
  let columns := if o.fields.isEmpty then [.all] else o.fields
  match o.cursor.filter (· ≠ "") with
  | none => { columns, wheres, orderBy, limit, offset }
  | some cursor =>
    match o.dir with
    | .before =>
      { columns, wheres := wheres ++ [.less sortCol cursor], orderBy := [(sortCol, .desc)],
        limit, offset }
    | .after =>
      match sortDir with
      | .asc => { columns, wheres := wheres ++ [.greater sortCol cursor], orderBy, limit, offset }
      | .desc => { columns, wheres := wheres ++ [.less sortCol cursor], orderBy, limit, offset }

/-- `findMany`. -/
def findMany (o : FindManyOptions C V) : Except String (Page Row) := do
  let limit := o.limit.getD DEFAULT_PAGE_SIZE
  let fetchLimit := limit + 1
  if fetchLimit < 0 then .error "LIMIT must be a non-negative integer"
  let offset := if (o.cursor.filter (· ≠ "")).isSome then 0 else o.offset.getD 0
  if offset < 0 then .error "OFFSET must be a non-negative integer"
  let fetched := T.all (T.selectOf o fetchLimit.toNat offset.toNat)
  let hasMore := decide (limit < fetched.length)
  let items := if hasMore then fetched.dropLast else fetched
  let items := if o.dir = .before then items.reverse else items
  .ok {
    data := items
    limit
    hasMore
    nextCursor := if hasMore then items.getLast?.bind (T.cursorOf o) else none
    prevCursor := if (o.cursor.filter (· ≠ "")).isSome then items.head?.bind (T.cursorOf o)
      else none }

end Table
end

end HeadlessErp.Repository
