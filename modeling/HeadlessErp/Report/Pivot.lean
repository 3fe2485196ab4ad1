import HeadlessErp.Base.Grouping
import HeadlessErp.Js.Map
import HeadlessErp.Query.Parsed
import Mathlib.Data.List.SplitBy
import Mathlib.Data.Nat.Cast.Defs
import Mathlib.Order.Defs.LinearOrder

/-!
# Reports

`reportV2` and `_insertSubtotals` of `apps/api/src/services/report-engine.service.ts`. The table is
the list of its visible rows: what the joins, the filters and the row filter of the role leave. The
query gives one raw row for each tuple of dimension values that occurs (`Groups`), in any order, and
the report is made of the raw rows. Values are exact numbers, texts and NULL. What SQLite and the
language make of a value is a parameter (`ReportPlatform`).
-/

namespace HeadlessErp

/-! ## Values and rows -/

/-- A value of a report. -/
inductive ReportValue (N : Type) where
  | null
  | bool (b : Bool)
  | num (n : N)
  | text (s : String)
  deriving DecidableEq

/-- What is not read from `src`: `String(n)`, the number that `SUM` makes of a text, the aggregates
that do not add up, and the configured `MAX_PAGE_SIZE`. -/
structure ReportPlatform (N : Type) where
  numberText : N → String
  textNumber : String → N
  avg : List (ReportValue N) → ReportValue N
  min : List (ReportValue N) → ReportValue N
  max : List (ReportValue N) → ReportValue N
  maxPageSize : Nat

/-- An object of the report. -/
abbrev ReportRow (N : Type) := JsMap String (ReportValue N)

/-- `row[key] = v`. A primitive cannot be the prototype, so `__proto__` is not set. -/
def assign {N : Type} (row : ReportRow N) (key : String) (v : ReportValue N) : ReportRow N :=
  if key = "__proto__" then row else row.set key v

/-- The assignments of the entries to a row. -/
def assignAll {N : Type} (row : ReportRow N) (entries : List (String × ReportValue N)) :
    ReportRow N :=
  entries.foldl (fun row entry => assign row entry.1 entry.2) row

variable {R N : Type} [AddCommMonoidWithOne N] [LinearOrder N]

namespace ReportValue

/-- `String(v ?? '')`. -/
def keyText (P : ReportPlatform N) : ReportValue N → String
  | null => ""
  | bool b => toString b
  | num n => P.numberText n
  | text s => s

/-- `typeof v === 'number' ? v : 0`. -/
def amount : ReportValue N → N
  | num n => n
  | _ => 0

/-- `typeof v === 'number'`. -/
def isNumber : ReportValue N → Bool
  | num _ => true
  | _ => false

/-- What `SUM` adds for a value. -/
def summand (P : ReportPlatform N) : ReportValue N → N
  | null => 0
  | bool _ => 0
  | num n => n
  | text s => P.textNumber s

end ReportValue

/-- The number of a cell, zero if it has none. -/
def cellAmount (row : ReportRow N) (key : String) : N := ((row.get? key).getD .null).amount

/-! ## Requests -/

/-- A `ResolvedDim`: its key, its SQL alias `asName`, and the value of its expression in a row. -/
structure ResolvedDim (R N : Type) where
  key : String
  asName : String
  value : R → ReportValue N

/-- A `ReportV2Measure`, its field resolved. The field is `none` for `*`, which SQLite takes only in
`COUNT(*)`. -/
structure ReportV2Measure (R N : Type) where
  op : AggregateOp
  field : Option (R → ReportValue N)
  asName : String
  counts_all : field = none → op = .count

/-- `SQL_AGG_MAP`: the aggregates over the values of a column. -/
def AggregateOp.apply (P : ReportPlatform N) (values : List (ReportValue N)) :
    AggregateOp → ReportValue N
  | .count => .num ((values.filter (· ≠ .null)).length : N)
  | .countDistinct => .num ((values.filter (· ≠ .null)).dedup.length : N)
  | .sum =>
    if ∀ v ∈ values, v = .null then .null else .num ((values.map (·.summand P)).sum)
  | .avg => P.avg values
  | .min => P.min values
  | .max => P.max values

/-- A measure over the rows of a group. `COUNT(*)` counts a value that no row has as NULL. -/
def ReportV2Measure.aggregate (P : ReportPlatform N) (m : ReportV2Measure R N) (rows : List R) :
    ReportValue N :=
  m.op.apply P (rows.map (m.field.getD fun _ => .num 1))

/-- A `ReportV2Request`, its dimensions and measures resolved. A dimension is resolved from its key. -/
structure ReportV2Request (R N : Type) where
  rowDimensions : List (ResolvedDim R N)
  columnDimensions : List (ResolvedDim R N)
  measures : List (ReportV2Measure R N)
  rowLimit : Option Nat
  topNColumns : Option Nat
  subtotals : Bool
  resolved : ∀ d ∈ rowDimensions, ∀ d' ∈ rowDimensions, d.key = d'.key → d = d'

/-- The values of the dimensions in a row. -/
def dimValues (dims : List (ResolvedDim R N)) (r : R) : List (ReportValue N) :=
  dims.map (·.value r)

namespace ReportV2Request
variable (P : ReportPlatform N) (req : ReportV2Request R N)

/-! ## Raw rows -/

/-- What the query groups by. -/
def groupKey (r : R) : List (ReportValue N) × List (ReportValue N) :=
  (dimValues req.rowDimensions r, dimValues req.columnDimensions r)

/-- The rows of a group. -/
def groupRows (table : List R) (g : List (ReportValue N) × List (ReportValue N)) : List R :=
  table.filter (req.groupKey · = g)

/-- The columns of the result, with their values in a group. -/
def rawColumns (table : List R) (g : List (ReportValue N) × List (ReportValue N)) :
    List (String × ReportValue N) :=
  (req.rowDimensions.map (·.asName)).zip g.1 ++ (req.columnDimensions.map (·.asName)).zip g.2 ++
    req.measures.map fun m => (m.asName, m.aggregate P (req.groupRows table g))

/-- The raw row of a group: the last of the columns with one name stays. -/
def rawRow (table : List R) (g : List (ReportValue N) × List (ReportValue N)) : ReportRow N :=
  JsMap.empty.setAll (req.rawColumns P table g)

/-! ## The pivot -/

/-- `aliases.map((a) => String(raw[a] ?? '')).join('|')`. -/
def joinedKey (dims : List (ResolvedDim R N)) (raw : ReportRow N) : String :=
  "|".intercalate (dims.map fun d => ((raw.get? d.asName).getD .null).keyText P)

/-- `cellKey`. -/
def cellKey (colKey asName : String) : String :=
  if req.measures.length = 1 then colKey
  else if colKey = "" then asName
  else colKey ++ "|" ++ asName

/-- The entries of the dimensions of a new row. -/
def dimEntries (raw : ReportRow N) : List (String × ReportValue N) :=
  req.rowDimensions.map fun d => (d.key, (raw.get? d.asName).getD .null)

/-- The cells that a raw row sets. -/
def cellEntries (raw : ReportRow N) : List (String × ReportValue N) :=
  req.measures.map fun m =>
    (req.cellKey (joinedKey P req.columnDimensions raw) m.asName, (raw.get? m.asName).getD .null)

/-- `rowMap`, whose keys are `rowOrder`, and `colSet`, which has the elements of `colSeen`. -/
structure PivotState (N : Type) where
  rowMap : JsMap String (ReportRow N)
  colSet : JsSet String

/-- One raw row of the pivot transform. -/
def pivotStep (s : PivotState N) (raw : ReportRow N) : PivotState N :=
  let rowKey := joinedKey P req.rowDimensions raw
  let row := (s.rowMap.get? rowKey).getD (assignAll .empty (req.dimEntries raw))
  { rowMap := s.rowMap.set rowKey (assignAll row (req.cellEntries P raw))
    colSet := (req.cellEntries P raw).foldl (fun seen entry => seen.add entry.1) s.colSet }

/-- The pivot transform: the rows and the columns before they are cut. -/
def pivotRows {table : List R} (groups : Groups table req.groupKey) :
    List (ReportRow N) × List String :=
  let s := (groups.keys.map (req.rawRow P table)).foldl (req.pivotStep P) ⟨.empty, .empty⟩
  (s.rowMap.entries.map (·.2), s.colSet.elems)

/-! ## Truncation -/

/-- `totals`: what the cells of a column sum up to. -/
def columnTotal (rows : List (ReportRow N)) (column : String) : N :=
  (rows.map (cellAmount · column)).sum

/-- `ranked`: the columns, the greatest total first. -/
def ranked (rows : List (ReportRow N)) (columns : List String) : List String :=
  columns.mergeSort fun a b => columnTotal rows b ≤ columnTotal rows a

/-- A row without the dropped columns, and with their sum if it is not zero. -/
def dropColumns (dropped : List String) (row : ReportRow N) : ReportRow N :=
  let other := (dropped.map (cellAmount row)).sum
  let rest := dropped.foldl (fun row column => row.delete column) row
  if other ≠ 0 then assign rest "Other" (.num other) else rest

/-- The top-N columns. -/
def capColumns (rows : List (ReportRow N)) (columns : List String) :
    List (ReportRow N) × List String × Option Nat :=
  match req.topNColumns with
  | none => (rows, columns, none)
  | some n =>
    if n ≠ 0 ∧ n < columns.length then
      let kept := (ranked rows columns).take n
      let dropped := (ranked rows columns).drop n
      (rows.map (dropColumns dropped), kept ++ (if dropped ≠ [] then ["Other"] else []), some n)
    else (rows, columns, none)

/-- `effectiveRowLimit`. -/
def effectiveRowLimit : Nat := Nat.min (req.rowLimit.getD P.maxPageSize) P.maxPageSize

/-- `rowTotal`. -/
def rowTotal (row : ReportRow N) : N :=
  (row.entries.map fun entry =>
    if entry.1 ∈ req.rowDimensions.map (·.key) then 0 else entry.2.amount).sum

/-- The row limit. -/
def limitRows (rows : List (ReportRow N)) : List (ReportRow N) × Option Nat :=
  if req.effectiveRowLimit P < rows.length then
    ((rows.mergeSort fun a b => req.rowTotal b ≤ req.rowTotal a).take (req.effectiveRowLimit P),
      some (req.effectiveRowLimit P))
  else (rows, none)

/-! ## Subtotals -/

/-- The key of a level break: the texts of all row dimensions but the last. -/
def levelKey (row : ReportRow N) : String :=
  "|".intercalate (req.rowDimensions.dropLast.map fun d => ((row.get? d.key).getD .null).keyText P)

/-- The groups of consecutive rows that have one key. -/
def levels (rows : List (ReportRow N)) : List (List (ReportRow N)) :=
  rows.splitBy fun a b => req.levelKey P a = req.levelKey P b

/-- `numericKeys`: the keys, dimensions apart, that have a number in some row of the group. -/
def numericKeys (group : List (ReportRow N)) : JsSet String :=
  (group.flatMap (·.entries)).foldl (fun keys entry =>
    if entry.1 ∉ req.rowDimensions.map (·.key) ∧ entry.2.isNumber then keys.add entry.1 else keys)
    .empty

/-- The dimensions of a subtotal row: the first has the label, the others are empty. -/
def subtotalDims (group : List (ReportRow N)) : List (String × ReportValue N) :=
  match req.rowDimensions, group with
  | d :: dims, row :: _ =>
    (d.key, .text (((row.get? d.key).getD .null).keyText P ++ " Total")) ::
      dims.map fun d => (d.key, .text "")
  | _, _ => []

/-- The subtotal row of a group. -/
def subtotalRow (group : List (ReportRow N)) : ReportRow N :=
  assignAll .empty (("__subtotal", .bool true) :: req.subtotalDims P group ++
    (req.numericKeys group).elems.map fun key => (key, .num (columnTotal group key)))

/-- `_insertSubtotals`. -/
def insertSubtotals (rows : List (ReportRow N)) : List (ReportRow N) :=
  if rows = [] ∨ req.rowDimensions.length < 2 then rows
  else (req.levels P rows).flatMap fun group => group ++ [req.subtotalRow P group]

/-! ## The report -/

/-- The rows of a grouped report: one for each raw row. -/
def groupedRows {table : List R} (groups : Groups table req.groupKey) : List (ReportRow N) :=
  (groups.keys.map (req.rawRow P table)).map fun raw =>
    assignAll .empty (req.dimEntries raw ++
      req.measures.map fun m => (m.asName, (raw.get? m.asName).getD .null))

end ReportV2Request

/-- A `ReportV2Result`: the data, the columns, and of `meta` what is computed. -/
structure ReportV2Result (N : Type) where
  data : List (ReportRow N)
  columns : List String
  totalRows : Nat
  truncatedColumns : Option Nat
  truncatedRows : Option Nat

/-- The row limit, the subtotals and the result, alike for pivots and grouped reports. -/
def finish (P : ReportPlatform N) (req : ReportV2Request R N) (rows : List (ReportRow N))
    (columns : List String) (truncatedColumns : Option Nat) : ReportV2Result N :=
  let limited := req.limitRows P rows
  { data := if req.subtotals then req.insertSubtotals P limited.1 else limited.1
    columns
    totalRows := limited.1.length
    truncatedColumns
    truncatedRows := limited.2 }

/-- `reportV2`, from the groups that the query gives. -/
def reportV2 (P : ReportPlatform N) (req : ReportV2Request R N) {table : List R}
    (groups : Groups table req.groupKey) : Except String (ReportV2Result N) :=
  if req.rowDimensions = [] then .error "rowDimensions must contain at least one field"
  else if req.measures = [] then .error "measures must contain at least one aggregate"
  else if req.columnDimensions ≠ [] then
    let pivot := req.pivotRows P groups
    let capped := req.capColumns pivot.1 pivot.2
    .ok (finish P req capped.1 capped.2.1 capped.2.2)
  else .ok (finish P req (req.groupedRows P groups) [] none)

end HeadlessErp
