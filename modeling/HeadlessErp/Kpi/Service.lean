import HeadlessErp.Base.Except
import HeadlessErp.Base.Grouping
import HeadlessErp.Base.Transition
import HeadlessErp.Entity.Row
import HeadlessErp.Query.Selection
import HeadlessErp.Report.Pivot

/-!
# KPIs

`KpiService` of `apps/api/src/plugins/kpi/service.ts`: a KPI is an aggregate over a collection, with
a filter, a column to group by and a period, and `compute` writes one value for each group of the
query to `_kpi_values`. What the database and the language make of a value is a parameter
(`KpiEngine`).
-/

namespace HeadlessErp

/-! ## Definitions -/

/-- A `KpiFilter`. -/
structure KpiFilter (N : Type) where
  field : String
  op : String
  value : JsVal N

/-- A `KpiDefinition`. -/
structure KpiDefinition (N : Type) where
  name : String
  collection : String
  agg : String
  field : Option String
  filter : Option (List (KpiFilter N))
  groupBy : Option String
  period : Option String
  schedule : Option String
  enabled : Option Bool

/-- A row of `_kpis`. -/
structure KpiRow (N : Type) where
  id : String
  definition : KpiDefinition N
  enabled : Bool
  version : Nat

/-- A row of `_kpi_values`. -/
structure KpiValueRow (Q : Type) where
  id : String
  kpiId : String
  periodKey : String
  groupKey : String
  value : Q
  computedAt : String

/-- What is not read from `src`: the conditions of the database, the value of an expression in a
row, the expressions over some columns, the row of a group whose columns a star shows, and what
`Number` makes of a text, zero if that is not a number. -/
structure KpiEngine (N Q Row : Type) where
  sql : SqlEngine N Row
  platform : ReportPlatform Q
  value : Row → String → ReportValue Q
  isExpression : List String → String → Bool
  bare : List Row → Option Row
  numberOf : String → Q

def validAggs : List String := ["sum", "avg", "count", "min", "max"]

def validPeriods : List String := ["none", "day", "month", "quarter", "year"]

def validSchedules : List String := ["manual", "daily"]

def validFilterOps : List String := ["eq", "neq", "gt", "gte", "lt", "lte", "in"]

/-- `PERIOD_SQL`. -/
def periodSql (period : String) : String :=
  match period with
  | "day" => "strftime('%Y-%m-%d', created_at)"
  | "month" => "strftime('%Y-%m', created_at)"
  | "quarter" => "printf('%d-Q%d', strftime('%Y', created_at), " ++
      "((strftime('%m', created_at) - 1) / 3) + 1)"
  | "year" => "strftime('%Y', created_at)"
  | _ => "undefined"

section
variable {N : Type}

/-- The expression of the period, if there is one. -/
def KpiDefinition.periodExpr (definition : KpiDefinition N) : Option String :=
  (definition.period.filter fun period => period ≠ "" ∧ period ≠ "none").map periodSql

/-- The column to group by, if there is one. -/
def KpiDefinition.groupColumn (definition : KpiDefinition N) : Option String :=
  definition.groupBy.filter (· ≠ "")

/-- The column of a filter. -/
def KpiFilter.column (f : KpiFilter N) : String :=
  if "doc.".toList.isPrefixOf f.field.toList then String.ofList (f.field.toList.drop 4) else f.field

/-- The checks of a list of conditions of which none may hold. -/
def throwFirst (checks : List (Bool × String)) : Except String Unit :=
  match checks.find? (·.1) with
  | some (_, message) => .error message
  | none => .ok ()

def KpiFilter.validate (f : KpiFilter N) : Except String Unit :=
  throwFirst [(jsTrim f.field == "", "filter conditions need a field"),
    (!validFilterOps.contains f.op, "filter op \"" ++ f.op ++ "\" is invalid (" ++
      ", ".intercalate validFilterOps ++ ")")]

/-- `validate`. -/
def KpiDefinition.validate (definition : KpiDefinition N) : Except String Unit := do
  throwFirst [(jsTrim definition.name == "", "name is required"),
    (jsTrim definition.collection == "", "collection is required"),
    (!validAggs.contains definition.agg, "agg must be one of: " ++ ", ".intercalate validAggs),
    (definition.agg != "count" && jsTrim (definition.field.getD "") == "",
      "field is required for agg \"" ++ definition.agg ++ "\""),
    (definition.period.any fun period => period != "none" && !validPeriods.contains period,
      "period must be one of: " ++ ", ".intercalate validPeriods),
    (definition.schedule.any fun schedule => !validSchedules.contains schedule,
      "schedule must be one of: " ++ ", ".intercalate validSchedules),
    (definition.groupColumn.any fun column => !isIdentifier column,
      "group_by must be a plain column name, got \"" ++ definition.groupBy.getD "" ++ "\"")]
  (definition.filter.getD []).forM KpiFilter.validate

end

/-! ## The query -/

section
variable {N : Type} [JsNumber N]

/-- `f.value ?? null`. -/
def JsVal.orNull (v : JsVal N) : JsVal N :=
  match v with
  | .undefined => .null
  | v => v

/-- A filter of `applyFilter`. -/
def applyKpiFilter (q : QueryBuilder N) (f : KpiFilter N) : Except String (QueryBuilder N) :=
  match f.op with
  | "eq" => q.where f.column (.str "=") f.value.orNull
  | "neq" => q.where f.column (.str "!=") f.value.orNull
  | "gt" => q.where f.column (.str ">") f.value
  | "gte" => q.where f.column (.str ">=") f.value
  | "lt" => q.where f.column (.str "<") f.value
  | "lte" => q.where f.column (.str "<=") f.value
  | "in" => q.whereIn f.column (match f.value with | .arr values => values | _ => [])
  | _ => .ok q

/-- `selectExpr`. -/
def QueryBuilder.selectExpr (q : QueryBuilder N) (expression asName : String) : QueryBuilder N :=
  q.selectRawWith [.text expression] [] (some asName)

def QueryBuilder.selectAll (q : QueryBuilder N) (columns : List (String × String)) :
    QueryBuilder N :=
  columns.foldl (fun q column => q.selectExpr column.1 column.2) q

/-- The expression of the value. -/
def KpiDefinition.valueExpr (definition : KpiDefinition N) : String :=
  if definition.agg = "count" then "COUNT(*)"
  else definition.agg.toUpper ++ "(" ++ definition.field.getD "undefined" ++ ")"

/-- The expressions of the groups. -/
def KpiDefinition.groupCols (definition : KpiDefinition N) : List String :=
  definition.periodExpr.toList ++ definition.groupColumn.toList

def hideDeleted (withDeletedFilter : Bool) (q : QueryBuilder N) : Except String (QueryBuilder N) :=
  if withDeletedFilter then q.whereNull "deleted_at" else .ok q

def groupUnlessEmpty (cols : List String) (q : QueryBuilder N) : Except String (QueryBuilder N) :=
  if cols.isEmpty then .ok q else q.setGroupBy cols

/-- `aggregateQuery`. -/
def kpiQuery (tableName : String) (definition : KpiDefinition N) (withDeletedFilter : Bool) :
    Except String (QueryBuilder N) := do
  let q ← QueryBuilder.from tableName
  let q ← hideDeleted withDeletedFilter q
  let q ← (definition.filter.getD []).foldlM applyKpiFilter q
  let q := q.selectAll ((definition.periodExpr.toList.map (·, "period_key")) ++
    (definition.groupColumn.toList.map (·, "group_key")) ++ [(definition.valueExpr, "value")])
  groupUnlessEmpty definition.groupCols q

end

/-! ## Its rows -/

/-- A table of a collection. -/
structure KpiTable (Row : Type) where
  columns : List String
  rows : List Row

/-- A row of the result of the query: the columns that `compute` reads. -/
structure AggregateRow (Q : Type) where
  periodKey : ReportValue Q
  groupKey : ReportValue Q
  value : ReportValue Q

section
variable {N Q Row : Type} [JsNumber N] [AddCommMonoidWithOne Q] [LinearOrder Q]
  (K : KpiEngine N Q Row)

/-- The database can evaluate an expression on a table. -/
def KpiEngine.knows (table : KpiTable Row) (e : String) : Bool :=
  table.columns.contains e || K.isExpression table.columns e

/-- The aggregate of a definition over the rows of a group. -/
def KpiEngine.aggregate (definition : KpiDefinition N) (rows : List Row) : ReportValue Q :=
  let values := rows.map (K.value · (definition.field.getD "undefined"))
  match definition.agg with
  | "sum" => AggregateOp.sum.apply K.platform values
  | "avg" => AggregateOp.avg.apply K.platform values
  | "min" => AggregateOp.min.apply K.platform values
  | "max" => AggregateOp.max.apply K.platform values
  | _ => .num (rows.length : Q)

/-- A column that the star of the query shows for a group. -/
def KpiEngine.bareColumn (table : KpiTable Row) (rows : List Row) (column : String) :
    ReportValue Q :=
  if table.columns.contains column then
    match K.bare rows with
    | some row => K.value row column
    | none => .null
  else .null

/-- The row of a group. A named expression hides the column of the same name. -/
def KpiEngine.aggregateRow (table : KpiTable Row) (definition : KpiDefinition N) (rows : List Row)
    (group : List (ReportValue Q)) : AggregateRow Q where
  periodKey :=
    if definition.periodExpr.isSome then group.headD .null
    else K.bareColumn table rows "period_key"
  groupKey :=
    if definition.groupColumn.isSome then group.getLastD .null
    else K.bareColumn table rows "group_key"
  value := K.aggregate definition rows

/-- The columns and expressions of a query. -/
def queryReads (definition : KpiDefinition N) (withDeletedFilter : Bool) : List String :=
  (if withDeletedFilter then ["deleted_at"] else []) ++
    (definition.filter.getD []).map KpiFilter.column ++ definition.groupCols ++
    (if definition.agg = "count" then [] else [definition.field.getD "undefined"])

/-- The database runs the query. Without `GROUP BY` it gives one row, and with it one row for each
group of rows that occurs. -/
def KpiEngine.execute (table : KpiTable Row) (definition : KpiDefinition N)
    (withDeletedFilter : Bool) (q : QueryBuilder N) : Except String (List (AggregateRow Q)) :=
  match (queryReads definition withDeletedFilter).find? fun e => !K.knows table e with
  | some e => .error ("no such column: " ++ e)
  | none => do
    let rows ← K.sql.select q table.rows
    if q.groupBy.isEmpty then .ok [K.aggregateRow table definition rows []]
    else
      let key := fun row => q.groupBy.map (K.value row)
      .ok ((Groups.ofRows rows key).keys.map fun group =>
        K.aggregateRow table definition (rows.filter (key · = group)) group)

/-! ## Values -/

def sliceText (text : String) (start stop : Nat) : String :=
  String.ofList ((text.toList.take stop).drop start)

/-- The key of the period that a time is in. -/
def currentPeriod (period now : String) : String :=
  match period with
  | "day" => String.ofList (now.toList.takeWhile (· ≠ 'T'))
  | "month" => sliceText now 0 7
  | "quarter" => sliceText now 0 4 ++ "-Q" ++ toString (((sliceText now 5 7).toNat! - 1) / 3 + 1)
  | "year" => sliceText now 0 4
  | _ => "all"

def ReportValue.truthy : ReportValue Q → Bool
  | .null => false
  | .bool b => b
  | .num n => n ≠ 0
  | .text s => s ≠ ""

/-- `periodKeyOf`. -/
def KpiEngine.periodKeyOf (definition : KpiDefinition N) (now : String) (raw : ReportValue Q) :
    String :=
  if raw.truthy then raw.keyText K.platform
  else currentPeriod (definition.period.getD "undefined") now

def KpiEngine.groupKeyOf (raw : ReportValue Q) : String :=
  if raw = .null then "all" else raw.keyText K.platform

/-- `Number(r.value) || 0`. -/
def KpiEngine.numberOrZero : ReportValue Q → Q
  | .null => 0
  | .bool b => if b then 1 else 0
  | .num n => n
  | .text s => K.numberOf s

/-- A value with the key of a row. -/
def KpiValueRow.hasKey (v row : KpiValueRow Q) : Bool :=
  v.kpiId == row.kpiId && v.periodKey == row.periodKey && v.groupKey == row.groupKey

/-- `INSERT … ON CONFLICT(kpi_id, period_key, group_key) DO UPDATE`. -/
def upsertValue (values : List (KpiValueRow Q)) (row : KpiValueRow Q) : List (KpiValueRow Q) :=
  if values.any (·.hasKey row) then
    values.map fun v =>
      if v.hasKey row then { v with value := row.value, computedAt := row.computedAt } else v
  else values ++ [row]

/-- The value that `compute` writes for a row of the result. -/
def KpiEngine.valueRow (kpi : KpiRow N) (now uuid : String) (r : AggregateRow Q) :
    KpiValueRow Q where
  id := uuid
  kpiId := kpi.id
  periodKey := K.periodKeyOf kpi.definition now r.periodKey
  groupKey := K.groupKeyOf r.groupKey
  value := K.numberOrZero r.value
  computedAt := now

/-! ## Runs -/

/-- The tables, the KPIs and their values, and the KPI that was computed in the last step, with the
time and what `compute` returned. -/
structure KpiState (N Q Row : Type) where
  schemas : String → Option String
  tables : String → Option (KpiTable Row)
  kpis : List (KpiRow N)
  values : List (KpiValueRow Q)
  last : Option (KpiRow N × String × Except String Nat)

/-- A message holds a text, in any case. -/
def mentions (text message : String) : Bool :=
  (message.toList.map Char.toLower).tails.any text.toList.isPrefixOf

/-- The query on a table, and again without the filter on the trash for a table of an old kind. -/
def KpiEngine.aggregateRows (tableName : String) (table : KpiTable Row)
    (definition : KpiDefinition N) : Except String (List (AggregateRow Q)) :=
  match kpiQuery tableName definition true >>= K.execute table definition true with
  | .ok rows => .ok rows
  | .error message =>
    if mentions "no such column" message then
      kpiQuery tableName definition false >>= K.execute table definition false
    else .error message

/-- `compute`: the values after it, and the number of rows. -/
def KpiEngine.compute (s : KpiState N Q Row) (kpi : KpiRow N) (now : String) (uuid : Nat → String) :
    List (KpiValueRow Q) × Except String Nat :=
  match s.schemas kpi.definition.collection with
  | none => (s.values, .error ("Collection \"" ++ kpi.definition.collection ++ "\" not found"))
  | some tableName =>
    match s.tables tableName with
    | none => (s.values, .error ("no such table: " ++ tableName))
    | some table =>
      match K.aggregateRows tableName table kpi.definition with
      | .error message => (s.values, .error message)
      | .ok rows =>
        ((rows.zipIdx.map fun r => K.valueRow kpi now (uuid r.2) r.1).foldl upsertValue s.values,
          .ok rows.length)

/-- `upsert`, for a definition that is valid. -/
def upsertKpi (kpis : List (KpiRow N)) (definition : KpiDefinition N) (id : String) :
    List (KpiRow N) :=
  let enabled := definition.enabled != some false
  if kpis.any (·.id == id) then
    kpis.map fun kpi =>
      if kpi.id = id then { kpi with definition, enabled, version := kpi.version + 1 } else kpi
  else kpis ++ [⟨id, definition, enabled, 1⟩]

/-- What happens: the collections change, a KPI is defined again or removed, or it is computed. -/
inductive KpiEvent (N Row : Type) where
  | write (schemas : String → Option String) (tables : String → Option (KpiTable Row))
  | upsert (definition : KpiDefinition N) (id : String)
  | remove (id : String)
  | compute (id now : String) (uuid : Nat → String)

/-- The state after an event. -/
def kpiEvent (s : KpiState N Q Row) : KpiEvent N Row → Option (KpiState N Q Row)
  | .write schemas tables => some { s with schemas, tables, last := none }
  | .upsert definition id =>
    match definition.validate with
    | .ok () => some { s with kpis := upsertKpi s.kpis definition id, last := none }
    | .error _ => some { s with last := none }
  | .remove id => some { s with
      kpis := s.kpis.filter (·.id ≠ id)
      values := s.values.filter (·.kpiId ≠ id)
      last := none }
  | .compute id now uuid =>
    (s.kpis.find? (·.id == id)).map fun kpi =>
      let (values, result) := K.compute s kpi now uuid
      { s with values, last := some (kpi, now, result) }

/-- The service, before any KPI is defined. -/
def kpiSystem : System (KpiState N Q Row) (KpiEvent N Row) where
  init s := s.kpis = [] ∧ s.values = [] ∧ s.last = none
  step := kpiEvent K

/-! ## What the values should be -/

/-- A filter lets a row through. -/
def KpiEngine.passes (f : KpiFilter N) (row : Row) : Bool :=
  match f.op with
  | "eq" => (K.sql.condition row f.column .eq f.value.orNull).isTrue
  | "neq" => (K.sql.condition row f.column .ne f.value.orNull).isTrue
  | "gt" => (K.sql.condition row f.column .gt f.value).isTrue
  | "gte" => (K.sql.condition row f.column .ge f.value).isTrue
  | "lt" => (K.sql.condition row f.column .lt f.value).isTrue
  | "lte" => (K.sql.condition row f.column .le f.value).isTrue
  | "in" => (K.sql.condition row f.column .in
      (match f.value with | .arr values => .arr values | _ => .arr [])).isTrue
  | _ => true

/-- The live rows that the filters let through. -/
def KpiEngine.live (table : KpiTable Row) (definition : KpiDefinition N) : List Row :=
  table.rows.filter fun row =>
    (!K.knows table "deleted_at" || K.sql.isNull row "deleted_at") &&
      (definition.filter.getD []).all (K.passes · row)

/-- The class of a row: its period and its group. -/
def KpiEngine.classOf (definition : KpiDefinition N) (row : Row) : ReportValue Q × ReportValue Q :=
  ((definition.periodExpr.map (K.value row)).getD .null,
    (definition.groupColumn.map (K.value row)).getD .null)

/-- The classes of a definition: without a period and a group, all rows are one class. -/
def KpiEngine.classes (table : KpiTable Row) (definition : KpiDefinition N) :
    List (ReportValue Q × ReportValue Q) :=
  if definition.groupCols.isEmpty then [(.null, .null)]
  else ((K.live table definition).map (K.classOf definition)).dedup

/-- The keys of a class, and the aggregate over exactly its rows. -/
def KpiEngine.classValue (table : KpiTable Row) (definition : KpiDefinition N) (now : String)
    (c : ReportValue Q × ReportValue Q) : String × String × Q :=
  (K.periodKeyOf definition now c.1, K.groupKeyOf c.2, K.numberOrZero
    (K.aggregate definition ((K.live table definition).filter (K.classOf definition · = c))))

/-- The values that are stored for a KPI. -/
def storedValues (values : List (KpiValueRow Q)) (id : String) : List (String × String × Q) :=
  (values.filter (·.kpiId == id)).map fun v => (v.periodKey, v.groupKey, v.value)

/-- A definition names a table, and columns and expressions of it. -/
structure KpiEngine.Fits (tableName : String) (table : KpiTable Row)
    (definition : KpiDefinition N) : Prop where
  name : isIdentifier tableName = true
  filters : ∀ f ∈ definition.filter.getD [],
    isIdentifier f.column = true ∧ K.knows table f.column = true
  groups : ∀ column ∈ definition.groupColumn, K.knows table column = true
  periods : ∀ e ∈ definition.periodExpr, K.knows table e = true
  field : definition.agg ≠ "count" →
    K.knows table (definition.field.getD "undefined") = true

/-- After a compute, the values of the KPI are those of its classes, each once, and no other. -/
def KpisExact (s : KpiState N Q Row) : Prop :=
  ∀ kpi now result tableName table, s.last = some (kpi, now, result) →
    s.schemas kpi.definition.collection = some tableName → s.tables tableName = some table →
    K.Fits tableName table kpi.definition → (∃ n, result = .ok n) ∧
    (storedValues s.values kpi.id).Perm
      ((K.classes table kpi.definition).map (K.classValue table kpi.definition now))

/-! ## Computes that are exact -/

/-- The value of a filter that the builder takes as such. -/
def KpiFilter.isComplete (f : KpiFilter N) : Bool :=
  match f.op, f.value with
  | "eq", v | "neq", v => v.orNull.isScalar
  | "in", .arr values => values.all JsVal.isScalar
  | "in", _ => true
  | _, v => v.isScalar

/-- A KPI that can be computed exactly: it has no period, each filter has a value, no column takes
the place of a key, no two groups have the same key, and no value is left of a class that is not
there any more. -/
structure KpiEngine.Clean (table : KpiTable Row) (kpi : KpiRow N)
    (values : List (KpiValueRow Q)) : Prop where
  period : kpi.definition.periodExpr = none
  filters : ∀ f ∈ kpi.definition.filter.getD [], f.isComplete = true
  periodColumn : "period_key" ∉ table.columns
  groupColumn : kpi.definition.groupColumn = none → "group_key" ∉ table.columns
  apart : ∀ row ∈ K.live table kpi.definition, ∀ row' ∈ K.live table kpi.definition,
    K.groupKeyOf (K.classOf kpi.definition row).2 =
      K.groupKeyOf (K.classOf kpi.definition row').2 →
    K.classOf kpi.definition row = K.classOf kpi.definition row'
  current : ∀ v ∈ values, v.kpiId = kpi.id → v.periodKey = "all" ∧
    ∃ c ∈ K.classes table kpi.definition, K.groupKeyOf c.2 = v.groupKey

/-- An event that is no compute, or computes a KPI that can be computed exactly. -/
def CleanEvent (s : KpiState N Q Row) : KpiEvent N Row → Prop
  | .compute id _ _ => ∀ kpi tableName table, s.kpis.find? (·.id == id) = some kpi →
      s.schemas kpi.definition.collection = some tableName → s.tables tableName = some table →
      K.Clean table kpi s.values
  | _ => True

end

end HeadlessErp
