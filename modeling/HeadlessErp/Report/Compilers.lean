import HeadlessErp.Query.Compilers
import HeadlessErp.Js.Map

/-!
# The conditions of a report

`groupedReport`, `pivotReport`, `reportV2` and `drilldown` of
`apps/api/src/services/report-engine.service.ts`, up to the statement they run: the filters, the
date range and the aggregate. Each of the first two has a `switch` over the operators of its own,
and the last two share a third one (`_pushFilter`), which writes raw text. The dimensions only group
the rows and are left out, as are the row filter of a role and the page of a drill-down.
-/

namespace HeadlessErp

section
variable {N : Type}

/-! ## Requests -/

/-- The values that an operator takes in a report. -/
def FilterOperator.takes : FilterOperator → JsVal N → Bool
  | .in, .arr vs | .nin, .arr vs => vs.all JsVal.isScalar
  | .between, .arr [low, high] => low.isScalar && high.isScalar
  | .in, _ | .nin, _ | .between, _ => false
  | .null, _ | .nnull, _ | .empty, _ | .nempty, _ => true
  | _, v => v.isScalar

/-- A `FilterClause` of a report. -/
structure ReportFilter (N : Type) where
  field : String
  operator : FilterOperator
  value : JsVal N
  takes : operator.takes value = true

/-- A `dateRange`. -/
structure DateRange where
  field : String
  dateFrom : String
  dateTo : String

/-- An aggregate of a report. The field is `none` for `*`, which SQLite takes only in `COUNT(*)`. -/
structure ReportAggregate where
  op : AggregateOp
  field : Option String
  asName : String
  counts_all : field = none → op = .count

/-- What the requests for a grouped report, a pivot and a report of the second version share. -/
structure ReportRequest (N : Type) where
  aggregate : ReportAggregate
  filters : List (ReportFilter N)
  dateRange : Option DateRange
  includeTrashed : Bool

/-- `SQL_AGG_MAP`. -/
def AggregateOp.sqlFn : AggregateOp → String
  | count => "COUNT"
  | countDistinct => "COUNT(DISTINCT"
  | sum => "SUM"
  | avg => "AVG"
  | min => "MIN"
  | max => "MAX"

variable [JsNumber N]

/-! ## The grouped report -/

/-- A filter of `groupedReport`. -/
def groupedFilter (q : QueryBuilder N) (f : ReportFilter N) : Except String (QueryBuilder N) := do
  let field ← sanitizeIdentifier f.field "ReportEngine.filter"
  match f.operator with
  | .null => q.where field (.str "IS NULL") (.str "")
  | .nnull => q.where field (.str "IS NOT NULL") (.str "")
  | .contains | .icontains => q.where field (.str "LIKE") (likePattern "%" f.value "%")
  | .ncontains => q.where field (.str "NOT LIKE") (likePattern "%" f.value "%")
  | .startswith => q.where field (.str "LIKE") (likePattern "" f.value "%")
  | .endswith => q.where field (.str "LIKE") (likePattern "%" f.value "")
  | .in => q.whereIn field f.value.items
  | .nin => q.whereNotIn field f.value.items
  | .between => do
    let q ← q.where field (.str ">=") (f.value.item 0)
    q.where field (.str "<=") (f.value.item 1)
  | .empty => q.where field (.str "=") (.str "")
  | .nempty => q.where field (.str "!=") (.str "")
  | op => q.where field (.str op.sql.text) f.value

/-- A bound of a date range, unless it is empty. -/
def QueryBuilder.whereBound (q : QueryBuilder N) (field : String) (op : WhereOp) (bound : String) :
    Except String (QueryBuilder N) :=
  if bound ≠ "" then q.where field (.str op.text) (.str bound) else .ok q

/-- `_applyDateRange`, and the same lines of `groupedReport`. -/
def applyDateRange (q : QueryBuilder N) (dateRange : Option DateRange) :
    Except String (QueryBuilder N) :=
  match dateRange with
  | none => .ok q
  | some d => do
    let dateField ← sanitizeIdentifier d.field "ReportEngine.dateField"
    let q ← q.whereBound dateField .ge d.dateFrom
    q.whereBound dateField .le d.dateTo

omit [JsNumber N] in
/-- The trash is left out, unless it is asked for. -/
def QueryBuilder.hideTrash (q : QueryBuilder N) (includeTrashed : Bool) (column : String) :
    Except String (QueryBuilder N) :=
  if includeTrashed then .ok q else q.whereNull column

/-- The column of an aggregate. -/
def aggregateField (a : ReportAggregate) : Except String String :=
  match a.field with
  | none => .ok "*"
  | some field => sanitizeIdentifier field "ReportEngine.aggregate"

/-- An aggregate of `groupedReport`. -/
def groupedAggregate (a : ReportAggregate) : Except String SqlText := do
  let field ← aggregateField a
  let asName ← sanitizeIdentifier a.asName "ReportEngine.alias"
  let close := if a.op = .countDistinct then "))" else ")"
  .ok [.text (a.op.sqlFn ++ "(" ++ field ++ close ++ " as " ++ asName)]

/-- The query of `groupedReport`. -/
def groupedReportQuery (table : String) (req : ReportRequest N) :
    Except String (QueryBuilder N) := do
  let tableName ← sanitizeIdentifier table "ReportEngine.table"
  let q ← QueryBuilder.from tableName
  let q := q.selectRawWith (← groupedAggregate req.aggregate) []
  let q ← q.hideTrash req.includeTrashed "deleted_at"
  let q ← req.filters.foldlM groupedFilter q
  applyDateRange q req.dateRange

/-! ## The pivot -/

/-- A filter of `_applyFilters`. -/
def pivotFilter (q : QueryBuilder N) (f : ReportFilter N) : Except String (QueryBuilder N) := do
  let field ← sanitizeIdentifier f.field "ReportEngine.filter"
  match f.operator with
  | .null => q.where field (.str "IS NULL") (.str "")
  | .nnull => q.where field (.str "IS NOT NULL") (.str "")
  | .contains | .icontains => q.where field (.str "LIKE") (likePattern "%" f.value "%")
  | .in => q.whereIn field f.value.items
  | .nin => q.whereNotIn field f.value.items
  | .between => do
    let q ← q.where field (.str ">=") (f.value.item 0)
    q.where field (.str "<=") (f.value.item 1)
  | .empty => q.where field (.str "=") (.str "")
  | .nempty => q.where field (.str "!=") (.str "")
  | op => q.where field (.str op.sql.text) f.value

/-- The aggregated query of `pivotReport`. The query for the column values has the same
conditions. -/
def pivotReportQuery (table : String) (req : ReportRequest N) : Except String (QueryBuilder N) := do
  let tableName ← sanitizeIdentifier table "ReportEngine.table"
  let aggField ← aggregateField req.aggregate
  let q ← QueryBuilder.from tableName
  let q ← q.hideTrash req.includeTrashed "deleted_at"
  let q ← req.filters.foldlM pivotFilter q
  let q ← applyDateRange q req.dateRange
  .ok (q.selectRawWith
    [.text (req.aggregate.op.sqlFn ++ "(" ++ aggField ++ ")" ++ " as " ++ "pivot_value")] [])

/-! ## The second version -/

/-- A `JoinSpec`. -/
structure JoinSpec where
  table : String
  asName : String
  fk : String

/-- What `_getSchema` returns, and the name of the table of a collection. -/
structure ReportSchema (N : Type) where
  tableName : String
  fields : List (FieldDefinition N)
  collectionTable : String → String

/-- The collection that a field of type `m2o` leads to. -/
def m2oTarget (f : FieldDefinition N) : Option String :=
  if f.type = .m2o then f.relatedCollection.filter (· ≠ "") else none

/-- `_resolveFieldPath`. -/
def resolveFieldPath (schema : ReportSchema N) (raw : String) :
    Except String (String × List JoinSpec) :=
  match splitDots raw with
  | [head, column] =>
    match (fieldByName schema.fields head).bind m2oTarget with
    | some related => do
      let safeHead ← sanitizeIdentifier head "ReportEngine.join"
      let relAlias := "rj_" ++ safeHead
      let column ← sanitizeIdentifier column "ReportEngine.field"
      .ok (quoteColumn relAlias ++ "." ++ quoteColumn column,
        [⟨schema.collectionTable related, relAlias, safeHead⟩])
    | none => .error ("Unknown relation field: " ++ head)
  | _ :: _ :: _ :: _ => .error ("Relation paths beyond one m2o hop are not supported: " ++ raw)
  | _ => do .ok (quoteColumn (← sanitizeIdentifier raw "ReportEngine.field"), [])

/-- A condition of `_pushFilter` that binds a value. -/
def QueryBuilder.pushTest (q : QueryBuilder N) (expr : String) (op : WhereOp) (value : JsVal N) :
    QueryBuilder N :=
  q.whereRaw [.text (expr ++ " " ++ op.text ++ " "), .mark none] [value]

/-- `_pushFilter`. -/
def pushFilter (q : QueryBuilder N) (expr : String) (f : ReportFilter N) : QueryBuilder N :=
  match f.operator with
  | .null => q.whereRaw [.text (expr ++ " " ++ "IS NULL")] []
  | .nnull => q.whereRaw [.text (expr ++ " " ++ "IS NOT NULL")] []
  | .contains | .icontains => q.pushTest expr .like (likePattern "%" f.value "%")
  | .ncontains => q.pushTest expr .notLike (likePattern "%" f.value "%")
  | .startswith => q.pushTest expr .like (likePattern "" f.value "%")
  | .endswith => q.pushTest expr .like (likePattern "%" f.value "")
  | .in => q.whereRaw (jsonEachText expr .in) [jsonList f.value.items]
  | .nin => q.whereRaw (jsonEachText expr .notIn) [jsonList f.value.items]
  | .between =>
    q.whereRaw [.text (expr ++ " >= "), .mark none, .text (" AND " ++ expr ++ " <= "), .mark none]
      [f.value.item 0, f.value.item 1]
  | .empty => q.whereRaw [.text (expr ++ " " ++ "=" ++ " ''")] []
  | .nempty => q.whereRaw [.text (expr ++ " " ++ "!=" ++ " ''")] []
  | op => q.pushTest expr op.sql f.value

/-- The joins that a query needs, by their aliases. -/
abbrev Joins := JsMap String JoinSpec

/-- `joins.set(j.alias, j)`, for each of a list. -/
def setJoins (joins : Joins) (specs : List JoinSpec) : Joins :=
  specs.foldl (fun joins j => joins.set j.asName j) joins

/-- `_applyFiltersV2`, for one filter. -/
def applyFilterV2 (schema : ReportSchema N) (s : QueryBuilder N × Joins) (f : ReportFilter N) :
    Except String (QueryBuilder N × Joins) := do
  let (expr, specs) ← resolveFieldPath schema f.field
  .ok (pushFilter s.1 expr f, setJoins s.2 specs)

/-- A bound of a date range, unless it is empty. -/
def QueryBuilder.pushBound (q : QueryBuilder N) (expr : String) (op : WhereOp) (bound : String) :
    QueryBuilder N := if bound ≠ "" then q.pushTest expr op (.str bound) else q

/-- `_applyDateRangeV2`. -/
def applyDateRangeV2 (schema : ReportSchema N) (s : QueryBuilder N × Joins)
    (dateRange : Option DateRange) : Except String (QueryBuilder N × Joins) :=
  match dateRange with
  | none => .ok s
  | some d => do
    let (expr, specs) ← resolveFieldPath schema d.field
    let q := (s.1.pushBound expr .ge d.dateFrom).pushBound expr .le d.dateTo
    .ok (q, setJoins s.2 specs)

/-- `applyJoins`: the joins that are not there yet. -/
def applyJoins (tableName : String) (s : QueryBuilder N × List String) (joins : Joins) :
    Except String (QueryBuilder N × List String) :=
  joins.entries.foldlM (fun s entry =>
    if s.2.contains entry.2.asName then .ok s
    else do
      let q ← s.1.join true entry.2.table (tableName ++ "." ++ entry.2.fk)
        (entry.2.asName ++ ".id") (some entry.2.asName)
      .ok (q, s.2 ++ [entry.2.asName])) s

/-- A measure of `reportV2`, with its joins. -/
def measureV2 (schema : ReportSchema N) (a : ReportAggregate) :
    Except String (SqlText × List JoinSpec) := do
  let asName ← sanitizeIdentifier a.asName "ReportEngine.alias"
  let (expr, joins) ← a.field.elim (.ok ("*", [])) (resolveFieldPath schema)
  let selectExpr := if a.op = .countDistinct then "COUNT(DISTINCT " ++ expr ++ ")"
    else a.op.sqlFn ++ "(" ++ expr ++ ")"
  .ok ([.text (selectExpr ++ " as " ++ quoteColumn asName)], joins)

/-- The query of `reportV2`. -/
def reportV2Query (schema : ReportSchema N) (req : ReportRequest N) :
    Except String (QueryBuilder N) := do
  let tableName ← sanitizeIdentifier schema.tableName "ReportEngine.table"
  let (measure, specs) ← measureV2 schema req.aggregate
  let joins := setJoins .empty specs
  let q ← QueryBuilder.from tableName
  let (q, joined) ← applyJoins tableName (q, []) joins
  let q ← q.hideTrash req.includeTrashed (tableName ++ "." ++ "deleted_at")
  let s ← req.filters.foldlM (applyFilterV2 schema) (q, joins)
  let (q, joins) ← applyDateRangeV2 schema s req.dateRange
  let (q, _) ← applyJoins tableName (q, joined) joins
  .ok (q.selectRawWith measure [])

/-- The query of `drilldown`, without its page. -/
def drilldownQuery (schema : ReportSchema N) (filters : List (ReportFilter N)) :
    Except String (QueryBuilder N) := do
  let tableName ← sanitizeIdentifier schema.tableName "ReportEngine.table"
  let q ← QueryBuilder.from tableName
  let (q, joins) ← filters.foldlM (applyFilterV2 schema) (q, .empty)
  let (q, _) ← applyJoins tableName (q, []) joins
  .ok q

end

end HeadlessErp
