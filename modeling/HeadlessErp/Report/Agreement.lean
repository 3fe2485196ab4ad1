import HeadlessErp.Js.Json
import HeadlessErp.Query.LikeFilters
import HeadlessErp.Query.StepTests
import HeadlessErp.Report.Compilers

/-!
# Whether reports aggregate the same rows

The query of each kind of report selects a table's rows by its conditions. They should be the rows
that satisfy the filters and the date range, for each kind and for the drill-down
(`ReportsAgree`). They are if and only if no row tells apart the two ways in which the kinds read
`_ncontains`, `_startswith` and `_endswith`, and none is in the trash (`reportsAgree_iff`). The
number of distinct values of a column is no aggregate of a pivot.
-/

namespace HeadlessErp

section
variable {N Row : Type} [JsNumber N] {E : SqlEngine N Row} {column : String} {op : WhereOp}
  {v : JsVal N}

/-! ## What a filter says -/

/-- The test of a filter. -/
def ReportFilter.test (f : ReportFilter N) : WhereOp × JsVal N :=
  match f.operator with
  | .contains | .icontains => (.like, likePattern "%" f.value "%")
  | .ncontains => (.notLike, likePattern "%" f.value "%")
  | .startswith => (.like, likePattern "" f.value "%")
  | .endswith => (.like, likePattern "%" f.value "")
  | .empty => (.eq, .str "")
  | .nempty => (.ne, .str "")
  | op => (op.sql, f.value)

/-- The test of a filter, where the values of `_ncontains`, `_startswith` and `_endswith` are
patterns for a whole text. -/
def ReportFilter.wholeTest (f : ReportFilter N) : WhereOp × JsVal N :=
  match f.operator with
  | .ncontains | .startswith | .endswith => (f.operator.sql, f.value)
  | _ => f.test

/-- A row satisfies a filter. -/
def ReportFilter.holds (E : SqlEngine N Row) (f : ReportFilter N) (r : Row) : Bool :=
  (E.condition r f.field f.test.1 f.test.2).isTrue

/-- A row satisfies a filter whose value is a pattern for a whole text. -/
def ReportFilter.holdsWhole (E : SqlEngine N Row) (f : ReportFilter N) (r : Row) : Bool :=
  (E.condition r f.field f.wholeTest.1 f.wholeTest.2).isTrue

/-- What the database reads in the conditions of `_pushFilter`, and in the column of a table. -/
structure SqlEngine.ReadsQuoted (E : SqlEngine N Row) (table : String) : Prop where
  comparison : ∀ r column op v, isIdentifier column = true → op.isComparison = true →
    v.isScalar = true →
    E.raw r ⟨[.text (quoteColumn column ++ " " ++ op.text ++ " "), .mark none], [v]⟩ =
      (E.condition r column op v, [])
  null : ∀ r column op, isIdentifier column = true → op = .isNull ∨ op = .isNotNull →
    E.raw r ⟨[.text (quoteColumn column ++ " " ++ op.text)], []⟩ =
      (E.condition r column op .null, [])
  membership : ∀ r column op vs, isIdentifier column = true → op = .in ∨ op = .notIn →
    vs.all JsVal.isScalar = true →
    E.raw r ⟨jsonEachText (quoteColumn column) op, [jsonList vs]⟩ =
      (E.condition r column op (.arr vs), [])
  range : ∀ r column low high, isIdentifier column = true → low.isScalar = true →
    high.isScalar = true →
    E.raw r ⟨[.text (quoteColumn column ++ " >= "), .mark none,
        .text (" AND " ++ quoteColumn column ++ " <= "), .mark none], [low, high]⟩ =
      (E.condition r column .ge low, [(.and, E.condition r column .le high)])
  emptyText : ∀ r column op, isIdentifier column = true → op = .eq ∨ op = .ne →
    E.raw r ⟨[.text (quoteColumn column ++ " " ++ op.text ++ " ''")], []⟩ =
      (E.condition r column op (.str ""), [])
  qualified : ∀ r column, E.isNull r (table ++ "." ++ column) = E.isNull r column

/-! ## The filters of the builder -/

omit [JsNumber N] in
/-- The pair of a range. -/
theorem exists_pair_of_takes (h : FilterOperator.between.takes v = true) :
    ∃ low high, v = .arr [low, high] ∧ low.isScalar = true ∧ high.isScalar = true := by
  cases v with
  | arr vs =>
    rcases vs with _ | ⟨low, _ | ⟨high, _ | ⟨_, _⟩⟩⟩
    · cases h
    · cases h
    · obtain ⟨hlow, hhigh⟩ := Bool.and_eq_true_iff.1 h
      exact ⟨low, high, rfl, hlow, hhigh⟩
    · cases h
  | _ => cases h

omit [JsNumber N] in
/-- The list of a membership test. -/
theorem exists_list_of_takes {o : FilterOperator} (ho : o = .in ∨ o = .nin)
    (h : o.takes v = true) : ∃ vs, v = .arr vs ∧ vs.all JsVal.isScalar = true := by
  obtain rfl | rfl := ho <;> cases v <;> first | exact ⟨_, rfl, h⟩ | cases h

/-- A filter of the grouped report. -/
theorem stepTests_groupedFilter (hE : E.Lawful) {f : ReportFilter N}
    (hfield : isIdentifier f.field = true) :
    E.StepTests (fun q => groupedFilter q f) (f.holds E) := by
  obtain ⟨field, o, v, htakes⟩ := f
  have hcolumn : isIdentifier field = true := hfield
  have hfield' : sanitizeIdentifier field "ReportEngine.filter" = .ok field :=
    sanitizeIdentifier_of_isIdentifier hcolumn _
  have htext (op : WhereOp) (hop : op.isComparison = true) (s : String) :=
    stepTests_where (v := .str s) op hE hcolumn (suits_of_isComparison hop rfl)
      (JsVal.str_ne_undefined s)
  have hvalue (op : WhereOp) (hop : op.isComparison = true) (hv : v.isScalar = true) :=
    stepTests_where op hE hcolumn (suits_of_isComparison hop hv)
      (ne_undefined_of_isScalar hv)
  unfold groupedFilter
  simp only [hfield']
  cases o with
  | null => exact stepTests_where .isNull hE hcolumn rfl (JsVal.str_ne_undefined "")
  | nnull => exact stepTests_where .isNotNull hE hcolumn rfl (JsVal.str_ne_undefined "")
  | contains | icontains | startswith | endswith => exact htext .like rfl _
  | ncontains => exact htext .notLike rfl _
  | empty => exact htext .eq rfl ""
  | nempty => exact htext .ne rfl ""
  | «in» =>
    obtain ⟨vs, rfl, hvs⟩ := exists_list_of_takes (.inl rfl) htakes
    exact ⟨_, tests_membershipClause hE hcolumn (.inl rfl) hvs, fun q => whereIn_eq hcolumn q vs⟩
  | nin =>
    obtain ⟨vs, rfl, hvs⟩ := exists_list_of_takes (.inr rfl) htakes
    exact ⟨_, tests_membershipClause hE hcolumn (.inr rfl) hvs,
      fun q => whereNotIn_eq hcolumn q vs⟩
  | between =>
    obtain ⟨low, high, rfl, hlow, hhigh⟩ := exists_pair_of_takes htakes
    have hrange := (stepTests_where .ge hE hcolumn (suits_of_isComparison rfl hlow)
      (ne_undefined_of_isScalar hlow)).seq (stepTests_where .le hE hcolumn
        (suits_of_isComparison rfl hhigh) (ne_undefined_of_isScalar hhigh))
    have hholds : ReportFilter.holds E ⟨field, .between, .arr [low, high], htakes⟩ = fun r =>
        (E.condition r field .ge low).isTrue && (E.condition r field .le high).isTrue := by
      funext r
      exact Tri.isTrue_and _ _
    rw [hholds]
    exact hrange
  | eq => exact hvalue .eq rfl htakes
  | neq => exact hvalue .ne rfl htakes
  | gt => exact hvalue .gt rfl htakes
  | gte => exact hvalue .ge rfl htakes
  | lt => exact hvalue .lt rfl htakes
  | lte => exact hvalue .le rfl htakes

/-- A filter of the pivot. -/
theorem stepTests_pivotFilter (hE : E.Lawful) {f : ReportFilter N}
    (hfield : isIdentifier f.field = true) :
    E.StepTests (fun q => pivotFilter q f) (f.holdsWhole E) := by
  have hgrouped := stepTests_groupedFilter hE hfield
  obtain ⟨field, o, v, htakes⟩ := f
  have hcolumn : isIdentifier field = true := hfield
  have hfield' : sanitizeIdentifier field "ReportEngine.filter" = .ok field :=
    sanitizeIdentifier_of_isIdentifier hcolumn _
  have hvalue (op : WhereOp) (hop : op.isComparison = true) (hv : v.isScalar = true) :=
    stepTests_where op hE hcolumn (suits_of_isComparison hop hv)
      (ne_undefined_of_isScalar hv)
  cases o with
  | ncontains =>
    unfold pivotFilter
    simp only [hfield']
    exact hvalue .notLike rfl htakes
  | startswith | endswith =>
    unfold pivotFilter
    simp only [hfield']
    exact hvalue .like rfl htakes
  | _ => exact hgrouped

/-! ## The raw conditions -/

variable {table : String}

omit [JsNumber N] in
/-- A raw condition. -/
theorem tests_raw {sql : SqlText} {bindings : List (JsVal N)} {truth : Row → Tri}
    (hbind : bindings.all E.bindable = true)
    (hraw : ∀ r, E.raw r ⟨sql, bindings⟩ = (truth r, [])) :
    E.Tests [.raw ⟨sql, bindings⟩ .and] fun r => (truth r).isTrue := by
  refine SqlEngine.Tests.one ?_ fun r => ?_
  · show (if bindings.all E.bindable then pure () else throw "D1_TYPE_ERROR") = _
    rw [if_pos hbind]
    rfl
  · rw [SqlEngine.clauseChain, hraw]

/-- A comparison of `_pushFilter`. -/
theorem stepTests_pushTest (op : WhereOp) (hE : E.Lawful) (hQ : E.ReadsQuoted table)
    (hcolumn : isIdentifier column = true) (hop : op.isComparison = true)
    (hv : v.isScalar = true) :
    E.StepTests (fun q => .ok (q.pushTest (quoteColumn column) op v))
      fun r => (E.condition r column op v).isTrue := by
  refine .push (tests_raw ?_ fun r => hQ.comparison r column op v hcolumn hop hv)
  rw [List.all_cons, List.all_nil, hE.bindable_scalar v hv]
  rfl

/-- A filter of the second version. -/
theorem stepTests_pushFilter (hE : E.Lawful) (hQ : E.ReadsQuoted table) {f : ReportFilter N}
    (hfield : isIdentifier f.field = true) :
    E.StepTests (fun q => .ok (pushFilter q (quoteColumn f.field) f)) (f.holds E) := by
  obtain ⟨field, o, v, htakes⟩ := f
  have hcolumn : isIdentifier field = true := hfield
  have hone : ([jsonList v.items] : List (JsVal N)).all E.bindable = true := by
    rw [List.all_cons, List.all_nil, hE.bindable_scalar (jsonList v.items) rfl]
    rfl
  cases o with
  | null => exact .push (tests_raw rfl fun r => hQ.null r field .isNull hcolumn (.inl rfl))
  | nnull => exact .push (tests_raw rfl fun r => hQ.null r field .isNotNull hcolumn (.inr rfl))
  | contains | icontains | startswith | endswith =>
    exact stepTests_pushTest .like hE hQ hcolumn rfl rfl
  | ncontains => exact stepTests_pushTest .notLike hE hQ hcolumn rfl rfl
  | empty => exact .push (tests_raw rfl fun r => hQ.emptyText r field .eq hcolumn (.inl rfl))
  | nempty => exact .push (tests_raw rfl fun r => hQ.emptyText r field .ne hcolumn (.inr rfl))
  | «in» =>
    obtain ⟨vs, rfl, hvs⟩ := exists_list_of_takes (.inl rfl) htakes
    exact .push (tests_raw hone fun r => hQ.membership r field .in vs hcolumn (.inl rfl) hvs)
  | nin =>
    obtain ⟨vs, rfl, hvs⟩ := exists_list_of_takes (.inr rfl) htakes
    exact .push (tests_raw hone fun r => hQ.membership r field .notIn vs hcolumn (.inr rfl) hvs)
  | between =>
    obtain ⟨low, high, rfl, hlow, hhigh⟩ := exists_pair_of_takes htakes
    refine .push ⟨?_, fun r => ?_⟩
    · show (do
        E.checkClause (.raw ⟨_, [low, high]⟩ .and)
        E.check []) = _
      show (do
        (if [low, high].all E.bindable then pure () else throw "D1_TYPE_ERROR" : Except String Unit)
        E.check []) = _
      rw [List.all_cons, List.all_cons, List.all_nil, hE.bindable_scalar low hlow,
        hE.bindable_scalar high hhigh]
      rfl
    · refine ⟨[E.condition r field .ge low, E.condition r field .le high], ?_, ?_⟩
      · rw [List.flatMap_singleton, SqlEngine.clauseChain]
        exact congrArg (fun pair => (Joiner.and, pair.1) :: pair.2)
          (hQ.range r field low high hcolumn hlow hhigh)
      · show ((E.condition r field .ge low).isTrue && ((E.condition r field .le high).isTrue &&
          true)) = ((E.condition r field .ge low).and (E.condition r field .le high)).isTrue
        rw [Bool.and_true, Tri.isTrue_and]
  | eq => exact stepTests_pushTest .eq hE hQ hcolumn rfl htakes
  | neq => exact stepTests_pushTest .ne hE hQ hcolumn rfl htakes
  | gt => exact stepTests_pushTest .gt hE hQ hcolumn rfl htakes
  | gte => exact stepTests_pushTest .ge hE hQ hcolumn rfl htakes
  | lt => exact stepTests_pushTest .lt hE hQ hcolumn rfl htakes
  | lte => exact stepTests_pushTest .le hE hQ hcolumn rfl htakes

end

/-! ## What the reports should aggregate -/

section
variable {N Row : Type} [JsNumber N]

/-- The filters that say what a date range does. -/
def DateRange.filters (d : DateRange) : List (ReportFilter N) :=
  (if d.dateFrom ≠ "" then [⟨d.field, .gte, .str d.dateFrom, rfl⟩] else []) ++
    if d.dateTo ≠ "" then [⟨d.field, .lte, .str d.dateTo, rfl⟩] else []

/-- The filters of the date range of a request. -/
def ReportRequest.rangeFilters (req : ReportRequest N) : List (ReportFilter N) :=
  req.dateRange.elim [] DateRange.filters

/-- A row is not in the trash, or may be. -/
def ReportRequest.visible (E : SqlEngine N Row) (req : ReportRequest N) (r : Row) : Bool :=
  req.includeTrashed || E.isNull r "deleted_at"

/-- A row of a report: it satisfies the filters and is in the date range. -/
def ReportRequest.keeps (E : SqlEngine N Row) (req : ReportRequest N) (r : Row) : Bool :=
  req.visible E r && (req.filters ++ req.rangeFilters).all (·.holds E r)

/-- A column that an aggregate is taken of. -/
def IsOperand (e : String) : Prop :=
  ∃ column, isIdentifier column = true ∧ (e = column ∨ e = quoteColumn column)

/-- An aggregate, as SQLite reads one. -/
inductive IsAggregate : String → Prop where
  | rows : IsAggregate "COUNT(*)"
  | values {fn e : String} : fn ∈ ["COUNT", "SUM", "AVG", "MIN", "MAX"] → IsOperand e →
    IsAggregate (fn ++ "(" ++ e ++ ")")
  | distinct {fn e : String} : fn ∈ ["COUNT", "SUM", "AVG", "MIN", "MAX"] → IsOperand e →
    IsAggregate (fn ++ "(DISTINCT " ++ e ++ ")")
  | parenthesized {fn e : String} : fn ∈ ["COUNT", "SUM", "AVG", "MIN", "MAX"] → IsOperand e →
    IsAggregate (fn ++ "(DISTINCT" ++ "(" ++ e ++ "))")

/-- An aggregate with its name. -/
def IsAggregateColumn (t : SqlText) : Prop :=
  ∃ e name, IsAggregate e ∧ IsOperand name ∧ t = [.text (e ++ " as " ++ name)]

/-- The kinds of report aggregate the rows that satisfy a request, a drill-down lists them, and the
aggregate of each kind can be read. -/
structure ReportsAgree (E : SqlEngine N Row) (schema : ReportSchema N) (req : ReportRequest N)
    (rows : List Row) : Prop where
  grouped : (groupedReportQuery schema.tableName req >>= (E.select · rows)) =
    .ok (rows.filter (req.keeps E))
  pivot : (pivotReportQuery schema.tableName req >>= (E.select · rows)) =
    .ok (rows.filter (req.keeps E))
  generalized : (reportV2Query schema req >>= (E.select · rows)) = .ok (rows.filter (req.keeps E))
  drilldown : (drilldownQuery schema (req.filters ++ req.rangeFilters) >>= (E.select · rows)) =
    .ok (rows.filter (req.keeps E))
  aggregates : ∀ q, groupedReportQuery schema.tableName req = .ok q ∨
    pivotReportQuery schema.tableName req = .ok q ∨ reportV2Query schema req = .ok q →
    ∀ t ∈ q.rawSelects, IsAggregateColumn t

/-- The names of a request are those of columns of its own table. -/
structure ReportNames (schema : ReportSchema N) (req : ReportRequest N) : Prop where
  table : isIdentifier schema.tableName = true
  fields : ∀ f ∈ req.filters, isIdentifier f.field = true
  dateField : ∀ d, req.dateRange = some d → isIdentifier d.field = true
  asName : isIdentifier req.aggregate.asName = true
  column : ∀ field, req.aggregate.field = some field → isIdentifier field = true

/-- The names are those of columns, the aggregate is not the number of distinct values, the values
of `_ncontains`, `_startswith` and `_endswith` tell the same rows apart as patterns for a whole
text, and no row that satisfies the filters is in the trash. -/
structure ReportsAlike (E : SqlEngine N Row) (schema : ReportSchema N) (req : ReportRequest N)
    (rows : List Row) : Prop extends ReportNames schema req where
  aggregate : req.aggregate.op ≠ .countDistinct
  patterns : ∀ r ∈ rows, req.visible E r = true →
    req.rangeFilters.all (·.holds E r) = true →
    req.filters.all (·.holdsWhole E r) = req.filters.all (·.holds E r)
  trash : ∀ r ∈ rows, (req.filters ++ req.rangeFilters).all (·.holds E r) = true →
    req.visible E r = true

/-! ## The queries -/

variable {E : SqlEngine N Row} {schema : ReportSchema N} {req : ReportRequest N} {table : String}

/-- The trash is left out. -/
theorem stepTests_hideTrash (req : ReportRequest N) (hE : E.Lawful) {column : String}
    (hname : isColumnName column = true) (hcolumn : isWhereColumn column = true)
    (hnull : ∀ r, E.isNull r column = E.isNull r "deleted_at") :
    E.StepTests (fun q => q.hideTrash req.includeTrashed column) (req.visible E) := by
  have htest := stepTests_whereNull hE hname hcolumn
  simp only [hnull] at htest
  unfold ReportRequest.visible QueryBuilder.hideTrash
  cases req.includeTrashed with
  | true => exact .skip
  | false => exact htest

omit [JsNumber N] in
/-- A step for a bound that may be empty. -/
theorem stepTests_bound (bound : String) {step : QueryStep N} {p : Row → Bool}
    (h : E.StepTests step p) :
    E.StepTests (fun q => if bound ≠ "" then step q else .ok q)
      fun r => !decide (bound ≠ "") || p r := by
  by_cases hbound : bound ≠ ""
  · have htrue : decide (bound ≠ "") = true := decide_eq_true hbound
    simp only [if_pos hbound, htrue, Bool.not_true, Bool.false_or]
    exact h
  · have hfalse : decide (bound ≠ "") = false := decide_eq_false hbound
    simp only [if_neg hbound, hfalse, Bool.not_false, Bool.true_or]
    exact .skip

/-- What a date range says of a row. -/
theorem all_filters (d : DateRange) (r : Row) :
    (d.filters.all (·.holds E r) : Bool) =
      ((!decide (d.dateFrom ≠ "") || (E.condition r d.field .ge (.str d.dateFrom)).isTrue) &&
        (!decide (d.dateTo ≠ "") || (E.condition r d.field .le (.str d.dateTo)).isTrue)) := by
  have hone : ∀ (c : Prop) [Decidable c] (f : ReportFilter N),
      (if c then [f] else []).all (·.holds E r) = (!decide c || f.holds E r) := by
    intro c _ f
    by_cases hc : c
    · simp [hc]
    · simp [hc]
  unfold DateRange.filters
  rw [List.all_append, hone, hone]
  rfl

/-- The date range of the first version. -/
theorem stepTests_applyDateRange (hE : E.Lawful)
    (hfield : ∀ d, req.dateRange = some d → isIdentifier d.field = true) :
    E.StepTests (fun q => applyDateRange q req.dateRange)
      fun r => req.rangeFilters.all (·.holds E r) := by
  unfold ReportRequest.rangeFilters
  cases hrange : req.dateRange with
  | none => exact .skip
  | some d =>
    have hcolumn := hfield d hrange
    have hbound := fun (op : WhereOp) (hop : op.isComparison = true) (bound : String) =>
      stepTests_bound bound (stepTests_where op hE hcolumn
        (suits_of_isComparison hop rfl) (JsVal.str_ne_undefined bound))
    have hbounds := (hbound .ge rfl d.dateFrom).seq (hbound .le rfl d.dateTo)
    have hall : (fun r => ((some d).elim [] DateRange.filters).all (·.holds E r)) = fun r =>
        (!decide (d.dateFrom ≠ "") || (E.condition r d.field .ge (.str d.dateFrom)).isTrue) &&
          (!decide (d.dateTo ≠ "") || (E.condition r d.field .le (.str d.dateTo)).isTrue) := by
      funext r
      exact all_filters d r
    rw [hall]
    simp only [applyDateRange, sanitizeIdentifier_of_isIdentifier hcolumn]
    exact hbounds

omit [JsNumber N] in
/-- A field path of one segment is a column, without a join. -/
theorem resolveFieldPath_of_isIdentifier {raw : String} (h : isIdentifier raw = true) :
    resolveFieldPath schema raw = .ok (quoteColumn raw, []) := by
  unfold resolveFieldPath
  rw [splitDots_of_isIdentifier h, sanitizeIdentifier_of_isIdentifier h]
  rfl

/-- A step of the second version, which adds no join. -/
def StepV2 (E : SqlEngine N Row)
    (step : QueryBuilder N × Joins → Except String (QueryBuilder N × Joins)) (p : Row → Bool) :
    Prop :=
  ∃ ws, E.Tests ws p ∧ ∀ q joins,
    step (q, joins) = .ok ({ q with wheres := q.wheres ++ ws }, joins)

/-- A filter of the second version adds no join. -/
theorem stepV2_applyFilterV2 (schema : ReportSchema N) (hE : E.Lawful)
    (hQ : E.ReadsQuoted table) {f : ReportFilter N} (hfield : isIdentifier f.field = true) :
    StepV2 E (fun s => applyFilterV2 schema s f) (f.holds E) := by
  obtain ⟨ws, hws, hstep⟩ := stepTests_pushFilter hE hQ hfield
  refine ⟨ws, hws, fun q joins => ?_⟩
  have hpush : pushFilter q (quoteColumn f.field) f = { q with wheres := q.wheres ++ ws } :=
    Except.ok.inj (hstep q)
  unfold applyFilterV2
  rw [resolveFieldPath_of_isIdentifier hfield]
  show Except.ok (pushFilter q (quoteColumn f.field) f, joins) = _
  rw [hpush]

/-- The filters of the second version add no join. -/
theorem stepV2_filters (schema : ReportSchema N) (hE : E.Lawful) (hQ : E.ReadsQuoted table)
    {filters : List (ReportFilter N)} (hfields : ∀ f ∈ filters, isIdentifier f.field = true) :
    StepV2 E (fun s => filters.foldlM (applyFilterV2 schema) s)
      fun r => filters.all (·.holds E r) := by
  induction filters with
  | nil => exact ⟨[], .nil, fun q joins => by rw [List.append_nil]; rfl⟩
  | cons f filters ih =>
    obtain ⟨hf, hrest⟩ := List.forall_mem_cons.1 hfields
    obtain ⟨ws, hws, hstep⟩ := stepV2_applyFilterV2 schema hE hQ hf
    obtain ⟨vs, hvs, hloop⟩ := ih hrest
    refine ⟨ws ++ vs, hws.append hvs, fun q joins => ?_⟩
    have hfirst : applyFilterV2 schema (q, joins) f =
        .ok ({ q with wheres := q.wheres ++ ws }, joins) := hstep q joins
    have hothers := hloop { q with wheres := q.wheres ++ ws } joins
    rw [List.append_assoc] at hothers
    show applyFilterV2 schema (q, joins) f >>= _ = _
    rw [hfirst]
    exact hothers

/-- The date range of the second version. -/
theorem stepV2_applyDateRangeV2 (schema : ReportSchema N) (hE : E.Lawful) (hQ : E.ReadsQuoted table)
    (hfield : ∀ d, req.dateRange = some d → isIdentifier d.field = true) :
    StepV2 E (fun s => applyDateRangeV2 schema s req.dateRange)
      fun r => req.rangeFilters.all (·.holds E r) := by
  unfold ReportRequest.rangeFilters
  cases hrange : req.dateRange with
  | none => exact ⟨[], .nil, fun q joins => by rw [List.append_nil]; rfl⟩
  | some d =>
    have hcolumn := hfield d hrange
    have hbound := fun (op : WhereOp) (hop : op.isComparison = true) (bound : String) =>
      stepTests_bound bound (stepTests_pushTest (v := .str bound) op hE hQ hcolumn hop rfl)
    obtain ⟨ws, hws, hstep⟩ := (hbound .ge rfl d.dateFrom).seq (hbound .le rfl d.dateTo)
    have hall : (fun r => ((some d).elim [] DateRange.filters).all (·.holds E r)) = fun r =>
        (!decide (d.dateFrom ≠ "") || (E.condition r d.field .ge (.str d.dateFrom)).isTrue) &&
          (!decide (d.dateTo ≠ "") || (E.condition r d.field .le (.str d.dateTo)).isTrue) := by
      funext r
      exact all_filters d r
    rw [hall]
    refine ⟨ws, hws, fun q joins => ?_⟩
    have hpush : (q.pushBound (quoteColumn d.field) .ge d.dateFrom).pushBound
        (quoteColumn d.field) .le d.dateTo = { q with wheres := q.wheres ++ ws } := by
      refine Except.ok.inj ((?_ : _ = _).trans (hstep q))
      unfold QueryBuilder.pushBound
      by_cases hfrom : d.dateFrom ≠ ""
      · by_cases hto : d.dateTo ≠ ""
        · simp only [if_pos hfrom, if_pos hto]
          rfl
        · simp only [if_pos hfrom, if_neg hto]
          rfl
      · by_cases hto : d.dateTo ≠ ""
        · simp only [if_neg hfrom, if_pos hto]
          rfl
        · simp only [if_neg hfrom, if_neg hto]
          rfl
    show (resolveFieldPath schema d.field >>= _) = _
    rw [resolveFieldPath_of_isIdentifier hcolumn]
    show Except.ok ((q.pushBound (quoteColumn d.field) .ge d.dateFrom).pushBound
        (quoteColumn d.field) .le d.dateTo, joins) = _
    rw [hpush]

omit [JsNumber N] in
/-- The column of an aggregate, or the star. -/
theorem aggregateField_eq (h : ReportNames schema req) :
    aggregateField req.aggregate = .ok (req.aggregate.field.getD "*") := by
  unfold aggregateField
  cases hfield : req.aggregate.field with
  | none => rfl
  | some field => exact sanitizeIdentifier_of_isIdentifier (h.column field hfield) _

/-- The expression of the aggregate of a grouped report. -/
def groupedExpression (a : ReportAggregate) : String :=
  a.op.sqlFn ++ "(" ++ a.field.getD "*" ++ if a.op = .countDistinct then "))" else ")"

/-- The expression of the measure of the second version. -/
def measureExpression (a : ReportAggregate) : String :=
  let expr := a.field.elim "*" quoteColumn
  if a.op = .countDistinct then "COUNT(DISTINCT " ++ expr ++ ")"
  else a.op.sqlFn ++ "(" ++ expr ++ ")"

/-- The query of a grouped report: its conditions, and its aggregate. -/
theorem groupedReportQuery_eq (hE : E.Lawful) (h : ReportNames schema req) :
    ∃ ws, E.Tests ws (req.keeps E) ∧ groupedReportQuery schema.tableName req =
      .ok { table := schema.tableName, wheres := ws, rawSelects :=
        [[.text (groupedExpression req.aggregate ++ " as " ++ req.aggregate.asName)]] } := by
  have hdeleted : isIdentifier "deleted_at" = true := by decide
  obtain ⟨ws, hws, hstep⟩ := (stepTests_hideTrash req hE
    (isColumnName_of_isIdentifier hdeleted) (isWhereColumn_of_isIdentifier hdeleted)
    fun _ => rfl).seq ((SqlEngine.StepTests.foldlM fun f hf =>
      stepTests_groupedFilter hE (h.fields f hf)).seq (stepTests_applyDateRange hE h.dateField))
  refine ⟨ws, ?_, ?_⟩
  · have hkeeps : req.keeps E = fun r => req.visible E r &&
        (req.filters.all (·.holds E r) && req.rangeFilters.all (·.holds E r)) := by
      funext r
      unfold ReportRequest.keeps
      rw [List.all_append]
    rw [hkeeps]
    exact hws
  · have haggregate : groupedAggregate req.aggregate =
        .ok [.text (groupedExpression req.aggregate ++ " as " ++ req.aggregate.asName)] := by
      unfold groupedAggregate
      rw [aggregateField_eq h, sanitizeIdentifier_of_isIdentifier h.asName]
      rfl
    have hrun := hstep { table := schema.tableName, rawSelects :=
      [[.text (groupedExpression req.aggregate ++ " as " ++ req.aggregate.asName)]] }
    rw [List.nil_append] at hrun
    unfold groupedReportQuery
    rw [sanitizeIdentifier_of_isIdentifier h.table]
    show (QueryBuilder.from schema.tableName >>= _) = _
    rw [from_eq h.table]
    show (groupedAggregate req.aggregate >>= _) = _
    rw [haggregate]
    exact hrun

/-- What the conditions of a pivot say of a row. -/
def ReportRequest.keepsWhole (E : SqlEngine N Row) (req : ReportRequest N) (r : Row) : Bool :=
  req.visible E r && (req.filters.all (·.holdsWhole E r) && req.rangeFilters.all (·.holds E r))

/-- The query of a pivot. -/
theorem pivotReportQuery_eq (hE : E.Lawful) (h : ReportNames schema req) :
    ∃ ws, E.Tests ws (req.keepsWhole E) ∧ pivotReportQuery schema.tableName req =
      .ok { table := schema.tableName, wheres := ws, rawSelects :=
        [[.text (req.aggregate.op.sqlFn ++ "(" ++ req.aggregate.field.getD "*" ++ ")" ++ " as " ++
          "pivot_value")]] } := by
  have hdeleted : isIdentifier "deleted_at" = true := by decide
  obtain ⟨ws, hws, hstep⟩ := (stepTests_hideTrash req hE
    (isColumnName_of_isIdentifier hdeleted) (isWhereColumn_of_isIdentifier hdeleted)
    fun _ => rfl).seq ((SqlEngine.StepTests.foldlM fun f hf =>
      stepTests_pivotFilter hE (h.fields f hf)).seq (stepTests_applyDateRange hE h.dateField))
  refine ⟨ws, hws, ?_⟩
  have hrun := congrArg (· >>= fun q => .ok (q.selectRawWith
    [.text (req.aggregate.op.sqlFn ++ "(" ++ req.aggregate.field.getD "*" ++ ")" ++ " as " ++
      "pivot_value")] [])) (hstep { table := schema.tableName })
  simp only [bind_assoc, List.nil_append] at hrun
  unfold pivotReportQuery
  rw [sanitizeIdentifier_of_isIdentifier h.table, aggregateField_eq h]
  show (QueryBuilder.from schema.tableName >>= _) = _
  rw [from_eq h.table]
  exact hrun

omit [JsNumber N] in
/-- The measure of the second version, which needs no join. -/
theorem measureV2_eq (h : ReportNames schema req) :
    measureV2 schema req.aggregate = .ok ([.text (measureExpression req.aggregate ++ " as " ++
      quoteColumn req.aggregate.asName)], []) := by
  have hexpr : req.aggregate.field.elim (.ok ("*", [])) (resolveFieldPath schema) =
      .ok (req.aggregate.field.elim "*" quoteColumn, []) := by
    cases hfield : req.aggregate.field with
    | none => rfl
    | some field => exact resolveFieldPath_of_isIdentifier (h.column field hfield)
  unfold measureV2
  rw [sanitizeIdentifier_of_isIdentifier h.asName, hexpr]
  rfl

/-- The query of the second version. -/
theorem reportV2Query_eq (hE : E.Lawful) (hQ : E.ReadsQuoted schema.tableName)
    (h : ReportNames schema req) :
    ∃ ws, E.Tests ws (req.keeps E) ∧ reportV2Query schema req =
      .ok { table := schema.tableName, wheres := ws, rawSelects :=
        [[.text (measureExpression req.aggregate ++ " as " ++
          quoteColumn req.aggregate.asName)]] } := by
  have hdeleted : isIdentifier "deleted_at" = true := by decide
  obtain ⟨ws, hws, hhide⟩ := stepTests_hideTrash req hE
    (isColumnName_qualified h.table hdeleted) (isWhereColumn_qualified h.table hdeleted)
    fun r => hQ.qualified r "deleted_at"
  obtain ⟨vs, hvs, hfilters⟩ := stepV2_filters schema hE hQ h.fields
  obtain ⟨us, hus, hrange⟩ := stepV2_applyDateRangeV2 schema hE hQ h.dateField
  beta_reduce at hhide hfilters hrange
  refine ⟨ws ++ (vs ++ us), ?_, ?_⟩
  · have hkeeps : req.keeps E = fun r => req.visible E r &&
        (req.filters.all (·.holds E r) && req.rangeFilters.all (·.holds E r)) := by
      funext r
      unfold ReportRequest.keeps
      rw [List.all_append]
    rw [hkeeps]
    exact hws.append (hvs.append hus)
  · unfold reportV2Query
    rw [sanitizeIdentifier_of_isIdentifier h.table]
    show (measureV2 schema req.aggregate >>= _) = _
    rw [measureV2_eq h]
    show (QueryBuilder.from schema.tableName >>= _) = _
    rw [from_eq h.table]
    show (QueryBuilder.hideTrash _ req.includeTrashed (schema.tableName ++ "." ++ "deleted_at") >>=
      _) = _
    rw [hhide]
    show (req.filters.foldlM (applyFilterV2 schema) (_, .empty) >>= _) = _
    rw [hfilters]
    show (applyDateRangeV2 schema (_, .empty) req.dateRange >>= _) = _
    rw [hrange]
    show Except.ok _ = Except.ok _
    simp only [QueryBuilder.selectRawWith, List.nil_append, List.append_assoc]
    rfl

/-- The query of a drill-down. -/
theorem drilldownQuery_eq (hE : E.Lawful) (hQ : E.ReadsQuoted schema.tableName)
    (h : ReportNames schema req) :
    ∃ ws, E.Tests ws (fun r => (req.filters ++ req.rangeFilters).all (·.holds E r)) ∧
      drilldownQuery schema (req.filters ++ req.rangeFilters) =
        .ok { table := schema.tableName, wheres := ws } := by
  have hfields : ∀ f ∈ req.filters ++ req.rangeFilters, isIdentifier f.field = true := by
    intro f hf
    rcases List.mem_append.1 hf with hf | hf
    · exact h.fields f hf
    · unfold ReportRequest.rangeFilters at hf
      cases hrange : req.dateRange with
      | none =>
        rw [hrange] at hf
        cases hf
      | some d =>
        rw [hrange] at hf
        have hd := h.dateField d hrange
        have hmem : ∀ {c : Prop} [Decidable c] {g : ReportFilter N},
            f ∈ (if c then [g] else []) → f = g := by
          intro c _ g hg
          split at hg
          · exact List.mem_singleton.1 hg
          · cases hg
        rcases List.mem_append.1 hf with hf | hf
        · rw [hmem hf]
          exact hd
        · rw [hmem hf]
          exact hd
  obtain ⟨vs, hvs, hfilters⟩ := stepV2_filters schema hE hQ hfields
  beta_reduce at hfilters
  refine ⟨vs, hvs, ?_⟩
  unfold drilldownQuery
  rw [sanitizeIdentifier_of_isIdentifier h.table]
  show (QueryBuilder.from schema.tableName >>= _) = _
  rw [from_eq h.table]
  show ((req.filters ++ req.rangeFilters).foldlM (applyFilterV2 schema) (_, .empty) >>= _) = _
  rw [hfilters]
  rfl

/-! ## Aggregates -/

omit [JsNumber N] in
theorem count_of_isOperand {e : String} (h : IsOperand e) :
    e.toList.count '(' = 0 ∧ e.toList.count ')' = 0 := by
  obtain ⟨column, hcolumn, he⟩ := h
  have hchars := isSqlIdentChar_of_isIdentifier hcolumn
  have hopen : column.toList.count '(' = 0 := List.count_eq_zero.2 fun hc =>
    absurd (hchars '(' hc) (by decide)
  have hclose : column.toList.count ')' = 0 := List.count_eq_zero.2 fun hc =>
    absurd (hchars ')' hc) (by decide)
  rcases he with rfl | rfl
  · exact ⟨hopen, hclose⟩
  · unfold quoteColumn
    simp only [String.toList_append, List.count_append, hopen, hclose]
    exact ⟨rfl, rfl⟩

/-- An aggregate closes the parentheses that it opens. -/
theorem count_of_isAggregate {e : String} (h : IsAggregate e) :
    e.toList.count '(' = e.toList.count ')' := by
  have hfn : ∀ fn ∈ ["COUNT", "SUM", "AVG", "MIN", "MAX"],
      fn.toList.count '(' = 0 ∧ fn.toList.count ')' = 0 := by
    intro fn hmem
    simp only [List.mem_cons, List.not_mem_nil, or_false] at hmem
    rcases hmem with rfl | rfl | rfl | rfl | rfl <;> decide
  cases h with
  | rows => decide
  | values hmem hop =>
    obtain ⟨h1, h2⟩ := count_of_isOperand hop
    obtain ⟨h3, h4⟩ := hfn _ hmem
    simp only [String.toList_append, List.count_append, h1, h2, h3, h4]
    decide
  | distinct hmem hop =>
    obtain ⟨h1, h2⟩ := count_of_isOperand hop
    obtain ⟨h3, h4⟩ := hfn _ hmem
    simp only [String.toList_append, List.count_append, h1, h2, h3, h4]
    decide
  | parenthesized hmem hop =>
    obtain ⟨h1, h2⟩ := count_of_isOperand hop
    obtain ⟨h3, h4⟩ := hfn _ hmem
    simp only [String.toList_append, List.count_append, h1, h2, h3, h4]
    decide

omit [JsNumber N] in
/-- The aggregates of a report but the number of distinct values, over a column or a star. -/
theorem isAggregate_sqlFn {a : ReportAggregate} (hop : a.op ≠ .countDistinct) {e : String}
    (hstar : a.field = none → e = "*") (hcolumn : ∀ field, a.field = some field → IsOperand e) :
    IsAggregate (a.op.sqlFn ++ "(" ++ e ++ ")") := by
  cases hfield : a.field with
  | none =>
    rw [hstar hfield, a.counts_all hfield]
    exact .rows
  | some field =>
    refine .values ?_ (hcolumn field hfield)
    cases hname : a.op with
    | countDistinct => exact absurd hname hop
    | _ => decide

omit [JsNumber N] in
/-- The aggregate of a pivot does not close the parentheses of a number of distinct values. -/
theorem not_isAggregateColumn_countDistinct {field : String} (hfield : isIdentifier field = true) :
    ¬ IsAggregateColumn [.text (AggregateOp.countDistinct.sqlFn ++ "(" ++ field ++ ")" ++ " as " ++
      "pivot_value")] := by
  rintro ⟨e, name, he, hname, htext⟩
  have hsame : AggregateOp.countDistinct.sqlFn ++ "(" ++ field ++ ")" ++ " as " ++ "pivot_value" =
      e ++ " as " ++ name := SqlPiece.text.inj (List.cons.inj htext).1
  obtain ⟨hopen, hclose⟩ := count_of_isOperand ⟨field, hfield, .inl rfl⟩
  obtain ⟨hopen', hclose'⟩ := count_of_isOperand hname
  have hopens := congrArg (fun s : String => s.toList.count '(') hsame
  have hcloses := congrArg (fun s : String => s.toList.count ')') hsame
  simp only [String.toList_append, List.count_append, hopen, hopen'] at hopens
  simp only [String.toList_append, List.count_append, hclose, hclose'] at hcloses
  rw [count_of_isAggregate he] at hopens
  have htwo : AggregateOp.countDistinct.sqlFn.toList.count '(' = 1 := by decide
  have hnone : AggregateOp.countDistinct.sqlFn.toList.count ')' = 0 := by decide
  rw [htwo] at hopens
  rw [hnone] at hcloses
  have hmore := hopens.trans hcloses.symm
  exact absurd hmore (by decide)

/-! ## Agreement -/

/-- What a grouped report accepts are names of columns. -/
theorem reportNames_of_groupedReportQuery {q : QueryBuilder N}
    (h : groupedReportQuery schema.tableName req = .ok q) : ReportNames schema req := by
  obtain ⟨tableName, htable, h⟩ := exists_of_bind_eq_ok h
  obtain ⟨q₀, -, h⟩ := exists_of_bind_eq_ok h
  obtain ⟨aggregate, haggregate, h⟩ := exists_of_bind_eq_ok h
  obtain ⟨q₁, -, h⟩ := exists_of_bind_eq_ok h
  obtain ⟨q₂, hfilters, h⟩ := exists_of_bind_eq_ok h
  obtain ⟨field, hfield, haggregate⟩ := exists_of_bind_eq_ok haggregate
  obtain ⟨asName, hasName, -⟩ := exists_of_bind_eq_ok haggregate
  refine ⟨(sanitizeIdentifier_eq_ok htable).1, fun f hf => ?_, fun d hd => ?_,
    (sanitizeIdentifier_eq_ok hasName).1, fun column hcolumn => ?_⟩
  · obtain ⟨q, q', hstep⟩ := ok_of_foldlM_eq_ok hfilters f hf
    obtain ⟨column, hcolumn, -⟩ := exists_of_bind_eq_ok hstep
    exact (sanitizeIdentifier_eq_ok hcolumn).1
  · rw [hd] at h
    obtain ⟨column, hcolumn, -⟩ := exists_of_bind_eq_ok h
    exact (sanitizeIdentifier_eq_ok hcolumn).1
  · unfold aggregateField at hfield
    rw [hcolumn] at hfield
    exact (sanitizeIdentifier_eq_ok hfield).1

end

/-! ## A table of texts -/

/-- A text ends in another one. -/
def endsIn (ending s : String) : Bool := ending.toList.isSuffixOf s.toList

/-- What SQLite reads in the texts of the reports, where all columns hold one text and none is
compared with a value. -/
def readText (text : String) (fragment : SqlStatement (Option Int)) : Tri × List (Joiner × Tri) :=
  let like := fun v : JsVal (Option Int) => (textTable (Option Int)).like text "" v
  match fragment.sql, fragment.bindings with
  | [.text s], _ =>
    if s = "1 = 0" then (.false, [])
    else if s = "1 = 1" then (.true, [])
    else if endsIn " IS NULL" s then (.false, [])
    else if endsIn " IS NOT NULL" s then (.true, []) else (.unknown, [])
  | [.text s, .mark none], [v] =>
    if endsIn " NOT LIKE " s then ((like v).not, [])
    else if endsIn " LIKE " s then (like v, []) else (.unknown, [])
  | [.text s, .mark none, .text _], [.str json] =>
    if json ≠ "[]" then (.unknown, [])
    else (.ofBool (endsIn " NOT IN (SELECT value FROM json_each(" s), [])
  | [_, _, _, _], _ => (.unknown, [(.and, .unknown)])
  | _, _ => (.unknown, [])

/-- The database of such a table. -/
def textReports : SqlEngine (Option Int) String :=
  { textTable (Option Int) with raw := readText }

/-- The end of a text after a column in quotes. -/
theorem endsIn_quoted (ending : String) (h : '"' ∉ ending.toList) (column rest : String) :
    endsIn ending (quoteColumn column ++ rest) = endsIn ending rest := by
  have hchars : (quoteColumn column ++ rest).toList =
      ('"' :: column.toList) ++ '"' :: rest.toList := by
    simp [quoteColumn]
  refine Bool.eq_iff_iff.2 ?_
  unfold endsIn
  rw [List.isSuffixOf_iff_suffix, List.isSuffixOf_iff_suffix, hchars]
  constructor
  · intro hsuffix
    rcases List.suffix_or_suffix_of_suffix hsuffix (List.suffix_append _ _) with hin | hout
    · rcases List.suffix_cons_iff.1 hin with heq | hin
      · rw [heq] at h
        exact absurd List.mem_cons_self h
      · exact hin
    · exact absurd (hout.subset List.mem_cons_self) h
  · intro hsuffix
    exact hsuffix.trans ((List.suffix_cons _ _).trans (List.suffix_append _ _))

/-- A text that begins with a column in quotes is no constant. -/
theorem quoted_ne (column rest : String) {s : String} (h : s.toList.head? ≠ some '"') :
    quoteColumn column ++ rest ≠ s := by
  rintro rfl
  exact h (by simp [quoteColumn])

/-- A scalar has a text in JSON. -/
theorem toJson_ne_empty {v : JsVal (Option Int)} (hv : v.isScalar = true) :
    ((v.toJson).getD "null").toList ≠ [] := by
  cases v with
  | null => decide
  | bool b => cases b <;> decide
  | num n =>
    cases n with
    | none => decide
    | some i =>
      cases i with
      | ofNat n =>
        intro hempty
        exact Nat.repr_ne_empty (String.toList_inj.1 hempty)
      | negSucc n =>
        intro hempty
        have hsign : (Int.repr (Int.negSucc n)).toList = [] := hempty
        rw [Int.repr] at hsign
        simp at hsign
  | str s =>
    intro hempty
    have hquoted : (jsonString s).toList = [] := hempty
    unfold jsonString at hquoted
    simp at hquoted
  | _ => cases hv

/-- The JSON text of a list that is not empty. -/
theorem jsonList_ne {vs : List (JsVal (Option Int))} (hne : vs ≠ [])
    (hvs : vs.all JsVal.isScalar = true) :
    ∃ json, jsonList vs = .str json ∧ json ≠ "[]" := by
  refine ⟨_, rfl, fun heq => ?_⟩
  cases vs with
  | nil => exact hne rfl
  | cons v vs =>
    have hv : ((v.toJson).getD "null").toList ≠ [] :=
      toJson_ne_empty (Bool.and_eq_true_iff.1 hvs).1
    have htext : "[" ++ ",".intercalate (toJsonElems (v :: vs)) ++ "]" = "[]" := heq
    have hlength := congrArg (fun s : String => s.toList.length) htext
    rw [Json.toJsonElems_eq] at hlength
    have hpos : 0 < (",".intercalate
        ((v :: vs).map fun x => (x.toJson).getD "null")).toList.length := by
      have hlen : 0 < ((v.toJson).getD "null").toList.length := List.length_pos_iff.2 hv
      rw [String.toList_intercalate, List.map_cons, List.map_cons]
      cases vs with
      | nil => simpa [List.intercalate] using hlen
      | cons u us =>
        rw [List.map_cons, List.map_cons, List.intercalate_cons_cons]
        simp only [List.length_append]
        omega
    simp only [String.toList_append, List.length_append] at hlength
    have hone : "[".toList.length = 1 := by decide
    have hone' : "]".toList.length = 1 := by decide
    have htwo : "[]".toList.length = 2 := by decide
    omega

/-- No text is equal to a value: membership in a list is unknown, unless the list is empty. -/
theorem condition_membership {text column : String} {op : WhereOp} (hop : op = .in ∨ op = .notIn)
    (vs : List (JsVal (Option Int))) : textReports.condition text column op (.arr vs) =
      if vs.isEmpty then .ofBool (op == .notIn) else .unknown := by
  have hany : Tri.any (vs.map (textReports.compare text column (· == .eq))) =
      if vs.isEmpty then .false else .unknown := by
    have hmap : vs.map (textReports.compare text column (· == .eq)) =
        vs.map fun _ => Tri.unknown := rfl
    rw [hmap]
    cases vs with
    | nil => rfl
    | cons v vs => exact Tri.any_unknown (List.cons_ne_nil v vs)
  rcases hop with rfl | rfl
  · show Tri.any (vs.map (textReports.compare text column (· == .eq))) = _
    rw [hany]
    cases vs <;> rfl
  · show (Tri.any (vs.map (textReports.compare text column (· == .eq)))).not = _
    rw [hany]
    cases vs <;> rfl

/-- What is read in a membership test. -/
theorem readText_membership {text : String} (expr : String) {op : WhereOp}
    (hop : op = .in ∨ op = .notIn)
    (hends : endsIn " NOT IN (SELECT value FROM json_each("
      (expr ++ " " ++ op.text ++ " (SELECT value FROM json_each(") = (op == .notIn))
    {vs : List (JsVal (Option Int))} (hvs : vs.all JsVal.isScalar = true) (column : String) :
    readText text ⟨jsonEachText expr op, [jsonList vs]⟩ =
      (textReports.condition text column op (.arr vs), []) := by
  rw [condition_membership hop]
  cases vs with
  | nil =>
    show (Tri.ofBool (endsIn " NOT IN (SELECT value FROM json_each("
      (expr ++ " " ++ op.text ++ " (SELECT value FROM json_each(")), []) = _
    rw [hends]
    rfl
  | cons v vs =>
    obtain ⟨json, hjson, hne⟩ := jsonList_ne (List.cons_ne_nil v vs) hvs
    rw [hjson]
    show (if json ≠ "[]" then (Tri.unknown, []) else _) = _
    rw [if_pos hne]
    rfl

theorem textReports_lawful : textReports.Lawful where
  raw_false _ := rfl
  raw_true _ := rfl
  raw_jsonEach text column op vs _ hop hlong hvs := by
    have hne : vs ≠ [] := by
      rintro rfl
      cases hlong
    obtain ⟨json, hjson, hjsonNe⟩ := jsonList_ne hne hvs
    rw [condition_membership hop, hjson, if_neg (by simpa using hne)]
    show (if json ≠ "[]" then (Tri.unknown, []) else _) = _
    rw [if_pos hjsonNe]
  bindable_scalar _ h := h

theorem textReports_readsQuoted (table : String) : textReports.ReadsQuoted table where
  comparison text column op v _ hop _ := by
    have hnot := endsIn_quoted " NOT LIKE " (by decide) column
      (" " ++ op.text ++ " ")
    have hlike := endsIn_quoted " LIKE " (by decide) column (" " ++ op.text ++ " ")
    show (if endsIn " NOT LIKE " (quoteColumn column ++ " " ++ op.text ++ " ") then
        (((textTable (Option Int)).like text "" v).not, [])
      else if endsIn " LIKE " (quoteColumn column ++ " " ++ op.text ++ " ") then
        ((textTable (Option Int)).like text "" v, []) else (.unknown, [])) = _
    simp only [String.append_assoc] at hnot hlike ⊢
    rw [hnot, hlike]
    cases op <;> first | rfl | cases hop
  null text column op _ hop := by
    have hnull := endsIn_quoted " IS NULL" (by decide) column (" " ++ op.text)
    have hnnull := endsIn_quoted " IS NOT NULL" (by decide) column (" " ++ op.text)
    have hfalse := quoted_ne column (" " ++ op.text) (s := "1 = 0") (by decide)
    have htrue := quoted_ne column (" " ++ op.text) (s := "1 = 1") (by decide)
    show (if quoteColumn column ++ " " ++ op.text = "1 = 0" then (Tri.false, [])
      else if quoteColumn column ++ " " ++ op.text = "1 = 1" then (.true, [])
      else if endsIn " IS NULL" (quoteColumn column ++ " " ++ op.text) then (.false, [])
      else if endsIn " IS NOT NULL" (quoteColumn column ++ " " ++ op.text) then (.true, [])
      else (.unknown, [])) = _
    simp only [String.append_assoc] at hnull hnnull hfalse htrue ⊢
    rw [if_neg hfalse, if_neg htrue, hnull, hnnull]
    rcases hop with rfl | rfl <;> rfl
  membership text column op vs _ hop hvs := by
    have hends := endsIn_quoted " NOT IN (SELECT value FROM json_each(" (by decide)
      column (" " ++ op.text ++ " (SELECT value FROM json_each(")
    refine readText_membership (quoteColumn column) hop ?_ hvs column
    simp only [String.append_assoc] at hends ⊢
    rw [hends]
    rcases hop with rfl | rfl <;> decide
  range _ _ _ _ _ _ _ := rfl
  emptyText text column op _ hop := by
    have hnull := endsIn_quoted " IS NULL" (by decide) column
      (" " ++ op.text ++ " ''")
    have hnnull := endsIn_quoted " IS NOT NULL" (by decide) column
      (" " ++ op.text ++ " ''")
    have hfalse := quoted_ne column (" " ++ op.text ++ " ''") (s := "1 = 0") (by decide)
    have htrue := quoted_ne column (" " ++ op.text ++ " ''") (s := "1 = 1") (by decide)
    show (if quoteColumn column ++ " " ++ op.text ++ " ''" = "1 = 0" then (Tri.false, [])
      else if quoteColumn column ++ " " ++ op.text ++ " ''" = "1 = 1" then (.true, [])
      else if endsIn " IS NULL" (quoteColumn column ++ " " ++ op.text ++ " ''") then (.false, [])
      else if endsIn " IS NOT NULL" (quoteColumn column ++ " " ++ op.text ++ " ''") then
        (.true, []) else (.unknown, [])) = _
    simp only [String.append_assoc] at hnull hnnull hfalse htrue ⊢
    rw [if_neg hfalse, if_neg htrue, hnull, hnnull]
    rcases hop with rfl | rfl <;> rfl
  qualified _ _ := rfl

/-- A report of the customers whose name starts with a text. -/
def namesRequest (operator : FilterOperator) (value : String)
    (takes : operator.takes (.str value : JsVal (Option Int)) = true) :
    ReportRequest (Option Int) where
  aggregate := ⟨.count, none, "total", fun _ => rfl⟩
  filters := [⟨"name", operator, .str value, takes⟩]
  dateRange := none
  includeTrashed := true

/-- The table of the customers. -/
def customersSchema : ReportSchema (Option Int) where
  tableName := "cms_customers"
  fields := []
  collectionTable slug := "cms_" ++ slug

end HeadlessErp
