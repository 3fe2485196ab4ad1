import HeadlessErp.Kpi.Service
import HeadlessErp.Query.StepTests
import Mathlib.Algebra.Ring.Int.Defs
import Mathlib.Data.List.Dedup
import Mathlib.Data.List.Perm.Basic

/-!
# The values of a KPI

In a run whose computes are of definitions without a period, with complete filters, groups of
different keys, and no value left of a class that is gone, the values after a compute are those of
the classes (`kpisExact_of_reach`). A compute only adds values and changes them, so one that is left
of a class that has no row any more stays.
-/

namespace HeadlessErp

/-! ## Validated definitions -/

section
variable {N : Type} {definition : KpiDefinition N}

theorem throwFirst_eq_ok {checks : List (Bool × String)} (h : throwFirst checks = .ok ()) :
    ∀ check ∈ checks, check.1 = false := by
  unfold throwFirst at h
  split at h
  · cases h
  · rename_i hnone
    intro check hcheck
    simpa using List.find?_eq_none.1 hnone check hcheck

theorem validate_of_forM {fs : List (KpiFilter N)} (h : fs.forM KpiFilter.validate = .ok ()) :
    ∀ f ∈ fs, f.validate = .ok () := by
  induction fs with
  | nil => exact fun f hf => absurd hf List.not_mem_nil
  | cons f fs ih =>
    obtain ⟨_, hfirst, hrest⟩ := exists_of_bind_eq_ok h
    exact List.forall_mem_cons.2 ⟨hfirst, ih hrest⟩

/-- What a valid definition has. -/
structure KpiDefinition.Valid (definition : KpiDefinition N) : Prop where
  agg : definition.agg ∈ validAggs
  group : ∀ column ∈ definition.groupColumn, isIdentifier column = true
  ops : ∀ f ∈ definition.filter.getD [], f.op ∈ validFilterOps

theorem valid_of_validate (h : definition.validate = .ok ()) : definition.Valid := by
  obtain ⟨_, hchecks, hfilters⟩ := exists_of_bind_eq_ok h
  have hfalse := throwFirst_eq_ok hchecks
  simp only [List.forall_mem_cons] at hfalse
  obtain ⟨-, -, hagg, -, -, -, hgroup, -⟩ := hfalse
  refine ⟨by simpa using hagg, fun column hcolumn => ?_, fun f hf => ?_⟩
  · rw [Option.mem_def.1 hcolumn] at hgroup
    simpa using hgroup
  · have hop := throwFirst_eq_ok (validate_of_forM hfilters f hf)
    simp only [List.forall_mem_cons] at hop
    simpa using hop.2.1

end

section
variable {N Q Row : Type} [JsNumber N] {K : KpiEngine N Q Row} {definition : KpiDefinition N}
  {table : KpiTable Row} {tableName : String}

/-! ## The query -/

/-- A complete filter lets through the rows that it says. -/
theorem stepTests_applyKpiFilter (hE : K.sql.Lawful) {f : KpiFilter N}
    (hcolumn : isIdentifier f.column = true) (hop : f.op ∈ validFilterOps)
    (hcomplete : f.isComplete = true) :
    K.sql.StepTests (fun q => applyKpiFilter q f) (K.passes f) := by
  obtain ⟨field, op, v⟩ := f
  have hvalue (op : WhereOp) (hop : op.isComparison = true) {v : JsVal N}
      (hv : v.isScalar = true) := stepTests_where op hE hcolumn (suits_of_isComparison hop hv)
    (ne_undefined_of_isScalar hv)
  have hin (vs : List (JsVal N)) (hvs : vs.all JsVal.isScalar = true) :
      K.sql.StepTests (fun q => q.whereIn (KpiFilter.column ⟨field, op, v⟩) vs) fun r =>
        (K.sql.condition r (KpiFilter.column ⟨field, op, v⟩) .in (.arr vs)).isTrue :=
    ⟨_, tests_membershipClause hE hcolumn (.inl rfl) hvs, fun q => whereIn_eq hcolumn q vs⟩
  simp only [validFilterOps, List.mem_cons, List.not_mem_nil, or_false] at hop
  rcases hop with rfl | rfl | rfl | rfl | rfl | rfl | rfl
  · exact hvalue .eq rfl hcomplete
  · exact hvalue .ne rfl hcomplete
  · exact hvalue .gt rfl hcomplete
  · exact hvalue .ge rfl hcomplete
  · exact hvalue .lt rfl hcomplete
  · exact hvalue .le rfl hcomplete
  · cases v with
    | arr vs => exact hin vs hcomplete
    | _ => exact hin [] rfl

/-- The conditions of the query: the trash, where it is left out, and the filters. -/
def KpiEngine.selects (K : KpiEngine N Q Row) (definition : KpiDefinition N)
    (withDeletedFilter : Bool) (row : Row) : Bool :=
  (!withDeletedFilter || K.sql.isNull row "deleted_at") &&
    (definition.filter.getD []).all (K.passes · row)

theorem stepTests_hideDeleted (hE : K.sql.Lawful) (withDeletedFilter : Bool) :
    K.sql.StepTests (hideDeleted withDeletedFilter)
      fun row => !withDeletedFilter || K.sql.isNull row "deleted_at" := by
  have hdeleted : isIdentifier "deleted_at" = true := by decide
  cases withDeletedFilter with
  | false => exact .skip
  | true =>
    exact stepTests_whereNull hE (isColumnName_of_isIdentifier hdeleted)
      (isWhereColumn_of_isIdentifier hdeleted)

omit [JsNumber N] in
theorem wheres_selectAll (q : QueryBuilder N) (columns : List (String × String)) :
    (q.selectAll columns).wheres = q.wheres ∧ (q.selectAll columns).groupBy = q.groupBy := by
  induction columns generalizing q with
  | nil => exact ⟨rfl, rfl⟩
  | cons column columns ih => exact ih (q.selectExpr column.1 column.2)

omit [JsNumber N] in
theorem groupUnlessEmpty_eq {cols : List String} (h : ∀ c ∈ cols, isIdentifier c = true)
    (q : QueryBuilder N) (hq : q.groupBy = []) :
    groupUnlessEmpty cols q = .ok { q with groupBy := cols } := by
  unfold groupUnlessEmpty
  cases cols with
  | nil =>
    cases q
    cases hq
    rfl
  | cons c cs =>
    have hcols : (c :: cs).mapM (sanitizeColumn · "QueryBuilder.groupBy" false) =
        .ok ((c :: cs).map id) := mapM_ok fun c hc =>
      sanitizeColumn_of_isColumnName (isColumnName_of_isIdentifier (h c hc)) _
    unfold QueryBuilder.setGroupBy
    rw [hcols, List.map_id]
    rfl

/-- The query of a definition without a period. -/
theorem exists_kpiQuery (hE : K.sql.Lawful) (hvalid : definition.Valid)
    (hfits : K.Fits tableName table definition) (hperiod : definition.periodExpr = none)
    (hcomplete : ∀ f ∈ definition.filter.getD [], f.isComplete = true)
    (withDeletedFilter : Bool) :
    ∃ q : QueryBuilder N, kpiQuery tableName definition withDeletedFilter = .ok q ∧
      q.groupBy = definition.groupColumn.toList ∧ ∀ rows,
      K.sql.select q rows = .ok (rows.filter (K.selects definition withDeletedFilter)) := by
  obtain ⟨ws, hws, hstep⟩ := (stepTests_hideDeleted hE withDeletedFilter).seq
    (SqlEngine.StepTests.foldlM fun f hf => stepTests_applyKpiFilter hE (hfits.filters f hf).1
      (hvalid.ops f hf) (hcomplete f hf))
  have hcols : definition.groupCols = definition.groupColumn.toList := by
    unfold KpiDefinition.groupCols
    rw [hperiod]
    rfl
  have hrun := hstep { table := tableName }
  rw [List.nil_append] at hrun
  obtain ⟨q₁, hq₁, hrun⟩ := exists_of_bind_eq_ok hrun
  let q₂ : QueryBuilder N := { table := tableName, wheres := ws }
  let columns := (definition.periodExpr.toList.map (·, "period_key")) ++
    (definition.groupColumn.toList.map (·, "group_key")) ++ [(definition.valueExpr, "value")]
  obtain ⟨hwheres, hgroup⟩ := wheres_selectAll q₂ columns
  refine ⟨{ q₂.selectAll columns with groupBy := definition.groupColumn.toList }, ?_, rfl,
    fun rows => ?_⟩
  · unfold kpiQuery
    rw [from_eq hfits.name]
    show (hideDeleted withDeletedFilter { table := tableName } >>= _) = _
    rw [hq₁]
    show ((definition.filter.getD []).foldlM applyKpiFilter q₁ >>= _) = _
    rw [hrun]
    show groupUnlessEmpty definition.groupCols (q₂.selectAll columns) = _
    rw [hcols]
    exact groupUnlessEmpty_eq (fun c hc => hvalid.group c (Option.mem_toList.1 hc)) _ hgroup
  · refine SqlEngine.Tests.select ?_ rows
    show K.sql.Tests (q₂.selectAll columns).wheres _
    rw [hwheres]
    exact hws

end

section
variable {N Q Row : Type} [JsNumber N] [AddCommMonoidWithOne Q] [LinearOrder Q]
  {K : KpiEngine N Q Row} {definition : KpiDefinition N} {table : KpiTable Row}
  {tableName : String}

/-! ## The rows of the query -/

omit [JsNumber N] [AddCommMonoidWithOne Q] [LinearOrder Q] in
/-- Without a period, a class is a group. -/
theorem classOf_eq (hperiod : definition.periodExpr = none) (row : Row) :
    K.classOf definition row = (.null, (definition.groupColumn.map (K.value row)).getD .null) := by
  unfold KpiEngine.classOf
  rw [hperiod]
  rfl

omit [JsNumber N] [AddCommMonoidWithOne Q] [LinearOrder Q] in
theorem bareColumn_eq {column : String} (h : column ∉ table.columns) (rows : List Row) :
    K.bareColumn table rows column = .null := by
  unfold KpiEngine.bareColumn
  rw [if_neg (by simpa using h)]

/-- The rows of the result: one for each class, with the aggregate over its rows. -/
def KpiEngine.classRows (K : KpiEngine N Q Row) (table : KpiTable Row)
    (definition : KpiDefinition N) : List (AggregateRow Q) :=
  (K.classes table definition).map fun c => ⟨.null, c.2,
    K.aggregate definition ((K.live table definition).filter (K.classOf definition · = c))⟩

omit [JsNumber N] in
/-- The database runs a query that selects the live rows. -/
theorem execute_eq {q : QueryBuilder N} {withDeletedFilter : Bool}
    (hreads : ∀ e ∈ queryReads definition withDeletedFilter, K.knows table e = true)
    (hperiod : definition.periodExpr = none) (hperiodColumn : "period_key" ∉ table.columns)
    (hgroupColumn : definition.groupColumn = none → "group_key" ∉ table.columns)
    (hgroup : q.groupBy = definition.groupColumn.toList)
    (hselect : K.sql.select q table.rows = .ok (K.live table definition)) :
    K.execute table definition withDeletedFilter q = .ok (K.classRows table definition) := by
  have hfind : (queryReads definition withDeletedFilter).find? (fun e => !K.knows table e) =
      none := by
    rw [List.find?_eq_none]
    intro e he
    rw [hreads e he]
    exact Bool.false_ne_true
  have hcols : definition.groupCols = definition.groupColumn.toList := by
    unfold KpiDefinition.groupCols
    rw [hperiod]
    rfl
  have hrow : ∀ rows group, K.aggregateRow table definition rows group =
      ⟨.null, if definition.groupColumn.isSome then group.getLastD .null
        else K.bareColumn table rows "group_key", K.aggregate definition rows⟩ := by
    intro rows group
    unfold KpiEngine.aggregateRow
    rw [hperiod, bareColumn_eq hperiodColumn]
    rfl
  unfold KpiEngine.execute
  rw [hfind]
  show (K.sql.select q table.rows >>= _) = _
  rw [hselect]
  unfold KpiEngine.classRows KpiEngine.classes
  rw [hcols]
  cases hcolumn : definition.groupColumn with
  | none =>
    have hclass : ∀ row, K.classOf definition row = (.null, .null) := by
      intro row
      rw [classOf_eq hperiod, hcolumn]
      rfl
    have hempty : q.groupBy.isEmpty = true := by
      rw [hgroup, hcolumn]
      rfl
    have hall : (K.live table definition).filter (K.classOf definition · = (.null, .null)) =
        K.live table definition := by
      rw [List.filter_eq_self]
      intro row _
      exact decide_eq_true (hclass row)
    show (if q.groupBy.isEmpty = true then _ else _) = _
    rw [if_pos hempty, hrow, hcolumn, bareColumn_eq (hgroupColumn hcolumn)]
    show _ = Except.ok [(⟨.null, .null, K.aggregate definition ((K.live table definition).filter
      (K.classOf definition · = (.null, .null)))⟩ : AggregateRow Q)]
    rw [hall]
    rfl
  | some column =>
    have hclass : ∀ row, K.classOf definition row = (.null, K.value row column) := by
      intro row
      rw [classOf_eq hperiod, hcolumn]
      rfl
    have hnonempty : ¬q.groupBy.isEmpty = true := by
      rw [hgroup, hcolumn]
      exact Bool.false_ne_true
    let values := (K.live table definition).map (K.value · column)
    -- A group is the list of its value, a class its pair.
    have hgroups : ((K.live table definition).map fun row => q.groupBy.map (K.value row)).dedup =
        values.dedup.map fun v => [v] := by
      rw [← List.dedup_map_of_injective fun _ _ h => (List.cons.inj h).1, List.map_map, hgroup,
        hcolumn]
      rfl
    have hclasses : ((K.live table definition).map (K.classOf definition)).dedup =
        values.dedup.map fun v => (.null, v) := by
      rw [← List.dedup_map_of_injective fun _ _ h => (Prod.mk.inj h).2, List.map_map]
      exact congrArg List.dedup (List.map_congr_left fun row _ => hclass row)
    show (if q.groupBy.isEmpty = true then _ else _) = _
    rw [if_neg hnonempty]
    show Except.ok ((((K.live table definition).map fun row => q.groupBy.map (K.value row)).dedup).map
      _) = Except.ok ((((K.live table definition).map (K.classOf definition)).dedup).map _)
    rw [hgroups, hclasses, List.map_map, List.map_map]
    refine congrArg Except.ok (List.map_congr_left fun v _ => ?_)
    show K.aggregateRow table definition _ [v] = ⟨.null, v, _⟩
    have hrows : (K.live table definition).filter (fun row => q.groupBy.map (K.value row) = [v]) =
        (K.live table definition).filter (K.classOf definition · = (.null, v)) := by
      refine List.filter_congr fun row _ => ?_
      rw [hgroup, hcolumn, hclass]
      simp
    rw [hrow, hcolumn, hrows]
    rfl

omit [JsNumber N] [AddCommMonoidWithOne Q] [LinearOrder Q] in
/-- What the query reads is there, apart from the column of the trash. -/
theorem knows_of_queryReads (hfits : K.Fits tableName table definition) {e : String}
    (he : e ∈ queryReads definition false) : K.knows table e = true := by
  unfold queryReads KpiDefinition.groupCols at he
  simp only [Bool.false_eq_true, if_false, List.nil_append, List.mem_append, List.mem_map,
    Option.mem_toList] at he
  rcases he with (⟨f, hf, rfl⟩ | hperiod | hcolumn) | hfield
  · exact (hfits.filters f hf).2
  · exact hfits.periods e hperiod
  · exact hfits.groups e hcolumn
  · split at hfield
    · cases hfield
    · rename_i hcount
      rw [List.mem_singleton.1 hfield]
      exact hfits.field hcount

/-- The rows of a KPI that can be computed exactly, on a table with a trash or without one. -/
theorem aggregateRows_eq {kpi : KpiRow N} {values : List (KpiValueRow Q)} (hE : K.sql.Lawful)
    (hvalid : kpi.definition.Valid) (hfits : K.Fits tableName table kpi.definition)
    (hclean : K.Clean table kpi values) :
    K.aggregateRows tableName table kpi.definition = .ok (K.classRows table kpi.definition) := by
  have hquery := exists_kpiQuery hE hvalid hfits hclean.period hclean.filters
  unfold KpiEngine.aggregateRows
  cases hknows : K.knows table "deleted_at" with
  | true =>
    obtain ⟨q, hq, hgroup, hselect⟩ := hquery true
    have hlive : K.sql.select q table.rows = .ok (K.live table kpi.definition) := by
      rw [hselect]
      unfold KpiEngine.live KpiEngine.selects
      rw [hknows]
    have hreads : ∀ e ∈ queryReads kpi.definition true, K.knows table e = true := by
      intro e he
      rcases List.mem_cons.1 he with rfl | he
      · exact hknows
      · exact knows_of_queryReads hfits he
    have hrun : (kpiQuery tableName kpi.definition true >>=
        K.execute table kpi.definition true) = .ok (K.classRows table kpi.definition) := by
      rw [hq]
      exact execute_eq hreads hclean.period hclean.periodColumn hclean.groupColumn hgroup hlive
    rw [hrun]
  | false =>
    obtain ⟨q, hq, -, -⟩ := hquery true
    have hfail : (kpiQuery tableName kpi.definition true >>= K.execute table kpi.definition true) =
        .error "no such column: deleted_at" := by
      rw [hq]
      show K.execute table kpi.definition true q = _
      unfold KpiEngine.execute
      have hfind : (queryReads kpi.definition true).find? (fun e => !K.knows table e) =
          some "deleted_at" := List.find?_cons_of_pos (by rw [hknows]; rfl)
      rw [hfind]
      rfl
    have hmentions : mentions "no such column" "no such column: deleted_at" = true := by decide
    obtain ⟨q', hq', hgroup, hselect⟩ := hquery false
    have hlive : K.sql.select q' table.rows = .ok (K.live table kpi.definition) := by
      rw [hselect]
      unfold KpiEngine.live KpiEngine.selects
      rw [hknows]
    rw [hfail]
    show (if mentions "no such column" "no such column: deleted_at" then _ else _) = _
    rw [if_pos hmentions, hq']
    exact execute_eq (fun e he => knows_of_queryReads hfits he) hclean.period hclean.periodColumn
      hclean.groupColumn hgroup hlive

end

/-! ## Upserts -/

section
variable {Q : Type} {values news : List (KpiValueRow Q)} {row : KpiValueRow Q}

/-- The key of a value: the KPI, the period and the group. -/
def KpiValueRow.key (v : KpiValueRow Q) : String × String × String :=
  (v.kpiId, v.periodKey, v.groupKey)

/-- A value and its key. -/
def KpiValueRow.entry (v : KpiValueRow Q) : (String × String × String) × Q := (v.key, v.value)

theorem hasKey_iff {v : KpiValueRow Q} : v.hasKey row = true ↔ v.key = row.key := by
  unfold KpiValueRow.hasKey KpiValueRow.key
  simp [and_assoc]

/-- An upsert sets the value of its key, and leaves the others. -/
theorem mem_upsertValue {e : (String × String × String) × Q} :
    e ∈ (upsertValue values row).map KpiValueRow.entry ↔
      e = row.entry ∨ (e ∈ values.map KpiValueRow.entry ∧ e.1 ≠ row.key) := by
  unfold upsertValue
  split
  · rename_i hany
    obtain ⟨old, hold, hkey⟩ := List.any_eq_true.1 hany
    constructor
    · intro he
      obtain ⟨_, hmem, rfl⟩ := List.mem_map.1 he
      obtain ⟨v, hv, rfl⟩ := List.mem_map.1 hmem
      split
      · rename_i hsame
        exact .inl (Prod.ext (hasKey_iff.1 hsame) rfl)
      · rename_i hother
        exact .inr ⟨List.mem_map_of_mem hv, fun heq => hother (hasKey_iff.2 heq)⟩
    · rintro (rfl | ⟨he, hne⟩)
      · refine List.mem_map.2 ⟨_, List.mem_map_of_mem hold, ?_⟩
        rw [if_pos hkey]
        exact Prod.ext (hasKey_iff.1 hkey) rfl
      · obtain ⟨v, hv, rfl⟩ := List.mem_map.1 he
        refine List.mem_map.2 ⟨_, List.mem_map_of_mem hv, ?_⟩
        rw [if_neg fun hsame => hne (hasKey_iff.1 hsame)]
  · rename_i hnone
    have hfree : ∀ v ∈ values, v.key ≠ row.key := by
      intro v hv heq
      exact hnone (List.any_eq_true.2 ⟨v, hv, hasKey_iff.2 heq⟩)
    rw [List.map_append, List.mem_append, or_comm]
    refine or_congr List.mem_singleton (iff_self_and.2 fun he => ?_)
    obtain ⟨v, hv, rfl⟩ := List.mem_map.1 he
    exact hfree v hv

/-- Upserts under keys that differ set the values of these keys, and leave the others. -/
theorem mem_foldl_upsertValue (hnodup : (news.map KpiValueRow.key).Nodup)
    {e : (String × String × String) × Q} :
    e ∈ (news.foldl upsertValue values).map KpiValueRow.entry ↔
      e ∈ news.map KpiValueRow.entry ∨
        (e ∈ values.map KpiValueRow.entry ∧ ∀ row ∈ news, e.1 ≠ row.key) := by
  induction news generalizing values with
  | nil => simp
  | cons row news ih =>
    obtain ⟨hfresh, hrest⟩ := List.nodup_cons.1 hnodup
    have hne : ∀ row' ∈ news, row.key ≠ row'.key := fun row' hrow' heq =>
      hfresh (heq ▸ List.mem_map_of_mem hrow')
    rw [List.foldl_cons, ih hrest, mem_upsertValue, List.map_cons, List.mem_cons]
    constructor
    · rintro (he | ⟨rfl | ⟨he, hkey⟩, hothers⟩)
      · exact .inl (.inr he)
      · exact .inl (.inl rfl)
      · exact .inr ⟨he, List.forall_mem_cons.2 ⟨hkey, hothers⟩⟩
    · rintro ((rfl | he) | ⟨he, hothers⟩)
      · exact .inr ⟨.inl rfl, hne⟩
      · exact .inl he
      · obtain ⟨hkey, hothers⟩ := List.forall_mem_cons.1 hothers
        exact .inr ⟨.inr ⟨he, hkey⟩, hothers⟩

/-- The keys of the table stay different. -/
theorem nodup_upsertValue (h : (values.map KpiValueRow.key).Nodup) :
    ((upsertValue values row).map KpiValueRow.key).Nodup := by
  unfold upsertValue
  split
  · have hkeys : (values.map fun v =>
        if v.hasKey row then { v with value := row.value, computedAt := row.computedAt }
        else v).map KpiValueRow.key = values.map KpiValueRow.key := by
      rw [List.map_map]
      refine List.map_congr_left fun v _ => ?_
      show KpiValueRow.key (if v.hasKey row then _ else v) = v.key
      split
      · rfl
      · rfl
    rw [hkeys]
    exact h
  · rename_i hnone
    rw [List.map_append, List.nodup_append]
    refine ⟨h, List.nodup_singleton _, fun a ha b hb heq => ?_⟩
    obtain ⟨v, hv, rfl⟩ := List.mem_map.1 ha
    have hb' : b = row.key := List.mem_singleton.1 hb
    exact hnone (List.any_eq_true.2 ⟨v, hv, hasKey_iff.2 (heq.trans hb')⟩)

theorem nodup_foldl_upsertValue (h : (values.map KpiValueRow.key).Nodup) :
    ((news.foldl upsertValue values).map KpiValueRow.key).Nodup := by
  induction news generalizing values with
  | nil => exact h
  | cons row news ih => exact ih (nodup_upsertValue h)

/-- The stored values of a KPI are those with its id. -/
theorem mem_storedValues {id : String} {t : String × String × Q} :
    t ∈ storedValues values id ↔ ((id, t.1, t.2.1), t.2.2) ∈ values.map KpiValueRow.entry := by
  unfold storedValues
  rw [List.mem_map, List.mem_map]
  constructor
  · rintro ⟨v, hv, rfl⟩
    obtain ⟨hmem, hid⟩ := List.mem_filter.1 hv
    refine ⟨v, hmem, ?_⟩
    unfold KpiValueRow.entry KpiValueRow.key
    rw [beq_iff_eq.1 hid]
  · rintro ⟨v, hv, heq⟩
    obtain ⟨hkey, hvalue⟩ := Prod.mk.inj heq
    obtain ⟨hid, hrest⟩ := Prod.mk.inj hkey
    obtain ⟨hperiod, hgroup⟩ := Prod.mk.inj hrest
    refine ⟨v, List.mem_filter.2 ⟨hv, beq_iff_eq.2 hid⟩, ?_⟩
    rw [hperiod, hgroup, hvalue]

theorem nodup_storedValues (h : (values.map KpiValueRow.key).Nodup) (id : String) :
    (storedValues values id).Nodup := by
  have hkeys : ((values.filter (·.kpiId == id)).map KpiValueRow.key).Nodup :=
    h.sublist (List.filter_sublist.map _)
  have hsame : (storedValues values id).map (fun t => (id, t.1, t.2.1)) =
      (values.filter (·.kpiId == id)).map KpiValueRow.key := by
    unfold storedValues
    rw [List.map_map]
    refine List.map_congr_left fun v hv => ?_
    show (id, v.periodKey, v.groupKey) = (v.kpiId, v.periodKey, v.groupKey)
    rw [beq_iff_eq.1 (List.mem_filter.1 hv).2]
  rw [← hsame] at hkeys
  exact hkeys.of_map

end

/-! ## Computes -/

section
variable {N Q Row : Type} [JsNumber N] [AddCommMonoidWithOne Q] [LinearOrder Q]
  {K : KpiEngine N Q Row} {table : KpiTable Row} {tableName : String} {kpi : KpiRow N}
  {values : List (KpiValueRow Q)} {s s' : KpiState N Q Row} {now : String} {uuid : Nat → String}

omit [JsNumber N] in
/-- Without a period, the key of each period is `all`. -/
theorem periodKeyOf_null {definition : KpiDefinition N} (h : definition.periodExpr = none) :
    K.periodKeyOf definition now .null = "all" := by
  show currentPeriod (definition.period.getD "undefined") now = "all"
  unfold KpiDefinition.periodExpr at h
  cases hperiod : definition.period with
  | none => rfl
  | some period =>
    rw [hperiod, Option.map_eq_none_iff, Option.filter_eq_none_iff] at h
    have hno : period = "" ∨ period = "none" := by
      have hnot := h period rfl
      simp only [decide_eq_true_eq, not_and_or, not_not] at hnot
      exact hnot
    rcases hno with rfl | rfl
    · rfl
    · rfl

omit [JsNumber N] [AddCommMonoidWithOne Q] in
theorem nodup_classes (definition : KpiDefinition N) : (K.classes table definition).Nodup := by
  unfold KpiEngine.classes
  split
  · exact List.nodup_singleton _
  · exact List.nodup_dedup _

omit [JsNumber N] [AddCommMonoidWithOne Q] in
/-- Two classes with one key are the same. -/
theorem KpiEngine.Clean.class_eq (h : K.Clean table kpi values) {c c' : ReportValue Q × ReportValue Q}
    (hc : c ∈ K.classes table kpi.definition) (hc' : c' ∈ K.classes table kpi.definition)
    (hkey : K.groupKeyOf c.2 = K.groupKeyOf c'.2) : c = c' := by
  unfold KpiEngine.classes at hc hc'
  split at hc
  · rename_i hempty
    rw [if_pos hempty] at hc'
    rw [List.mem_singleton.1 hc, List.mem_singleton.1 hc']
  · rename_i hempty
    rw [if_neg hempty] at hc'
    obtain ⟨row, hrow, rfl⟩ := List.mem_map.1 (List.mem_dedup.1 hc)
    obtain ⟨row', hrow', rfl⟩ := List.mem_map.1 (List.mem_dedup.1 hc')
    exact h.apart row hrow row' hrow' hkey

omit [JsNumber N] [AddCommMonoidWithOne Q] in
theorem fst_of_mem_classes (h : kpi.definition.periodExpr = none)
    {c : ReportValue Q × ReportValue Q} (hc : c ∈ K.classes table kpi.definition) :
    c.1 = .null := by
  unfold KpiEngine.classes at hc
  split at hc
  · rw [List.mem_singleton.1 hc]
  · obtain ⟨row, -, rfl⟩ := List.mem_map.1 (List.mem_dedup.1 hc)
    rw [classOf_eq h]

/-- What a compute writes. -/
def KpiEngine.written (K : KpiEngine N Q Row) (table : KpiTable Row) (kpi : KpiRow N) (now : String)
    (uuid : Nat → String) : List (KpiValueRow Q) :=
  (K.classRows table kpi.definition).zipIdx.map fun r => K.valueRow kpi now (uuid r.2) r.1

omit [JsNumber N] in
/-- What a compute writes has the keys and the values of the classes. -/
theorem entries_written (h : kpi.definition.periodExpr = none) :
    (K.written table kpi now uuid).map KpiValueRow.entry =
      (K.classes table kpi.definition).map fun c =>
        ((kpi.id, "all", K.groupKeyOf c.2), (K.classValue table kpi.definition now c).2.2) := by
  have hentry : (K.written table kpi now uuid).map KpiValueRow.entry =
      ((K.classRows table kpi.definition).zipIdx.map Prod.fst).map fun r =>
        (K.valueRow kpi now "" r).entry := by
    unfold KpiEngine.written
    rw [List.map_map, List.map_map]
    rfl
  rw [hentry, List.zipIdx_map_fst]
  unfold KpiEngine.classRows
  rw [List.map_map]
  refine List.map_congr_left fun c _ => ?_
  show ((kpi.id, K.periodKeyOf kpi.definition now .null, K.groupKeyOf c.2), _) = _
  rw [periodKeyOf_null h]
  rfl

omit [JsNumber N] in
theorem nodup_written (h : K.Clean table kpi values) :
    ((K.written table kpi now uuid).map KpiValueRow.key).Nodup := by
  have hkeys : (K.written table kpi now uuid).map KpiValueRow.key =
      ((K.written table kpi now uuid).map KpiValueRow.entry).map Prod.fst := by
    rw [List.map_map]
    rfl
  rw [hkeys, entries_written h.period, List.map_map]
  refine (nodup_classes kpi.definition).map_on fun c hc c' hc' heq => h.class_eq hc hc' ?_
  exact (Prod.mk.inj (Prod.mk.inj heq).2).2

omit [JsNumber N] in
theorem nodup_classValues (h : K.Clean table kpi values) :
    ((K.classes table kpi.definition).map (K.classValue table kpi.definition now)).Nodup :=
  (nodup_classes kpi.definition).map_on fun _ hc _ hc' heq =>
    h.class_eq hc hc' (Prod.mk.inj (Prod.mk.inj heq).2).1

omit [JsNumber N] in
/-- The values after the upserts of a compute. -/
theorem perm_storedValues (h : K.Clean table kpi values)
    (hkeys : (values.map KpiValueRow.key).Nodup) :
    (storedValues ((K.written table kpi now uuid).foldl upsertValue values) kpi.id).Perm
      ((K.classes table kpi.definition).map (K.classValue table kpi.definition now)) := by
  rw [List.perm_ext_iff_of_nodup (nodup_storedValues (nodup_foldl_upsertValue hkeys) _)
    (nodup_classValues h)]
  intro t
  rw [mem_storedValues, mem_foldl_upsertValue (nodup_written h), entries_written h.period]
  have hclass : ∀ c ∈ K.classes table kpi.definition,
      (K.classValue table kpi.definition now c).1 = "all" := by
    intro c hc
    show K.periodKeyOf kpi.definition now c.1 = "all"
    rw [fst_of_mem_classes h.period hc, periodKeyOf_null h.period]
  constructor
  · rintro (hnew | ⟨hold, hothers⟩)
    · obtain ⟨c, hc, heq⟩ := List.mem_map.1 hnew
      obtain ⟨hkey, hvalue⟩ := Prod.mk.inj heq
      obtain ⟨-, hrest⟩ := Prod.mk.inj hkey
      obtain ⟨hperiod, hgroup⟩ := Prod.mk.inj hrest
      refine List.mem_map.2 ⟨c, hc, ?_⟩
      exact Prod.ext ((hclass c hc).trans hperiod) (Prod.ext hgroup hvalue)
    · -- A value that was there before is one of a class, which was written.
      obtain ⟨v, hv, heq⟩ := List.mem_map.1 hold
      have hkey : v.key = (kpi.id, t.1, t.2.1) := (Prod.mk.inj heq).1
      obtain ⟨hall, c, hc, hgroup⟩ := h.current v hv (Prod.mk.inj hkey).1
      have hwritten : ((kpi.id, "all", K.groupKeyOf c.2),
          (K.classValue table kpi.definition now c).2.2) ∈
          (K.written table kpi now uuid).map KpiValueRow.entry := by
        rw [entries_written h.period]
        exact List.mem_map_of_mem hc
      obtain ⟨row, hrow, hrowEq⟩ := List.mem_map.1 hwritten
      have hrowKey : row.key = (kpi.id, "all", K.groupKeyOf c.2) := (Prod.mk.inj hrowEq).1
      refine absurd ?_ (hothers row hrow)
      rw [hrowKey, hgroup, ← hall, ← hkey]
      exact Prod.ext (Prod.mk.inj hkey).1 rfl
  · intro ht
    obtain ⟨c, hc, rfl⟩ := List.mem_map.1 ht
    refine .inl (List.mem_map.2 ⟨c, hc, ?_⟩)
    rw [hclass c hc]
    rfl

/-! ## Runs -/

/-- The invariant of a run of clean events. -/
structure KpiSound (K : KpiEngine N Q Row) (s : KpiState N Q Row) : Prop where
  valid : ∀ kpi ∈ s.kpis, kpi.definition.Valid
  keys : (s.values.map KpiValueRow.key).Nodup
  exact : KpisExact K s

omit [JsNumber N] in
theorem valid_upsertKpi {kpis : List (KpiRow N)} {definition : KpiDefinition N} {id : String}
    (h : ∀ kpi ∈ kpis, kpi.definition.Valid) (hvalid : definition.Valid) :
    ∀ kpi ∈ upsertKpi kpis definition id, kpi.definition.Valid := by
  intro kpi hkpi
  unfold upsertKpi at hkpi
  split at hkpi
  · obtain ⟨old, hold, rfl⟩ := List.mem_map.1 hkpi
    split
    · exact hvalid
    · exact h old hold
  · rcases List.mem_append.1 hkpi with hold | hnew
    · exact h kpi hold
    · rw [List.mem_singleton.1 hnew]
      exact hvalid

omit [JsNumber N] in
/-- After an event that is no compute, there is nothing to be exact. -/
theorem kpisExact_of_last (h : s.last = none) : KpisExact K s := by
  intro kpi now result tableName table hlast
  rw [h] at hlast
  cases hlast

theorem KpiSound.compute {id : String} (hE : K.sql.Lawful) (h : KpiSound K s)
    (hclean : CleanEvent K s (.compute id now uuid))
    (hstep : kpiEvent K s (.compute id now uuid) = some s') : KpiSound K s' := by
  obtain ⟨kpi, hfind, rfl⟩ := Option.map_eq_some_iff.1 hstep
  have hvalid : kpi.definition.Valid := h.valid kpi (List.mem_of_find?_eq_some hfind)
  refine ⟨h.valid, ?_, ?_⟩
  · show ((K.compute s kpi now uuid).1.map KpiValueRow.key).Nodup
    unfold KpiEngine.compute
    split
    · exact h.keys
    · split
      · exact h.keys
      · split
        · exact h.keys
        · exact nodup_foldl_upsertValue h.keys
  · intro kpi' now' result tableName table hlast hschema htable hfits
    cases hlast
    have hclean' : K.Clean table kpi s.values := hclean kpi tableName table hfind hschema htable
    have hrun : K.compute s kpi now uuid =
        ((K.written table kpi now uuid).foldl upsertValue s.values,
          .ok (K.classRows table kpi.definition).length) := by
      have hschema' : s.schemas kpi.definition.collection = some tableName := hschema
      have htable' : s.tables tableName = some table := htable
      unfold KpiEngine.compute
      rw [hschema']
      dsimp only
      rw [htable']
      dsimp only
      rw [aggregateRows_eq hE hvalid hfits hclean']
      rfl
    show (∃ n, (K.compute s kpi now uuid).2 = .ok n) ∧
      (storedValues (K.compute s kpi now uuid).1 kpi.id).Perm _
    rw [hrun]
    exact ⟨⟨_, rfl⟩, perm_storedValues hclean' h.keys⟩

/-- In a run whose computes are of KPIs that can be computed exactly, the values after a compute are
those of the classes, each once, and no other. -/
theorem kpisExact_of_reach (hE : K.sql.Lawful) (h : (kpiSystem K).Reach (CleanEvent K) s) :
    KpisExact K s := by
  have hsound : KpiSound K s := by
    refine h.invariant (fun s hinit => ?_) fun s event s' hs hclean hstep => ?_
    · obtain ⟨hkpis, hvalues, hlast⟩ := hinit
      refine ⟨fun kpi hkpi => ?_, ?_, kpisExact_of_last hlast⟩
      · rw [hkpis] at hkpi
        cases hkpi
      · rw [hvalues]
        exact List.nodup_nil
    · cases event with
      | write schemas tables =>
        cases hstep
        exact ⟨hs.valid, hs.keys, kpisExact_of_last rfl⟩
      | upsert definition id =>
        simp only [kpiSystem, kpiEvent] at hstep
        split at hstep
        · rename_i hvalid
          cases hstep
          exact ⟨valid_upsertKpi hs.valid (valid_of_validate hvalid), hs.keys,
            kpisExact_of_last rfl⟩
        · cases hstep
          exact ⟨hs.valid, hs.keys, kpisExact_of_last rfl⟩
      | remove id =>
        cases hstep
        exact ⟨fun kpi hkpi => hs.valid kpi (List.mem_filter.1 hkpi).1,
          hs.keys.sublist (List.filter_sublist.map _), kpisExact_of_last rfl⟩
      | compute id now uuid => exact hs.compute hE hclean hstep
  exact hsound.exact

end

/-! ## Cases by status -/

/-- The database on a table of rows whose columns are all `NULL`. -/
def nullKpis : KpiEngine (Option Int) Int Unit where
  sql := nullTable (Option Int)
  platform := ⟨fun n => toString n, fun _ => 0, fun _ => .null, fun _ => .null, fun _ => .null, 100⟩
  value _ _ := .null
  isExpression _ _ := false
  bare := List.head?
  numberOf _ := 0

/-- The number of cases by status. -/
def casesByStatus : KpiDefinition (Option Int) :=
  ⟨"cases", "cases", "count", none, none, some "status", none, none, none⟩

/-- A table of cases. -/
def casesTable (rows : List Unit) : String → Option (KpiTable Unit) :=
  fun _ => some ⟨["id", "status", "deleted_at"], rows⟩

/-- The service before any KPI is defined. -/
def noKpis : KpiState (Option Int) Int Unit := ⟨fun _ => none, fun _ => none, [], [], none⟩

/-- The cases are counted by status. -/
def countedCases : List (KpiEvent (Option Int) Unit) :=
  [.upsert casesByStatus "k1", .write (fun _ => some "cms_cases") (casesTable [(), ()]),
    .compute "k1" "2024-01-01T00:00:00.000Z" fun _ => "v1"]

/-- Two cases without a status are counted. -/
theorem kpisExact_cases : ∃ s : KpiState (Option Int) Int Unit,
    storedValues s.values "k1" = [("all", "all", 2)] ∧ KpisExact nullKpis s := by
  have h0 : (kpiSystem nullKpis).Reach (CleanEvent nullKpis) noKpis := .init ⟨rfl, rfl, rfl⟩
  have hupsert : ∀ s, CleanEvent nullKpis s (.upsert casesByStatus "k1") := fun _ => trivial
  have hwrite : ∀ s, CleanEvent nullKpis s
      (.write (fun _ => some "cms_cases") (casesTable [(), ()])) := fun _ => trivial
  have h1 := h0.step (hupsert _) rfl
  have h2 := h1.step (hwrite _) rfl
  have h3 := h2.step (a := .compute "k1" "2024-01-01T00:00:00.000Z" fun _ => "v1") ?_ rfl
  · exact ⟨_, rfl, kpisExact_of_reach (nullTable_lawful _) h3⟩
  · intro kpi tableName table hfind hschema htable
    cases hfind
    cases hschema
    cases htable
    refine ⟨rfl, fun f hf => absurd hf List.not_mem_nil, by decide, fun hnone => ?_,
      fun _ _ _ _ _ => rfl, fun v hv => absurd hv List.not_mem_nil⟩
    cases hnone

/-- The count of the cases of a status stays when the last of them is gone. -/
theorem not_kpisExact_deleted : ∃ s : KpiState (Option Int) Int Unit,
    (kpiSystem nullKpis).Reachable s ∧ ¬ KpisExact nullKpis s := by
  have hrun : ∃ s : KpiState (Option Int) Int Unit, (kpiSystem nullKpis).run noKpis
      (countedCases ++ [.write (fun _ => some "cms_cases") (casesTable []),
        .compute "k1" "2024-01-02T00:00:00.000Z" fun _ => "v2"]) = some s ∧
      s.last = some (⟨"k1", casesByStatus, true, 1⟩, "2024-01-02T00:00:00.000Z", .ok 0) ∧
      s.schemas "cases" = some "cms_cases" ∧
      s.tables "cms_cases" = some ⟨["id", "status", "deleted_at"], []⟩ ∧
      storedValues s.values "k1" = [("all", "all", 2)] := ⟨_, rfl, rfl, rfl, rfl, rfl⟩
  obtain ⟨s, hrun, hlast, hschema, htable, hvalues⟩ := hrun
  have hstart : (kpiSystem nullKpis).Reachable noKpis := .init ⟨rfl, rfl, rfl⟩
  refine ⟨s, hstart.run hrun, fun hexact => ?_⟩
  have hfits : nullKpis.Fits "cms_cases" ⟨["id", "status", "deleted_at"], []⟩ casesByStatus := by
    refine ⟨by decide, fun f hf => absurd hf List.not_mem_nil, fun column hcolumn => ?_,
      fun e he => ?_, fun h => absurd rfl h⟩
    · cases hcolumn
      decide
    · cases he
  obtain ⟨-, hperm⟩ := hexact _ _ _ _ _ hlast hschema htable hfits
  have hlength := hperm.length_eq
  have hone : (storedValues s.values "k1").length = 1 := by rw [hvalues]; rfl
  exact absurd (hone.symm.trans hlength) (by decide)

end HeadlessErp
