import HeadlessErp.Query.Steps

/-!
# The scope of a list and of an aggregate

`listItems` and `runAggregate` of `apps/api/src/lib/services/collection-query.service.ts` both
rebuild the selection of a parsed list query. The aggregate should range over the rows that the list
counts. It leaves out the filter groups and the role's row filter; and it knows the columns of the
schema only, where the list also knows the system columns, so it refuses a filter or a sort on one
of those and skips a function filter on one.
-/

namespace HeadlessErp

/-! ## The code -/

/-- Field types that a search without declared columns looks at. -/
def FieldType.isSearchable : FieldType → Bool
  | text | longtext | textEditor | markdown | code | slug | phone | email | url | icon | barcode
  | csv | tags | uuid | color | select | time => true
  | _ => false

section
variable {N : Type} [JsNumber N]

/-- The names of a schema's fields. -/
def CollectionInfo.fieldNames (info : CollectionInfo N) : List String :=
  info.schemaFields.map (·.name)

/-- `schemaFieldSet` of `listItems`: the fields of the schema and the system columns. -/
def CollectionInfo.filterable (info : CollectionInfo N) : List String :=
  info.fieldNames ++ buildSystemColumnsList info.systemFieldOptions

/-- `searchPlan`: the columns and the mode of a search. -/
def CollectionInfo.searchPlan (info : CollectionInfo N) : List String × SearchMode :=
  let prefixFields := info.search.fields.filter info.filterable.contains
  if info.search.mode = .anchored && !prefixFields.isEmpty then (prefixFields, .anchored)
  else ((info.schemaFields.filter (·.type.isSearchable)).map (·.name), .contains)

/-- The rows that are not deleted, or the deleted ones. -/
def applyTrash (includeTrashed : Bool) (q : QueryBuilder N) : Except String (QueryBuilder N) :=
  if includeTrashed then q.whereNotNull "deleted_at" else q.whereNull "deleted_at"

/-- The selection `listItems` builds before it looks at the aggregates. -/
def listSelection (info : CollectionInfo N) (collections : List (SchemaEntry N))
    (parsed : ParsedQuery N) (includeTrashed : Bool) : Except String (QueryBuilder N) := do
  let q ← QueryBuilder.from info.tableName
  let q ← applyToQueryBuilder q parsed info.filterable info.searchPlan.1 info.searchPlan.2
  let q ← applyTrash includeTrashed q
  let q ← parsed.filterGroups.foldlM (applyGroup info.filterable) q
  let q ← applyFunctionFilters q parsed info.filterable
  applyNestedQueries collections q parsed info.schemaFields info.tableName

/-- The query whose rows `listItems` counts and pages through. -/
def listQuery (info : CollectionInfo N) (collections : List (SchemaEntry N))
    (auth : Option (AuthContext N)) (filter : Option (JsVal N)) (parsed : ParsedQuery N)
    (includeTrashed : Bool) : Except String (QueryBuilder N) := do
  let q ← listSelection info collections parsed includeTrashed
  applyRowFilter q auth filter

/-- The columns an aggregate may name besides the schema's. -/
def aggregateColumns : List String := ["id", "created_at", "updated_at"]

/-- `opMap`, with the opening parenthesis and what closes it. -/
def AggregateOp.sql : AggregateOp → String × String
  | count => ("COUNT(", ")")
  | countDistinct => ("COUNT(DISTINCT(", "))")
  | sum => ("SUM(", ")")
  | avg => ("AVG(", ")")
  | min => ("MIN(", ")")
  | max => ("MAX(", ")")

/-- The expression of an aggregate. -/
def aggregateSelect (names : List String) (a : AggregateClause) : Except String String :=
  if a.field != "*" && !names.contains a.field && !aggregateColumns.contains a.field then
    .error ("Unknown aggregate field \"" ++ a.field ++ "\" for this collection")
  else do
    let field ← if a.field == "*" then .ok "*" else sanitizeIdentifier a.field "aggregate.field"
    let asName ← sanitizeIdentifier a.asName "aggregate.alias"
    .ok (a.op.sql.1 ++ field ++ a.op.sql.2 ++ " as " ++ asName)

/-- A `GroupByClause`: a column, or a date bucket of one. -/
structure GroupByClause where
  field : String
  fn : Option String
  deriving DecidableEq, Repr

/-- The regular expression `[a-zA-Z][a-zA-Z0-9_]*`. -/
def isGroupField (s : String) : Bool :=
  match s.toList with
  | [] => false
  | c :: cs => c.isAlpha && cs.all isSqlIdentChar

/-- The functions of a date bucket. -/
def groupFunctions : List String := ["month", "year", "date", "week", "quarter"]

/-- `parseGroupByClause`. -/
def parseGroupByClause (raw : String) : Option GroupByClause :=
  let fn := String.ofList (raw.toList.takeWhile (· != '('))
  let rest := (raw.toList.dropWhile (· != '(')).drop 1
  let field := String.ofList rest.dropLast
  if groupFunctions.contains fn && rest.getLast? == some ')' && isGroupField field then
    some ⟨field, some fn⟩
  else if isGroupField raw then some ⟨raw, none⟩ else none

/-- `GROUP_FN_FMTS`. -/
def groupFormat (fn : String) : String :=
  if fn == "year" then "%Y"
  else if fn == "date" then "%Y-%m-%d"
  else if fn == "week" then "%G-W%V"
  else "%Y-%m"

/-- `groupByFnExpr`. -/
def groupByFnExpr (fn quotedField : String) : String :=
  if fn == "quarter" then
    "printf('Q%01d-%04d', ((CAST(strftime('%m', " ++ quotedField
      ++ ") AS INTEGER) + 2) / 3), CAST(strftime('%Y', " ++ quotedField ++ ") AS INTEGER))"
  else "strftime('" ++ groupFormat fn ++ "', " ++ quotedField ++ ")"

/-- `groupBySelectExpr`. -/
def groupBySelectExpr (g : GroupByClause) : String :=
  match g.fn with
  | some fn => groupByFnExpr fn (quoteColumn g.field) ++ " as " ++ quoteColumn (fn ++ "_" ++ g.field)
  | none => quoteColumn g.field ++ " as " ++ quoteColumn g.field

/-- The groups of an aggregate: an entry that cannot be honoured is dropped. -/
def groupClauses (names groupBy : List String) : List GroupByClause :=
  (groupBy.filterMap parseGroupByClause).filter fun g =>
    g.field == "*" || names.contains g.field || aggregateColumns.contains g.field

/-- The query `runAggregate` runs. -/
def aggregateQuery (info : CollectionInfo N) (collections : List (SchemaEntry N))
    (parsed : ParsedQuery N) (includeTrashed : Bool) : Except String (QueryBuilder N) := do
  let aggSelects ← parsed.aggregate.mapM (aggregateSelect info.fieldNames)
  let q ← QueryBuilder.from info.tableName
  let q ← applyTrash includeTrashed q
  let q ← applyToQueryBuilder q parsed info.fieldNames info.searchPlan.1 info.searchPlan.2
  let q ← applyFunctionFilters q parsed info.fieldNames
  let q ← applyNestedQueries collections q parsed info.schemaFields info.tableName
  let groupSelects := (groupClauses info.fieldNames parsed.groupBy).map groupBySelectExpr
  let q ← q.select []
  .ok (q.clearOrderBy.selectRawWith [.text (", ".intercalate (groupSelects ++ aggSelects))] [])

variable {Row : Type}

/-- The rows a list request counts. -/
def listRows (E : SqlEngine N Row) (info : CollectionInfo N) (collections : List (SchemaEntry N))
    (auth : Option (AuthContext N)) (filter : Option (JsVal N)) (parsed : ParsedQuery N)
    (includeTrashed : Bool) (rows : List Row) : Except String (List Row) := do
  let q ← listQuery info collections auth filter parsed includeTrashed
  E.select q rows

/-- The rows an aggregate request ranges over: `listItems` builds its own selection first. -/
def aggregateRows (E : SqlEngine N Row) (info : CollectionInfo N)
    (collections : List (SchemaEntry N)) (parsed : ParsedQuery N) (includeTrashed : Bool)
    (rows : List Row) : Except String (List Row) := do
  let _ ← listSelection info collections parsed includeTrashed
  let q ← aggregateQuery info collections parsed includeTrashed
  E.select q rows

/-- `meta.total` of a list request. -/
def listTotal (E : SqlEngine N Row) (info : CollectionInfo N) (collections : List (SchemaEntry N))
    (auth : Option (AuthContext N)) (filter : Option (JsVal N)) (parsed : ParsedQuery N)
    (includeTrashed : Bool) (rows : List Row) : Except String Nat :=
  List.length <$> listRows E info collections auth filter parsed includeTrashed rows

/-- `COUNT(*)` of an aggregate request. -/
def aggregateCount (E : SqlEngine N Row) (info : CollectionInfo N)
    (collections : List (SchemaEntry N)) (parsed : ParsedQuery N) (includeTrashed : Bool)
    (rows : List Row) : Except String Nat :=
  List.length <$> aggregateRows E info collections parsed includeTrashed rows

end

/-! ## What the two scopes say -/

section
variable {N : Type} [JsNumber N]

/-- The conditions both scopes have. -/
def sharedQuery (info : CollectionInfo N) (collections : List (SchemaEntry N))
    (parsed : ParsedQuery N) (includeTrashed : Bool) : Except String (QueryBuilder N) := do
  let q ← QueryBuilder.from info.tableName
  let q ← applyTrash includeTrashed q
  let q ← parsed.filters.foldlM (applyFilter info.filterable) q
  let q ← applyFunctionFilters q parsed info.fieldNames
  applyNestedQueries collections q parsed info.schemaFields info.tableName

/-- The conditions a role's row filter is compiled to. -/
def compiledFilter (auth : Option (AuthContext N)) (filter : Option (JsVal N)) :
    List (WhereClause N) :=
  (addedBy (applyRowFilter · auth filter)).getD []

/-- The row filter is joined to the query by `OR`. -/
def filterWidens (auth : Option (AuthContext N)) (filter : Option (JsVal N)) : Bool :=
  (compiledFilter auth filter).any (·.type = .or)

variable {Row : Type}

/-- A row satisfies the conditions both scopes have. -/
def sharedHolds (E : SqlEngine N Row) (info : CollectionInfo N)
    (collections : List (SchemaEntry N)) (parsed : ParsedQuery N) (includeTrashed : Bool)
    (r : Row) : Bool :=
  match sharedQuery info collections parsed includeTrashed with
  | .ok q => E.holds q.wheres r
  | .error _ => false

/-- A row satisfies a search over the columns that are known. -/
def searchHolds (E : SqlEngine N Row) (names : List String) (plan : List String × SearchMode)
    (term : String) (r : Row) : Bool :=
  let targets := searchTargets names plan.1
  term == "" || targets.isEmpty ||
    (E.raw r (searchFragment targets (searchPattern plan.2 term))).1.isTrue

/-- A row satisfies a filter group. -/
def groupHolds (E : SqlEngine N Row) (g : FilterGroup N) (r : Row) : Bool :=
  let tests := g.conditions.map fun c =>
    (E.condition r c.field (groupTest c.toFilterTest).1 (groupTest c.toFilterTest).2).isTrue
  match g.type with
  | .and => tests.all id
  | .or => tests.isEmpty || tests.any id

/-- A row satisfies a function filter. -/
def functionHolds (E : SqlEngine N Row) (ff : FunctionFilter N) (r : Row) : Bool :=
  match functionExpr ff with
  | .ok (some expr) =>
    (functionFragments expr ff.toFilterTest).all fun s => (E.raw r s).1.isTrue
  | _ => true

/-- A row satisfies what only the list applies: the search over its own columns, the filter groups,
and the function filters on system columns. -/
def listOnlyHolds (E : SqlEngine N Row) (info : CollectionInfo N) (parsed : ParsedQuery N)
    (r : Row) : Bool :=
  searchHolds E info.filterable info.searchPlan parsed.search r &&
    parsed.filterGroups.all (groupHolds E · r) &&
    parsed.functionFilters.all fun ff =>
      functionFieldKnown info.fieldNames ff || !functionFieldKnown info.filterable ff ||
        functionHolds E ff r

/-- When a row is in both scopes or in neither. Where the row filter restricts, a row that passes
the conditions both scopes have passes the aggregate's search if and only if it passes what only the
list applies, and the row filter. Where the row filter is joined by `OR`, the rows that satisfy it
are in the aggregate's scope. -/
def RowCovered (E : SqlEngine N Row) (info : CollectionInfo N) (collections : List (SchemaEntry N))
    (auth : Option (AuthContext N)) (filter : Option (JsVal N)) (parsed : ParsedQuery N)
    (includeTrashed : Bool) (r : Row) : Prop :=
  let shared := sharedHolds E info collections parsed includeTrashed r
  let search := searchHolds E info.fieldNames info.searchPlan parsed.search r
  let permitted := E.holds (compiledFilter auth filter) r
  if filterWidens auth filter then
    (permitted = true → shared = true ∧ search = true) ∧
      (shared = true → permitted = false → search = listOnlyHolds E info parsed r)
  else shared = true → search = (listOnlyHolds E info parsed r && permitted)

/-- When an aggregate ranges over the rows a list counts: it names no system column where it does
not know them, and every row is covered. -/
structure AggregateCovers (E : SqlEngine N Row) (info : CollectionInfo N)
    (collections : List (SchemaEntry N)) (auth : Option (AuthContext N)) (filter : Option (JsVal N))
    (parsed : ParsedQuery N) (includeTrashed : Bool) (rows : List Row) : Prop where
  filters : ∀ f ∈ parsed.filters, info.fieldNames.contains f.field = true
  sorts : ∀ s ∈ parsed.sorts, info.fieldNames.contains s.field = true
  selects : ∀ a ∈ parsed.aggregate, ∃ s, aggregateSelect info.fieldNames a = .ok s
  rows : ∀ r ∈ rows, RowCovered E info collections auth filter parsed includeTrashed r

/-- The aggregate returns the number the list returns, and ranges over the rows the list counts. -/
def AggregateScopeExact (E : SqlEngine N Row) (info : CollectionInfo N)
    (collections : List (SchemaEntry N)) (auth : Option (AuthContext N)) (filter : Option (JsVal N))
    (parsed : ParsedQuery N) (includeTrashed : Bool) (rows : List Row) : Prop :=
  (∀ total, listTotal E info collections auth filter parsed includeTrashed rows = .ok total →
    aggregateCount E info collections parsed includeTrashed rows = .ok total) ∧
  ∀ counted, listRows E info collections auth filter parsed includeTrashed rows = .ok counted →
    aggregateRows E info collections parsed includeTrashed rows = .ok counted

end

/-! ## The conditions of the two scopes -/

section
variable {N : Type} [JsNumber N] {Row : Type} {E : SqlEngine N Row}
  {auth : Option (AuthContext N)} {filter : Option (JsVal N)} {parsed : ParsedQuery N}
  {collections : List (SchemaEntry N)} {includeTrashed : Bool} {info : CollectionInfo N}

/-- A loop, without its messages. -/
theorem toOption_mapM {ε α β : Type} (f : α → Except ε β) (l : List α) :
    (l.mapM f).toOption = l.mapM fun a => (f a).toOption := by
  induction l with
  | nil => rfl
  | cons a l ih =>
    rw [List.mapM_cons, List.mapM_cons, ← ih]
    cases f a with
    | error e => rfl
    | ok b => cases l.mapM f <;> rfl

/-- Whether a condition can be compiled does not depend on the table. -/
theorem toOption_groupInput (table : String) (combiner : Joiner) (a : AuthContext N)
    (c : JsVal N) :
    (groupInput table combiner a c).toOption = (groupInput "" combiner a c).toOption := by
  unfold groupInput
  cases readProperty c "field" with
  | error e => rfl
  | ok field => cases h : mappedOp (c.getMember "op") <;> rfl

omit [JsNumber N] in
/-- Nor does whether an operator is valid. -/
theorem toOption_groupClause (table : String) (type : Joiner) (c : GroupInput N) :
    (groupClause table type c).toOption = (groupClause "" type c).toOption := by
  unfold groupClause validateOp
  cases WhereOp.ofText c.op <;> rfl

/-- What several conditions of a row filter add. -/
def filterGroupAdds (a : AuthContext N) (combiner : Joiner) (conditions : List (JsVal N)) :
    Option (List (WhereClause N)) := do
  let clauses ← (conditions.mapM (groupInput "" combiner a)).toOption
  let group ← (clauses.mapM (groupClause "" combiner)).toOption
  some [.group group combiner]

/-- Several conditions of a row filter. -/
theorem adds_filterGroup (a : AuthContext N) (combiner : Joiner) {conditions : List (JsVal N)}
    (hne : conditions ≠ []) :
    Adds (fun q => do
      let clauses ← conditions.mapM (groupInput q.table combiner a)
      q.whereGroup clauses combiner) (filterGroupAdds a combiner conditions) := by
  intro q
  have hinputs : (conditions.mapM (groupInput q.table combiner a)).toOption
      = (conditions.mapM (groupInput "" combiner a)).toOption := by
    rw [toOption_mapM, toOption_mapM]
    simp only [toOption_groupInput q.table]
  unfold filterGroupAdds
  rw [← hinputs]
  cases hc : conditions.mapM (groupInput q.table combiner a) with
  | error e => simp [bind, Except.bind, hc, Except.toOption]
  | ok clauses =>
    have hnil : clauses ≠ [] := by
      rintro rfl
      exact hne (List.length_eq_zero_iff.1 (length_of_mapM_eq_ok hc).symm)
    have hgroup : (clauses.mapM (groupClause q.table combiner)).toOption
        = (clauses.mapM (groupClause "" combiner)).toOption := by
      rw [toOption_mapM, toOption_mapM]
      simp only [toOption_groupClause q.table]
    simp only [QueryBuilder.whereGroup, List.isEmpty_iff, hnil, if_false, bind, Except.bind, hc,
      Except.toOption, Option.bind_some] at hgroup ⊢
    rw [← hgroup]
    cases clauses.mapM (groupClause q.table combiner) <;> rfl

omit [JsNumber N] in
/-- A parenthesized group that `AND` joins is a conjunct. -/
theorem SqlEngine.isConjunct_group (gs : List (GroupClause N)) :
    E.IsConjunct (.group gs .and) := fun _ => ⟨_, rfl⟩

/-- Several conditions restrict the query or widen it, as their combiner says. -/
theorem filterGroupAdds_cases (a : AuthContext N) (combiner : Joiner)
    (conditions : List (JsVal N)) :
    E.Restricting (filterGroupAdds a combiner conditions) ∨
      ∃ group, filterGroupAdds a combiner conditions = some [.group group .or] := by
  unfold filterGroupAdds
  cases (conditions.mapM (groupInput "" combiner a)).toOption with
  | none => exact .inl nofun
  | some clauses =>
    cases hgroup : (clauses.mapM (groupClause "" combiner)).toOption with
    | none => exact .inl (by simp [hgroup, SqlEngine.Restricting])
    | some group =>
      cases combiner with
      | and =>
        refine .inl fun l hl w hw => ?_
        simp only [Option.bind_eq_bind, Option.bind_some, hgroup, Option.some.injEq] at hl
        subst hl
        cases List.mem_singleton.1 hw
        exact SqlEngine.isConjunct_group group
      | or => exact .inr ⟨group, by simp [hgroup]⟩

/-- A condition that is compiled on its own. -/
theorem restricts_applySingleCondition (hE : E.ReadsFragments) (field op value : JsVal N) :
    E.Restricts fun q => applySingleCondition q field op value := by
  unfold applySingleCondition
  refine .read fun column _ => ?_
  split
  · exact restricts_whereNull column
  · exact restricts_whereNotNull column
  · exact restricts_whereIn hE column _
  · exact restricts_where_eq column _

/-- A row filter adds its conditions, and they restrict the query or are one group that `OR`
joins. -/
theorem adds_applyRowFilter (hE : E.ReadsFragments) :
    Adds (applyRowFilter · auth filter) (addedBy (applyRowFilter · auth filter)) ∧
      (E.Restricting (addedBy (applyRowFilter · auth filter)) ∨
        ∃ group, addedBy (applyRowFilter · auth filter) = some [.group group .or]) := by
  have restricts {f : QueryStep N} (h : E.Restricts f) : Adds f (addedBy f) ∧
      (E.Restricting (addedBy f) ∨ ∃ group, addedBy f = some [.group group .or]) := ⟨h.1, .inl h.2⟩
  unfold applyRowFilter
  split
  · exact restricts .ok
  split
  · exact restricts .ok
  split
  · exact restricts .ok
  split
  · exact restricts .ok
  · next a _ f c _ =>
    exact restricts (.read fun v _ => restricts_applySingleCondition hE _ _ _)
  · next a _ _ f conditions hnil _ =>
    have hadds := adds_filterGroup a (filterCombiner f) hnil
    refine ⟨hadds.addedBy_eq ▸ hadds, ?_⟩
    rw [hadds.addedBy_eq]
    exact filterGroupAdds_cases a (filterCombiner f) _

/-- What the trash scope adds. -/
def trashClause (includeTrashed : Bool) : WhereClause N :=
  .single "deleted_at" (if includeTrashed then .isNotNull else .isNull) .null .and

omit [JsNumber N] in
/-- The trash scope. -/
theorem applyTrash_eq (q : QueryBuilder N) :
    applyTrash includeTrashed q = .ok (q.pushWhere (trashClause includeTrashed)) := by
  cases includeTrashed <;> rfl

/-- What the flat filters add, where these names are known. -/
def filtersAdd (names : List String) (parsed : ParsedQuery N) : Option (List (WhereClause N)) :=
  collect (fun f => addedBy (applyFilter names · f)) parsed.filters

/-- What the function filters add, where these names are known. -/
def functionsAdd (names : List String) (parsed : ParsedQuery N) : Option (List (WhereClause N)) :=
  collect (functionAdds names) parsed.functionFilters

/-- What the relation filters add. -/
def nestedAdd (info : CollectionInfo N) (collections : List (SchemaEntry N))
    (parsed : ParsedQuery N) : Option (List (WhereClause N)) :=
  addedBy fun q => applyNestedQueries collections q parsed info.schemaFields info.tableName

/-- What the sorts add: nothing, where their fields are known. -/
def sortsAdd (names : List String) (parsed : ParsedQuery N) : Option (List (WhereClause N)) :=
  collect (sortAdds names) parsed.sorts

omit [JsNumber N] in
/-- Sorts add no condition. -/
theorem sortsAdd_eq_some {names : List String} {l : List (WhereClause N)}
    (h : sortsAdd names parsed = some l) : l = [] := by
  refine List.eq_nil_iff_forall_not_mem.2 fun w hw => ?_
  obtain ⟨s, -, ds, hds, hm⟩ := (mem_collect h).1 hw
  unfold sortAdds at hds
  split at hds
  · obtain ⟨_, -, rfl⟩ := Option.map_eq_some_iff.1 hds
    cases hm
  · cases hds

omit [JsNumber N] in
/-- A projection adds no condition. -/
theorem fieldsAdd_eq_some {names fields : List String} {l : List (WhereClause N)}
    (h : fieldsAdd names fields = some l) : l = [] := by
  unfold fieldsAdd at h
  simp only at h
  split at h
  · cases h
    rfl
  · obtain ⟨_, -, rfl⟩ := Option.map_eq_some_iff.1 h
    rfl

/-- What `applyToQueryBuilder` adds. -/
def queryAdds (names searchFields : List String) (mode : SearchMode) (parsed : ParsedQuery N) :
    Option (List (WhereClause N)) := do
  let _ ← fieldsAdd (N := N) names parsed.fields
  let f ← filtersAdd names parsed
  let _ ← sortsAdd names parsed
  let s ← searchAdds names searchFields mode parsed.search
  some (f ++ s)

/-- `applyToQueryBuilder`. -/
theorem adds_applyToQueryBuilder (hE : E.ReadsFragments) (names searchFields : List String)
    (mode : SearchMode) :
    Adds (applyToQueryBuilder · parsed names searchFields mode)
      (queryAdds names searchFields mode parsed) := by
  have hfilters : Adds (parsed.filters.foldlM (applyFilter names)) (filtersAdd names parsed) :=
    Adds.foldlM fun f _ => (restricts_applyFilter hE names f).1
  have hsorts : Adds (parsed.sorts.foldlM (applySort (N := N) names)) (sortsAdd names parsed) :=
    Adds.foldlM fun s _ => adds_applySort names s
  have h := (adds_applyFields (N := N) names parsed.fields).bind
    (hfilters.bind (hsorts.bind (adds_applySearch names searchFields mode parsed.search)))
  refine Eq.mp (congrArg _ ?_) h
  unfold queryAdds
  cases hf : fieldsAdd (N := N) names parsed.fields with
  | none => rfl
  | some l =>
    cases fieldsAdd_eq_some hf
    cases hs : sortsAdd names parsed with
    | none => simp
    | some l =>
      cases sortsAdd_eq_some hs
      simp [Option.bind_assoc]

/-- What the selection of a list adds. -/
def listAdds (info : CollectionInfo N) (collections : List (SchemaEntry N)) (parsed : ParsedQuery N)
    (includeTrashed : Bool) : Option (List (WhereClause N)) := do
  let q ← queryAdds info.filterable info.searchPlan.1 info.searchPlan.2 parsed
  let g ← collect (groupAdds info.filterable) parsed.filterGroups
  let fn ← functionsAdd info.filterable parsed
  let n ← nestedAdd info collections parsed
  some (q ++ trashClause includeTrashed :: (g ++ (fn ++ n)))

omit [JsNumber N] in
/-- The conditions of a builder after the trash scope. -/
theorem Adds.afterTrash {f : QueryStep N} {cs : Option (List (WhereClause N))} (hf : Adds f cs)
    (includeTrashed : Bool) :
    Adds (fun q => applyTrash includeTrashed q >>= f)
      (cs.map (trashClause includeTrashed :: ·)) := by
  intro q
  simp only [applyTrash_eq]
  refine (hf _).trans ?_
  cases cs <;> simp [QueryBuilder.pushWhere]

/-- The selection of a list. -/
theorem adds_listSelection (hE : E.ReadsFragments) :
    Adds (fun q => do
      let q ← applyToQueryBuilder q parsed info.filterable info.searchPlan.1 info.searchPlan.2
      let q ← applyTrash includeTrashed q
      let q ← parsed.filterGroups.foldlM (applyGroup info.filterable) q
      let q ← applyFunctionFilters q parsed info.filterable
      applyNestedQueries collections q parsed info.schemaFields info.tableName)
      (listAdds info collections parsed includeTrashed) := by
  have hgroups : Adds (parsed.filterGroups.foldlM (applyGroup info.filterable))
      (collect (groupAdds info.filterable) parsed.filterGroups) :=
    Adds.foldlM fun g _ => adds_applyGroup info.filterable g
  have hfunctions : Adds (applyFunctionFilters · parsed info.filterable)
      (functionsAdd info.filterable parsed) :=
    Adds.foldlM fun ff _ => adds_applyFunctionFilter info.filterable ff
  have hnested := (restricts_applyNestedQueries (E := E) collections parsed info.schemaFields
    info.tableName).1
  have hquery : Adds (applyToQueryBuilder · parsed info.filterable info.searchPlan.1
      info.searchPlan.2) (queryAdds info.filterable info.searchPlan.1 info.searchPlan.2 parsed) :=
    adds_applyToQueryBuilder hE _ _ _
  have h := hquery.bind ((hgroups.bind (hfunctions.bind hnested)).afterTrash includeTrashed)
  refine Eq.mp (congrArg _ ?_) h
  unfold listAdds nestedAdd
  simp [Option.map_bind, Function.comp_def, Option.bind_assoc]

/-- What the conditions both scopes have add. -/
def sharedAdds (info : CollectionInfo N) (collections : List (SchemaEntry N))
    (parsed : ParsedQuery N) (includeTrashed : Bool) : Option (List (WhereClause N)) := do
  let f ← filtersAdd info.filterable parsed
  let fn ← functionsAdd info.fieldNames parsed
  let n ← nestedAdd info collections parsed
  some (trashClause includeTrashed :: (f ++ (fn ++ n)))

/-- The conditions both scopes have. -/
theorem adds_sharedQuery (hE : E.ReadsFragments) :
    Adds (fun q => do
      let q ← applyTrash includeTrashed q
      let q ← parsed.filters.foldlM (applyFilter info.filterable) q
      let q ← applyFunctionFilters q parsed info.fieldNames
      applyNestedQueries collections q parsed info.schemaFields info.tableName)
      (sharedAdds info collections parsed includeTrashed) := by
  have hfilters : Adds (parsed.filters.foldlM (applyFilter info.filterable))
      (filtersAdd info.filterable parsed) :=
    Adds.foldlM fun f _ => (restricts_applyFilter hE info.filterable f).1
  have hfunctions : Adds (applyFunctionFilters · parsed info.fieldNames)
      (functionsAdd info.fieldNames parsed) :=
    Adds.foldlM fun ff _ => adds_applyFunctionFilter info.fieldNames ff
  have hnested := (restricts_applyNestedQueries (E := E) collections parsed info.schemaFields
    info.tableName).1
  refine Eq.mp (congrArg _ ?_)
    ((hfilters.bind (hfunctions.bind hnested)).afterTrash includeTrashed)
  unfold sharedAdds nestedAdd
  simp [Option.map_bind, Function.comp_def, Option.bind_assoc]

/-- What the query of an aggregate adds. -/
def aggregateAdds (info : CollectionInfo N) (collections : List (SchemaEntry N))
    (parsed : ParsedQuery N) (includeTrashed : Bool) : Option (List (WhereClause N)) := do
  let q ← queryAdds info.fieldNames info.searchPlan.1 info.searchPlan.2 parsed
  let fn ← functionsAdd info.fieldNames parsed
  let n ← nestedAdd info collections parsed
  some (trashClause includeTrashed :: (q ++ (fn ++ n)))

/-- The query of an aggregate. -/
theorem adds_aggregateQuery (hE : E.ReadsFragments) (expression : SqlText) :
    Adds (fun q => do
      let q ← applyTrash includeTrashed q
      let q ← applyToQueryBuilder q parsed info.fieldNames info.searchPlan.1 info.searchPlan.2
      let q ← applyFunctionFilters q parsed info.fieldNames
      let q ← applyNestedQueries collections q parsed info.schemaFields info.tableName
      let q ← q.select []
      .ok (q.clearOrderBy.selectRawWith expression []))
      (aggregateAdds info collections parsed includeTrashed) := by
  have hfunctions : Adds (applyFunctionFilters · parsed info.fieldNames)
      (functionsAdd info.fieldNames parsed) :=
    Adds.foldlM fun ff _ => adds_applyFunctionFilter info.fieldNames ff
  have hnested := (restricts_applyNestedQueries (E := E) collections parsed info.schemaFields
    info.tableName).1
  have hselect : Adds (fun q : QueryBuilder N => do
      let q ← q.select []
      .ok (q.clearOrderBy.selectRawWith expression [])) (some []) := fun q =>
    congrArg some (List.append_nil _).symm
  have hquery : Adds (applyToQueryBuilder · parsed info.fieldNames info.searchPlan.1
      info.searchPlan.2) (queryAdds info.fieldNames info.searchPlan.1 info.searchPlan.2 parsed) :=
    adds_applyToQueryBuilder hE _ _ _
  refine Eq.mp (congrArg _ ?_)
    ((hquery.bind (hfunctions.bind (hnested.bind hselect))).afterTrash includeTrashed)
  unfold aggregateAdds nestedAdd
  simp [Option.map_bind, Function.comp_def, Option.bind_assoc]

/-! ## What they say of a row -/

omit [JsNumber N] in
/-- One conjunct. -/
theorem SqlEngine.holds_singleton {w : WhereClause N} {t : Tri} {r : Row} {j : Joiner}
    (h : E.clauseChain r w = [(j, t)]) : E.holds [w] r = t.isTrue := by
  simp [SqlEngine.holds, SqlEngine.alternatives, h, Alternatives.ofChain, Alternatives.value]

omit [JsNumber N] in
/-- Raw text of one condition. -/
theorem SqlEngine.holds_raw {s : SqlStatement N} {r : Row} (h : (E.raw r s).2 = []) :
    E.holds [.raw s .and] r = (E.raw r s).1.isTrue :=
  SqlEngine.holds_singleton (j := .and) (by rw [SqlEngine.clauseChain, h])

/-- The conditions of a search. -/
theorem searchAdds_holds (plan : List String × SearchMode) (hE : E.ReadsFragments)
    {names : List String} {term : String} {s : List (WhereClause N)}
    (h : searchAdds names plan.1 plan.2 term = some s) :
    E.Restricting (some s) ∧
      ∀ r, (s.all fun w => E.holds [w] r) = searchHolds E names plan term r := by
  unfold searchAdds at h
  simp only at h
  split at h
  · next hnone =>
    cases h
    refine ⟨.nil, fun r => ?_⟩
    unfold searchHolds
    simp only [hnone, Bool.true_or]
    rfl
  · next hsome =>
    obtain ⟨cols, hcols, rfl⟩ := Option.map_eq_some_iff.1 h
    have hok : (searchTargets names plan.1).mapM (sanitizeIdentifier · "QueryParser.search")
        = .ok cols := by
      cases hm : (searchTargets names plan.1).mapM (sanitizeIdentifier · "QueryParser.search") with
      | error e => simp [hm, Except.toOption] at hcols
      | ok cols' => simpa [hm, Except.toOption] using hcols
    cases mapM_sanitizeIdentifier hok
    refine ⟨?_, fun r => ?_⟩
    · rintro l ⟨⟩ w hw
      cases List.mem_singleton.1 hw
      exact SqlEngine.isConjunct_raw fun r => hE.raw_search r _ _
    · unfold searchHolds
      simp only [Bool.not_eq_true] at hsome
      simp only [hsome, Bool.false_or, List.all_cons, List.all_nil, Bool.and_true]
      exact SqlEngine.holds_raw (hE.raw_search r _ _)

omit [JsNumber N] in
/-- Conditions that are all joined the same way. -/
theorem isTrue_joined {tests : List Tri} (type : Joiner) (hne : tests ≠ []) :
    (Alternatives.ofChain (tests.map (type, ·))).value.isTrue = (match type with
      | .and => (tests.map Tri.isTrue).all id
      | .or => (tests.map Tri.isTrue).isEmpty || (tests.map Tri.isTrue).any id) := by
  cases type with
  | and =>
    simp only [Alternatives.isTrue_ofChain_and, List.all_map]
    rfl
  | or =>
    have hne' : (tests.map Tri.isTrue).isEmpty = false := by simpa using hne
    simp only [Alternatives.isTrue_ofChain_or hne, hne', Bool.false_or, List.any_map]
    rfl

/-- The conditions of a filter group. -/
theorem groupAdds_holds {names : List String} {g : FilterGroup N} {ws : List (WhereClause N)}
    (h : groupAdds names g = some ws) :
    E.Restricting (some ws) ∧ ∀ r, (ws.all fun w => E.holds [w] r) = groupHolds E g r := by
  unfold groupAdds at h
  split at h
  · cases h
    split
    · next hempty =>
      refine ⟨.nil, fun r => ?_⟩
      unfold groupHolds
      simp only [List.isEmpty_iff.1 hempty, List.map_nil]
      cases g.type <;> rfl
    · next hne =>
      refine ⟨?_, fun r => ?_⟩
      · rintro l ⟨⟩ w hw
        cases List.mem_singleton.1 hw
        exact SqlEngine.isConjunct_group _
      · rw [List.all_cons, List.all_nil, Bool.and_true, SqlEngine.holds_singleton (j := .and) rfl]
        have hne' : (g.conditions.map fun c => E.condition r c.field
            (groupTest c.toFilterTest).1 (groupTest c.toFilterTest).2) ≠ [] := by
          simpa using hne
        have := isTrue_joined g.type hne'
        rw [List.map_map, List.map_map] at this
        rw [List.map_map]
        exact this
  · cases h

/-- The conditions of a function filter. -/
theorem functionAdds_holds (hE : E.ReadsFragments) {names : List String} {ff : FunctionFilter N}
    {ws : List (WhereClause N)} (h : functionAdds names ff = some ws) :
    E.Restricting (some ws) ∧ ∀ r, (ws.all fun w => E.holds [w] r)
      = (!functionFieldKnown names ff || functionHolds E ff r) := by
  unfold functionAdds at h
  split at h
  · next hknown =>
    unfold functionHolds
    rw [hknown]
    match hexpr : functionExpr ff, h with
    | .ok none, h =>
      cases h
      exact ⟨.nil, fun r => rfl⟩
    | .ok (some expr), h =>
      cases h
      have hraw := fun r => hE.raw_function r ff expr hexpr
      refine ⟨?_, fun r => ?_⟩
      · rintro l ⟨⟩ w hw
        obtain ⟨s, hs, rfl⟩ := List.mem_map.1 hw
        exact SqlEngine.isConjunct_raw fun r => hraw r s hs
      · simp only [Option.elim_some, List.all_map, Bool.not_true, Bool.false_or]
        rw [Bool.eq_iff_iff, List.all_eq_true, List.all_eq_true]
        refine forall₂_congr fun s hs => ?_
        rw [Function.comp_apply, SqlEngine.holds_raw (hraw r s hs)]
  · next hknown =>
    cases h
    refine ⟨.nil, fun r => ?_⟩
    simp only [Bool.not_eq_true] at hknown
    simp [hknown]

omit [JsNumber N] in
/-- What the items of a list say, item by item. -/
theorem collect_holds {α : Type} {cs : α → Option (List (WhereClause N))} {as : List α}
    {bs : List (WhereClause N)} {p : α → Row → Bool} (hbs : collect cs as = some bs)
    (h : ∀ a ws, cs a = some ws →
      E.Restricting (some ws) ∧ ∀ r, (ws.all fun w => E.holds [w] r) = p a r) :
    E.Restricting (some bs) ∧ ∀ r, (bs.all fun w => E.holds [w] r) = as.all (p · r) := by
  have hsome : ∀ a ∈ as, ∃ ws, cs a = some ws := fun a ha =>
    Option.isSome_iff_exists.1 (collect_isSome.1 (by simp [hbs]) a ha)
  refine ⟨?_, fun r => ?_⟩
  · rw [← hbs]
    refine .collect fun a ha => ?_
    obtain ⟨ws, hws⟩ := hsome a ha
    rw [hws]
    exact (h a ws hws).1
  · rw [all_collect hbs, Bool.eq_iff_iff, List.all_eq_true, List.all_eq_true]
    refine forall₂_congr fun a ha => ?_
    obtain ⟨ws, hws⟩ := hsome a ha
    rw [hws, Option.getD_some, (h a ws hws).2]

/-- The conditions of the function filters. -/
theorem functionsAdd_holds (hE : E.ReadsFragments) {names : List String}
    {fn : List (WhereClause N)} (h : functionsAdd names parsed = some fn) :
    E.Restricting (some fn) ∧ ∀ r, (fn.all fun w => E.holds [w] r)
      = parsed.functionFilters.all fun ff =>
        !functionFieldKnown names ff || functionHolds E ff r :=
  collect_holds (p := fun ff r => !functionFieldKnown names ff || functionHolds E ff r) h
    fun _ _ h => functionAdds_holds hE h

omit [JsNumber N] in
/-- A field that the schema knows can be filtered. -/
theorem functionFieldKnown_filterable {ff : FunctionFilter N}
    (h : functionFieldKnown info.fieldNames ff = true) :
    functionFieldKnown info.filterable ff = true := by
  unfold functionFieldKnown CollectionInfo.filterable at *
  simp only [Bool.or_eq_true, List.contains_iff_mem, List.mem_append] at h ⊢
  exact h.imp_left (Or.imp_left Or.inl)

/-- The function filters of the list: those of the aggregate and those it skips. -/
theorem functionFilters_all (r : Row) :
    (parsed.functionFilters.all fun ff =>
      !functionFieldKnown info.filterable ff || functionHolds E ff r) =
    ((parsed.functionFilters.all fun ff =>
      !functionFieldKnown info.fieldNames ff || functionHolds E ff r) &&
      parsed.functionFilters.all fun ff => functionFieldKnown info.fieldNames ff ||
        !functionFieldKnown info.filterable ff || functionHolds E ff r) := by
  have hone (ff : FunctionFilter N) :
      (!functionFieldKnown info.filterable ff || functionHolds E ff r) =
        ((!functionFieldKnown info.fieldNames ff || functionHolds E ff r) &&
          (functionFieldKnown info.fieldNames ff || !functionFieldKnown info.filterable ff ||
            functionHolds E ff r)) := by
    have hknown : functionFieldKnown info.fieldNames ff = true →
        functionFieldKnown info.filterable ff = true := functionFieldKnown_filterable
    cases hf : functionFieldKnown info.fieldNames ff with
    | false => simp
    | true => simp [hknown hf]
  induction parsed.functionFilters with
  | nil => rfl
  | cons ff ffs ih =>
    rw [List.all_cons, List.all_cons, List.all_cons, ih, hone ff]
    ac_rfl

/-- The shared conditions are added wherever the list's are. -/
theorem sharedAdds_of_listAdds {l : List (WhereClause N)}
    (hl : listAdds info collections parsed includeTrashed = some l) :
    ∃ f s g fnL fnS n, filtersAdd info.filterable parsed = some f ∧
      searchAdds info.filterable info.searchPlan.1 info.searchPlan.2 parsed.search = some s ∧
      collect (groupAdds info.filterable) parsed.filterGroups = some g ∧
      functionsAdd info.filterable parsed = some fnL ∧
      functionsAdd info.fieldNames parsed = some fnS ∧
      nestedAdd info collections parsed = some n ∧
      l = f ++ s ++ trashClause includeTrashed :: (g ++ (fnL ++ n)) := by
  unfold listAdds queryAdds at hl
  simp only [Option.bind_eq_bind, Option.bind_eq_some_iff, Option.some.injEq] at hl
  obtain ⟨q, ⟨_, -, f, hf, _, -, s, hs, rfl⟩, g, hg, fnL, hfnL, n, hn, rfl⟩ := hl
  have hfnS : (functionsAdd info.fieldNames parsed).isSome = true := by
    refine collect_isSome.2 fun ff hff => ?_
    have hknown : functionFieldKnown info.fieldNames ff = true →
        functionFieldKnown info.filterable ff = true := functionFieldKnown_filterable
    have hL := collect_isSome.1 (Option.isSome_of_eq_some hfnL) ff hff
    unfold functionAdds at hL ⊢
    split
    · next h => rwa [if_pos (hknown h)] at hL
    · rfl
  obtain ⟨fnS, hfnS⟩ := Option.isSome_iff_exists.1 hfnS
  exact ⟨f, s, g, fnL, fnS, n, hf, hs, hg, hfnL, hfnS, hn, rfl⟩

omit [JsNumber N] in
/-- A field of the schema can be filtered. -/
theorem filterable_of_fieldNames {f : String} (h : info.fieldNames.contains f = true) :
    info.filterable.contains f = true := by
  unfold CollectionInfo.filterable
  simp only [List.contains_iff_mem, List.mem_append] at h ⊢
  exact .inl h

/-- Filters on fields of the schema add the same conditions in both scopes. -/
theorem filtersAdd_eq (h : ∀ f ∈ parsed.filters, info.fieldNames.contains f.field = true) :
    filtersAdd info.fieldNames parsed = filtersAdd info.filterable parsed := by
  refine collect_congr fun f hf => ?_
  unfold applyFilter
  simp only [h f hf, filterable_of_fieldNames (h f hf), if_true]

/-- The filters that are added are on known fields. -/
theorem known_of_filtersAdd {names : List String} {l : List (WhereClause N)}
    (h : filtersAdd names parsed = some l) :
    ∀ f ∈ parsed.filters, names.contains f.field = true := by
  intro f hf
  have hsome := collect_isSome.1 (Option.isSome_of_eq_some h) f hf
  cases hknown : names.contains f.field with
  | true => rfl
  | false =>
    unfold applyFilter at hsome
    simp only [hknown, Bool.false_eq_true, if_false] at hsome
    cases hsome

omit [JsNumber N] in
/-- Sorts on known fields of the schema are known to the list; its other sorts are not. -/
theorem sortsAdd_isSome_iff {l : List (WhereClause N)}
    (hL : sortsAdd info.filterable parsed = some l) :
    (sortsAdd info.fieldNames parsed).isSome = true ↔
      ∀ s ∈ parsed.sorts, info.fieldNames.contains s.field = true := by
  unfold sortsAdd at hL ⊢
  rw [collect_isSome]
  refine forall₂_congr fun s hs => ?_
  have hsome := collect_isSome.1 (Option.isSome_of_eq_some hL) s hs
  unfold sortAdds at hsome ⊢
  split
  · next hknown =>
    refine iff_of_true ?_ hknown
    rwa [if_pos (filterable_of_fieldNames hknown)] at hsome
  · next hknown => exact iff_of_false nofun hknown

/-- A loop does not throw if and only if no item does. -/
theorem mapM_isSome_iff {ε α β : Type} {f : α → Except ε β} {l : List α} :
    (l.mapM f).toOption.isSome = true ↔ ∀ a ∈ l, (f a).toOption.isSome = true := by
  induction l with
  | nil => exact iff_of_true rfl nofun
  | cons a l ih =>
    rw [List.mapM_cons, List.forall_mem_cons, ← ih]
    cases f a with
    | error e => simp [bind, Except.bind, Except.toOption]
    | ok b =>
      cases l.mapM f <;> simp [bind, Except.bind, Except.toOption, pure, Except.pure]

omit [JsNumber N] in
/-- A projection that the list can make the aggregate can make. -/
theorem fieldsAdd_isSome (h : (fieldsAdd (N := N) info.filterable parsed.fields).isSome = true) :
    (fieldsAdd (N := N) info.fieldNames parsed.fields).isSome = true := by
  unfold fieldsAdd at h ⊢
  simp only at h ⊢
  have hsub : ∀ f ∈ parsed.fields.filter (fun f => info.fieldNames.contains f || f == "id" ||
      f == "created_at" || f == "updated_at"), f ∈ parsed.fields.filter fun f =>
        info.filterable.contains f || f == "id" || f == "created_at" || f == "updated_at" := by
    intro f hf
    simp only [List.mem_filter, Bool.or_eq_true] at hf ⊢
    exact ⟨hf.1, hf.2.imp_left (Or.imp_left (Or.imp_left filterable_of_fieldNames))⟩
  split
  · rfl
  · next hne =>
    rw [Option.isSome_map, mapM_isSome_iff]
    split at h
    · next hempty =>
      refine absurd ?_ hne
      exact List.isEmpty_iff.2 (List.eq_nil_iff_forall_not_mem.2 fun f hf => by
        have := hsub f hf
        rw [List.isEmpty_iff.1 hempty] at this
        cases this)
    · rw [Option.isSome_map, mapM_isSome_iff] at h
      exact fun f hf => h f (hsub f hf)

omit [JsNumber N] in
/-- A search that the list can make the aggregate can make. -/
theorem searchAdds_isSome {searchFields : List String} {mode : SearchMode} {term : String}
    (h : (searchAdds (N := N) info.filterable searchFields mode term).isSome = true) :
    (searchAdds (N := N) info.fieldNames searchFields mode term).isSome = true := by
  have hsub : ∀ f ∈ searchTargets info.fieldNames searchFields,
      f ∈ searchTargets info.filterable searchFields := by
    unfold searchTargets
    split
    · unfold searchFallback
      intro f hf
      simp only [List.mem_filter, List.mem_eraseDups] at hf ⊢
      exact ⟨List.contains_iff_mem.1 (filterable_of_fieldNames (List.contains_iff_mem.2 hf.1)),
        hf.2⟩
    · exact fun _ h => h
  unfold searchAdds at h ⊢
  simp only at h ⊢
  split
  · rfl
  · next hne =>
    rw [Option.isSome_map, mapM_isSome_iff]
    simp only [Bool.or_eq_true, List.isEmpty_iff, not_or] at hne
    split at h
    · next hempty =>
      rw [Bool.or_eq_true, List.isEmpty_iff] at hempty
      refine absurd (List.eq_nil_iff_forall_not_mem.2 fun f hf => ?_) hne.2
      have := hsub f hf
      rw [hempty.resolve_left hne.1] at this
      cases this
    · rw [Option.isSome_map, mapM_isSome_iff] at h
      exact fun f hf => h f (hsub f hf)

omit [JsNumber N] in
/-- The trash scope restricts. -/
theorem isConjunct_trashClause : E.IsConjunct (trashClause includeTrashed) := fun _ => ⟨_, rfl⟩

/-- The rows of the list, before the role's row filter: the conditions both scopes have, and what
only the list applies. -/
theorem listAdds_holds (hE : E.ReadsFragments) {l : List (WhereClause N)}
    (hl : listAdds info collections parsed includeTrashed = some l) :
    ∃ shared, sharedAdds info collections parsed includeTrashed = some shared ∧
      E.Restricting (some l) ∧
      ∀ r, E.holds l r = (E.holds shared r && listOnlyHolds E info parsed r) := by
  obtain ⟨f, s, g, fnL, fnS, n, hf, hs, hg, hfnL, hfnS, hn, rfl⟩ := sharedAdds_of_listAdds hl
  have hfR : E.Restricting (some f) := by
    rw [← hf]
    exact .collect fun f _ => (restricts_applyFilter hE _ f).2
  have hnR : E.Restricting (some n) := by
    rw [← hn]
    exact (restricts_applyNestedQueries collections parsed _ _).2
  obtain ⟨hsR, hsH⟩ := searchAdds_holds info.searchPlan hE hs
  obtain ⟨hgR, hgH⟩ := collect_holds (p := fun g r => groupHolds E g r) hg
    fun _ _ h => groupAdds_holds h
  obtain ⟨hfnLR, hfnLH⟩ := functionsAdd_holds hE hfnL
  obtain ⟨hfnSR, hfnSH⟩ := functionsAdd_holds hE hfnS
  have hconj : ∀ w ∈ f ++ s ++ trashClause includeTrashed :: (g ++ (fnL ++ n)),
      E.IsConjunct w := by
    simp only [List.forall_mem_append, List.forall_mem_cons]
    exact ⟨⟨hfR f rfl, hsR s rfl⟩, isConjunct_trashClause, hgR g rfl, hfnLR fnL rfl, hnR n rfl⟩
  have hconj' : ∀ w ∈ trashClause includeTrashed :: (f ++ (fnS ++ n)), E.IsConjunct w := by
    simp only [List.forall_mem_append, List.forall_mem_cons]
    exact ⟨isConjunct_trashClause, hfR f rfl, hfnSR fnS rfl, hnR n rfl⟩
  refine ⟨trashClause includeTrashed :: (f ++ (fnS ++ n)), by simp [sharedAdds, hf, hfnS, hn],
    ?_, fun r => ?_⟩
  · rintro _ ⟨⟩
    exact hconj
  · rw [SqlEngine.holds_conjuncts hconj, SqlEngine.holds_conjuncts hconj']
    simp only [List.all_append, List.all_cons, hsH, hgH, hfnLH, hfnSH, functionFilters_all,
      listOnlyHolds]
    ac_rfl

/-- The rows of the aggregate: the conditions both scopes have, and its search. -/
theorem aggregateAdds_holds (hE : E.ReadsFragments) {l a : List (WhereClause N)}
    (hl : listAdds info collections parsed includeTrashed = some l)
    (ha : aggregateAdds info collections parsed includeTrashed = some a) :
    ∃ shared, sharedAdds info collections parsed includeTrashed = some shared ∧
      (∀ f ∈ parsed.filters, info.fieldNames.contains f.field = true) ∧
      (∀ s ∈ parsed.sorts, info.fieldNames.contains s.field = true) ∧
      ∀ r, E.holds a r = (E.holds shared r &&
        searchHolds E info.fieldNames info.searchPlan parsed.search r) := by
  have hsorts : ∃ l, sortsAdd info.filterable parsed = some (l : List (WhereClause N)) := by
    unfold listAdds queryAdds at hl
    simp only [Option.bind_eq_bind, Option.bind_eq_some_iff] at hl
    obtain ⟨_, ⟨_, -, _, -, l, hl, -⟩, -⟩ := hl
    exact ⟨l, hl⟩
  obtain ⟨lSort, hsortL⟩ := hsorts
  unfold aggregateAdds queryAdds at ha
  simp only [Option.bind_eq_bind, Option.bind_eq_some_iff, Option.some.injEq] at ha
  obtain ⟨q, ⟨_, -, f, hf, sorts, hsort, s, hs, rfl⟩, fn, hfn, n, hn, rfl⟩ := ha
  have hknown := known_of_filtersAdd hf
  rw [filtersAdd_eq hknown] at hf
  have hfR : E.Restricting (some f) := by
    rw [← hf]
    exact .collect fun f _ => (restricts_applyFilter hE _ f).2
  have hnR : E.Restricting (some n) := by
    rw [← hn]
    exact (restricts_applyNestedQueries collections parsed _ _).2
  obtain ⟨hsR, hsH⟩ := searchAdds_holds info.searchPlan hE hs
  obtain ⟨hfnR, -⟩ := functionsAdd_holds hE hfn
  refine ⟨trashClause includeTrashed :: (f ++ (fn ++ n)), by simp [sharedAdds, hf, hfn, hn],
    hknown, (sortsAdd_isSome_iff hsortL).1 (by simp [hsort]), fun r => ?_⟩
  rw [SqlEngine.holds_conjuncts, SqlEngine.holds_conjuncts]
  · simp only [List.all_append, List.all_cons, hsH]
    ac_rfl
  · simp only [List.forall_mem_append, List.forall_mem_cons]
    exact ⟨isConjunct_trashClause, hfR f rfl, hfnR fn rfl, hnR n rfl⟩
  · simp only [List.forall_mem_append, List.forall_mem_cons]
    exact ⟨isConjunct_trashClause, ⟨hfR f rfl, hsR s rfl⟩, hfnR fn rfl, hnR n rfl⟩

/-- The aggregate refuses no query on fields of the schema that the list accepts. -/
theorem aggregateAdds_isSome {l : List (WhereClause N)}
    (hl : listAdds info collections parsed includeTrashed = some l)
    (hf : ∀ f ∈ parsed.filters, info.fieldNames.contains f.field = true)
    (hs : ∀ s ∈ parsed.sorts, info.fieldNames.contains s.field = true) :
    ∃ a, aggregateAdds info collections parsed includeTrashed = some a := by
  have hparts := hl
  unfold listAdds queryAdds at hparts
  simp only [Option.bind_eq_bind, Option.bind_eq_some_iff] at hparts
  obtain ⟨_, ⟨_, hfieldsL, f, hfL, _, hsortL, _, hsearchL, -⟩, -⟩ := hparts
  obtain ⟨_, _, _, _, fn, n, -, -, -, -, hfn, hn, -⟩ := sharedAdds_of_listAdds hl
  obtain ⟨fields, hfields⟩ := Option.isSome_iff_exists.1
    (fieldsAdd_isSome (Option.isSome_of_eq_some hfieldsL))
  obtain ⟨sorts, hsorts⟩ := Option.isSome_iff_exists.1 ((sortsAdd_isSome_iff hsortL).2 hs)
  obtain ⟨search, hsearch⟩ := Option.isSome_iff_exists.1
    (searchAdds_isSome (Option.isSome_of_eq_some hsearchL))
  rw [← filtersAdd_eq hf] at hfL
  exact ⟨trashClause includeTrashed :: (f ++ search ++ (fn ++ n)),
    by simp [aggregateAdds, queryAdds, hfields, hfL, hsorts, hsearch, hfn, hn]⟩

/-! ## The two requests -/

omit [JsNumber N] in
/-- A builder for a table is built where the table has a proper name. -/
theorem from_eq_ok {table : String} {q : QueryBuilder N} (h : QueryBuilder.from table = .ok q) :
    isIdentifier table = true ∧ q.wheres = [] := by
  unfold QueryBuilder.from sanitizeIdentifier at h
  split at h
  · next hid =>
    cases h
    exact ⟨hid, rfl⟩
  · cases h

omit [JsNumber N] in
/-- The rows a query selects. -/
theorem SqlEngine.select_eq_ok {q : QueryBuilder N} {rows selected : List Row} :
    E.select q rows = .ok selected ↔
      E.check q.wheres = .ok () ∧ selected = rows.filter (E.holds q.wheres) := by
  unfold SqlEngine.select
  cases E.check q.wheres with
  | error e => simp [bind, Except.bind]
  | ok u => simp [bind, Except.bind, eq_comm]

/-- The selection of a list, and the conditions it has. -/
theorem listSelection_eq_ok (hE : E.ReadsFragments) {q : QueryBuilder N}
    (h : listSelection info collections parsed includeTrashed = .ok q) :
    isIdentifier info.tableName = true ∧
      listAdds info collections parsed includeTrashed = some q.wheres := by
  obtain ⟨q₀, hq₀, hq⟩ := exists_of_bind_eq_ok h
  obtain ⟨hid, hnil⟩ := from_eq_ok hq₀
  obtain ⟨l, hl, hw⟩ := (adds_listSelection hE).wheres_eq hq
  rw [hw, hnil, List.nil_append]
  exact ⟨hid, hl⟩

/-- The rows a list counts. -/
theorem listRows_eq_ok (hE : E.ReadsFragments) {rows counted : List Row}
    (h : listRows E info collections auth filter parsed includeTrashed rows = .ok counted) :
    isIdentifier info.tableName = true ∧
      (∃ q, listSelection info collections parsed includeTrashed = .ok q) ∧
      ∃ l, listAdds info collections parsed includeTrashed = some l ∧
        E.check (l ++ compiledFilter auth filter) = .ok () ∧
        counted = rows.filter (E.holds (l ++ compiledFilter auth filter)) := by
  obtain ⟨q, hq, hsel⟩ := exists_of_bind_eq_ok h
  obtain ⟨q₁, hq₁, hfilter⟩ := exists_of_bind_eq_ok hq
  obtain ⟨hid, hl⟩ := listSelection_eq_ok hE hq₁
  obtain ⟨ws, hws, hw⟩ := ((adds_applyRowFilter hE).1).wheres_eq hfilter
  obtain ⟨hcheck, hrows⟩ := SqlEngine.select_eq_ok.1 hsel
  rw [hw] at hcheck hrows
  refine ⟨hid, ⟨q₁, hq₁⟩, q₁.wheres, hl, ?_⟩
  rw [compiledFilter, hws]
  exact ⟨hcheck, hrows⟩

/-- The query of an aggregate, and the conditions it has. -/
theorem aggregateQuery_eq_ok (hE : E.ReadsFragments) {q : QueryBuilder N}
    (h : aggregateQuery info collections parsed includeTrashed = .ok q) :
    (∀ a ∈ parsed.aggregate, ∃ s, aggregateSelect info.fieldNames a = .ok s) ∧
      aggregateAdds info collections parsed includeTrashed = some q.wheres := by
  obtain ⟨selects, hselects, h⟩ := exists_of_bind_eq_ok h
  obtain ⟨q₀, hq₀, hq⟩ := exists_of_bind_eq_ok h
  obtain ⟨l, hl, hw⟩ := (adds_aggregateQuery hE _).wheres_eq hq
  rw [hw, (from_eq_ok hq₀).2, List.nil_append]
  exact ⟨ok_of_mapM_eq_ok hselects, hl⟩

/-- An aggregate that names known columns has a query. -/
theorem exists_aggregateQuery (hE : E.ReadsFragments) {a : List (WhereClause N)}
    (hid : isIdentifier info.tableName = true)
    (hselects : ∀ a ∈ parsed.aggregate, ∃ s, aggregateSelect info.fieldNames a = .ok s)
    (ha : aggregateAdds info collections parsed includeTrashed = some a) :
    ∃ q, aggregateQuery info collections parsed includeTrashed = .ok q ∧ q.wheres = a := by
  obtain ⟨selects, hs⟩ : ∃ selects, parsed.aggregate.mapM (aggregateSelect info.fieldNames)
      = .ok selects := by
    have hsome : (parsed.aggregate.mapM (aggregateSelect info.fieldNames)).toOption.isSome
        = true := mapM_isSome_iff.2 fun a ha => by
      obtain ⟨s, hs⟩ := hselects a ha
      rw [hs]
      rfl
    cases hm : parsed.aggregate.mapM (aggregateSelect info.fieldNames) with
    | error e => simp [hm, Except.toOption] at hsome
    | ok selects => exact ⟨selects, rfl⟩
  have hadds : Adds _ (aggregateAdds info collections parsed includeTrashed) :=
    adds_aggregateQuery hE [.text (", ".intercalate
      ((groupClauses info.fieldNames parsed.groupBy).map groupBySelectExpr ++ selects))]
  rw [ha] at hadds
  obtain ⟨q, hq, hw⟩ := hadds.exists_ok { table := info.tableName }
  refine ⟨q, ?_, hw⟩
  unfold aggregateQuery QueryBuilder.from
  rw [hs, sanitizeIdentifier_of_isIdentifier hid]
  exact hq

omit [JsNumber N] in
/-- A conjunct is joined by `AND`. -/
theorem type_of_isConjunct {w : WhereClause N} (h : E.IsConjunct w) (r : Row) : w.type = .and := by
  obtain ⟨t, ht⟩ := h r
  cases w <;> simp only [SqlEngine.clauseChain, List.cons.injEq, Prod.mk.injEq] at ht <;>
    exact ht.1.1

/-- The row filter is joined to the conditions before it, at least one of them. -/
theorem holds_compiledFilter (hE : E.ReadsFragments) {l : List (WhereClause N)} (hne : l ≠ [])
    (hl : E.Restricting (some l)) (r : Row) :
    E.holds (l ++ compiledFilter auth filter) r =
      if filterWidens auth filter then
        E.holds l r || E.holds (compiledFilter auth filter) r
      else E.holds l r && E.holds (compiledFilter auth filter) r := by
  unfold filterWidens compiledFilter
  have hcases : E.Restricting (addedBy (applyRowFilter · auth filter)) ∨
      ∃ group, addedBy (applyRowFilter · auth filter) = some [.group group .or] :=
    (adds_applyRowFilter hE).2
  rcases hcases with hr | ⟨g, hg⟩
  · have hconj : ∀ w ∈ (addedBy (applyRowFilter · auth filter)).getD [], E.IsConjunct w := by
      intro w hw
      cases hws : addedBy (applyRowFilter · auth filter) with
      | none =>
        rw [hws] at hw
        cases hw
      | some ws =>
        rw [hws] at hw
        exact hr ws hws w hw
    have hnone : ((addedBy (applyRowFilter · auth filter)).getD []).any (·.type = .or)
        = false := by
      refine List.any_eq_false.2 fun w hw => ?_
      rw [type_of_isConjunct (hconj w hw) r]
      decide
    rw [hnone, SqlEngine.holds_conjuncts hconj, SqlEngine.holds_conjuncts (hl l rfl),
      SqlEngine.holds_conjuncts (List.forall_mem_append.2 ⟨hl l rfl, hconj⟩), List.all_append]
    rfl
  · rw [hg]
    have hempty : l.isEmpty = false := by simpa using hne
    have hchain : E.clauseChain r (.group g .or) = [(.or, _)] := rfl
    rw [Option.getD_some, SqlEngine.holds_append_or hchain, SqlEngine.holds_singleton hchain, hempty]
    rfl

/-- The function filters of the aggregate are among those of the list. -/
theorem mem_functionsAdd {fnL fnS : List (WhereClause N)}
    (hL : functionsAdd info.filterable parsed = some fnL)
    (hS : functionsAdd info.fieldNames parsed = some fnS) : ∀ w ∈ fnS, w ∈ fnL := by
  intro w hw
  obtain ⟨ff, hff, ws, hws, hm⟩ := (mem_collect hS).1 hw
  refine (mem_collect hL).2 ⟨ff, hff, ws, ?_, hm⟩
  unfold functionAdds at hws ⊢
  split at hws
  · next hknown => rwa [if_pos (functionFieldKnown_filterable hknown)]
  · cases hws
    cases hm

/-- The conditions of an aggregate raise no error where the list's raise none. -/
theorem check_aggregateAdds (hE : E.ReadsFragments) {l a : List (WhereClause N)}
    (hl : listAdds info collections parsed includeTrashed = some l)
    (ha : aggregateAdds info collections parsed includeTrashed = some a)
    (hcheck : E.check l = .ok ()) : E.check a = .ok () := by
  obtain ⟨f, s, g, fnL, fnS, n, hf, hs, hg, hfnL, hfnS, hn, rfl⟩ := sharedAdds_of_listAdds hl
  unfold aggregateAdds queryAdds at ha
  simp only [Option.bind_eq_bind, Option.bind_eq_some_iff, Option.some.injEq] at ha
  obtain ⟨q, ⟨_, -, f', hf', _, -, s', hs', rfl⟩, fn, hfn, n', hn', rfl⟩ := ha
  rw [filtersAdd_eq (known_of_filtersAdd hf'), hf] at hf'
  rw [hn] at hn'
  cases hf'
  cases hn'
  rw [SqlEngine.check_eq_ok] at hcheck ⊢
  simp only [List.forall_mem_append, List.forall_mem_cons] at hcheck ⊢
  obtain ⟨⟨hcf, -⟩, hct, -, hcfn, hcn⟩ := hcheck
  refine ⟨hct, ⟨hcf, ?_⟩, fun w hw => hcfn w (mem_functionsAdd hfnL hfn w hw), hcn⟩
  intro w hw
  unfold searchAdds at hs'
  simp only at hs'
  split at hs'
  · cases hs'
    cases hw
  · obtain ⟨cols, -, rfl⟩ := Option.map_eq_some_iff.1 hs'
    cases List.mem_singleton.1 hw
    refine checkClause_raw .and (List.all_eq_true.2 fun v hv => ?_)
    obtain ⟨_, -, rfl⟩ := List.mem_map.1 hv
    exact hE.bindable_text _

/-- The shared conditions, as the query that has them. -/
theorem sharedHolds_eq (hE : E.ReadsFragments) (hid : isIdentifier info.tableName = true)
    {shared : List (WhereClause N)}
    (h : sharedAdds info collections parsed includeTrashed = some shared) (r : Row) :
    sharedHolds E info collections parsed includeTrashed r = E.holds shared r := by
  have hadds : Adds _ (sharedAdds info collections parsed includeTrashed) := adds_sharedQuery hE
  rw [h] at hadds
  obtain ⟨q, hq, hw⟩ := hadds.exists_ok { table := info.tableName }
  have hshared : sharedQuery info collections parsed includeTrashed = .ok q := by
    unfold sharedQuery QueryBuilder.from
    rw [sanitizeIdentifier_of_isIdentifier hid]
    exact hq
  unfold sharedHolds
  rw [hshared]
  exact congrArg (E.holds · r) hw

omit [JsNumber N] in
/-- A restricted condition and one that is widened, against a third. -/
theorem widened_iff {shared search own permitted : Bool} :
    (shared && search) = (shared && own || permitted) ↔
      (permitted = true → shared = true ∧ search = true) ∧
        (shared = true → permitted = false → search = own) := by
  cases shared <;> cases search <;> cases own <;> cases permitted <;> decide

/-- When a row is in both scopes or in neither. -/
theorem rowCovered_iff (hE : E.ReadsFragments) (hid : isIdentifier info.tableName = true)
    {l a : List (WhereClause N)}
    (hl : listAdds info collections parsed includeTrashed = some l)
    (ha : aggregateAdds info collections parsed includeTrashed = some a) (r : Row) :
    E.holds a r = E.holds (l ++ compiledFilter auth filter) r ↔
      RowCovered E info collections auth filter parsed includeTrashed r := by
  obtain ⟨shared, hshared, hlR, hlH⟩ := listAdds_holds hE hl
  obtain ⟨shared', hshared', -, -, haH⟩ := aggregateAdds_holds hE hl ha
  cases hshared.symm.trans hshared'
  have hne : l ≠ [] := by
    rintro rfl
    obtain ⟨f, s, g, fnL, fnS, n, -, -, -, -, -, -, hnil⟩ := sharedAdds_of_listAdds hl
    simp at hnil
  unfold RowCovered
  rw [holds_compiledFilter hE hne hlR, haH, hlH, sharedHolds_eq hE hid hshared]
  simp only
  split
  · exact widened_iff
  · cases E.holds shared r <;> simp

end

/-! ## A filter group -/

/-- A title. -/
def titleField : FieldDefinition (Option Int) where
  name := "title"
  type := .text

theorem titleField_user : ∀ f ∈ [titleField], f.name ∉ systemFieldNames := by decide

/-- A collection with a title. -/
def notesInfo : CollectionInfo (Option Int) where
  tableName := "cms_notes"
  schemaFields := [titleField]
  fields_user := titleField_user

/-- The notes that have a title, asked for with a filter group. -/
def titledQuery : ParsedQuery (Option Int) where
  filterGroups := [⟨.or, [⟨⟨.nnull, .null, rfl⟩, "title"⟩]⟩]
  aggregate := [⟨.count, "*", "count"⟩]

/-- The notes without a title. -/
def untitledQuery : ParsedQuery (Option Int) where
  filters := [⟨⟨.null, .null, rfl⟩, "title"⟩]
  aggregate := [⟨.count, "*", "count"⟩]

/-- The table without values reads every text as one condition. -/
theorem nullTable_readsFragments (N : Type) [JsNumber N] : (nullTable N).ReadsFragments := by
  have hraw (r : Unit) (s : SqlStatement N) : ((nullTable N).raw r s).2 = [] := by
    unfold nullTable
    simp only
    split
    · rfl
    · split <;> rfl
  exact ⟨fun r b => hraw r _, fun r _ _ _ => hraw r _, fun r _ _ => hraw r _,
    fun r _ _ _ s _ => hraw r s, fun _ => rfl⟩

end HeadlessErp
