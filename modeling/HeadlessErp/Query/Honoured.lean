import HeadlessErp.Query.FilterKeys
import HeadlessErp.Query.Operators

/-!
# Filter keys and the query they stand for

When every filter of a request restricts the query that answers it (`filterKeysHonoured_iff`). The
parser drops none. A function filter on a field that the query does not know is skipped, and an
aggregate leaves out the filter groups.
-/

namespace HeadlessErp

section
variable {N : Type} [JsNumber N]

/-! ## Requests -/

/-- A request asks for an aggregate. -/
def asksAggregate (N : Type) (params : List (String × String)) : Bool :=
  params.any fun entry => match readParameter (N := N) entry.1 entry.2 with
    | .ok (.aggregate _) => true
    | _ => false

/-- The query that answers a request: the list's or, after it, the one of the aggregate. -/
def requestSelection (info : CollectionInfo N) (collections : List (SchemaEntry N))
    (parsed : ParsedQuery N) (includeTrashed : Bool) : Except String (QueryBuilder N) := do
  let q ← listSelection info collections parsed includeTrashed
  if parsed.aggregate.isEmpty then .ok q else aggregateQuery info collections parsed includeTrashed

/-- The fields that the query of a request knows. -/
def requestFields (info : CollectionInfo N) (params : List (String × String)) : List String :=
  if asksAggregate N params then info.fieldNames else info.filterable

variable {Row : Type}

/-- Conditions of a query, at least one, that mean this of a row, and its rows satisfy it. -/
structure QueryMeans (E : SqlEngine N Row) (q : QueryBuilder N) (ws : List (WhereClause N))
    (test : Row → Bool) : Prop where
  nonempty : ws ≠ []
  conditions : ∀ w ∈ ws, w ∈ q.wheres
  means : ∀ r, (ws.all fun w => E.holds [w] r) = test r
  restricts : ∀ r, E.holds q.wheres r = true → test r = true

/-- What a row that a group of filters selects satisfies, as to one of its filters. -/
def groupMember (E : SqlEngine N Row) (params : List (String × String)) (c : FilterClause N)
    (r : Row) : Joiner → Prop
  | .and => testHolds E c.field c.toFilterTest r = true
  | .or => ∃ c', FromGroup params .or c' ∧ testHolds E c'.field c'.toFilterTest r = true

/-- A filter restricts the query of a request. -/
def Parameter.Restricts (E : SqlEngine N Row) (info : CollectionInfo N)
    (collections : List (SchemaEntry N)) (params : List (String × String)) (q : QueryBuilder N) :
    Parameter N → Prop
  | .flat c => QueryMeans E q (operatorClauses c.field c.toFilterTest)
      (testHolds E c.field c.toFilterTest)
  | .nested nf => ∃ w, RelationClause E collections info.schemaFields info.tableName nf w ∧
      QueryMeans E q [w] (E.holds [w])
  | .function ff => ∃ ws, functionAdds (requestFields info params) ff = some ws ∧
      QueryMeans E q ws (functionHolds E ff)
  | .group _ type c => ∃ clauses, .group clauses .and ∈ q.wheres ∧
      ⟨c.field, (groupTest c.toFilterTest).1, (groupTest c.toFilterTest).2, type⟩ ∈ clauses ∧
      ∀ r, E.holds q.wheres r = true → groupMember E params c r type
  | .ignored | .aggregate _ => False

/-- A filter of a request is honoured: it is read as its key spells it, and restricts the query. -/
def KeyHonoured (E : SqlEngine N Row) (info : CollectionInfo N) (collections : List (SchemaEntry N))
    (params : List (String × String)) (q : QueryBuilder N) (key raw : String) : Prop :=
  ∃ p, readParameter key raw = .ok p ∧ p.Spelled key raw ∧
    p.Restricts E info collections params q

/-- No filter of a request is dropped. -/
def FilterKeysHonoured (E : SqlEngine N Row) (info : CollectionInfo N)
    (collections : List (SchemaEntry N)) (params : List (String × String)) (q : QueryBuilder N) :
    Prop :=
  ∀ entry ∈ params, isFilterKey entry.1 = true →
    KeyHonoured E info collections params q entry.1 entry.2

/-- The function filters of a request are on fields that its query knows, and it has no filter group
where it asks for an aggregate. -/
structure FiltersKnown (info : CollectionInfo N) (params : List (String × String)) : Prop where
  functions : ∀ ff : FunctionFilter N, FromParameter params (.function ff) →
    functionFieldKnown (requestFields info params) ff = true
  groups : asksAggregate N params = true → ∀ type c, ¬ FromGroup (N := N) params type c

end

/-! ## The query of a request -/

section
variable {N : Type} [JsNumber N] {Row : Type} {E : SqlEngine N Row} {info : CollectionInfo N}
  {collections : List (SchemaEntry N)} {params : List (String × String)} {parsed : ParsedQuery N}
  {includeTrashed : Bool} {q : QueryBuilder N}

omit [JsNumber N] in
/-- A query has aggregates where its request asks for one. -/
theorem isEmpty_aggregate (h : QueryParser.parse params = .ok parsed) :
    parsed.aggregate.isEmpty = !asksAggregate N params := by
  rw [Bool.eq_iff_iff, List.isEmpty_iff, Bool.not_eq_true', asksAggregate, List.any_eq_false]
  constructor
  · intro hnil entry hentry htrue
    obtain ⟨p, hp, hhas⟩ := (parse_spec h).1 entry hentry
    rw [hp] at htrue
    cases p with
    | aggregate a =>
      have hmem : a ∈ parsed.aggregate := hhas
      rw [hnil] at hmem
      cases hmem
    | _ => cases htrue
  · intro hnone
    refine List.eq_nil_iff_forall_not_mem.2 fun a ha => ?_
    obtain ⟨entry, hentry, hread⟩ := (parsedFrom_of_parse h).aggregate a ha
    refine hnone entry hentry ?_
    rw [hread]

/-- The conditions of the query of a request: those of its filters, and what restricts it besides. -/
structure RequestConditions (E : SqlEngine N Row) (info : CollectionInfo N)
    (collections : List (SchemaEntry N)) (parsed : ParsedQuery N) (names : List String)
    (aggregates : Bool) (ws : List (WhereClause N)) : Prop where
  conjuncts : ∀ w ∈ ws, E.IsConjunct w
  parts : ∃ f g fn n others : List (WhereClause N), filtersAdd names parsed = some f ∧
    functionsAdd names parsed = some fn ∧ nestedAdd info collections parsed = some n ∧
    (if aggregates then g = [] else collect (groupAdds names) parsed.filterGroups = some g) ∧
    (∀ w ∈ others, w.isGroup = false) ∧
    ∀ w, w ∈ ws ↔ w ∈ f ∨ w ∈ g ∨ w ∈ fn ∨ w ∈ n ∨ w ∈ others

omit [JsNumber N] in
/-- The conditions of a search are no groups. -/
theorem isGroup_searchAdds {names searchFields : List String} {mode : SearchMode} {term : String}
    {s : List (WhereClause N)} (h : searchAdds names searchFields mode term = some s) :
    ∀ w ∈ s, w.isGroup = false := by
  unfold searchAdds at h
  simp only at h
  split at h
  · cases h
    nofun
  · obtain ⟨cols, -, rfl⟩ := Option.map_eq_some_iff.1 h
    exact List.forall_mem_singleton.2 rfl

/-- The conditions of the query of a list. -/
theorem requestConditions_list (hE : E.ReadsFragments)
    (h : listSelection info collections parsed includeTrashed = .ok q) :
    RequestConditions E info collections parsed info.filterable false q.wheres := by
  obtain ⟨-, hl⟩ := listSelection_eq_ok hE h
  obtain ⟨f, s, g, fn, -, n, hf, hs, hg, hfn, -, hn, hw⟩ := sharedAdds_of_listAdds hl
  obtain ⟨-, -, hconj, -⟩ := listAdds_holds hE hl
  refine ⟨hconj _ rfl, f, g, fn, n, trashClause includeTrashed :: s, hf, hfn, hn, hg, ?_, ?_⟩
  · exact List.forall_mem_cons.2 ⟨rfl, isGroup_searchAdds hs⟩
  · intro w
    rw [hw]
    simp only [List.mem_append, List.mem_cons]
    tauto

/-- The conditions of the query of an aggregate. -/
theorem requestConditions_aggregate (hE : E.ReadsFragments)
    (h : aggregateQuery info collections parsed includeTrashed = .ok q) :
    RequestConditions E info collections parsed info.fieldNames true q.wheres := by
  obtain ⟨-, ha⟩ := aggregateQuery_eq_ok hE h
  unfold aggregateAdds queryAdds at ha
  simp only [Option.bind_eq_bind, Option.bind_eq_some_iff, Option.some.injEq] at ha
  obtain ⟨-, ⟨-, -, f, hf, -, -, s, hs, rfl⟩, fn, hfn, n, hn, hw⟩ := ha
  obtain ⟨hsR, -⟩ := searchAdds_holds info.searchPlan hE hs
  obtain ⟨hfnR, -⟩ := functionsAdd_holds hE hfn
  have hfR : E.Restricting (some f) := by
    rw [← hf]
    exact .collect fun f _ => (restricts_applyFilter hE _ f).2
  have hnR : E.Restricting (some n) := by
    rw [← hn]
    exact (restricts_applyNestedQueries collections parsed _ _).2
  refine ⟨?_, f, [], fn, n, trashClause includeTrashed :: s, hf, hfn, hn, rfl, ?_, ?_⟩
  · rw [← hw]
    simp only [List.forall_mem_append, List.forall_mem_cons]
    exact ⟨isConjunct_trashClause, ⟨hfR f rfl, hsR s rfl⟩, hfnR fn rfl, hnR n rfl⟩
  · exact List.forall_mem_cons.2 ⟨rfl, isGroup_searchAdds hs⟩
  · intro w
    rw [← hw]
    simp only [List.mem_append, List.mem_cons, List.not_mem_nil, false_or]
    tauto

/-- The conditions of the query of a request. -/
theorem requestConditions_of_selection (hE : E.ReadsFragments)
    (hparse : QueryParser.parse params = .ok parsed)
    (h : requestSelection info collections parsed includeTrashed = .ok q) :
    RequestConditions E info collections parsed (requestFields info params)
      (asksAggregate N params) q.wheres := by
  obtain ⟨q₀, hq₀, h⟩ := exists_of_bind_eq_ok h
  rw [isEmpty_aggregate hparse] at h
  unfold requestFields
  cases hasks : asksAggregate N params with
  | false =>
    rw [hasks] at h
    cases h
    exact requestConditions_list hE hq₀
  | true =>
    rw [hasks] at h
    exact requestConditions_aggregate hE h

/-- A row that a query of conjuncts selects satisfies each of them. -/
theorem RequestConditions.holds {names : List String} {aggregates : Bool}
    {ws : List (WhereClause N)} (h : RequestConditions E info collections parsed names aggregates ws)
    {r : Row} (hr : E.holds ws r = true) : ∀ w ∈ ws, E.holds [w] r = true := by
  rw [SqlEngine.holds_conjuncts h.conjuncts, List.all_eq_true] at hr
  exact hr

/-- Conditions that a query has restrict it to what they mean. -/
theorem RequestConditions.queryMeans {names : List String} {aggregates : Bool}
    (h : RequestConditions E info collections parsed names aggregates q.wheres)
    {ws : List (WhereClause N)} {test : Row → Bool} (hne : ws ≠ []) (hmem : ∀ w ∈ ws, w ∈ q.wheres)
    (hmeans : ∀ r, (ws.all fun w => E.holds [w] r) = test r) : QueryMeans E q ws test where
  nonempty := hne
  conditions := hmem
  means := hmeans
  restricts r hr := by
    rw [← hmeans r, List.all_eq_true]
    exact fun w hw => h.holds hr w (hmem w hw)

/-! ## The conditions of a filter -/

omit [JsNumber N] in
/-- What a step adds to a builder without conditions. -/
theorem exists_of_addedBy {f : QueryStep N} {l : List (WhereClause N)} (h : addedBy f = some l) :
    ∃ q', f { table := "" } = .ok q' ∧ q'.wheres = l := by
  unfold addedBy at h
  cases hq : f { table := "" } with
  | error e =>
    rw [hq] at h
    cases h
  | ok q' =>
    rw [hq] at h
    exact ⟨q', rfl, Option.some.inj h⟩

/-- A flat filter adds the conditions of its operator. -/
theorem addedBy_applyFilter {names : List String} {c : FilterClause N} {l : List (WhereClause N)}
    (hfield : isIdentifier c.field = true) (h : addedBy (applyFilter names · c) = some l) :
    l = operatorClauses c.field c.toFilterTest := by
  obtain ⟨q', hq', rfl⟩ := exists_of_addedBy h
  unfold applyFilter at hq'
  split at hq'
  · rw [applyOperator_eq hfield] at hq'
    cases hq'
    rfl
  · cases hq'

/-- An operator has a condition. -/
theorem operatorClauses_ne_nil (column : String) (t : FilterTest N) : operatorClauses column t ≠ [] := by
  obtain ⟨op, v, hfits⟩ := t
  cases op <;> simp [operatorClauses]

/-- A relation filter adds its condition. -/
theorem addedBy_applyNestedFilter (hE : E.ReadsFragments) (hL : E.Lawful)
    {fields : List (FieldDefinition N)} {table : String} {nf : NestedFilterClause N}
    {l : List (WhereClause N)} (hpath : nf.path.all isGroupField = true)
    (h : addedBy (applyNestedFilter collections fields table · nf) = some l) :
    ∃ w, RelationClause E collections fields table nf w ∧ l = [w] := by
  obtain ⟨q', hq', rfl⟩ := exists_of_addedBy h
  obtain ⟨w, hw, rfl⟩ := applyNestedFilter_eq_ok hE hL hpath hq'
  exact ⟨w, hw, rfl⟩

omit [JsNumber N] in
/-- A relation sort adds no condition. -/
theorem addedBy_applyNestedSort {fields : List (FieldDefinition N)} {table : String}
    {ns : SortClause} {l : List (WhereClause N)}
    (h : addedBy (applyNestedSort collections fields table · ns) = some l) : l = [] := by
  obtain ⟨q', hq', rfl⟩ := exists_of_addedBy h
  unfold applyNestedSort at hq'
  split at hq'
  · cases hq'
    rfl
  · obtain ⟨expr, -, hq'⟩ := exists_of_bind_eq_ok hq'
    cases hq'
    rfl

/-- The conditions of the relation filters are those of each. -/
theorem nestedAdd_spec (hE : E.ReadsFragments) (hL : E.Lawful)
    (hpaths : ∀ nf ∈ parsed.nestedFilters, nf.path.all isGroupField = true)
    {n : List (WhereClause N)} (h : nestedAdd info collections parsed = some n) :
    (∀ nf ∈ parsed.nestedFilters, ∃ w ∈ n,
      RelationClause E collections info.schemaFields info.tableName nf w) ∧
      ∀ w ∈ n, w.isGroup = false := by
  have hadds := (Adds.foldlM fun nf (_ : nf ∈ parsed.nestedFilters) =>
    (restricts_applyNestedFilter (E := E) collections info.schemaFields info.tableName nf).1).bind
    (Adds.foldlM fun ns (_ : ns ∈ parsed.nestedSorts) =>
      (restricts_applyNestedSort (E := E) collections info.schemaFields info.tableName ns).1)
  have heq := hadds.addedBy_eq.symm.trans h
  simp only [Option.bind_eq_bind, Option.bind_eq_some_iff, Option.some.injEq] at heq
  obtain ⟨filters, hfilters, sorts, hsorts, rfl⟩ := heq
  constructor
  · intro nf hnf
    obtain ⟨l, hl⟩ := Option.isSome_iff_exists.1
      (collect_isSome.1 (Option.isSome_of_eq_some hfilters) nf hnf)
    obtain ⟨w, hw, rfl⟩ := addedBy_applyNestedFilter hE hL (hpaths nf hnf) hl
    exact ⟨w, List.mem_append_left _ ((mem_collect hfilters).2
      ⟨nf, hnf, [w], hl, List.mem_singleton.2 rfl⟩), hw⟩
  · intro w hw
    obtain hw | hw := List.mem_append.1 hw
    · obtain ⟨nf, hnf, l, hl, hw⟩ := (mem_collect hfilters).1 hw
      obtain ⟨w', hw', rfl⟩ := addedBy_applyNestedFilter hE hL (hpaths nf hnf) hl
      obtain rfl := List.mem_singleton.1 hw
      cases hw'
      rfl
    · obtain ⟨ns, -, l, hl, hw⟩ := (mem_collect hsorts).1 hw
      obtain rfl := addedBy_applyNestedSort hl
      cases hw

omit [JsNumber N] in
/-- A function filter of a key has an expression. -/
theorem functionExpr_of_known {ff : FunctionFilter N}
    (h : filterFunctions.contains ff.fn = true ∧ ff.args = [] ∨
      ff.fn = "strftime" ∧ ∃ format, ff.args = [format]) :
    ∃ expr, functionExpr ff = .ok (some expr) := by
  obtain ⟨test, field, fn, args⟩ := ff
  obtain ⟨hfn, rfl⟩ | ⟨rfl, format, rfl⟩ := h
  · simp only [filterFunctions, List.contains_iff_mem, List.mem_cons, List.not_mem_nil,
      or_false] at hfn
    obtain rfl | rfl | rfl | rfl | rfl | rfl | rfl := hfn <;> exact ⟨_, rfl⟩
  · exact ⟨_, rfl⟩

/-- A function filter that adds a condition is on a field that is known. -/
theorem known_of_functionAdds {names : List String} {ff : FunctionFilter N}
    {ws : List (WhereClause N)} (h : functionAdds names ff = some ws) (hne : ws ≠ []) :
    functionFieldKnown names ff = true := by
  unfold functionAdds at h
  split at h
  · next hknown => exact hknown
  · exact absurd (Option.some.inj h).symm hne

/-- A function filter that is applied has a condition. -/
theorem exists_functionAdds {names : List String} {ff : FunctionFilter N} {expr : SqlText}
    (hknown : functionFieldKnown names ff = true) (hexpr : functionExpr ff = .ok (some expr)) :
    ∃ ws, functionAdds names ff = some ws ∧ ws ≠ [] := by
  refine ⟨_, by rw [functionAdds, if_pos hknown, hexpr]; rfl, ?_⟩
  obtain ⟨⟨op, v, hfits⟩, field, fn, args⟩ := ff
  cases op <;> simp [functionFragments]

/-- The conditions of a function filter are no groups. -/
theorem isGroup_functionAdds {names : List String} {ff : FunctionFilter N}
    {ws : List (WhereClause N)} (h : functionAdds names ff = some ws) :
    ∀ w ∈ ws, w.isGroup = false := by
  unfold functionAdds at h
  split at h
  · obtain ⟨expr, -, rfl⟩ := Option.map_eq_some_iff.1 h
    exact List.forall_mem_map.2 fun _ _ => rfl
  · cases h
    nofun

/-! ## What a request honours -/

section
variable {names : List String} {aggregates : Bool}
  (h : RequestConditions E info collections parsed names aggregates q.wheres)
include h

/-- A flat filter restricts. -/
theorem RequestConditions.filter (hL : E.Lawful) {c : FilterClause N} (hc : c ∈ parsed.filters)
    (hfield : isIdentifier c.field = true) : QueryMeans E q (operatorClauses c.field c.toFilterTest)
      (testHolds E c.field c.toFilterTest) := by
  obtain ⟨f, g, fn, n, others, hf, -, -, -, -, hmem⟩ := h.parts
  obtain ⟨l, hl⟩ := Option.isSome_iff_exists.1 (collect_isSome.1 (Option.isSome_of_eq_some hf) c hc)
  obtain rfl := addedBy_applyFilter hfield hl
  refine h.queryMeans (operatorClauses_ne_nil _ _) (fun w hw => ?_) fun r =>
    operatorClauses_holds hL hfield c.toFilterTest r
  exact (hmem w).2 (.inl ((mem_collect hf).2 ⟨c, hc, _, hl, hw⟩))

/-- A relation filter restricts. -/
theorem RequestConditions.nestedFilter (hE : E.ReadsFragments) (hL : E.Lawful)
    (hpaths : ∀ nf ∈ parsed.nestedFilters, nf.path.all isGroupField = true)
    {nf : NestedFilterClause N} (hnf : nf ∈ parsed.nestedFilters) :
    ∃ w, RelationClause E collections info.schemaFields info.tableName nf w ∧
      QueryMeans E q [w] (E.holds [w]) := by
  obtain ⟨f, g, fn, n, others, -, -, hn, -, -, hmem⟩ := h.parts
  obtain ⟨w, hw, hclause⟩ := (nestedAdd_spec hE hL hpaths hn).1 nf hnf
  refine ⟨w, hclause, h.queryMeans (List.cons_ne_nil _ _) ?_ fun r => ?_⟩
  · exact List.forall_mem_singleton.2 ((hmem w).2 (.inr (.inr (.inr (.inl hw)))))
  · rw [List.all_cons, List.all_nil, Bool.and_true]

/-- A function filter on a field that is known restricts. -/
theorem RequestConditions.functionFilter (hE : E.ReadsFragments) {ff : FunctionFilter N}
    {expr : SqlText} (hff : ff ∈ parsed.functionFilters) (hexpr : functionExpr ff = .ok (some expr))
    (hknown : functionFieldKnown names ff = true) :
    ∃ ws, functionAdds names ff = some ws ∧ QueryMeans E q ws (functionHolds E ff) := by
  obtain ⟨f, g, fn, n, others, -, hfn, -, -, -, hmem⟩ := h.parts
  obtain ⟨ws, hws, hne⟩ := exists_functionAdds hknown hexpr
  refine ⟨ws, hws, h.queryMeans hne (fun w hw => ?_) fun r => ?_⟩
  · exact (hmem w).2 (.inr (.inr (.inl ((mem_collect hfn).2 ⟨ff, hff, ws, hws, hw⟩))))
  · rw [(functionAdds_holds hE hws).2 r, hknown]
    rfl

/-- A filter of a group restricts, in the query of a list. -/
theorem RequestConditions.groupFilter (haggregates : aggregates = false) {g : FilterGroup N}
    {c : FilterClause N} (hg : g ∈ parsed.filterGroups) (hc : c ∈ g.conditions)
    (hfrom : ∀ c ∈ g.conditions, FromGroup params g.type c) :
    ∃ clauses, .group clauses .and ∈ q.wheres ∧
      ⟨c.field, (groupTest c.toFilterTest).1, (groupTest c.toFilterTest).2, g.type⟩ ∈ clauses ∧
      ∀ r, E.holds q.wheres r = true → groupMember E params c r g.type := by
  subst haggregates
  obtain ⟨f, groups, fn, n, others, -, -, -, hgroups, -, hmem⟩ := h.parts
  obtain ⟨ws, hws⟩ := Option.isSome_iff_exists.1
    (collect_isSome.1 (Option.isSome_of_eq_some hgroups) g hg)
  obtain ⟨-, hholds⟩ := groupAdds_holds (E := E) hws
  have hwheres : ∀ w ∈ ws, w ∈ q.wheres := fun w hw =>
    (hmem w).2 (.inr (.inl ((mem_collect hgroups).2 ⟨g, hg, ws, hws, hw⟩)))
  have hne : g.conditions.isEmpty = false := List.isEmpty_eq_false_iff.2 (List.ne_nil_of_mem hc)
  have hrow (r : Row) (hr : E.holds q.wheres r = true) : groupHolds E g r = true := by
    rw [← hholds r, List.all_eq_true]
    exact fun w hw => h.holds hr w (hwheres w hw)
  unfold groupAdds at hws
  split at hws
  · rw [hne] at hws
    cases hws
    refine ⟨_, hwheres _ (List.mem_singleton.2 rfl), List.mem_map.2 ⟨c, hc, rfl⟩, fun r hr => ?_⟩
    have hg := hrow r hr
    unfold groupHolds at hg
    cases htype : g.type with
    | and =>
      rw [htype] at hg
      simp only [List.all_map, List.all_eq_true] at hg
      exact hg c hc
    | or =>
      rw [htype] at hg
      simp only [List.isEmpty_map, hne, Bool.false_or, List.any_map, List.any_eq_true] at hg
      obtain ⟨c', hc', hholds⟩ := hg
      exact ⟨c', htype ▸ hfrom c' hc', hholds⟩
  · cases hws

/-- The query of an aggregate has no group. -/
theorem RequestConditions.isGroup (hE : E.ReadsFragments) (hL : E.Lawful)
    (haggregates : aggregates = true)
    (hfields : ∀ c ∈ parsed.filters, isIdentifier c.field = true)
    (hpaths : ∀ nf ∈ parsed.nestedFilters, nf.path.all isGroupField = true) :
    ∀ w ∈ q.wheres, w.isGroup = false := by
  subst haggregates
  obtain ⟨f, g, fn, n, others, hf, hfn, hn, rfl, hothers, hmem⟩ := h.parts
  intro w hw
  obtain hw | hw | hw | hw | hw := (hmem w).1 hw
  · obtain ⟨c, hc, l, hl, hw⟩ := (mem_collect hf).1 hw
    obtain rfl := addedBy_applyFilter (hfields c hc) hl
    exact isGroup_operatorClauses _ _ w hw
  · cases hw
  · obtain ⟨ff, -, l, hl, hw⟩ := (mem_collect hfn).1 hw
    exact isGroup_functionAdds hl w hw
  · exact (nestedAdd_spec hE hL hpaths hn).2 w hw
  · exact hothers w hw

end

omit [JsNumber N] in
/-- The names in a query that is parsed are those the patterns of the keys allow. -/
theorem names_of_parse (h : QueryParser.parse params = .ok parsed) :
    (∀ c ∈ parsed.filters, isIdentifier c.field = true) ∧
      ∀ nf ∈ parsed.nestedFilters, nf.path.all isGroupField = true := by
  have hfrom := parsedFrom_of_parse h
  constructor
  · intro c hc
    obtain ⟨entry, -, hread⟩ := hfrom.filters c hc
    exact isIdentifier_of_isGroupField (spelled_of_readParameter hread (.inr rfl)).1
  · intro nf hnf
    obtain ⟨entry, -, hread⟩ := hfrom.nestedFilters nf hnf
    exact (spelled_of_readParameter hread (.inr rfl)).1

end

/-! ## The notes of a year -/

/-- The notes of a year that have this title. -/
def datedParameters : List (String × String) :=
  [("filter[title][_eq]", "Minutes"), ("filter[year(created_at)][_eq]", "2024")]

/-- The year of a note. -/
def yearFilter : FunctionFilter (Option Int) where
  operator := .eq
  value := .str "2024"
  fits := rfl
  field := "created_at"
  fn := "year"
  args := []

/-- What is parsed of them. -/
def datedQuery : ParsedQuery (Option Int) where
  filters := [⟨⟨.eq, .str "Minutes", rfl⟩, "title"⟩]
  functionFilters := [yearFilter]

/-- The query that answers them. -/
def datedSelection : QueryBuilder (Option Int) where
  table := "cms_notes"
  wheres := [.single "title" .eq (.str "Minutes") .and, .single "deleted_at" .isNull .null .and] ++
    (functionAdds notesInfo.filterable yearFilter).getD []

end HeadlessErp
