import HeadlessErp.Entity.Collection
import HeadlessErp.Query.Builder

/-!
# Parsed list queries

`ParsedQuery` of `apps/api/src/lib/api/query-parser.ts` and the functions that put it on a builder:
`applyToQueryBuilder` (flat filters, sorts, search), the filter groups of `listItems`,
`applyFunctionFilters`, and `applyNestedQueries` (relation filters and sorts). The names a query may
use are a parameter of the first three, as in the source.
-/

namespace HeadlessErp

/-! ## Queries -/

/-- `FilterOperator`. -/
inductive FilterOperator where
  | eq
  | neq
  | gt
  | gte
  | lt
  | lte
  | contains
  | icontains
  | ncontains
  | startswith
  | endswith
  | in
  | nin
  | null
  | nnull
  | between
  | empty
  | nempty
  deriving DecidableEq, Repr

/-- `OPERATOR_MAP`. -/
def FilterOperator.sql : FilterOperator → WhereOp
  | eq | empty => .eq
  | neq | nempty => .ne
  | gt => .gt
  | gte => .ge
  | lt => .lt
  | lte => .le
  | contains | icontains | startswith | endswith => .like
  | ncontains => .notLike
  | .in => .in
  | nin => .notIn
  | null => .isNull
  | nnull => .isNotNull
  | between => .between

section
variable {N : Type}

/-- A value of a URL: text. -/
def JsVal.isText : JsVal N → Bool
  | .str _ => true
  | _ => false

/-- The values `parseFilterValue` makes for an operator. -/
def FilterOperator.fits : FilterOperator → JsVal N → Bool
  | .in, .arr vs | .nin, .arr vs => vs.all JsVal.isText
  | .between, .arr [low, high] => low.isText && high.isText
  | .null, .null | .nnull, .null => true
  | .empty, .str s | .nempty, .str s => s == ""
  | .in, _ | .nin, _ | .between, _ | .null, _ | .nnull, _ | .empty, _ | .nempty, _ => false
  | _, v => v.isText

end

/-- An operator with a value the parser makes for it. -/
structure FilterTest (N : Type) where
  operator : FilterOperator
  value : JsVal N
  fits : operator.fits value = true

/-- A `FilterClause`. -/
structure FilterClause (N : Type) extends FilterTest N where
  field : String

/-- A `NestedFilterClause`: the path has a relation for every hop, then a column. -/
structure NestedFilterClause (N : Type) extends FilterTest N where
  path : List String

/-- A `FunctionFilter`. -/
structure FunctionFilter (N : Type) extends FilterTest N where
  field : String
  fn : String
  args : List String

/-- A `FilterGroup`. -/
structure FilterGroup (N : Type) where
  type : Joiner
  conditions : List (FilterClause N)

/-- A `SortClause`. -/
structure SortClause where
  field : String
  desc : Bool
  deriving DecidableEq, Repr

/-- `AggregateOp`. -/
inductive AggregateOp where
  | count
  | sum
  | avg
  | min
  | max
  | countDistinct
  deriving DecidableEq, Repr

/-- An `AggregateClause`. -/
structure AggregateClause where
  op : AggregateOp
  field : String
  asName : String
  deriving DecidableEq, Repr

/-- A `ParsedQuery`, without its page. -/
structure ParsedQuery (N : Type) where
  fields : List String := []
  filters : List (FilterClause N) := []
  nestedFilters : List (NestedFilterClause N) := []
  nestedSorts : List SortClause := []
  filterGroups : List (FilterGroup N) := []
  sorts : List SortClause := []
  search : String := ""
  aggregate : List AggregateClause := []
  functionFilters : List (FunctionFilter N) := []
  groupBy : List String := []

/-! ## Flat filters, sorts and search -/

section
variable {N : Type} [JsNumber N]

/-- `v[i]` of a value the parser made a list. -/
def JsVal.item (v : JsVal N) (i : Nat) : JsVal N :=
  match v with
  | .arr xs => xs.getD i .undefined
  | _ => .undefined

/-- The elements of a value the parser made a list. -/
def JsVal.items : JsVal N → List (JsVal N)
  | .arr xs => xs
  | _ => []

/-- A text between `LIKE` wildcards. -/
def likePattern (before : String) (value : JsVal N) (after : String) : JsVal N :=
  .str (before ++ value.toStr ++ after)

/-- The operators of `applyToQueryBuilder`, and `applyOperator`. -/
def applyOperator (q : QueryBuilder N) (field : String) (t : FilterTest N) :
    Except String (QueryBuilder N) :=
  match t.operator with
  | .null => q.where field (.str "IS NULL") (.str "")
  | .nnull => q.where field (.str "IS NOT NULL") (.str "")
  | .contains | .icontains => q.where field (.str "LIKE") (likePattern "%" t.value "%")
  | .ncontains => q.where field (.str "NOT LIKE") (likePattern "%" t.value "%")
  | .startswith => q.where field (.str "LIKE") (likePattern "" t.value "%")
  | .endswith => q.where field (.str "LIKE") (likePattern "%" t.value "")
  | .in => q.whereIn field t.value.items
  | .nin => q.whereNotIn field t.value.items
  | .between => do
    let q ← q.where field (.str ">=") (t.value.item 0)
    q.where field (.str "<=") (t.value.item 1)
  | .empty => q.where field (.str "=") (.str "")
  | .nempty => q.where field (.str "!=") (.str "")
  | op => q.where field (.str op.sql.text) t.value

/-- A flat filter. -/
def applyFilter (schemaFields : List String) (q : QueryBuilder N) (f : FilterClause N) :
    Except String (QueryBuilder N) :=
  if schemaFields.contains f.field then applyOperator q f.field f.toFilterTest
  else .error ("Unknown filter field \"" ++ f.field ++ "\" for this collection")

/-- A sort. -/
def applySort (schemaFields : List String) (q : QueryBuilder N) (s : SortClause) :
    Except String (QueryBuilder N) :=
  if schemaFields.contains s.field then q.addOrderBy s.field s.desc
  else .error ("Unknown sort field \"" ++ s.field ++ "\" for this collection")

/-- `escapeLikeTerm`. -/
def escapeLikeTerm (term : String) : String :=
  String.ofList (term.toList.flatMap fun c =>
    if c == '\\' || c == '%' || c == '_' then ['\\', c] else [c])

/-- The pattern of a search term. -/
def searchPattern (mode : SearchMode) (term : String) : String :=
  if mode = .anchored then escapeLikeTerm term ++ "%" else "%" ++ escapeLikeTerm term ++ "%"

/-- A search over columns: one of them matches the pattern. -/
def searchFragment (cols : List String) (pattern : String) : SqlStatement N :=
  ⟨.text "(" :: SqlText.join " OR " (cols.map fun c =>
      [.text (c ++ " LIKE "), .mark none, .text " ESCAPE '\\'"]) ++ [.text ")"],
    cols.map fun _ => .str pattern⟩

/-- The columns a search falls back to. -/
def searchFallback (schemaFields : List String) : List String :=
  schemaFields.eraseDups.filter fun f => f != "id" && f != "created_at" && f != "updated_at"

/-- The columns of a search. -/
def searchTargets (schemaFields searchFields : List String) : List String :=
  if searchFields.isEmpty then searchFallback schemaFields else searchFields

/-- The search of `applyToQueryBuilder`. -/
def applySearch (schemaFields searchFields : List String) (mode : SearchMode) (term : String)
    (q : QueryBuilder N) : Except String (QueryBuilder N) :=
  let targets := searchTargets schemaFields searchFields
  if term == "" || targets.isEmpty then .ok q
  else do
    let cols ← targets.mapM (sanitizeIdentifier · "QueryParser.search")
    let fragment := searchFragment cols (searchPattern mode term)
    .ok (q.whereRaw fragment.sql fragment.bindings)

/-- The projection of `applyToQueryBuilder`. -/
def applyFields (schemaFields fields : List String) (q : QueryBuilder N) :
    Except String (QueryBuilder N) :=
  let valid := fields.filter fun f =>
    schemaFields.contains f || f == "id" || f == "created_at" || f == "updated_at"
  if valid.isEmpty then .ok q else q.select valid

/-- `applyToQueryBuilder`. -/
def applyToQueryBuilder (q : QueryBuilder N) (parsed : ParsedQuery N) (schemaFields : List String)
    (searchFields : List String) (mode : SearchMode) : Except String (QueryBuilder N) := do
  let q ← applyFields schemaFields parsed.fields q
  let q ← parsed.filters.foldlM (applyFilter schemaFields) q
  let q ← parsed.sorts.foldlM (applySort schemaFields) q
  applySearch schemaFields searchFields mode parsed.search q

/-! ## Filter groups -/

/-- The operator and value of a clause in a filter group. -/
def groupTest (t : FilterTest N) : WhereOp × JsVal N :=
  match t.operator with
  | .contains | .icontains => (.like, likePattern "%" t.value "%")
  | .ncontains => (.notLike, likePattern "%" t.value "%")
  | .startswith => (.like, likePattern "" t.value "%")
  | .endswith => (.like, likePattern "%" t.value "")
  | op => (op.sql, t.value)

/-- A clause of a filter group. -/
def groupCondition (schemaFields : List String) (type : Joiner) (c : FilterClause N) :
    Except String (GroupInput N) :=
  if schemaFields.contains c.field then
    let (op, value) := groupTest c.toFilterTest
    .ok { column := c.field, op := op.text, value, type := some type }
  else .error ("Unknown filter field \"" ++ c.field ++ "\" for this collection")

/-- A filter group of `listItems`. -/
def applyGroup (schemaFields : List String) (q : QueryBuilder N) (g : FilterGroup N) :
    Except String (QueryBuilder N) := do
  let clauses ← g.conditions.mapM (groupCondition schemaFields g.type)
  q.whereGroup clauses .and

/-! ## Function filters -/

/-- A character of a quoted text, read from the right: the digits that follow, and the rest. -/
def quotedChar (c : Char) (acc : List Char × SqlText) : List Char × SqlText :=
  if c.isDigit then (c :: acc.1, acc.2)
  else if c == '?' then ([], .quoted (String.ofList acc.1).toNat? :: acc.2)
  else ([], .text (String.ofList (c :: acc.1)) :: acc.2)

/-- Text between quotes: what looks like a placeholder there is none. -/
def quotedText (s : String) : SqlText :=
  let (digits, rest) := s.toList.foldr quotedChar ([], [])
  .text (String.ofList digits) :: rest

/-- `s.replace(/'/g, "''")`. -/
def escapeQuotes (s : String) : String :=
  String.ofList (s.toList.flatMap fun c => if "'".toList.contains c then "''".toList else [c])

/-- The `strftime` format of a function of one part of a date. -/
def functionFormat : List (String × String) :=
  [("year", "%Y"), ("month", "%m"), ("day", "%d"), ("hour", "%H"), ("minute", "%M")]

/-- The SQL expression of a function filter; a function that is not known has none. -/
def functionExpr (ff : FunctionFilter N) : Except String (Option SqlText) :=
  let col : SqlText := .text "\"" :: quotedText ff.field ++ [.text "\""]
  let integer (fmt : String) : SqlText :=
    .text ("CAST(strftime('" ++ fmt ++ "', ") :: col ++ [.text ") AS INTEGER)"]
  if ff.fn == "strftime" then
    match ff.args with
    | [] => .error "Cannot read properties of undefined (reading 'replace')"
    | fmt :: _ =>
      .ok (some (.text "strftime('" :: quotedText (escapeQuotes fmt) ++ .text "', " :: col
        ++ [.text ")"]))
  else if ff.fn == "date" then .ok (some (.text "date(" :: col ++ [.text ")"]))
  else if ff.fn == "unixepoch" then .ok (some (integer "%s"))
  else .ok (((functionFormat.find? (·.1 == ff.fn)).map (·.2)).map integer)

/-- The conditions of a function filter. -/
def functionFragments (expr : SqlText) (t : FilterTest N) : List (SqlStatement N) :=
  let bound (op : String) (v : JsVal N) : SqlStatement N :=
    ⟨expr ++ [.text (" " ++ op ++ " "), .mark none], [v]⟩
  match t.operator with
  | .null => [⟨expr ++ [.text " IS NULL"], []⟩]
  | .nnull => [⟨expr ++ [.text " IS NOT NULL"], []⟩]
  | .between => [bound ">=" (t.value.item 0), bound "<=" (t.value.item 1)]
  | .in | .nin =>
    [⟨expr ++ .text (" " ++ t.operator.sql.text ++ " (") ::
        SqlText.join ", " (t.value.items.map fun _ => [.mark none]) ++ [.text ")"],
      t.value.items⟩]
  | .contains | .icontains => [bound "LIKE" (likePattern "%" t.value "%")]
  | .ncontains => [bound "NOT LIKE" (likePattern "%" t.value "%")]
  | .startswith => [bound "LIKE" (likePattern "" t.value "%")]
  | .endswith => [bound "LIKE" (likePattern "%" t.value "")]
  | .empty => [⟨expr ++ [.text " = ''"], []⟩]
  | .nempty => [⟨expr ++ [.text " != ''"], []⟩]
  | op => [bound op.sql.text t.value]

/-- A function filter is applied to these fields; on any other one it is skipped. -/
def functionFieldKnown (schemaFields : List String) (ff : FunctionFilter N) : Bool :=
  schemaFields.contains ff.field || ff.field == "created_at" || ff.field == "updated_at"

/-- A function filter. -/
def applyFunctionFilter (schemaFields : List String) (q : QueryBuilder N) (ff : FunctionFilter N) :
    Except String (QueryBuilder N) := do
  if functionFieldKnown schemaFields ff then
    match ← functionExpr ff with
    | none => .ok q
    | some expr =>
      .ok ((functionFragments expr ff.toFilterTest).foldl (fun q s => q.whereRaw s.sql s.bindings) q)
  else .ok q

/-- `applyFunctionFilters`. -/
def applyFunctionFilters (q : QueryBuilder N) (parsed : ParsedQuery N)
    (schemaFields : List String) : Except String (QueryBuilder N) :=
  parsed.functionFilters.foldlM (applyFunctionFilter schemaFields) q

/-! ## Relation filters and sorts -/

/-- A registered collection, as `applyNestedQueries` reads it: the fields are those of its stored
schema. -/
structure SchemaEntry (N : Type) where
  slug : String
  tableName : String
  fields : List (FieldDefinition N)

/-- `map.get(key)` for a map built from a list: a later entry replaces an earlier one. -/
def mapGet {α : Type} (key : α → String) (l : List α) (k : String) : Option α :=
  l.reverse.find? (key · == k)

/-- A relation hop: a table and its relation column. -/
structure Hop where
  table : String
  field : String
  deriving DecidableEq, Repr

/-- The loop of `resolvePath` over the relations of a path, from a table and its fields. -/
def resolveHops (collections : List (SchemaEntry N)) :
    List String → List (FieldDefinition N) → String →
      Option (List Hop × List (FieldDefinition N) × String)
  | [], fields, table => some ([], fields, table)
  | name :: path, fields, table => do
    let hop ← mapGet FieldDefinition.name fields name
    let slug ← hop.relatedCollection
    if hop.type != .m2o || slug == "" then none
    else do
      let next ← mapGet SchemaEntry.slug collections slug
      let (hops, leaf) ← resolveHops collections path next.fields next.tableName
      some (⟨table, name⟩ :: hops, leaf)

/-- `resolvePath`: the first hop, the others, and the table and column at the end. -/
def resolvePath (collections : List (SchemaEntry N)) (fields : List (FieldDefinition N))
    (table : String) (path : List String) : Option (Hop × List Hop × Hop) := do
  let leaf ← path.getLast?
  let (hops, leafFields, leafTable) ← resolveHops collections path.dropLast fields table
  match hops with
  | [] => none
  | first :: rest =>
    if (physicalColumnNames leafFields).contains leaf then some (first, rest, ⟨leafTable, leaf⟩)
    else none

/-- A subquery of the ids of a table's rows. -/
def idQueryOf (table : String) : Except String (QueryBuilder N) := do
  let q ← QueryBuilder.from table
  q.select ["id"]

/-- A relation filter: a chain of membership subqueries, from the deepest hop outward. -/
def applyNestedFilter (collections : List (SchemaEntry N)) (fields : List (FieldDefinition N))
    (table : String) (q : QueryBuilder N) (nf : NestedFilterClause N) :
    Except String (QueryBuilder N) := do
  match resolvePath collections fields table nf.path with
  | none => .error ("Unknown nested filter path \"" ++ ".".intercalate nf.path ++ "\"")
  | some (first, rest, leaf) => do
    let sub ← idQueryOf leaf.table
    let sub ← applyOperator sub leaf.field nf.toFilterTest
    let sub ← rest.foldrM (fun hop sub => do
      let wrap ← idQueryOf hop.table
      wrap.whereInSubquery hop.field false sub) sub
    q.whereInSubquery first.field false sub

/-- The correlated subqueries of a relation sort. `context` names the first table. -/
def nestedSortExpr (leaf : Hop) : String → List Hop → Except String String
  | _, [] => sanitizeIdentifier leaf.field "nestedSort.leaf"
  | context, hop :: rest => do
    let expr ← nestedSortExpr leaf "nestedSort.table" rest
    let source ← sanitizeIdentifier hop.table context
    let field ← sanitizeIdentifier hop.field "nestedSort.hop"
    let table ← sanitizeIdentifier (((rest.head?).getD leaf).table) "nestedSort.table"
    .ok ("(SELECT " ++ expr ++ " FROM " ++ table ++ " WHERE id = " ++ source ++ "." ++ field ++ ")")

/-- A relation sort; a path that is not known is skipped. -/
def applyNestedSort (collections : List (SchemaEntry N)) (fields : List (FieldDefinition N))
    (table : String) (q : QueryBuilder N) (ns : SortClause) : Except String (QueryBuilder N) := do
  match resolvePath collections fields table (splitDots ns.field) with
  | none => .ok q
  | some (first, rest, leaf) => do
    let expr ← nestedSortExpr leaf "nestedSort.sourceTable" (first :: rest)
    .ok (q.orderByRaw [.text expr] ns.desc)

/-- `applyNestedQueries`. -/
def applyNestedQueries (collections : List (SchemaEntry N)) (q : QueryBuilder N)
    (parsed : ParsedQuery N) (fields : List (FieldDefinition N)) (table : String) :
    Except String (QueryBuilder N) := do
  let q ← parsed.nestedFilters.foldlM (applyNestedFilter collections fields table) q
  parsed.nestedSorts.foldlM (applyNestedSort collections fields table) q

end

end HeadlessErp
