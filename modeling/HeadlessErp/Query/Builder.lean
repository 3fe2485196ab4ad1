import HeadlessErp.Base.Tri
import HeadlessErp.Query.Sql

/-!
# The query builder

`QueryBuilder` of `packages/core/src/db/query-builder.ts`: the state its methods collect and the
statements it emits. A method returns the new state or the message it throws. The functions that
emit text take the number of the next placeholder and return the text, the bindings they push and
the next number (`Rendered`), as the source threads them.

A statement given as a value is a constructor of its own here (`WhereClause.inQuery`,
`WhereClause.existsQuery`), where the source marks it by the shape of the value.
-/

namespace HeadlessErp

/-! ## State -/

/-- The operators of `_validateOp`. -/
inductive WhereOp where
  | eq
  | ne
  | gt
  | lt
  | ge
  | le
  | like
  | notLike
  | in
  | notIn
  | isNull
  | isNotNull
  | between
  deriving DecidableEq, Repr

/-- The SQL spelling of an operator. -/
def WhereOp.text : WhereOp → String
  | eq => "="
  | ne => "!="
  | gt => ">"
  | lt => "<"
  | ge => ">="
  | le => "<="
  | like => "LIKE"
  | notLike => "NOT LIKE"
  | .in => "IN"
  | notIn => "NOT IN"
  | isNull => "IS NULL"
  | isNotNull => "IS NOT NULL"
  | between => "BETWEEN"

/-- `validOps`, in the source's order. -/
def WhereOp.validOps : List WhereOp :=
  [eq, ne, gt, lt, ge, le, like, notLike, .in, notIn, isNull, isNotNull, between]

/-- The operator a text spells. -/
def WhereOp.ofText (s : String) : Option WhereOp := validOps.find? (·.text == s)

/-- Every operator is spelled one way. -/
@[simp] theorem WhereOp.ofText_text (op : WhereOp) : WhereOp.ofText op.text = some op := by
  cases op <;> decide

/-- A text spells the operator it is read as. -/
theorem WhereOp.eq_text_of_ofText {s : String} {op : WhereOp} (h : WhereOp.ofText s = some op) :
    s = op.text := by
  have := List.find?_some h
  exact (beq_iff_eq.1 this).symm

/-- A clause of a parenthesized group. -/
structure GroupClause (N : Type) where
  column : String
  op : WhereOp
  value : JsVal N
  type : Joiner

/-- A `WhereClause`. -/
inductive WhereClause (N : Type) where
  | single (column : String) (op : WhereOp) (value : JsVal N) (type : Joiner)
  | group (clauses : List (GroupClause N)) (type : Joiner)
  | inQuery (column : String) (negated : Bool) (query : SqlStatement N) (type : Joiner)
  | existsQuery (negated : Bool) (query : SqlStatement N) (type : Joiner)
  | raw (fragment : SqlStatement N) (type : Joiner)

/-- How a clause joins the query before it. -/
def WhereClause.type {N : Type} : WhereClause N → Joiner
  | single _ _ _ type | group _ type | inQuery _ _ _ type | existsQuery _ _ type | raw _ type => type

/-- A `JoinClause`: a table with its condition, or raw text. -/
inductive JoinClause (N : Type) where
  | table (left : Bool) (table first second : String)
  | raw (fragment : SqlStatement N)

/-- A CTE definition. -/
structure Cte (N : Type) where
  name : String
  recursive : Bool
  query : SqlStatement N

/-- A `HAVING` condition. -/
structure Having (N : Type) where
  column : String
  op : String
  value : JsVal N

/-- An `ORDER BY` clause. -/
structure OrderBy where
  column : SqlText
  desc : Bool
  deriving DecidableEq, Repr

/-- The fields of a builder. -/
structure QueryBuilder (N : Type) where
  table : String
  columns : List String := ["*"]
  wheres : List (WhereClause N) := []
  orderBy : List OrderBy := []
  groupBy : List String := []
  havings : List (Having N) := []
  limit : Option Nat := none
  offset : Option Nat := none
  distinct : Bool := false
  returning : Bool := false
  joins : List (JoinClause N) := []
  rawSelects : List SqlText := []
  rawBindings : List (JsVal N) := []
  /-- `_conflictColumns`, and whether `_conflictAction` is `'update'`. -/
  conflict : List String × Bool := ([], false)
  ctes : List (Cte N) := []
  windows : List (String × SqlText) := []

/-! ## Rendering -/

/-- Emitted text, the bindings pushed for it and the next placeholder number. -/
structure Rendered (N : Type) where
  sql : SqlText
  bindings : List (JsVal N)
  nextIdx : Nat

section
variable {N : Type}

/-- The message of `_validateOp`. -/
def invalidOp (table op : String) : String :=
  "Invalid WHERE operator: \"" ++ op ++ "\" on table \"" ++ table ++ "\". Valid: "
    ++ ", ".intercalate (WhereOp.validOps.map WhereOp.text)

/-- `_validateOp`. -/
def validateOp (table op : String) : Except String WhereOp :=
  match WhereOp.ofText op with
  | some o => .ok o
  | none => .error (invalidOp table op)

/-- Every operator validates. -/
@[simp] theorem validateOp_text (table : String) (op : WhereOp) :
    validateOp table op.text = .ok op := by
  simp [validateOp]

/-- The regular expression `^[A-Za-z_][A-Za-z0-9_.]*$` of `_buildSingleClause`. -/
def isWhereColumn (column : String) : Bool :=
  match column.toList with
  | [] => false
  | c :: cs => isSqlIdentStart c && cs.all fun d => isSqlIdentChar d || d == '.'

/-- An identifier passes it. -/
theorem isWhereColumn_of_isIdentifier {column : String} (h : isIdentifier column = true) :
    isWhereColumn column = true := by
  unfold isIdentifier at h
  unfold isWhereColumn
  split at h
  · cases h
  · next c cs hcs =>
    rw [Bool.and_eq_true] at h
    simp only [hcs, h.1, Bool.true_and]
    exact List.all_eq_true.2 fun d hd => by simp [List.all_eq_true.1 h.2 d hd]

/-- So does the name of a column with its table. -/
theorem isWhereColumn_qualified {table column : String} (htable : isIdentifier table = true)
    (hcolumn : isIdentifier column = true) : isWhereColumn (table ++ "." ++ column) = true := by
  have hchars := isSqlIdentChar_of_isIdentifier hcolumn
  unfold isIdentifier at htable
  unfold isWhereColumn
  cases hcs : table.toList with
  | nil =>
    rw [hcs] at htable
    cases htable
  | cons c cs =>
    rw [hcs] at htable
    obtain ⟨hc, hrest⟩ := Bool.and_eq_true_iff.1 htable
    have hlist : (table ++ "." ++ column).toList = c :: (cs ++ '.' :: column.toList) := by
      simp [hcs]
    rw [hlist]
    refine Bool.and_eq_true_iff.2 ⟨hc, List.all_eq_true.2 fun d hd => ?_⟩
    rw [Bool.or_eq_true]
    rcases List.mem_append.1 hd with hd | hd
    · exact .inl (List.all_eq_true.1 hrest d hd)
    · rcases List.mem_cons.1 hd with rfl | hd
      · exact .inr rfl
      · exact .inl (hchars d hd)

/-- `v[i]` of a value that is read as a pair. -/
def pairItem (v : JsVal N) (i : Nat) : Except String (JsVal N) :=
  match v with
  | .arr xs => .ok (xs.getD i .undefined)
  | .str s => .ok ((s.toList[i]?).elim .undefined fun c => .str (String.singleton c))
  | .undefined => .error ("Cannot read properties of undefined (reading '" ++ toString i ++ "')")
  | .null => .error ("Cannot read properties of null (reading '" ++ toString i ++ "')")
  | _ => .ok .undefined

/-- Numbered placeholders from `idx` on, `n` of them. -/
def placeholders (idx n : Nat) : List SqlText :=
  (List.range' idx n).map fun i => [.mark (some i)]

/-- The part of `_buildSingleClause` for one column, operator and value. -/
def buildCondition (column : String) (op : WhereOp) (value : JsVal N) (idx : Nat) :
    Except String (Rendered N) :=
  if !isWhereColumn column then
    .error ("Invalid column in WHERE clause: \"" ++ column ++ "\"")
  else match op with
    | .in | .notIn =>
      match value with
      | .arr xs =>
        .ok ⟨.text (column ++ " " ++ op.text ++ " (") ::
            SqlText.join ", " (placeholders idx xs.length) ++ [.text ")"],
          xs, idx + xs.length⟩
      | _ => .error "arr.map is not a function"
    | .isNull | .isNotNull => .ok ⟨[.text (column ++ " " ++ op.text)], [], idx⟩
    | .between => do
      let low ← pairItem value 0
      let high ← pairItem value 1
      .ok ⟨[.text (column ++ " BETWEEN "), .mark (some idx), .text " AND ", .mark (some (idx + 1))],
        [low, high], idx + 2⟩
    | _ => .ok ⟨[.text (column ++ " " ++ op.text ++ " "), .mark (some idx)], [value], idx + 1⟩

/-- The raw branch of `_buildSingleClause`, and `joinRaw` in `_buildJoins`: every placeholder is
renumbered. -/
def buildRaw (fragment : SqlStatement N) (idx : Nat) : Rendered N :=
  let (sql, next) := SqlText.renumberAll idx fragment.sql
  ⟨sql, fragment.bindings, next⟩

/-- The renumbering of an embedded query: only numbered placeholders are. -/
def buildEmbedded (query : SqlStatement N) (idx : Nat) : Rendered N :=
  let (sql, next) := SqlText.renumberNumbered idx query.sql
  ⟨sql, query.bindings, next⟩

/-- Text put around a rendered text. -/
def Rendered.wrap (before after : String) (r : Rendered N) : Rendered N :=
  { r with sql := .text before :: r.sql ++ [.text after] }

/-- Render a list of items from left to right: the texts, all bindings and the next number. -/
def renderAll {α : Type} (f : α → Nat → Except String (Rendered N)) :
    List α → Nat → Except String (List SqlText × List (JsVal N) × Nat)
  | [], idx => .ok ([], [], idx)
  | a :: as, idx => do
    let r ← f a idx
    let (ts, bs, next) ← renderAll f as r.nextIdx
    .ok (r.sql :: ts, r.bindings ++ bs, next)

/-- Items that render, each with bindings of which `p` holds, render together with such bindings. -/
theorem renderAll_ok {α : Type} {f : α → Nat → Except String (Rendered N)}
    {p : JsVal N → Bool} {as : List α}
    (h : ∀ a ∈ as, ∀ idx, ∃ r, f a idx = .ok r ∧ r.bindings.all p = true) (idx : Nat) :
    ∃ ts bs next, renderAll f as idx = .ok (ts, bs, next) ∧ bs.all p = true := by
  induction as generalizing idx with
  | nil => exact ⟨[], [], idx, rfl, rfl⟩
  | cons a as ih =>
    obtain ⟨r, hr, hp⟩ := h a List.mem_cons_self idx
    obtain ⟨ts, bs, next, hts, hps⟩ := ih (fun b hb => h b (List.mem_cons_of_mem a hb)) r.nextIdx
    refine ⟨r.sql :: ts, r.bindings ++ bs, next, ?_, by simp [List.all_append, hp, hps]⟩
    rw [renderAll, hr]
    simp only [bind, Except.bind, hts]

/-- Texts joined each by its own joiner; the first one's is not written. -/
def joinClauses : List (Joiner × SqlText) → SqlText
  | [] => []
  | (_, t) :: rest =>
    t ++ rest.flatMap fun (j, u) => .text (if j = .or then " OR " else " AND ") :: u

/-- A parenthesized group in `_buildWhere`. -/
def buildGroup (clauses : List (GroupClause N)) (idx : Nat) : Except String (Rendered N) := do
  let (ts, bs, next) ← renderAll (fun g => buildCondition g.column g.op g.value) clauses idx
  .ok ⟨.text "(" :: joinClauses ((clauses.map (·.type)).zip ts) ++ [.text ")"], bs, next⟩

/-- One clause of `_buildWhere`, without its joiner. -/
def buildClause (w : WhereClause N) (idx : Nat) : Except String (Rendered N) :=
  match w with
  | .single column op value _ => buildCondition column op value idx
  | .group clauses _ => buildGroup clauses idx
  | .inQuery column negated query _ =>
    .ok ((buildEmbedded query idx).wrap (column ++ (if negated then " NOT IN (" else " IN (")) ")")
  | .existsQuery negated query _ =>
    .ok ((buildEmbedded query idx).wrap (if negated then "NOT EXISTS (" else "EXISTS (") ")")
  | .raw fragment _ => .ok (buildRaw fragment idx)

/-- `_buildWhere`. -/
def buildWhere (wheres : List (WhereClause N)) (idx : Nat) : Except String (Rendered N) := do
  let (ts, bs, next) ← renderAll buildClause wheres idx
  match wheres with
  | [] => .ok ⟨[], [], idx⟩
  | _ => .ok ⟨.text " WHERE " :: joinClauses ((wheres.map (·.type)).zip ts), bs, next⟩

/-- One clause of `_buildJoins`. -/
def buildJoin (j : JoinClause N) (idx : Nat) : Except String (Rendered N) :=
  match j with
  | .table left table first second =>
    .ok ⟨[.text ((if left then "LEFT" else "INNER") ++ " JOIN " ++ table ++ " ON " ++ first ++ " = "
      ++ second)], [], idx⟩
  | .raw fragment => .ok (buildRaw fragment idx)

/-- `_buildJoins`. -/
def buildJoins (joins : List (JoinClause N)) (idx : Nat) : Except String (Rendered N) := do
  let (ts, bs, next) ← renderAll buildJoin joins idx
  .ok ⟨ts.flatMap (.text " " :: ·), bs, next⟩

/-- `_renderCTE`. The next number is 1 where there is no definition, as its callers take it. -/
def renderCTE (ctes : List (Cte N)) : Except String (Rendered N) := do
  let (ts, bs, next) ←
    renderAll (fun c idx => .ok ((buildEmbedded c.query idx).wrap (c.name ++ " AS (") ")")) ctes 1
  if ctes.isEmpty then .ok ⟨[], [], 1⟩
  else
    let head := if ctes.any (·.recursive) then "WITH RECURSIVE " else "WITH "
    .ok ⟨.text head :: SqlText.join ", " ts ++ [.text " "], bs, next⟩

/-! ## Methods -/

/-- `from`. -/
def QueryBuilder.from (table : String) : Except String (QueryBuilder N) := do
  .ok { table := ← sanitizeIdentifier table "QueryBuilder.table" }

/-- Append a clause to the conditions. -/
def QueryBuilder.pushWhere (q : QueryBuilder N) (w : WhereClause N) : QueryBuilder N :=
  { q with wheres := q.wheres ++ [w] }

/-- `_pushRaw`. -/
def QueryBuilder.pushRaw (q : QueryBuilder N) (sql : SqlText) (bindings : List (JsVal N))
    (type : Joiner) : QueryBuilder N :=
  q.pushWhere (.raw ⟨sql, bindings⟩ type)

/-- The operator and value of `where` and `orWhere`: with a third argument the second one is the
operator. -/
def whereArgs [JsNumber N] (q : QueryBuilder N) (opOrValue maybeValue : JsVal N) :
    Except String (WhereOp × JsVal N) :=
  match maybeValue with
  | .undefined => .ok (.eq, opOrValue)
  | value =>
    match opOrValue with
    | .str op => do .ok (← validateOp q.table op, value)
    | op => .error (invalidOp q.table op.toStr)

/-- `where`. -/
def QueryBuilder.where [JsNumber N] (q : QueryBuilder N) (column : String) (opOrValue : JsVal N)
    (maybeValue : JsVal N := .undefined) : Except String (QueryBuilder N) := do
  let col ← sanitizeColumn column "QueryBuilder.where" false
  let (op, value) ← whereArgs q opOrValue maybeValue
  .ok (q.pushWhere (.single col op value .and))

/-- `orWhere`. -/
def QueryBuilder.orWhere [JsNumber N] (q : QueryBuilder N) (column : String) (opOrValue : JsVal N)
    (maybeValue : JsVal N := .undefined) : Except String (QueryBuilder N) := do
  let col ← sanitizeColumn column "QueryBuilder.orWhere" false
  let (op, value) ← whereArgs q opOrValue maybeValue
  .ok (q.pushWhere (.single col op value .or))

/-- The text of a membership test against a JSON list. -/
def jsonEachText (col : String) (op : WhereOp) : SqlText :=
  [.text (col ++ " " ++ op.text ++ " (SELECT value FROM json_each("), .mark none, .text "))"]

/-- A list of values as one JSON binding. -/
def jsonList [JsNumber N] (values : List (JsVal N)) : JsVal N :=
  .str (((JsVal.arr values).toJson).getD "")

/-- The membership methods after their test for an empty list: a long list is bound as one JSON
value. -/
def QueryBuilder.pushIn [JsNumber N] (q : QueryBuilder N) (col : String) (op : WhereOp)
    (values : List (JsVal N)) (type : Joiner) : QueryBuilder N :=
  if values.length > 50 then q.pushRaw (jsonEachText col op) [jsonList values] type
  else q.pushWhere (.single col op (.arr values) type)

/-- `whereIn`. -/
def QueryBuilder.whereIn [JsNumber N] (q : QueryBuilder N) (column : String)
    (values : List (JsVal N)) : Except String (QueryBuilder N) := do
  let col ← sanitizeColumn column "QueryBuilder.whereIn" false
  if values.isEmpty then .ok (q.pushRaw [.text "1 = 0"] [] .and)
  else .ok (q.pushIn col .in values .and)

/-- `orWhereIn`. -/
def QueryBuilder.orWhereIn [JsNumber N] (q : QueryBuilder N) (column : String)
    (values : List (JsVal N)) : Except String (QueryBuilder N) := do
  let col ← sanitizeIdentifier column "QueryBuilder.orWhereIn"
  if values.isEmpty then .ok q else .ok (q.pushIn col .in values .or)

/-- `whereNotIn`. -/
def QueryBuilder.whereNotIn [JsNumber N] (q : QueryBuilder N) (column : String)
    (values : List (JsVal N)) : Except String (QueryBuilder N) := do
  let col ← sanitizeIdentifier column "QueryBuilder.whereNotIn"
  if values.isEmpty then .ok (q.pushRaw [.text "1 = 1"] [] .and)
  else .ok (q.pushIn col .notIn values .and)

/-- `orWhereNotIn`. -/
def QueryBuilder.orWhereNotIn [JsNumber N] (q : QueryBuilder N) (column : String)
    (values : List (JsVal N)) : Except String (QueryBuilder N) := do
  let col ← sanitizeIdentifier column "QueryBuilder.orWhereNotIn"
  if values.isEmpty then .ok (q.pushRaw [.text "1 = 1"] [] .or)
  else .ok (q.pushIn col .notIn values .or)

/-- `whereNull`. -/
def QueryBuilder.whereNull (q : QueryBuilder N) (column : String) :
    Except String (QueryBuilder N) := do
  let col ← sanitizeColumn column "QueryBuilder.whereNull" false
  .ok (q.pushWhere (.single col .isNull .null .and))

/-- `orWhereNull`. -/
def QueryBuilder.orWhereNull (q : QueryBuilder N) (column : String) :
    Except String (QueryBuilder N) := do
  let col ← sanitizeIdentifier column "QueryBuilder.orWhereNull"
  .ok (q.pushWhere (.single col .isNull .null .or))

/-- `whereNotNull`. -/
def QueryBuilder.whereNotNull (q : QueryBuilder N) (column : String) :
    Except String (QueryBuilder N) := do
  let col ← sanitizeIdentifier column "QueryBuilder.whereNotNull"
  .ok (q.pushWhere (.single col .isNotNull .null .and))

/-- `orWhereNotNull`. -/
def QueryBuilder.orWhereNotNull (q : QueryBuilder N) (column : String) :
    Except String (QueryBuilder N) := do
  let col ← sanitizeIdentifier column "QueryBuilder.orWhereNotNull"
  .ok (q.pushWhere (.single col .isNotNull .null .or))

/-- `whereBetween`. -/
def QueryBuilder.whereBetween (q : QueryBuilder N) (column : String) (low high : JsVal N) :
    Except String (QueryBuilder N) := do
  let col ← sanitizeIdentifier column "QueryBuilder.whereBetween"
  .ok (q.pushWhere (.single col .between (.arr [low, high]) .and))

/-- `whereNotBetween`. -/
def QueryBuilder.whereNotBetween (q : QueryBuilder N) (column : String) (low high : JsVal N) :
    Except String (QueryBuilder N) := do
  let col ← sanitizeIdentifier column "QueryBuilder.whereNotBetween"
  .ok (q.pushRaw [.text (col ++ " NOT BETWEEN "), .mark none, .text " AND ", .mark none]
    [low, high] .and)

/-- A clause handed to `whereGroup`: the operator is still a text. -/
structure GroupInput (N : Type) where
  column : String
  op : String
  value : JsVal N
  type : Option Joiner := none

/-- A clause of `whereGroup`, its operator validated and its joiner filled in. -/
def groupClause (table : String) (groupType : Joiner) (c : GroupInput N) :
    Except String (GroupClause N) := do
  let op ← validateOp table c.op
  .ok { column := c.column, op, value := c.value, type := c.type.getD groupType }

/-- `whereGroup`. -/
def QueryBuilder.whereGroup (q : QueryBuilder N) (clauses : List (GroupInput N))
    (groupType : Joiner := .and) : Except String (QueryBuilder N) :=
  if clauses.isEmpty then .ok q
  else do
    let group ← clauses.mapM (groupClause q.table groupType)
    .ok (q.pushWhere (.group group groupType))

/-- `whereRaw`. -/
def QueryBuilder.whereRaw (q : QueryBuilder N) (sql : SqlText) (bindings : List (JsVal N)) :
    QueryBuilder N :=
  q.pushRaw sql bindings .and

/-- `orWhereRaw`. -/
def QueryBuilder.orWhereRaw (q : QueryBuilder N) (sql : SqlText) (bindings : List (JsVal N)) :
    QueryBuilder N :=
  q.pushRaw sql bindings .or

/-- `join` and `leftJoin`. -/
def QueryBuilder.join (q : QueryBuilder N) (left : Bool) (table first second : String)
    (asName : Option String := none) : Except String (QueryBuilder N) := do
  let safe ← sanitizeIdentifier table "QueryBuilder.join"
  let table ← match asName with
    | some a => do pure (safe ++ " AS " ++ (← sanitizeIdentifier a "QueryBuilder.join.alias"))
    | none => pure safe
  let first ← sanitizeColumn first "QueryBuilder.join.on" false
  let second ← sanitizeColumn second "QueryBuilder.join.on" false
  .ok { q with joins := q.joins ++ [.table left table first second] }

/-- `joinRaw`. -/
def QueryBuilder.joinRaw (q : QueryBuilder N) (clause : SqlText) (bindings : List (JsVal N)) :
    QueryBuilder N :=
  { q with joins := q.joins ++ [.raw ⟨clause, bindings⟩] }

/-- `select`. -/
def QueryBuilder.select (q : QueryBuilder N) (columns : List String) :
    Except String (QueryBuilder N) := do
  .ok { q with columns := ← columns.mapM (sanitizeColumn · "QueryBuilder.select" true) }

/-- `selectRawWith`; without bindings it is `selectRaw`. -/
def QueryBuilder.selectRawWith (q : QueryBuilder N) (expression : SqlText)
    (bindings : List (JsVal N)) (asName : Option String := none) : QueryBuilder N :=
  { q with
    rawSelects := q.rawSelects ++
      [expression ++ (asName.toList.map fun a => .text (" as " ++ a))]
    rawBindings := q.rawBindings ++ bindings }

/-- An argument of `selectFn`: a star is written out, anything else is bound. -/
def isStar : JsVal N → Bool
  | .str s => s == "*"
  | _ => false

/-- `selectFn`. -/
def QueryBuilder.selectFn (q : QueryBuilder N) (name : String) (args : List (JsVal N)) :
    QueryBuilder N :=
  q.selectRawWith (.text (name ++ "(") :: SqlText.join ", "
      (args.map fun a => if isStar a then [.text "*"] else [.mark none]) ++ [.text ")"])
    (args.filter (!isStar ·))

/-- `groupBy`. -/
def QueryBuilder.setGroupBy (q : QueryBuilder N) (cols : List String) :
    Except String (QueryBuilder N) := do
  .ok { q with groupBy := ← cols.mapM (sanitizeColumn · "QueryBuilder.groupBy" false) }

/-- `_HAVING_OPS`. -/
def havingOps : List String :=
  ["=", "!=", ">", "<", ">=", "<=", "LIKE", "IN", "NOT IN", "IS NULL", "IS NOT NULL", "BETWEEN"]

/-- `having`. -/
def QueryBuilder.having (q : QueryBuilder N) (col op : String) (val : JsVal N) :
    Except String (QueryBuilder N) := do
  if !havingOps.contains op.toUpper then
    throw ("Invalid HAVING operator: \"" ++ op ++ "\". Valid: " ++ ", ".intercalate havingOps)
  let column ← sanitizeColumn col "QueryBuilder.having" false
  .ok { q with havings := q.havings ++ [⟨column, op, val⟩] }

/-- `window`. -/
def QueryBuilder.window (q : QueryBuilder N) (name : String) (definition : SqlText) :
    Except String (QueryBuilder N) := do
  let name ← sanitizeIdentifier name "QueryBuilder.window"
  .ok { q with windows := q.windows ++ [(name, definition)] }

/-- `orderBy`. -/
def QueryBuilder.addOrderBy (q : QueryBuilder N) (column : String) (desc : Bool) :
    Except String (QueryBuilder N) := do
  let column ← sanitizeColumn column "QueryBuilder.orderBy" false
  .ok { q with orderBy := q.orderBy ++ [⟨[.text column], desc⟩] }

/-- `orderByRaw`. -/
def QueryBuilder.orderByRaw (q : QueryBuilder N) (expression : SqlText) (desc : Bool) :
    QueryBuilder N :=
  { q with orderBy := q.orderBy ++ [⟨expression, desc⟩] }

/-- `clearOrderBy`. -/
def QueryBuilder.clearOrderBy (q : QueryBuilder N) : QueryBuilder N := { q with orderBy := [] }

/-- `limit`. -/
def QueryBuilder.setLimit (q : QueryBuilder N) (n : Int) : Except String (QueryBuilder N) :=
  if n < 0 then .error "LIMIT must be a non-negative integer"
  else .ok { q with limit := some n.toNat }

/-- `offset`. -/
def QueryBuilder.setOffset (q : QueryBuilder N) (n : Int) : Except String (QueryBuilder N) :=
  if n < 0 then .error "OFFSET must be a non-negative integer"
  else .ok { q with offset := some n.toNat }

/-- `onConflict`. -/
def QueryBuilder.onConflict (q : QueryBuilder N) (columns : List String) (update : Bool) :
    Except String (QueryBuilder N) := do
  .ok { q with
    conflict := (← columns.mapM (sanitizeIdentifier · "QueryBuilder.onConflict"), update) }

/-! ## Statements -/

/-- Conditions of `HAVING`, from `idx` on. -/
def havingText (havings : List (Having N)) (idx : Nat) : SqlText :=
  SqlText.join " AND " (havings.zipIdx.map fun (h, i) =>
    [.text (h.column ++ " " ++ h.op ++ " "), .mark (some (idx + i))])

/-- The `LIMIT` and `OFFSET` of a builder: the keyword and the number. -/
def QueryBuilder.window? (q : QueryBuilder N) : List (String × Nat) :=
  (q.limit.toList.map (" LIMIT ", ·)) ++ (q.offset.toList.map (" OFFSET ", ·))

/-- The number of the first placeholder after the CTEs and the raw expressions of `toSelect`. -/
def selectIdx (cte : Rendered N) (rawBindings : List (JsVal N)) : Nat :=
  if rawBindings.isEmpty then cte.nextIdx
  else (cte.bindings ++ rawBindings).length + 1

/-- `toSelect`. -/
def QueryBuilder.toSelect [JsNumber N] (q : QueryBuilder N) : Except String (SqlStatement N) := do
  let cte ← renderCTE q.ctes
  let columns : List SqlText := q.columns.map (fun c => [.text c]) ++ q.rawSelects
  let joins ← buildJoins q.joins (selectIdx cte q.rawBindings)
  let cond ← buildWhere q.wheres joins.nextIdx
  let bindings := cte.bindings ++ q.rawBindings ++ joins.bindings ++ cond.bindings
  let idx := bindings.length + 1
  let orders := q.orderBy.map fun o => o.column ++ [.text (if o.desc then " DESC" else " ASC")]
  let windows := q.windows.map fun (name, d) => .text (name ++ " AS (") :: d ++ [.text ")"]
  .ok {
    sql := cte.sql ++ .text (if q.distinct then "SELECT DISTINCT " else "SELECT ") ::
        SqlText.join ", " columns ++ .text (" FROM " ++ q.table) :: joins.sql ++ cond.sql
        ++ (if q.groupBy.isEmpty then [] else [.text (" GROUP BY " ++ ", ".intercalate q.groupBy)])
        ++ (if q.havings.isEmpty then [] else .text " HAVING " :: havingText q.havings idx)
        ++ (if windows.isEmpty then [] else .text " WINDOW " :: SqlText.join ", " windows)
        ++ (if orders.isEmpty then [] else .text " ORDER BY " :: SqlText.join ", " orders)
        ++ (q.window?.zipIdx.flatMap fun ((keyword, _), i) =>
          [.text keyword, .mark (some (idx + q.havings.length + i))])
    bindings := bindings ++ q.havings.map (·.value)
        ++ q.window?.map fun (_, n) => .num (JsNumber.ofInt n) }

/-- `toCount`. -/
def QueryBuilder.toCount (q : QueryBuilder N) : Except String (SqlStatement N) := do
  let cte ← renderCTE q.ctes
  let joins ← buildJoins q.joins cte.nextIdx
  let cond ← buildWhere q.wheres joins.nextIdx
  .ok {
    sql := cte.sql ++ .text ("SELECT COUNT(*) as count FROM " ++ q.table) :: joins.sql ++ cond.sql
    bindings := cte.bindings ++ joins.bindings ++ cond.bindings }

/-- `ON CONFLICT`, for the columns of an `INSERT`. -/
def QueryBuilder.conflictText (q : QueryBuilder N) (columns : List String) : String :=
  let target := " ON CONFLICT(" ++ ", ".intercalate q.conflict.1 ++ ") DO "
  if q.conflict.1.isEmpty then ""
  else if q.conflict.2 then
    target ++ "UPDATE SET " ++ ", ".intercalate (columns.map fun c => c ++ " = excluded." ++ c)
  else target ++ "NOTHING"

/-- `RETURNING *`. -/
def QueryBuilder.returningText (q : QueryBuilder N) : String :=
  if q.returning then " RETURNING *" else ""

/-- A column name in double quotes. -/
def quoteColumn (c : String) : String := "\"" ++ c ++ "\""

/-- `toInsert`. -/
def QueryBuilder.toInsert (q : QueryBuilder N) (data : List (String × JsVal N)) :
    Except String (SqlStatement N) := do
  if data.isEmpty then throw "Cannot insert: no data provided"
  let cte ← renderCTE q.ctes
  let columns ← data.mapM fun (c, _) =>
    quoteColumn <$> sanitizeIdentifier c "QueryBuilder.toInsert"
  .ok {
    sql := cte.sql ++ .text ("INSERT INTO " ++ q.table ++ " (" ++ ", ".intercalate columns
        ++ ") VALUES (") :: SqlText.join ", " (placeholders cte.nextIdx columns.length)
        ++ [.text (")" ++ q.conflictText columns ++ q.returningText)]
    bindings := cte.bindings ++ data.map (·.2) }

/-- The value of a property of a row object, `undefined` where it has none. -/
def rowValue (row : List (String × JsVal N)) (c : String) : JsVal N :=
  (JsVal.ownMember row c).getD .undefined

/-- `toInsertMany`. -/
def QueryBuilder.toInsertMany (q : QueryBuilder N) (rows : List (List (String × JsVal N))) :
    Except String (SqlStatement N) := do
  let columns := (rows.head?.getD []).map (·.1)
  if rows.isEmpty then throw "Cannot insert: no rows provided"
  if columns.isEmpty then throw "Cannot insert: empty row"
  for (row, i) in rows.zipIdx do
    if row.length != columns.length || !columns.all fun c => row.any (·.1 == c) then
      throw ("Row " ++ toString i ++ " has different keys from row 0")
  let cte ← renderCTE q.ctes
  let safe ← columns.mapM fun c =>
    quoteColumn <$> sanitizeIdentifier c "QueryBuilder.toInsertMany"
  let values := rows.zipIdx.map fun (_, i) =>
    .text "(" :: SqlText.join ", " (placeholders (cte.nextIdx + i * columns.length) columns.length)
      ++ [.text ")"]
  .ok {
    sql := cte.sql ++ .text ("INSERT INTO " ++ q.table ++ " (" ++ ", ".intercalate safe
        ++ ") VALUES ") :: SqlText.join ", " values
        ++ [.text (q.conflictText safe ++ q.returningText)]
    bindings := cte.bindings ++ rows.flatMap fun row => columns.map (rowValue row) }

/-- `toUpdate`. -/
def QueryBuilder.toUpdate (q : QueryBuilder N) (data : List (String × JsVal N)) :
    Except String (SqlStatement N) := do
  if data.isEmpty then throw "Cannot update: no data provided"
  let cte ← renderCTE q.ctes
  let columns ← data.mapM fun (c, _) => sanitizeIdentifier c "QueryBuilder.toUpdate"
  let sets := columns.zipIdx.map fun (c, i) =>
    [.text (c ++ " = "), .mark (some (cte.nextIdx + i))]
  let cond ← buildWhere q.wheres (cte.nextIdx + columns.length)
  .ok {
    sql := cte.sql ++ .text ("UPDATE " ++ q.table ++ " SET ") :: SqlText.join ", " sets
        ++ cond.sql ++ [.text q.returningText]
    bindings := cte.bindings ++ data.map (·.2) ++ cond.bindings }

/-- `toDelete`. -/
def QueryBuilder.toDelete (q : QueryBuilder N) : Except String (SqlStatement N) := do
  let cte ← renderCTE q.ctes
  let cond ← buildWhere q.wheres cte.nextIdx
  .ok {
    sql := cte.sql ++ .text ("DELETE FROM " ++ q.table) :: cond.sql ++ [.text q.returningText]
    bindings := cte.bindings ++ cond.bindings }

/-- The branches of `union`, renumbered one after the other. -/
def unionBranches : List (SqlStatement N) → Nat → List SqlText × List (JsVal N)
  | [], _ => ([], [])
  | s :: ss, bound =>
    let r := buildEmbedded s (bound + 1)
    let (ts, bs) := unionBranches ss (bound + s.bindings.length)
    (r.sql :: ts, r.bindings ++ bs)

/-- `QueryBuilder.union`. -/
def QueryBuilder.union [JsNumber N] (queries : List (QueryBuilder N)) (all : Bool) :
    Except String (SqlStatement N) := do
  if queries.length < 2 then throw "UNION requires at least 2 queries"
  let statements ← queries.mapM QueryBuilder.toSelect
  let (ts, bs) := unionBranches statements 0
  .ok ⟨SqlText.join (if all then " UNION ALL " else " UNION ") ts, bs⟩

/-! ## Methods that embed a query -/

/-- `with` and `withRecursive`. -/
def QueryBuilder.with [JsNumber N] (q : QueryBuilder N) (recursive : Bool) (name : String)
    (sub : QueryBuilder N) : Except String (QueryBuilder N) := do
  let name ← sanitizeIdentifier name
    (if recursive then "QueryBuilder.withRecursive" else "QueryBuilder.with")
  let query ← sub.toSelect
  .ok { q with ctes := q.ctes ++ [⟨name, recursive, query⟩] }

/-- `whereInSubquery` and `whereNotInSubquery`. -/
def QueryBuilder.whereInSubquery [JsNumber N] (q : QueryBuilder N) (column : String)
    (negated : Bool) (sub : QueryBuilder N) : Except String (QueryBuilder N) := do
  let query ← sub.toSelect
  let col ← sanitizeIdentifier column
    (if negated then "QueryBuilder.whereNotInSubquery" else "QueryBuilder.whereInSubquery")
  .ok (q.pushWhere (.inQuery col negated query .and))

/-- `whereExists`, `whereNotExists`, `orWhereExists` and `orWhereNotExists`. -/
def QueryBuilder.whereExists [JsNumber N] (q : QueryBuilder N) (negated : Bool) (type : Joiner)
    (sub : QueryBuilder N) : Except String (QueryBuilder N) := do
  let query ← sub.toSelect
  .ok (q.pushWhere (.existsQuery negated query type))

end

end HeadlessErp
