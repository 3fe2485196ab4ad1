import HeadlessErp.Schema.Tables

/-!
# Unique indexes

`syncUniqueIndexes` of `apps/api/src/lib/services/collection-schema.service.ts`, which the sweep
over the collections calls to bring the unique indexes of a table to one shape, and the rebuild of a
table in `packages/core/src/db/entity-migrator.ts`, as far as the indexes go. The names of all
indexes are read before the sweep changes any. A statement that the service may leave undone (an
index over duplicate rows) changes nothing; whether a rebuild commits is part of the table.
-/

namespace HeadlessErp

/-! ## The indexes of a database -/

/-- An index that a `CREATE INDEX` made. An expression is a column without a name, `condition` is
the text behind `WHERE`. -/
structure TableIndex where
  table : String
  name : String
  columns : List (Option String)
  unique : Bool
  condition : Option String
  deriving DecidableEq

/-- An index that a `PRIMARY KEY` or a `UNIQUE` of its table owns. -/
structure ConstraintIndex where
  columns : List String
  primaryKey : Bool

/-- The indexes of a database, and those that the constraints of one table own. The names are
distinct, and `id` is the primary key. -/
structure IndexState where
  indexes : List TableIndex
  constraints : List ConstraintIndex
  distinct : indexes.Pairwise fun a b => sameName a.name b.name = false
  keyed : ∀ k ∈ constraints, k.primaryKey = true → k.columns = ["id"]

namespace IndexState

/-- `CREATE INDEX IF NOT EXISTS`. -/
def create (s : IndexState) (ix : TableIndex) : IndexState :=
  if h : ∃ other ∈ s.indexes, sameName other.name ix.name = true then s
  else
    { s with
      indexes := s.indexes ++ [ix]
      distinct := by
        refine List.pairwise_append.2 ⟨s.distinct, List.pairwise_singleton _ _, ?_⟩
        intro a ha b hb
        obtain rfl := List.mem_singleton.1 hb
        exact Bool.eq_false_iff.2 fun hsame => h ⟨a, ha, hsame⟩ }

/-- `DROP INDEX IF EXISTS`. -/
def drop (s : IndexState) (name : String) : IndexState :=
  { s with
    indexes := s.indexes.filter fun ix => !sameName ix.name name
    distinct := s.distinct.filter _ }

/-- A `DROP INDEX` of the loop over the stale names, which checks the name first. -/
def dropStale (s : IndexState) (name : String) : IndexState :=
  if isIdentifier name then s.drop name else s

end IndexState

/-! ### What the database says of them -/

/-- `origin` of `pragma_index_list`. -/
inductive IndexOrigin where
  | created | unique | primaryKey
  deriving DecidableEq

/-- A row of `pragma_index_list`, with the rows of `pragma_index_info`. -/
structure IndexInfo where
  name : String
  origin : IndexOrigin
  unique : Bool
  isPartial : Bool
  columns : List (Option String)

/-- The row of an index that a statement made. -/
def TableIndex.info (ix : TableIndex) : IndexInfo where
  name := ix.name
  origin := .created
  unique := ix.unique
  isPartial := ix.condition.isSome
  columns := ix.columns

/-- The name of an index that a constraint owns. -/
def autoName (table : String) (i : Nat) : String :=
  "sqlite_autoindex_" ++ table ++ "_" ++ toString (i + 1)

/-- The row of an index that a constraint owns. -/
def ConstraintIndex.info (table : String) (i : Nat) (k : ConstraintIndex) : IndexInfo where
  name := autoName table i
  origin := if k.primaryKey then .primaryKey else .unique
  unique := true
  isPartial := false
  columns := k.columns.map some

/-- `pragma_index_list` of the table. -/
def IndexState.indexList (s : IndexState) (table : String) : List IndexInfo :=
  (s.indexes.filter (·.table = table)).map TableIndex.info ++
    s.constraints.mapIdx (ConstraintIndex.info table)

/-- The names of the indexes in `sqlite_master`. -/
def IndexState.names (s : IndexState) (table : String) : List String :=
  s.indexes.map (·.name) ++ s.constraints.mapIdx fun i _ => autoName table i

/-- `indexColumns`: the columns of an index that have a name. -/
def indexColumns (ix : IndexInfo) : List String := ix.columns.reduceOption

/-- What `syncUniqueIndexes` does with an index. -/
inductive IndexVerdict where
  | keep | rebuild | drop
  deriving DecidableEq

/-! ## A collection's table -/

/-- The columns of the engine, which a rebuild takes from the table: `SYSTEM`. -/
def systemColumns : List String :=
  ["id", "_meta", "created_at", "updated_at", "doc_status", "display_number", "created_by",
    "updated_by", "_owner", "deleted_at", "deleted_by"]

/-- The table of a collection: the fields and composite indexes of its schema, its columns, the
columns with equal values in two live rows, and whether a rebuild of it commits. The schema has
passed the checks of a collection's fields, and agrees with the table on `deleted_at`. -/
structure IndexedTable (N : Type) where
  name : String
  fields : List (SchemaField N)
  composites : List (List String)
  columns : List String
  duplicated : List String
  rebuilds : Bool
  softDeletable_iff : "deleted_at" ∈ columns ↔ ∃ f ∈ fields, f.name = "deleted_at"
  checked : ∀ f ∈ fields, f.unique = true →
    isIdentifier f.name = true ∧ f.name ∉ systemColumns ∧ f.type ∈ fieldTypeNames
  distinct : ∀ f ∈ fields, ∀ g ∈ fields, sameName f.name g.name = true → f.name = g.name

namespace IndexedTable

section
variable {N : Type} (T : IndexedTable N)

/-- `softDeletable`. -/
def softDeletable : Bool := T.fields.any (·.name = "deleted_at")

/-- The fields whose column is to be unique. -/
def uniqueFields : List (SchemaField N) :=
  T.fields.filter fun f => f.unique && f.name ≠ "" &&
    !(["o2m", "m2m", "table", "formula", "m2a"].contains f.type)

/-- `uniqueCols`. -/
def uniqueCols : Except String (List String) :=
  T.uniqueFields.mapM fun f => sanitizeIdentifier f.name "backfill.uniqueCol"

/-- The name of the index of a unique column. -/
def uniqueName (column : String) : String := "uidx_" ++ T.name ++ "_" ++ column

/-- The condition of a partial index over the live rows. -/
def live (softDeletable : Bool) : Option String :=
  if softDeletable then some "\"deleted_at\" IS NULL" else none

/-- The index of a unique column. -/
def uniqueIndex (softDeletable : Bool) (column : String) : TableIndex where
  table := T.name
  name := T.uniqueName column
  columns := [some column]
  unique := true
  condition := live softDeletable

/-! ### The rebuild -/

/-- The fields that `rebuildTable` takes from the schema. -/
def userFields : List (SchemaField N) :=
  T.fields.filter fun f => f.name ≠ "" && !systemColumns.contains f.name

/-- `sfOpts`: the columns of the engine that the table has. -/
def systemOptions : SystemFieldOptions where
  docStatus := T.columns.contains "doc_status"
  displayNumber := T.columns.contains "display_number"
  createdBy := T.columns.contains "created_by"
  updatedBy := T.columns.contains "updated_by"
  deletedAt := T.columns.contains "deleted_at"
  deletedBy := T.columns.contains "deleted_by"
  owner := T.columns.contains "_owner"

/-- An index that is not unique. -/
def plainIndex (suffix : String) (columns : List String) : TableIndex where
  table := T.name
  name := "idx_" ++ T.name ++ "_" ++ suffix
  columns := columns.map some
  unique := false
  condition := none

/-- The index that keeps a singleton to one row. -/
def singletonIndex : TableIndex where
  table := T.name
  name := "idx_" ++ T.name ++ "_singleton"
  columns := [none]
  unique := true
  condition := live true

/-- The indexes that `rebuildTable` makes for a field. -/
def fieldIndexes (f : SchemaField N) : List TableIndex :=
  if ["m2a", "o2m", "m2m", "table"].contains f.type || f.type = "formula" && !f.store then []
  else
    (if f.index then [T.plainIndex f.name [f.name]] else []) ++
      (if f.unique then [T.uniqueIndex T.systemOptions.deletedAt f.name] else [])

/-- The indexes that `rebuildTable` makes. -/
def rebuiltIndexes (hadSingleton : Bool) : List TableIndex :=
  T.plainIndex "deleted_id" ["deleted_at", "id"] ::
    ((if hadSingleton then [T.singletonIndex] else []) ++ T.userFields.flatMap T.fieldIndexes ++
      (T.composites.filter (2 ≤ ·.length)).map fun columns =>
        T.plainIndex ("_".intercalate columns) columns)

variable [JsNumber N]

/-- The constraints of the table that `createTable` declares: a unique column is declared `UNIQUE`
in a table without soft deletes. -/
def rebuiltConstraints : List ConstraintIndex :=
  let columns := collectionColumns T.userFields T.systemOptions
  { columns := ["id"], primaryKey := true } ::
    (columns.filter fun c => c.unique && !columns.any (·.name = "deleted_at")).map fun c =>
      { columns := [c.name], primaryKey := false }

/-- What `rebuildTable` leaves when its batch commits: the indexes go with the old table. -/
def rebuildTable (s : IndexState) : IndexState :=
  let kept : IndexState :=
    { indexes := s.indexes.filter fun ix => ix.table ≠ T.name && ix.table ≠ T.name ++ "__migrate"
      constraints := T.rebuiltConstraints
      distinct := s.distinct.filter _
      keyed := by
        intro k hk hkey
        rcases List.mem_cons.1 hk with rfl | hk
        · rfl
        · obtain ⟨c, -, rfl⟩ := List.mem_map.1 hk
          cases hkey }
  let hadSingleton := s.indexes.any fun ix => ix.table = T.name && ix.name = T.singletonIndex.name
  (T.rebuiltIndexes hadSingleton).foldl IndexState.create kept

/-! ### `syncUniqueIndexes` -/

omit [JsNumber N] in
/-- The body of the loop over the indexes. -/
def verdict (uniqueCols : List String) (ix : IndexInfo) : IndexVerdict :=
  if !ix.unique || ix.origin = .primaryKey then .keep
  else
    match indexColumns ix with
    | [column] =>
      if !uniqueCols.contains column then .keep
      else if ix.name = T.uniqueName column && ix.isPartial = T.softDeletable then .keep
      else if ix.origin = .unique then .rebuild
      else .drop
    | _ => .keep

omit [JsNumber N] in
/-- The loop over the unique columns. -/
def createMissing : List String → List String → IndexState → IndexState
  | _, [], s => s
  | existing, column :: columns, s =>
    let name := T.uniqueName column
    if existing.contains name then createMissing existing columns s
    else if T.duplicated.contains column then createMissing existing columns s
    else createMissing (name :: existing) columns
      (s.create (T.uniqueIndex T.softDeletable column))

/-- `syncUniqueIndexes`, with the names that the sweep has read. -/
def syncUniqueIndexes (existing : List String) (s : IndexState) : Except String IndexState := do
  let uniqueCols ← T.uniqueCols
  if uniqueCols.length = 0 then .ok s
  else
    let indexes := s.indexList T.name
    if indexes.any (T.verdict uniqueCols · = .rebuild) then
      if T.rebuilds then .ok (T.rebuildTable s) else .error "rebuild_table"
    else
      let stale := (indexes.filter (T.verdict uniqueCols · = .drop)).map (·.name)
      .ok (T.createMissing existing uniqueCols (stale.foldl IndexState.dropStale s))

/-- A sweep over the collection. -/
def sweep (s : IndexState) : Except String IndexState := T.syncUniqueIndexes (s.names T.name) s

end

end IndexedTable

end HeadlessErp
