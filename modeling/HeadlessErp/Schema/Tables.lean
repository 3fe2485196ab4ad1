import HeadlessErp.Base.StateExcept
import HeadlessErp.Schema.Fields

/-!
# The tables of collections

The statements that `SchemaBuilder` makes (`packages/core/src/db/schema-builder.ts`) of the columns
that `applyFieldDefinitions` and `applySystemColumns` declare (`packages/core/src/entity/
field-utils.ts`), and what they do to a database. A statement with `IF NOT EXISTS` leaves what has
the name, whatever it is like; names are compared without regard to case. Whatever statements run,
tables are only added (`Grows`).
-/

namespace HeadlessErp

open StateExcept

/-! ## Columns -/

/-- The column types of the builder. -/
inductive SqlType where
  | text
  | integer
  | real
  deriving DecidableEq, Repr

/-- A `ColumnDef`. `defaultValue` is the text behind `DEFAULT`. -/
structure ColumnDef where
  name : String
  type : SqlType
  nullable : Bool := false
  primaryKey : Bool := false
  unique : Bool := false
  indexed : Bool := false
  defaultValue : Option String := none
  deriving DecidableEq, Repr

/-- `'${value.replace(/'/g, "''")}'`. -/
def quoteText (value : String) : String :=
  "'" ++ String.ofList (value.toList.flatMap fun c => if c = '\'' then [c, c] else [c]) ++ "'"

/-- The columns of a field type: `FIELD_TYPE_MAP`. -/
inductive FieldStorage where
  | virtual
  | column (type : SqlType) (nullable : Bool)
  | pair
  deriving DecidableEq, Repr

/-- `FIELD_TYPE_MAP`. -/
def fieldTypeMap (type : String) : FieldStorage :=
  if ["text", "timestamp", "json", "slug", "select", "color", "password", "location", "csv", "uuid",
      "time", "date", "datetime", "tags"].contains type then .column .text false
  else if ["m2o", "file", "image", "longtext", "text_editor", "code", "markdown", "signature",
      "barcode", "phone", "email", "url", "icon"].contains type then .column .text true
  else if ["integer", "boolean", "bigint", "duration", "progress"].contains type then
    .column .integer false
  else if ["number", "currency", "percent", "rating"].contains type then .column .real false
  else if type = "m2a" then .pair
  else .virtual

section
variable {N : Type}

/-- The columns that a field adds. -/
def addColumns (f : SchemaField N) (name : String) : List ColumnDef :=
  if f.type = "formula" && f.store then
    match f.resultType with
    | some "boolean" => [{ name, type := .integer, nullable := true }]
    | some "string" | some "json" => [{ name, type := .text, nullable := true }]
    | _ => [{ name, type := .real, nullable := true }]
  else match fieldTypeMap f.type with
    | .virtual => []
    | .column type nullable => [{ name, type, nullable }]
    | .pair => [{ name := name ++ "_type", type := .text, nullable := true },
        { name := name ++ "_id", type := .text, nullable := true }]

/-- The names of the columns of a field: `physicalColumnNames`. -/
def SchemaField.columns (f : SchemaField N) : List String :=
  if f.type = "formula" && !f.store || ["o2m", "m2m", "table"].contains f.type then []
  else if f.type = "m2a" then [f.name ++ "_type", f.name ++ "_id"]
  else [f.name]

variable [JsNumber N]

/-- The text of a default. -/
def FieldDefault.toSql : FieldDefault N → String
  | .string s => quoteText s
  | .number n => JsNumber.toString n
  | .boolean b => if b then "1" else "0"

/-- A change of the column that was added last. -/
def onLast (change : ColumnDef → ColumnDef) (columns : List ColumnDef) : List ColumnDef :=
  match columns.reverse with
  | [] => []
  | c :: cs => (change c :: cs).reverse

/-- What a field says of the column added last, which is another field's when it adds none. -/
def constrain (f : SchemaField N) (c : ColumnDef) : ColumnDef :=
  let stored := f.type = "formula" && f.store
  { c with
    nullable := c.nullable || (!stored && f.required = some false)
    defaultValue := if stored then c.defaultValue
      else (f.default.map FieldDefault.toSql).or c.defaultValue
    indexed := c.indexed || f.index
    unique := c.unique || f.unique }

/-- `applySystemColumns`. -/
def applySystemColumns (columns : List ColumnDef) (o : SystemFieldOptions) : List ColumnDef :=
  columns
    ++ (if o.docStatus then
      [{ name := "doc_status", type := .text, defaultValue := some "'draft'" }] else [])
    ++ (if o.displayNumber then [{ name := "display_number", type := .text, nullable := true }]
      else [])
    ++ (if o.owner then [{ name := "_owner", type := .text, nullable := true }] else [])
    ++ (if o.deletedAt then [{ name := "deleted_at", type := .text, nullable := true }] else [])
    ++ (if o.deletedBy then [{ name := "deleted_by", type := .text, nullable := true }] else [])
    ++ [{ name := "_meta", type := .text, nullable := true }]
    ++ (if o.createdBy then [{ name := "created_by", type := .text, nullable := true }] else [])
    ++ (if o.updatedBy then [{ name := "updated_by", type := .text, nullable := true }] else [])
    ++ [{ name := "created_at", type := .text, defaultValue := some "CURRENT_TIMESTAMP" },
        { name := "updated_at", type := .text, defaultValue := some "CURRENT_TIMESTAMP" }]

/-- The columns of a collection's table: `id`, those of `applyFieldDefinitions`, and the system
columns. -/
def collectionColumns (fields : List (SchemaField N)) (o : SystemFieldOptions) : List ColumnDef :=
  applySystemColumns
    (fields.foldl (fun columns f => onLast (constrain f) (columns ++ addColumns f f.name))
      [{ name := "id", type := .text, primaryKey := true }]) o

end

/-! ## Statements -/

/-- A column of an index; `one` is the expression `1`. -/
inductive IndexColumn where
  | column (name : String) (quoted : Bool)
  | one
  deriving DecidableEq, Repr

/-- A statement `… IF NOT EXISTS`. `live` is `WHERE "deleted_at" IS NULL`. -/
inductive Ddl where
  | createTable (table : String) (columns : List ColumnDef)
  | createIndex (index table : String) (columns : List IndexColumn) (unique live : Bool)
  deriving DecidableEq, Repr

/-- `sanitizeIdentifier`, as a step of a service. -/
def sanitized (name context : String) : Except ApiError Unit :=
  match sanitizeIdentifier name context with
  | .ok _ => .ok ()
  | .error message => .error (.internal message)

/-- The indexes of one column. A unique column gets a partial index where rows are deleted softly,
and is declared `UNIQUE` in its table elsewhere. -/
def columnIndexes (table : String) (softDeletable : Bool) (c : ColumnDef) : List Ddl :=
  (if c.indexed then
    [.createIndex ("idx_" ++ table ++ "_" ++ c.name) table [.column c.name false] false false]
   else [])
  ++ (if c.unique && softDeletable then
    [.createIndex ("uidx_" ++ table ++ "_" ++ c.name) table [.column c.name true] true true]
   else [])

/-- The index of a composite. -/
def compositeIndex (table : String) (columns : List String) : Ddl :=
  .createIndex ("idx_" ++ table ++ "_" ++ "_".intercalate columns) table
    (columns.map (.column · false)) false false

/-- `SchemaBuilder.createTable`. -/
def createTable (table : String) (columns : List ColumnDef) (composites : List (List String)) :
    Except ApiError (List Ddl) := do
  sanitized table "SchemaBuilder.createTable"
  columns.forM fun c => sanitized c.name "SchemaBuilder.createTable"
  (composites.filter (2 ≤ ·.length)).forM
    (·.forM (sanitized · "SchemaBuilder.composite.col"))
  let softDeletable := columns.any (·.name = "deleted_at")
  .ok (.createTable table columns :: (columns.flatMap (columnIndexes table softDeletable)
    ++ (composites.filter (2 ≤ ·.length)).map (compositeIndex table)))

/-- The name of a junction table. -/
def junctionName (source target : String) : String := "_jt_" ++ source ++ "_" ++ target

/-- `SchemaBuilder.createJunctionTable`. -/
def createJunctionTable (source target : String) : Except ApiError (List Ddl) := do
  sanitized source "SchemaBuilder.junction.source"
  sanitized target "SchemaBuilder.junction.target"
  let jt := junctionName source target
  let statements ← createTable jt
    [{ name := "id", type := .text, primaryKey := true }, { name := "source_id", type := .text },
     { name := "target_id", type := .text },
     { name := "created_at", type := .text, defaultValue := some "CURRENT_TIMESTAMP" }] []
  .ok (statements ++
    [.createIndex ("idx_" ++ jt ++ "_source") jt [.column "source_id" false] false false,
     .createIndex ("idx_" ++ jt ++ "_target") jt [.column "target_id" false] false false,
     .createIndex ("idx_" ++ jt ++ "_pair") jt [.column "source_id" false,
       .column "target_id" false] true false])

/-! ## The database -/

/-- A table with its rows. -/
structure PhysicalTable (N : Type) where
  name : String
  columns : List ColumnDef
  rows : List (Record N) := []

/-- A row of `_entity_schemas` (`EntitySchema`). `fields` are those of `schema_json`, where it is
JSON. -/
structure SchemaRow (N : Type) where
  name : String
  slug : String
  tableName : String
  description : Option String := none
  namingSeries : Option String := none
  fields : Option (List (SchemaField N))

/-- A database: the rows of `_entity_schemas`, the tables of the collections and the names of the
indexes. -/
structure Catalogue (N : Type) where
  schemas : List (SchemaRow N) := []
  tables : List (PhysicalTable N) := []
  indexes : List String := []

/-- Two names of one thing. -/
def sameName (a b : String) : Bool := a.toList.map Char.toLower == b.toList.map Char.toLower

@[simp] theorem sameName_self (a : String) : sameName a a = true := beq_self_eq_true _

theorem sameName_comm (a b : String) : sameName a b = sameName b a := BEq.comm

theorem sameName_iff {a b : String} :
    sameName a b = true ↔ a.toList.map Char.toLower = b.toList.map Char.toLower := beq_iff_eq

section
variable {N : Type}

/-- The table of a name. -/
def Catalogue.table? (db : Catalogue N) (name : String) : Option (PhysicalTable N) :=
  db.tables.find? (sameName ·.name name)

/-- The table has the columns. -/
def PhysicalTable.Has (t : PhysicalTable N) (columns : List String) : Prop :=
  ∀ c ∈ columns, ∃ d ∈ t.columns, sameName d.name c = true

/-- Two columns of one name. -/
def repeats : List String → Bool
  | [] => false
  | name :: names => names.any (sameName name) || repeats names

variable [JsNumber N]

/-- The value of a column of an index. -/
def IndexColumn.value (r : Record N) : IndexColumn → JsVal N
  | .column name _ => r.get name
  | .one => .num (JsNumber.ofInt 1)

/-- Two keys that a unique index does not take together. -/
def sameKey (k k' : List (JsVal N)) : Bool :=
  (k.zip k').all fun (v, v') => !v.isNullish && strictEq v v'

/-- Two of the keys clash. -/
def clashes : List (List (JsVal N)) → Bool
  | [] => false
  | k :: ks => ks.any (sameKey k) || clashes ks

/-- The database finds the column of an index. -/
def PhysicalTable.resolves (env : SchemaEnv) (t : PhysicalTable N) : IndexColumn → Bool
  | .column name quoted => t.columns.any (sameName ·.name name) || (quoted && env.quotedTexts)
  | .one => true

/-- The columns of the condition of a partial index. -/
def liveCondition (live : Bool) : List IndexColumn :=
  if live then [.column "deleted_at" true] else []

/-- `CREATE INDEX` on a table. -/
def indexTable (env : SchemaEnv) (t : PhysicalTable N) (index : String)
    (columns : List IndexColumn) (unique live : Bool) (db : Catalogue N) :
    Except String (Catalogue N) :=
  if db.tables.any (sameName ·.name index) then
    .error ("there is already a table named " ++ index)
  else if db.indexes.any (sameName · index) then .ok db
  else if !(columns ++ liveCondition live).all (t.resolves env) then .error "no such column"
  else if unique && clashes ((t.rows.filter fun r => !live || (r.get "deleted_at").isNullish).map
      fun r => columns.map (IndexColumn.value r)) then
    .error ("UNIQUE constraint failed: index '" ++ index ++ "'")
  else .ok { db with indexes := db.indexes ++ [index] }

/-- What a statement does to a database. -/
def Ddl.execute (env : SchemaEnv) (db : Catalogue N) : Ddl → Except String (Catalogue N)
  | .createTable table columns =>
    if db.tables.any (sameName ·.name table) then .ok db
    else if db.indexes.any (sameName · table) then
      .error ("there is already an index named " ++ table)
    else if repeats (columns.map ColumnDef.name) then .error "duplicate column name"
    else .ok { db with tables := db.tables ++ [{ name := table, columns }] }
  | .createIndex index table columns unique live =>
    match db.table? table with
    | none => .error ("no such table: " ++ table)
    | some t => indexTable env t index columns unique live db

/-- The text of a statement has several lines. -/
def Ddl.isBroken : Ddl → Bool
  | .createTable _ columns => columns.any fun c => c.defaultValue.any (·.toList.contains '\n')
  | .createIndex .. => false

/-- `db.exec`, which takes every line for a statement. -/
def exec (env : SchemaEnv) (statement : Ddl) : StateExcept ApiError (Catalogue N) Unit := fun db =>
  if statement.isBroken then (.error (.internal "incomplete input"), db)
  else match statement.execute env db with
    | .ok db' => (.ok (), db')
    | .error message => (.error (.internal message), db)

/-- Statements one after another. -/
def execAll (env : SchemaEnv) : List Ddl → StateExcept ApiError (Catalogue N) Unit
  | [] => pure ()
  | statement :: statements => do
    exec env statement
    execAll env statements

/-! ## Growth -/

/-- Tables after statements: those that were there, and others of new names. -/
structure Extends (ts ts' : List (PhysicalTable N)) : Prop where
  keeps : ∀ t ∈ ts, t ∈ ts'
  added : ∀ t ∈ ts', t ∈ ts ∨ ∀ u ∈ ts, sameName u.name t.name = false

omit [JsNumber N] in
theorem Extends.rfl {ts : List (PhysicalTable N)} : Extends ts ts := ⟨fun _ => id, fun _ => .inl⟩

omit [JsNumber N] in
theorem Extends.trans {ts₁ ts₂ ts₃ : List (PhysicalTable N)} (h₁ : Extends ts₁ ts₂)
    (h₂ : Extends ts₂ ts₃) : Extends ts₁ ts₃ where
  keeps t ht := h₂.keeps t (h₁.keeps t ht)
  added t ht := by
    rcases h₂.added t ht with ht | ht
    · exact h₁.added t ht
    · exact .inr fun u hu => ht u (h₁.keeps u hu)

omit [JsNumber N] in
/-- A table of a name that was taken is the one that had it. -/
theorem Extends.mem_of_named {ts ts' : List (PhysicalTable N)} (h : Extends ts ts')
    {u t : PhysicalTable N} (hu : u ∈ ts) (ht : t ∈ ts') (hname : sameName u.name t.name = true) :
    t ∈ ts := by
  rcases h.added t ht with ht | hnone
  · exact ht
  · rw [hnone u hu] at hname
    cases hname

/-- A database after statements. -/
structure Grows (db db' : Catalogue N) : Prop where
  schemas : db'.schemas = db.schemas
  tables : Extends db.tables db'.tables

omit [JsNumber N] in
theorem Grows.rfl {db : Catalogue N} : Grows db db := ⟨Eq.refl _, Extends.rfl⟩

omit [JsNumber N] in
theorem Grows.trans {db₁ db₂ db₃ : Catalogue N} (h₁ : Grows db₁ db₂) (h₂ : Grows db₂ db₃) :
    Grows db₁ db₃ := ⟨h₂.schemas.trans h₁.schemas, h₁.tables.trans h₂.tables⟩

instance : Std.Refl (Grows (N := N)) := ⟨fun _ => Grows.rfl⟩

instance : Trans (Grows (N := N)) Grows Grows := ⟨Grows.trans⟩

omit [JsNumber N] in
/-- No table has a name that is free. -/
theorem Catalogue.free_of_any {db : Catalogue N} {name : String}
    (h : ¬db.tables.any (sameName ·.name name) = true) :
    ∀ u ∈ db.tables, sameName u.name name = false := by
  intro u hu
  rw [List.any_eq_true, not_exists] at h
  exact Bool.eq_false_iff.2 fun hsame => h u ⟨hu, hsame⟩

theorem grows_indexTable {env : SchemaEnv} {t : PhysicalTable N} {index : String}
    {columns : List IndexColumn} {unique live : Bool} {db db' : Catalogue N}
    (h : indexTable env t index columns unique live db = .ok db') : Grows db db' := by
  unfold indexTable at h
  split at h
  · cases h
  split at h
  · obtain rfl := Except.ok.inj h
    exact Grows.rfl
  split at h
  · cases h
  split at h
  · cases h
  · obtain rfl := Except.ok.inj h
    exact ⟨rfl, Extends.rfl⟩

/-- A statement adds a table of a new name, or none. -/
theorem grows_execute {env : SchemaEnv} {db db' : Catalogue N} {statement : Ddl}
    (h : statement.execute env db = .ok db') : Grows db db' := by
  cases statement with
  | createTable table columns =>
    rw [Ddl.execute] at h
    split at h
    · obtain rfl := Except.ok.inj h
      exact Grows.rfl
    next hfree =>
    split at h
    · cases h
    split at h
    · cases h
    · obtain rfl := Except.ok.inj h
      refine ⟨rfl, fun t => List.mem_append_left _, fun t ht => ?_⟩
      rcases List.mem_append.1 ht with ht | ht
      · exact .inl ht
      · obtain rfl := List.mem_singleton.1 ht
        exact .inr (Catalogue.free_of_any hfree)
  | createIndex index table columns unique live =>
    rw [Ddl.execute] at h
    split at h
    · cases h
    · exact grows_indexTable h

theorem leads_exec (env : SchemaEnv) (statement : Ddl) :
    Leads (Grows (N := N)) (exec env statement) := by
  intro db
  unfold exec
  split
  · exact Grows.rfl
  · split
    · next h => exact grows_execute h
    · exact Grows.rfl

theorem leads_execAll (env : SchemaEnv) (statements : List Ddl) :
    Leads (Grows (N := N)) (execAll env statements) := by
  induction statements with
  | nil => exact Leads.pure ()
  | cons statement statements ih => exact Leads.bind (leads_exec env statement) fun _ => ih

/-- After `CREATE TABLE` there is a table of the name: the one that was there, or a new one of the
columns. -/
theorem table_of_exec {env : SchemaEnv} {table : String} {columns : List ColumnDef}
    {db : Catalogue N} (h : (exec env (.createTable table columns) db).1 = .ok ()) :
    (∃ t ∈ (exec env (.createTable table columns) db).2.tables, sameName t.name table = true) ∧
      ∀ t ∈ (exec env (.createTable table columns) db).2.tables, sameName t.name table = true →
        t ∈ db.tables ∨
          (∀ u ∈ db.tables, sameName u.name table = false) ∧ t.columns = columns := by
  unfold exec at h ⊢
  split at h
  · cases h
  next hlines =>
  rw [if_neg hlines]
  split at h
  next db' hdb' =>
    rw [Ddl.execute] at hdb'
    split at hdb'
    · next htaken =>
      obtain rfl := Except.ok.inj hdb'
      obtain ⟨t, ht, hname⟩ := List.any_eq_true.1 htaken
      exact ⟨⟨t, ht, hname⟩, fun t ht _ => .inl ht⟩
    next hfree =>
    split at hdb'
    · cases hdb'
    split at hdb'
    · cases hdb'
    · obtain rfl := Except.ok.inj hdb'
      refine ⟨⟨_, List.mem_append_right _ (List.mem_singleton_self _), sameName_self table⟩,
        fun t ht _ => ?_⟩
      rcases List.mem_append.1 ht with ht | ht
      · exact .inl ht
      · obtain rfl := List.mem_singleton.1 ht
        exact .inr ⟨Catalogue.free_of_any hfree, rfl⟩
  · cases h

end

end HeadlessErp
