import HeadlessErp.Naming.Series
import HeadlessErp.Schema.Tables

/-!
# Creating a collection

`createCollection` of `apps/api/src/lib/services/collection-schema.service.ts`: the checks of the
request, the statements that make the table, and the row of `_entity_schemas`. Nothing undoes the
statements of a request that fails later.
-/

namespace HeadlessErp

open StateExcept

/-! ## Names -/

/-- `normalizePrefix`. -/
def normalizePrefix (tablePrefix : String) : String :=
  String.ofList (tablePrefix.toList.reverse.dropWhile (· == '_')).reverse ++ "_"

/-- `collectionTable`. -/
def collectionTable (env : SchemaEnv) (slug : String) : String :=
  normalizePrefix env.tablePrefix ++ slug

/-- `replace(/^_|_$/g, '')`, of a text without two of them in a row. -/
def trimUnderscores (cs : List Char) : List Char :=
  let cs := if cs.head? = some '_' then cs.tail else cs
  if cs.getLast? = some '_' then cs.dropLast else cs

/-- `toLowerCase().replace(/[^a-z0-9]+/g, '_').replace(/^_|_$/g, '')`. -/
def underscored (s : String) : String :=
  String.ofList (trimUnderscores
    ((slugChars false (toLowerCase s).toList).map fun c => if c = '-' then '_' else c))

/-- `validators.slug`. -/
def validSlug (value : String) : Except ApiError String := do
  require (jsTrim value ≠ "") "slug must be a non-empty string"
  let slug := underscored (jsTrim value)
  require (slug ≠ "") "slug contains no valid characters"
  require (slug.toList.head?.any fun c => 'a' ≤ c && c ≤ 'z') "slug must start with a letter"
  require (!isReservedSqlWord slug) ("\"" ++ slug
    ++ "\" is a reserved SQL keyword and cannot be used as a slug (e.g. use \"check_" ++ slug
    ++ "\" or \"" ++ slug ++ "_time\" instead)")
  .ok slug

/-- `NamingService.validateSeries`, of a series that is given. -/
def validateSeries (namingSeries : Option String) : Except ApiError Unit :=
  match namingSeries.filter (· ≠ "") with
  | none => .ok ()
  | some series => do
    require (jsTrim series ≠ "") "Naming series must be a non-empty string"
    require (parseSeries series).isSome
      ("Naming series must end with a dash (-) optionally followed by up to 10 digit placeholders "
        ++ "(#). Examples: \"INV-\", \"INV-####\"")

section
variable {N : Type}

/-- A `CreateCollectionInput`: what decides the table and the row, and not how it is shown. -/
structure CreateCollectionInput (N : Type) where
  name : String
  slug : Option String := none
  description : Option String := none
  fields : List (SchemaField N) := []
  namingSeries : Option String := none
  isSingleton : Bool := false
  systemFieldOptions : SystemFieldOptions := {}
  compositeIndexes : List (List String) := []

/-! ## Statements -/

/-- The index of the lists' cursors. -/
def cursorIndex (table : String) : Ddl :=
  .createIndex ("idx_" ++ table ++ "_deleted_id") table
    [.column "deleted_at" true, .column "id" true] false false

/-- The index that keeps a singleton to one row. -/
def singletonIndex (table : String) : Ddl :=
  .createIndex ("idx_" ++ table ++ "_singleton") table [.one] true true

variable [JsNumber N]

/-- `provisionJunctionTables`, after the tables `seen`. -/
def provisionJunctionTables (env : SchemaEnv) (table : String) :
    List String → List (SchemaField N) → StateExcept ApiError (Catalogue N) Unit
  | _, [] => pure ()
  | seen, f :: fs =>
    match m2mTarget f with
    | none => provisionJunctionTables env table seen fs
    | some related => do
      let statements ← ofExcept (createJunctionTable table (collectionTable env related))
      let jt := junctionName table (collectionTable env related)
      execAll env (if seen.contains jt then [] else statements)
      provisionJunctionTables env table (jt :: seen) fs

/-- The statements of `createCollection`. -/
def provision (env : SchemaEnv) (table : String) (input : CreateCollectionInput N) :
    StateExcept ApiError (Catalogue N) Unit := do
  let statements ← ofExcept (createTable table
    (collectionColumns input.fields input.systemFieldOptions) input.compositeIndexes)
  execAll env statements
  execAll env (cursorIndex table :: if input.isSingleton then [singletonIndex table] else [])
  provisionJunctionTables env table [] input.fields

/-! ## The registry -/

omit [JsNumber N] in
/-- The fields that are stored: those of the request, and the engine's. -/
def allFields (input : CreateCollectionInput N) : List (SchemaField N) :=
  let o := input.systemFieldOptions
  [{ name := "id", type := "uuid", label := some "ID", required := some true }] ++ input.fields
    ++ (if o.docStatus then
      [{ name := "doc_status", type := "text", label := some "Document Status" }] else [])
    ++ (if o.displayNumber then
      [{ name := "display_number", type := "text", label := some "Document Number" }] else [])
    ++ (if o.owner then [{ name := "_owner", type := "uuid", label := some "Owner" }] else [])
    ++ (if o.deletedAt then
      [{ name := "deleted_at", type := "timestamp", label := some "Deleted At" }] else [])
    ++ (if o.deletedBy then
      [{ name := "deleted_by", type := "uuid", label := some "Deleted By" }] else [])
    ++ (if o.updatedBy then
      [{ name := "updated_by", type := "uuid", label := some "Updated By" }] else [])
    ++ [{ name := "created_at", type := "timestamp", label := some "Created At" },
        { name := "updated_at", type := "timestamp", label := some "Updated At" }]

omit [JsNumber N] in
/-- The name and the slug of a collection, from the checks that do not ask the database. -/
def checkInput (env : SchemaEnv) (input : CreateCollectionInput N) :
    Except ApiError (String × String) := do
  require (jsTrim input.name ≠ "") "Collection name is required"
  let name := jsTrim input.name
  let slug ← validSlug ((input.slug.map jsTrim).getD (underscored name))
  validateSeries input.namingSeries
  validateFields env input.fields
  .ok (name, slug)

omit [JsNumber N] in
/-- `checkNoConflict`. -/
def checkNoConflict (slug name : String) : StateExcept ApiError (Catalogue N) Unit := fun db =>
  if db.schemas.any (·.slug = slug) then
    (.error (.conflict ("Collection \"" ++ slug ++ "\" already exists")), db)
  else if db.schemas.any (·.name = name) then
    (.error (.conflict ("Collection with name \"" ++ name ++ "\" already exists")), db)
  else (.ok (), db)

omit [JsNumber N] in
/-- `repo.create` on `_entity_schemas`, whose names, slugs and tables are unique. -/
def register (row : SchemaRow N) : StateExcept ApiError (Catalogue N) (SchemaRow N) :=
  fun db =>
    if db.schemas.any fun r => r.name = row.name || r.slug = row.slug
        || r.tableName = row.tableName then
      (.error (.validation "UNIQUE constraint failed: _entity_schemas" none), db)
    else (.ok row, { db with schemas := db.schemas ++ [row] })

omit [JsNumber N] in
/-- The row of a collection. -/
def CreateCollectionInput.row (input : CreateCollectionInput N) (env : SchemaEnv)
    (name slug : String) : SchemaRow N where
  name := name
  slug := slug
  tableName := collectionTable env slug
  description := input.description
  namingSeries := input.namingSeries.filter (· ≠ "")
  fields := some (allFields input)

/-- `createCollection`. -/
def createCollection (env : SchemaEnv) (input : CreateCollectionInput N) :
    StateExcept ApiError (Catalogue N) (SchemaRow N) := do
  let (name, slug) ← ofExcept (checkInput env input)
  checkNoConflict slug name
  provision env (collectionTable env slug) input
  register (input.row env name slug)

/-! ## What the statements do -/

theorem leads_provisionJunctionTables (env : SchemaEnv) (table : String) (seen : List String)
    (fs : List (SchemaField N)) :
    Leads (Grows (N := N)) (provisionJunctionTables env table seen fs) := by
  induction fs generalizing seen with
  | nil => exact Leads.pure ()
  | cons f fs ih =>
    rw [provisionJunctionTables]
    split
    · exact ih seen
    · refine Leads.bind (Leads.ofExcept _) fun statements => ?_
      exact Leads.bind (leads_execAll env _) fun _ => ih _

theorem leads_provision (env : SchemaEnv) (table : String) (input : CreateCollectionInput N) :
    Leads (Grows (N := N)) (provision env table input) := by
  refine Leads.bind (Leads.ofExcept _) fun statements => ?_
  refine Leads.bind (leads_execAll env _) fun _ => ?_
  exact Leads.bind (leads_execAll env _) fun _ => leads_provisionJunctionTables env table [] _

omit [JsNumber N] in
/-- The first statement of a table is the one that makes it. -/
theorem createTable_eq_ok {table : String} {columns : List ColumnDef}
    {composites : List (List String)} {statements : List Ddl}
    (h : createTable table columns composites = .ok statements) :
    ∃ rest, statements = .createTable table columns :: rest := by
  unfold createTable at h
  obtain ⟨_, -, h⟩ := exists_of_bind_eq_ok h
  obtain ⟨_, -, h⟩ := exists_of_bind_eq_ok h
  obtain ⟨_, -, h⟩ := exists_of_bind_eq_ok h
  obtain rfl := Except.ok.inj h
  exact ⟨_, rfl⟩

/-- Once the statements of a collection have run there is a table of the name: the one that was
there, or a new one of the collection's columns. -/
theorem table_of_provision {env : SchemaEnv} {table : String} {input : CreateCollectionInput N}
    {db : Catalogue N} (h : (provision env table input db).1 = .ok ()) :
    (∃ t ∈ (provision env table input db).2.tables, sameName t.name table = true) ∧
      ∀ t ∈ (provision env table input db).2.tables, sameName t.name table = true →
        t ∈ db.tables ∨ (∀ u ∈ db.tables, sameName u.name table = false) ∧
          t.columns = collectionColumns input.fields input.systemFieldOptions := by
  obtain ⟨statements, hstatements, heq⟩ := exists_of_bind_fst_eq_ok h
  obtain ⟨rest, rfl⟩ := createTable_eq_ok hstatements
  have hprovision : provision env table input db = _ := heq
  rw [hprovision] at h ⊢
  obtain ⟨_, hall, heq⟩ := exists_of_bind_fst_eq_ok h
  obtain ⟨_, hexec, hrest⟩ := exists_of_bind_fst_eq_ok hall
  obtain ⟨⟨u, hu, hname⟩, hmade⟩ := table_of_exec hexec
  have hgrows : Grows (exec env (.createTable table
      (collectionColumns input.fields input.systemFieldOptions)) db).2
      (provision env table input db).2 := by
    rw [hprovision, heq]
    refine Grows.trans ?_ (Leads.bind (leads_execAll env _)
      (fun _ => leads_provisionJunctionTables env table [] input.fields) _)
    have hstep : (execAll env (.createTable table
        (collectionColumns input.fields input.systemFieldOptions) :: rest) db).2 =
        (execAll env rest (exec env (.createTable table
          (collectionColumns input.fields input.systemFieldOptions)) db).2).2 :=
      congrArg Prod.snd hrest
    show Grows _ (execAll env (_ :: rest) db).2
    rw [hstep]
    exact leads_execAll env rest _
  rw [hprovision] at hgrows
  refine ⟨⟨u, hgrows.tables.keeps u hu, hname⟩, fun t ht htname => ?_⟩
  have hsame : sameName u.name t.name = true :=
    sameName_iff.2 ((sameName_iff.1 hname).trans (sameName_iff.1 htname).symm)
  exact hmade t (hgrows.tables.mem_of_named hu ht hsame) htname

/-! ## What a request leaves -/

omit [JsNumber N] in
/-- No collection has the name, the slug or the table. -/
def Catalogue.Free (db : Catalogue N) (name slug table : String) : Prop :=
  ∀ r ∈ db.schemas, r.slug ≠ slug ∧ r.name ≠ name ∧ r.tableName ≠ table

theorem createCollection_of_error {env : SchemaEnv} {input : CreateCollectionInput N}
    {e : ApiError} (h : checkInput env input = .error e) (db : Catalogue N) :
    createCollection env input db = (.error e, db) := by
  rw [createCollection, h]
  exact bind_error rfl

theorem createCollection_of_ok {env : SchemaEnv} {input : CreateCollectionInput N}
    {name slug : String} (h : checkInput env input = .ok (name, slug)) (db : Catalogue N) :
    createCollection env input db = (checkNoConflict slug name >>= fun _ =>
      provision env (collectionTable env slug) input >>= fun _ =>
        register (input.row env name slug)) db := by
  rw [createCollection, h]
  exact bind_ok rfl

/-- A request whose checks and statements pass. -/
theorem createCollection_eq {env : SchemaEnv} {input : CreateCollectionInput N}
    {db : Catalogue N} {name slug : String} (hinput : checkInput env input = .ok (name, slug))
    (hfree : db.Free name slug (collectionTable env slug))
    (hprovision : (provision env (collectionTable env slug) input db).1 = .ok ()) :
    createCollection env input db = (.ok (input.row env name slug),
      { (provision env (collectionTable env slug) input db).2 with
        schemas := db.schemas ++ [input.row env name slug] }) := by
  have hslug : ¬db.schemas.any (·.slug = slug) = true := by
    simpa using fun r hr => (hfree r hr).1
  have hname : ¬db.schemas.any (·.name = name) = true := by
    simpa using fun r hr => (hfree r hr).2.1
  have hconflict : checkNoConflict slug name db = (.ok (), db) := by
    rw [checkNoConflict, if_neg hslug, if_neg hname]
  have hschemas := (leads_provision env (collectionTable env slug) input db).schemas
  have hregister : register (input.row env name slug)
      (provision env (collectionTable env slug) input db).2 = (.ok (input.row env name slug),
        { (provision env (collectionTable env slug) input db).2 with
          schemas := db.schemas ++ [input.row env name slug] }) := by
    rw [register, hschemas, if_neg]
    simp only [List.any_eq_true, not_exists, not_and, Bool.or_eq_true, decide_eq_true_eq, not_or]
    exact fun r hr => ⟨⟨(hfree r hr).2.1, (hfree r hr).1⟩, (hfree r hr).2.2⟩
  rw [createCollection_of_ok hinput, bind_ok hconflict, bind_ok (eq_of_fst_eq hprovision),
    hregister]

/-- A request fails and registers nothing, or it passes every check. -/
theorem createCollection_cases (env : SchemaEnv) (input : CreateCollectionInput N)
    (db : Catalogue N) :
    ((∃ e, (createCollection env input db).1 = .error e) ∧
      Grows db (createCollection env input db).2) ∨
    ∃ name slug, checkInput env input = .ok (name, slug) ∧
      db.Free name slug (collectionTable env slug) ∧
      (provision env (collectionTable env slug) input db).1 = .ok () := by
  rcases hinput : checkInput env input with e | ⟨name, slug⟩
  · left
    rw [createCollection_of_error hinput]
    exact ⟨⟨e, rfl⟩, Grows.rfl⟩
  rw [createCollection_of_ok hinput]
  by_cases hfree : db.schemas.any (·.slug = slug) = true ∨ db.schemas.any (·.name = name) = true
  · left
    have hconflict : ∃ e, checkNoConflict slug name db = (.error e, db) := by
      rw [checkNoConflict]
      split
      · exact ⟨_, rfl⟩
      next hslug => exact ⟨_, if_pos (hfree.resolve_left hslug)⟩
    obtain ⟨e, he⟩ := hconflict
    rw [bind_error he]
    exact ⟨⟨e, rfl⟩, Grows.rfl⟩
  have hconflict : checkNoConflict slug name db = (.ok (), db) := by
    rw [checkNoConflict, if_neg fun h => hfree (.inl h), if_neg fun h => hfree (.inr h)]
  rw [bind_ok hconflict]
  have hgrows := leads_provision env (collectionTable env slug) input db
  rcases hprovision : provision env (collectionTable env slug) input db with ⟨e | _, db'⟩
  · left
    rw [bind_error hprovision]
    rw [hprovision] at hgrows
    exact ⟨⟨e, rfl⟩, hgrows⟩
  rw [hprovision] at hgrows
  rw [bind_ok hprovision]
  by_cases htable : ∀ r ∈ db.schemas, r.tableName ≠ collectionTable env slug
  · refine .inr ⟨name, slug, rfl, fun r hr => ⟨?_, ?_, htable r hr⟩, by rw [hprovision]⟩
    · exact fun h => hfree (.inl (List.any_eq_true.2 ⟨r, hr, decide_eq_true h⟩))
    · exact fun h => hfree (.inr (List.any_eq_true.2 ⟨r, hr, decide_eq_true h⟩))
  · left
    rw [not_forall] at htable
    obtain ⟨r, htable⟩ := htable
    rw [Classical.not_imp, not_not] at htable
    have hregister : register (input.row env name slug) db' =
        (.error (.validation "UNIQUE constraint failed: _entity_schemas" none), db') := by
      rw [register, if_pos]
      rw [List.any_eq_true]
      refine ⟨r, by rw [hgrows.schemas]; exact htable.1, ?_⟩
      have hsame : r.tableName = (input.row env name slug).tableName := htable.2
      simp [hsame]
    rw [hregister]
    exact ⟨⟨_, rfl⟩, hgrows⟩

end

end HeadlessErp
