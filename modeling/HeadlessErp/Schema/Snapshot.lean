import Mathlib.Data.List.Sort
import HeadlessErp.Schema.Collections

/-!
# Schema snapshots

`GET /snapshot/export` and `POST /snapshot/apply` of `apps/api/src/plugins/snapshot/plugin.ts`. What
an export leaves out of a collection's fields and what `createCollection` refuses and adds are three
different lists: an exported collection that was created with the default system fields has fields
that are refused (`mem_fields_of_row`).
-/

namespace HeadlessErp

open StateExcept

/-! ## Export -/

/-- A `SnapshotCollection`. -/
structure SnapshotCollection (N : Type) where
  name : String
  slug : String
  tableName : String
  description : Option String
  namingSeries : Option String
  fields : List (SchemaField N)

/-- A `SnapshotRelation`. -/
structure SnapshotRelation where
  source : String
  field : String
  target : String
  type : String
  deriving DecidableEq

/-- A `SchemaSnapshot`. -/
structure SchemaSnapshot (N : Type) where
  version : String
  generatedAt : String
  collections : List (SnapshotCollection N)
  relations : List SnapshotRelation

/-- The names of the fields that an export leaves out. -/
def unexported : List String :=
  ["id", "_meta", "doc_status", "display_number", "deleted_at", "created_at", "updated_at"]

section
variable {N : Type}

/-- The relations of one collection. -/
def collectionRelations (col : SnapshotCollection N) : List SnapshotRelation :=
  (col.fields.filter fun f => ["m2o", "o2m", "m2m", "m2a"].contains f.type).map fun f =>
    { source := col.slug, field := f.name, type := f.type,
      target := ((f.relatedCollection.filter (· ≠ "")).or
        (f.relatedCollections.bind List.head?)).getD "" }

/-- A collection as an export gives it. -/
def SchemaRow.exported (row : SchemaRow N) : SnapshotCollection N where
  name := row.name
  slug := row.slug
  tableName := row.tableName
  description := row.description.filter (· ≠ "")
  namingSeries := row.namingSeries
  fields := (row.fields.getD []).filter fun f => !unexported.contains f.name

/-- The collections of an export. -/
def Catalogue.exported (db : Catalogue N) : List (SnapshotCollection N) :=
  (db.schemas.insertionSort fun a b => a.name ≤ b.name).map SchemaRow.exported

/-- `GET /snapshot/export`. -/
def exportSnapshot (version now : String) (db : Catalogue N) : SchemaSnapshot N where
  version := version
  generatedAt := now
  collections := db.exported
  relations := db.exported.flatMap collectionRelations

/-! ## Apply -/

/-- What an application says of a collection. -/
inductive ApplyStatus where
  | skipped
  | recreated
  | created
  | error (e : ApiError)
  deriving DecidableEq

/-- What `createCollection` is given of a collection of a snapshot. -/
def SnapshotCollection.toInput (col : SnapshotCollection N) : CreateCollectionInput N where
  name := col.name
  slug := some col.slug
  description := col.description
  namingSeries := col.namingSeries
  fields := col.fields

/-- `DELETE FROM _entity_schemas WHERE slug = ?`. -/
def Catalogue.deregister (db : Catalogue N) (slug : String) : Catalogue N :=
  { db with schemas := db.schemas.filter (·.slug ≠ slug) }

variable [JsNumber N]

/-- The outcome of `createCollection`. -/
def applied (existing : Bool) (r : Except ApiError (SchemaRow N) × Catalogue N) :
    Catalogue N × ApplyStatus :=
  match r with
  | (.ok _, db) => (db, if existing then .recreated else .created)
  | (.error e, db) => (db, .error e)

/-- One collection of a snapshot. -/
def applyCollection (env : SchemaEnv) (force : Bool) (db : Catalogue N)
    (col : SnapshotCollection N) : Catalogue N × ApplyStatus :=
  let existing := db.schemas.any (·.slug = col.slug)
  if existing && !force then (db, .skipped)
  else applied existing
    (createCollection env col.toInput (if existing then db.deregister col.slug else db))

/-- `POST /snapshot/apply`. -/
def applySnapshot (env : SchemaEnv) (force : Bool) :
    Catalogue N → List (SnapshotCollection N) → Catalogue N × List (String × ApplyStatus)
  | db, [] => (db, [])
  | db, col :: cols =>
    let r := applyCollection env force db col
    let rest := applySnapshot env force r.1 cols
    (rest.1, (col.slug, r.2) :: rest.2)

/-! ## The export of a created collection -/

omit [JsNumber N] in
/-- A collection that was created with its owner field exports it. -/
theorem mem_fields_of_row {env : SchemaEnv} {input : CreateCollectionInput N} {name slug : String}
    (h : input.systemFieldOptions.owner = true) :
    ∃ f ∈ (input.row env name slug).exported.fields, f.name = "_owner" := by
  have hkept : (!unexported.contains "_owner") = true := by decide
  have hmem : ({ name := "_owner", type := "uuid", label := some "Owner" } : SchemaField N) ∈
      allFields input := by
    simp [allFields, h]
  exact ⟨_, List.mem_filter.2 ⟨hmem, hkept⟩, rfl⟩

/-- A collection whose slug is not taken. -/
theorem applyCollection_of_new {env : SchemaEnv} {force : Bool} {db : Catalogue N}
    {col : SnapshotCollection N} (h : db.schemas.any (·.slug = col.slug) = false) :
    applyCollection env force db col = applied false (createCollection env col.toInput db) := by
  unfold applyCollection
  rw [h]
  simp only [Bool.false_and, Bool.false_eq_true, if_false]

/-- What an application registers was created, with every system field. -/
theorem mem_schemas_applyCollection {env : SchemaEnv} {force : Bool} {db : Catalogue N}
    {col : SnapshotCollection N} {row : SchemaRow N}
    (h : row ∈ (applyCollection env force db col).1.schemas) :
    row ∈ db.schemas ∨ ∃ name slug, row = col.toInput.row env name slug := by
  unfold applyCollection at h
  simp only at h
  split at h
  · exact .inl h
  generalize hdb' : (if (db.schemas.any fun x => decide (x.slug = col.slug)) = true then
    db.deregister col.slug else db) = db' at h
  have hsub : ∀ r ∈ db'.schemas, r ∈ db.schemas := by
    rw [← hdb']
    split
    · exact fun r hr => (List.mem_filter.1 hr).1
    · exact fun r hr => hr
  rcases createCollection_cases env col.toInput db' with ⟨⟨e, he⟩, hgrows⟩ | ⟨name, slug, hok⟩
  · rcases hcreate : createCollection env col.toInput db' with ⟨e' | _, db''⟩
    · rw [hcreate] at h hgrows
      rw [show (applied _ (Except.error e', db'')).1.schemas = db''.schemas from rfl,
        hgrows.schemas] at h
      exact .inl (hsub row h)
    · rw [hcreate] at he
      cases he
  · rw [createCollection_eq hok.1 hok.2.1 hok.2.2] at h
    rcases List.mem_append.1 h with h | h
    · exact .inl (hsub row h)
    · exact .inr ⟨name, slug, List.mem_singleton.1 h⟩

theorem owner_of_applySnapshot {env : SchemaEnv} {force : Bool} {cols : List (SnapshotCollection N)}
    {db : Catalogue N} (hdb : ∀ row ∈ db.schemas, ∃ f ∈ row.exported.fields, f.name = "_owner") :
    ∀ row ∈ (applySnapshot env force db cols).1.schemas,
      ∃ f ∈ row.exported.fields, f.name = "_owner" := by
  induction cols generalizing db with
  | nil => exact hdb
  | cons col cols ih =>
    refine ih fun row hrow => ?_
    rcases mem_schemas_applyCollection hrow with hrow | ⟨name, slug, rfl⟩
    · exact hdb row hrow
    · exact mem_fields_of_row rfl

omit [JsNumber N] in
theorem exists_of_mem_exported {db : Catalogue N} {col : SnapshotCollection N}
    (h : col ∈ db.exported) : ∃ row ∈ db.schemas, row.exported = col := by
  obtain ⟨row, hrow, hcol⟩ := List.mem_map.1 h
  exact ⟨row, (List.mem_insertionSort _).1 hrow, hcol⟩

/-- The fields of a collection whose application raises no error have passed the checks. -/
theorem validateFields_of_applyCollection {env : SchemaEnv} {col : SnapshotCollection N}
    (h : ∀ e, (applyCollection env false {} col).2 ≠ .error e) :
    validateFields env col.fields = .ok () := by
  rw [applyCollection_of_new rfl] at h
  rcases createCollection_cases env col.toInput {} with ⟨⟨e, he⟩, -⟩ | ⟨name, slug, hinput, -⟩
  · rcases hcreate : createCollection env col.toInput {} with ⟨e' | _, db'⟩
    · rw [hcreate] at h
      exact absurd rfl (h e')
    · rw [hcreate] at he
      cases he
  · unfold checkInput at hinput
    obtain ⟨_, -, hinput⟩ := exists_of_bind_eq_ok hinput
    obtain ⟨_, -, hinput⟩ := exists_of_bind_eq_ok hinput
    obtain ⟨_, -, hinput⟩ := exists_of_bind_eq_ok hinput
    obtain ⟨_, hfields, -⟩ := exists_of_bind_eq_ok hinput
    exact hfields

/-! ## The round trip -/

/-- The export of a database can be applied to an empty one, and is then exported again. -/
def RoundTrips (env : SchemaEnv) (db : Catalogue N) : Prop :=
  (∀ r ∈ (applySnapshot env false {} db.exported).2, ∀ e, r.2 ≠ .error e) ∧
    ∀ version now, exportSnapshot version now (applySnapshot env false {} db.exported).1 =
      exportSnapshot version now db

/-- No collection survives its export. -/
theorem roundTrips_iff {env : SchemaEnv} {db : Catalogue N} :
    RoundTrips env db ↔ db.schemas = [] := by
  constructor
  · rintro ⟨herrors, hexport⟩
    have hcollections : (applySnapshot env false {} db.exported).1.exported = db.exported :=
      congrArg SchemaSnapshot.collections (hexport "" "")
    rcases hcols : db.exported with _ | ⟨col, cols⟩
    · have hsort := List.map_eq_nil_iff.1 hcols
      rw [← List.length_eq_zero_iff, List.length_insertionSort, List.length_eq_zero_iff] at hsort
      exact hsort
    exfalso
    rw [hcols] at herrors hcollections
    -- the first collection is applied to the empty database, where nothing is skipped
    have hfirst := herrors (col.slug, (applyCollection env false {} col).2) List.mem_cons_self
    dsimp only at hfirst
    have hvalid : validateFields env col.fields = .ok () :=
      validateFields_of_applyCollection hfirst
    have hmem : col ∈ (applySnapshot env false {} (col :: cols)).1.exported := by
      rw [hcollections]
      exact List.mem_cons_self
    obtain ⟨row, hrow, rfl⟩ := exists_of_mem_exported hmem
    obtain ⟨f, hf, hname⟩ :=
      owner_of_applySnapshot (fun r hr => absurd hr List.not_mem_nil) row hrow
    refine not_reserved_of_validateFields hvalid f hf ?_
    rw [hname]
    decide
  · intro h
    have hcols : db.exported = [] := by
      unfold Catalogue.exported
      rw [h]
      rfl
    refine ⟨fun r hr => ?_, fun version now => ?_⟩
    · rw [hcols] at hr
      cases hr
    · rw [hcols]
      unfold exportSnapshot
      rw [hcols]
      rfl

end

end HeadlessErp
