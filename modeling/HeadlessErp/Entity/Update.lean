import HeadlessErp.Entity.Guards
import HeadlessErp.Entity.Rules

/-!
# Updating an item

`updateItem` of `apps/api/src/lib/services/collection-mutation.service.ts`, cut at its database
steps: the row is read, the request is checked and prepared against what was read, the row is
written, and the child rows follow. An `UpdateCall` is a request together with what it meets on its
way: the hooks, rules and decision tables of the collection, the permissions of its role and the
values the stored formulas take.
-/

namespace HeadlessErp

/-- A call of `updateItem`. `computed` and `recomputed` are the stored formulas over the merged
document, before and after its child rows are replaced. -/
structure UpdateCall (N : Type) (info : CollectionInfo N) where
  auth : Option (AuthContext N)
  body : JsVal N
  expectedUpdatedAt : Option String
  restrictions : Option (List String)
  canBusiness : String → Bool
  accessible : Option (Record N) → Bool
  platform : Platform N
  ruleEnv : RuleEnv N
  plugins : Record N → Record N → Except ApiError (Record N)
  marketplace : Record N → Except ApiError (Record N)
  decisionTables : Record N → Except ApiError (Option (Record N))
  constraints : Record N → Except ApiError Unit
  computed : Record N → Record N
  recomputed : Record N → Record N
  validateRules : List (HookRule N)
  beforeUpdateRules : List (HookRule N)
  pluginValidate : Record N → Record N → Except ApiError Unit
  parseObject : String → Option (Record N)
  replaceChildren : List (String × List (JsVal N)) → Except ApiError Unit
  computed_stored : ∀ doc, ∀ kv ∈ computed doc, ∃ f ∈ info.schemaFields, f.isStored ∧ f.name = kv.1
  recomputed_stored :
    ∀ doc, ∀ kv ∈ recomputed doc, ∃ f ∈ info.schemaFields, f.isStored ∧ f.name = kv.1

/-- What a request has become when it reaches the database: the document after the hooks, the
document after the rules, the columns to write with the merged `_meta`, and the child rows. -/
structure Prepared (N : Type) where
  newStatus : JsVal N
  document : Record N
  ruled : Record N
  columns : Record N
  metaText : String
  childData : List (String × List (JsVal N))

/-- What `toISOString` returns. -/
structure IsoTime where
  text : String
  text_ne : text ≠ ""

section
variable {N : Type} [JsNumber N] {info : CollectionInfo N}

/-- The fields of the request's body. -/
def bodyFields (body : JsVal N) : Except ApiError (Record N) :=
  match body with
  | .obj kvs => .ok kvs
  | _ => .error (.validation "Request body must be a JSON object" none)

/-- The version check: the row has moved on since the caller loaded it. -/
def isStale (expectedUpdatedAt : Option String) (row : Record N) : Bool :=
  expectedUpdatedAt.any fun expected =>
    expected != "" && (row.get "updated_at").truthy && (row.get "updated_at").toStr != expected

/-- The check against `expectedUpdatedAt`. -/
def assertVersion (expectedUpdatedAt : Option String) (row : Record N) : Except ApiError Unit :=
  if isStale expectedUpdatedAt row then
    .error (.conflict ("Record was modified by someone else at " ++ (row.get "updated_at").toStr
      ++ " — reload it and re-apply your changes"))
  else .ok ()

/-- The caller's access to the row, as the role's row filter answers it. -/
def assertAccess (c : UpdateCall N info) (row : Option (Record N)) : Except ApiError Unit :=
  if c.accessible row then .ok ()
  else .error (.forbidden "You do not have access to this record")

/-- One field of `applyInverseFormulas`. -/
def applyInverse (R : RuleEnv N) (fields : List (FieldDefinition N)) (row data : Record N)
    (f : FieldDefinition N) : Record N :=
  match f.inverseFormula, f.inverseTarget with
  | some inverse, some target =>
    if f.type != .formula || inverse == "" || target == "" || (data.get f.name).isNullish then data
    else match fields.find? (·.name == target) with
      | none => data
      | some targetField =>
        match evaluateWith (ruleScope R (fun _ => none) (row.assign data)) inverse with
        | .error _ => data
        | .ok v =>
          match coerceValue v targetField.type with
          | .error _ => data
          | .ok v => data.set target v
  | _, _ => data

/-- `applyInverseFormulas`. -/
def applyInverseFormulas (R : RuleEnv N) (fields : List (FieldDefinition N)) (row data : Record N) :
    Record N :=
  fields.foldl (applyInverse R fields row) data

/-- The part of a document that differs from the row, in `runDecisionTables`. -/
def documentDelta (row doc : Record N) : Record N :=
  doc.foldl (fun delta kv =>
    if kv.1.toList.head? = some '_' then delta
    else if (row.get kv.1).toJson == kv.2.toJson then delta
    else delta.set kv.1 kv.2) []

/-- `runDecisionTables`, with the row. A broken rule infrastructure leaves the document alone. -/
def runDecisionTables (c : UpdateCall N info) (row data : Record N) :
    Except ApiError (Record N) := do
  match ← c.decisionTables (row.assign data) with
  | some doc => .ok (documentDelta row doc)
  | none => .ok data

/-- The requested document state, where it is a text. -/
def assertNewStatus (collectionSlug : String) (c : UpdateCall N info) (row : Record N)
    (newStatus : JsVal N) : Except ApiError Unit :=
  match newStatus with
  | .str s =>
    if s = "" then .ok () else assertDocStatus collectionSlug info c.auth c.canBusiness row s
  | _ => .ok ()

/-- The rules of `validate`: the abort carries the rule's field. -/
def runValidateRules (c : UpdateCall N info) (doc : Record N) : Except ApiError (Record N) :=
  match executeHooks c.ruleEnv c.validateRules doc with
  | .ok doc => .ok doc
  | .error abort => .error (.validation abort.message abort.field)

/-- The rules of `before_update`. -/
def runBeforeUpdateRules (c : UpdateCall N info) (doc : Record N) : Except ApiError (Record N) :=
  match executeHooks c.ruleEnv c.beforeUpdateRules doc with
  | .ok doc => .ok doc
  | .error abort => .error (.validation abort.message none)

/-- The state-machine check of a collection that has one. -/
def assertConfigured (info : CollectionInfo N) (row data : Record N) : Except ApiError Unit :=
  match info.statusMachine with
  | some sm => assertStatusMachine sm row data
  | none => .ok ()

/-- The `_meta` object of the row, with the properties of the request that have no column. -/
def mergedMeta (c : UpdateCall N info) (row rest : Record N) : String :=
  let old := match row.get "_meta" with
    | .str s => if s = "" then [] else (c.parseObject s).getD []
    | _ => []
  (JsVal.obj (Record.assign old rest)).toJson.getD ""

/-- The checks of `updateItem` before the row is read. -/
def assertRequest (collectionSlug : String) (c : UpdateCall N info) : Except ApiError Unit := do
  assertGenericWrite collectionSlug info .update
  let _ ← bodyFields c.body
  .ok ()

/-- The checks of `updateItem` before the version check: `existing` is the row that was read, `row`
the one the access check finds. -/
def assertAdmitted (collectionSlug : String) (c : UpdateCall N info) (existing : Record N)
    (row : Option (Record N)) : Except ApiError Unit := do
  assertNotFrozen collectionSlug info existing
  assertAccess c row

/-- The caller's fields after the policies of the collection, and the requested document state. -/
def callerFields (collectionSlug : String) (c : UpdateCall N info) (existing : Record N) :
    Except ApiError (JsVal N × Record N) := do
  let body ← bodyFields c.body
  let newStatus := body.get "doc_status"
  let data ← bindActorFields collectionSlug info c.auth (body.erase "doc_status") .update
  let data := stripFrozenFields info data
  assertWritableFields collectionSlug info c.auth c.restrictions data
  .ok (newStatus, applyInverseFormulas c.ruleEnv info.schemaFields existing data)

/-- The hooks that may change the document before its columns are taken from it. -/
def transformDocument (c : UpdateCall N info) (existing data : Record N) :
    Except ApiError (Record N) := do
  let data ← c.plugins existing data
  let data ← c.marketplace (data.erase "_existing")
  runDecisionTables c existing data

/-- `updateItem` from the version check to the database: what is written. -/
def prepareUpdate (collectionSlug : String) (c : UpdateCall N info) (existing : Record N) :
    Except ApiError (Prepared N) := do
  let (newStatus, data) ← callerFields collectionSlug c existing
  assertNewStatus collectionSlug c existing newStatus
  if data.isEmpty && !newStatus.truthy then .error (.validation "No valid fields to update" none)
  else
    let document ← transformDocument c existing data
    c.constraints document
    let (cleanBody, childData) := extractChildData document info.schemaFields
    let (columns, rest) ← splitRowData c.platform cleanBody info.schemaFields
    let columns := columns.assign (c.computed (existing.assign document))
    -- the rules change the document only: the columns are already taken from it
    let validated ← runValidateRules c document
    c.pluginValidate existing validated
    let ruled ← runBeforeUpdateRules c validated
    assertConfigured info existing ruled
    .ok { newStatus, document, ruled, childData,
          columns := encryptColumns c.platform columns info.schemaFields,
          metaText := mergedMeta c existing rest }

/-- `updateItem` from the row it has read to the database. -/
def checkUpdate (collectionSlug : String) (c : UpdateCall N info) (existing : Record N)
    (row : Option (Record N)) : Except ApiError (Prepared N) := do
  assertAdmitted collectionSlug c existing row
  assertVersion c.expectedUpdatedAt existing
  prepareUpdate collectionSlug c existing

/-- `updateData`. -/
def updateData (c : UpdateCall N info) (p : Prepared N) (now : IsoTime) : Record N :=
  let data := p.columns.assign [("_meta", .str p.metaText), ("updated_at", .str now.text)]
  let data := if p.newStatus.truthy then data.set "doc_status" p.newStatus else data
  let user := (c.auth.map (·.get "user_id")).getD .undefined
  if user.truthy && info.systemFieldOptions.updatedBy then data.set "updated_by" user else data

end

/-! ## The table -/

/-- A table: what its columns give back for the values that are written to them, and the rows its
constraints reject. The columns the engine adds are text columns. -/
structure Storage (N : Type) where
  store : String → JsVal N → JsVal N
  rejects : Record N → Bool
  store_text : ∀ column ∈ systemFields, ∀ s, store column (.str s) = .str s

section
variable {N : Type}

/-- `UPDATE table SET … WHERE id = ?`, on the row of that id. -/
def updateRow (T : Storage N) (data row : Record N) : Except ApiError (Record N) :=
  match data.find? (fun kv => !row.has kv.1) with
  | some kv => .error (.internal ("no such column: " ++ kv.1))
  | none =>
    let written := row.assign (data.map fun kv => (kv.1, T.store kv.1 kv.2))
    if T.rejects written then .error (.internal "constraint failed") else .ok written

/-- A column of a row that was written: the value written to it, as the column gives it back. -/
theorem get?_updateRow {T : Storage N} {data row row' : Record N}
    (h : updateRow T data row = .ok row') (k : String) :
    row'.get? k = ((data.get? k).map (T.store k)).or (row.get? k) := by
  unfold updateRow at h
  split at h
  · cases h
  · simp only at h
    split at h
    · cases h
    · cases h
      rw [Record.get?_assign, Record.get?_map]

/-- A column that is not written. -/
theorem get_updateRow_of_none {T : Storage N} {data row row' : Record N}
    (h : updateRow T data row = .ok row') {k : String} (hk : data.get? k = none) :
    row'.get k = row.get k := by
  rw [Record.get_eq, Record.get_eq, get?_updateRow h, hk, Option.map_none, Option.none_or]

/-- A column that is written. -/
theorem get_updateRow_of_some {T : Storage N} {data row row' : Record N} {v : JsVal N}
    (h : updateRow T data row = .ok row') {k : String} (hk : data.get? k = some v) :
    row'.get k = T.store k v := by
  rw [Record.get_eq, get?_updateRow h, hk]
  rfl

/-- A write leaves the columns there. -/
theorem has_updateRow {T : Storage N} {data row row' : Record N} {k : String}
    (h : updateRow T data row = .ok row') (hk : row.has k = true) : row'.has k = true := by
  rw [Record.has_eq_isSome] at hk ⊢
  obtain ⟨v, hv⟩ := Option.isSome_iff_exists.1 hk
  rw [get?_updateRow h, hv]
  cases data.get? k <;> rfl

/-- Stored formulas have no system column. -/
theorem get?_eq_none_of_stored {info : CollectionInfo N} {d : Record N}
    (h : ∀ kv ∈ d, ∃ f ∈ info.schemaFields, f.isStored ∧ f.name = kv.1) {k : String}
    (hk : k ∈ systemFieldNames) : d.get? k = none := by
  refine Record.get?_eq_none fun kv hkv hkv' => ?_
  obtain ⟨f, hf, -, hname⟩ := h kv hkv
  exact info.fields_user f hf (by rw [hname, hkv']; exact hk)

/-- Every write sets the time it was made at. -/
theorem updateData_updatedAt [JsNumber N] {info : CollectionInfo N} (c : UpdateCall N info)
    (p : Prepared N) (now : IsoTime) :
    (updateData c p now).get? "updated_at" = some (.str now.text) := by
  have hbase : (p.columns.assign [("_meta", .str p.metaText), ("updated_at", .str now.text)]).get?
      "updated_at" = some (.str now.text) := by
    rw [Record.get?_assign]
    rfl
  unfold updateData
  simp only
  split <;> split <;> simp [Record.get?_set, hbase]

end

end HeadlessErp
