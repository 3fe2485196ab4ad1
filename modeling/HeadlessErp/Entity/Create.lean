import HeadlessErp.Base.StateExcept
import HeadlessErp.Entity.Item
import HeadlessErp.Entity.Store

/-!
# The statements of `createItem`

`createItem` of `apps/api/src/lib/services/collection-mutation.service.ts` on the tables: the row and its
junction rows are inserted in one batch, and its child rows, its stored formulas and those of its parents
are written by statements of their own after it. Each call of the database may fail.
-/

namespace HeadlessErp

/-! ## Requests -/

/-- The tables, and the junction tables by the collections they join. -/
structure EntityTables (N : Type) where
  rows : Tables N
  junctions : String → String → List (Record N)

/-- The places where `createItem` calls the database or a service that does. -/
inductive CreateSite where
  | lookup
  | replay
  | numbering
  | singleton
  | batch
  | legacyBatch
  | childMap
  | childFields (fieldName : String)
  | childInsert (fieldName : String) (index : Nat)
  | recompute
  | formulas
  | webhook
  | parents
  | parent (index : Nat)
  | redact
  deriving DecidableEq, Repr

/-- A call of `createItem`, with what it draws, what the database makes of a row that is inserted, which
of its calls fail, and what the stored formulas come to once the child rows are there. -/
structure CreateRequest (N : Type) (info : CollectionInfo N) extends CreateCall N info where
  execCtx : Bool
  isSingleton : Bool
  /-- The row that an INSERT into the table of a collection makes of its columns. -/
  insert : String → Record N → Except ApiError (Record N)
  childId : String → Nat → String
  junctionId : String → Nat → String
  failure : CreateSite → Option ApiError
  recomputed : Record N → Record N
  /-- The UPDATEs of the stored formulas of the parents: their collections, ids and columns. -/
  parentUpdates : List (String × String × Record N)
  visible : Record N → Record N

/-- What a request has become when it reaches the database. -/
structure NewItem (N : Type) where
  id : String
  document : Record N
  childData : List (String × List (JsVal N))
  data : Record N

/-- The answer of a replay, or the row to insert. -/
inductive Admission (N : Type) where
  | replay (row : Record N)
  | insert (item : NewItem N)

section
variable {N : Type}

/-- A call of the database that may fail. -/
def CreateRequest.await {info : CollectionInfo N} (q : CreateRequest N info) (site : CreateSite) :
    Except ApiError Unit :=
  match q.failure site with
  | some e => .error e
  | none => .ok ()

/-- `typeof item === 'object' && item !== null`, with its properties. -/
def objectEntries : JsVal N → Option (Record N)
  | .obj kvs => some kvs
  | .arr items => some (items.zipIdx.map fun (item, i) => (toString i, item))
  | _ => none

/-- The rows of an INSERT. -/
def EntityTables.append (t : EntityTables N) (slug : String) (rows : List (Record N)) :
    EntityTables N := { t with rows := t.rows.modify slug (· ++ rows) }

/-- `UPDATE … WHERE id = ?`. -/
def EntityTables.updateById (t : EntityTables N) (slug id : String) (data : Record N) : EntityTables N :=
  { t with rows := t.rows.modify slug (updateWhere (hasId id) data) }

variable [JsNumber N]

/-! ## Before the batch -/

/-- The id of the body: a UUID, where there is one. -/
def requestedId (body : Record N) : Except ApiError (Option String) :=
  match body.get "id" with
  | .undefined | .null => .ok none
  | .str id => do
    assertUuid id
    .ok (some id)
  | _ => .error (.validation "id must be a string when provided" none)

/-- `createItem` up to the batch. -/
def admitItem (c : EntitySchema N) (q : CreateRequest N c.info) (freshId : String) (now : IsoTime)
    (t : EntityTables N) : Except ApiError (Admission N) := do
  let data ← createFields c.slug q.toCreateCall
  let body ← bodyFields q.body
  let clientId ← requestedId body
  q.await .lookup
  match clientId.bind fun id => (t.rows c.slug).find? (hasId id) with
  | some row =>
    if (row.get "deleted_at").truthy then
      .error (.validation ("Item with id \"" ++ clientId.getD ""
        ++ "\" exists in trash — restore it or use a new id") none)
    else do
      q.await .replay
      .ok (.replay (q.visible row))
  | none =>
    let document ← q.document data
    let (cleanBody, childData) := extractChildData document c.info.schemaFields
    let (columns, rest) ← splitRowData q.platform cleanBody c.info.schemaFields
    let columns := encryptColumns q.platform (columns.assign (q.computed document)) c.info.schemaFields
    q.await .numbering
    if q.isSingleton then
      q.await .singleton
      if (t.rows c.slug).any isLive then
        .error (.validation ("\"" ++ c.slug
          ++ "\" is a singleton collection. Only one record is allowed.") none)
    let id := clientId.getD freshId
    .ok (.insert ⟨id, document, childData, insertData q.toCreateCall id columns rest now⟩)

/-! ## The batch -/

/-- The rows of the junction tables: for each field the slug of its target, and its rows. -/
def junctionRows (c : EntitySchema N) (q : CreateRequest N c.info) (item : NewItem N) (now : IsoTime) :
    List (String × List (Record N)) :=
  c.info.schemaFields.filterMap fun f =>
    match f.type, f.relatedCollection, item.document.get f.name with
    | .m2m, some target, .arr targets =>
      some (target, targets.zipIdx.map fun (v, k) =>
        [("id", .str (q.junctionId f.name k)), ("source_id", .str item.id), ("target_id", .str v.toStr),
         ("created_at", .str now.text)])
    | _, _, _ => none

omit [JsNumber N] in
/-- The rows of the junctions of a collection. -/
def EntityTables.link (t : EntityTables N) (slug : String) (rows : List (String × List (Record N))) :
    EntityTables N :=
  { t with
    junctions := fun source target =>
      t.junctions source target ++
        if source = slug then (rows.filter (·.1 = target)).flatMap (·.2) else [] }

/-- The first statement of the batch. On a legacy table it is tried again without the columns of the
user. -/
def insertParent (c : EntitySchema N) (q : CreateRequest N c.info) (item : NewItem N) :
    Except ApiError (Record N) :=
  match q.await .batch >>= fun _ => q.insert c.slug item.data with
  | .error (.internal msg) =>
    if ((item.data.get "_owner").truthy || (item.data.get "created_by").truthy)
        && includesChars "no such column".toList (toLowerCase msg).toList then
      q.await .legacyBatch >>= fun _ => q.insert c.slug ((item.data.erase "_owner").erase "created_by")
    else .error (.internal msg)
  | result => result

/-- The batch of the row and its junction rows. -/
def insertBatch (c : EntitySchema N) (q : CreateRequest N c.info) (item : NewItem N) (now : IsoTime)
    (t : EntityTables N) : Except ApiError (Record N × EntityTables N) := do
  let row ← insertParent c q item
  .ok (row, (t.append c.slug [row]).link c.slug (junctionRows c q item now))

/-! ## After the batch -/

/-- One property of an item in `_coerceChildRow`. -/
def coerceChildEntry (fields : List (FieldDefinition N)) (acc : Record N × Record N)
    (kv : String × JsVal N) : Except ApiError (Record N × Record N) :=
  let (key, value) := kv
  let (columns, rest) := acc
  if systemFieldNames.contains key then .ok acc
  else match schemaType fields key with
    | some fieldType =>
      if [FieldType.o2m, .m2m, .table, .formula].contains fieldType then .ok acc
      else do
        let coerced ← coerceValue value fieldType
        .ok (columns.set key coerced, rest)
    | none =>
      if (m2aColumns fields).contains key then .ok (columns.set key value, rest)
      else .ok (columns, rest.set key value)

/-- `_coerceChildRow`. -/
def coerceChildRow (fields : List (FieldDefinition N)) (entries : Record N) :
    Except ApiError (Record N) := do
  let (columns, rest) ← entries.foldlM (coerceChildEntry fields) ([], [])
  .ok (if rest.isEmpty then columns
    else columns.set "_meta" (.str ((JsVal.obj rest).toJson.getD "")))

omit [JsNumber N] in
/-- The columns of a child row. -/
def childInsertData (id parentId : String) (columns : Record N) (now : IsoTime) : Record N :=
  Record.assign (Record.assign [("id", .str id), ("parent_id", .str parentId)] columns)
    [("doc_status", .str "draft"), ("created_at", .str now.text), ("updated_at", .str now.text)]

/-- What `createChildren` makes of an error of the database. -/
def childInsertError (msg : String) : ApiError :=
  if includesChars "NOT NULL".toList msg.toList then
    .validation ("Child table field missing: "
      ++ String.ofList ((msg.toList.splitOn ':').getLast?.getD [])) none
  else .internal ("Failed to create child record: " ++ msg)

/-- The row of one item of a child table, where it is an object. -/
def childRowOf {info : CollectionInfo N} (q : CreateRequest N info) (child : EntitySchema N) (parentId fieldName : String)
    (now : IsoTime) (k : Nat) (item : JsVal N) : Except ApiError (Option (Record N)) :=
  match objectEntries item with
  | none => .ok none
  | some entries => do
    let columns ← coerceChildRow child.info.schemaFields entries
    match q.await (.childInsert fieldName k) >>= fun _ =>
        q.insert child.slug (childInsertData (q.childId fieldName k) parentId columns now) with
    | .ok row => .ok (some row)
    | .error (.internal msg) => .error (childInsertError msg)
    | .error e => .error e

omit [JsNumber N] in
/-- A call that writes nothing. -/
def CreateRequest.step {info : CollectionInfo N} (q : CreateRequest N info) (site : CreateSite) :
    StateExcept ApiError (EntityTables N) Unit := .ofExcept (q.await site)

/-- The rows of the items from the `k`-th on. -/
def createRows {info : CollectionInfo N} (q : CreateRequest N info) (child : EntitySchema N)
    (parentId fieldName : String) (now : IsoTime) :
    Nat → List (JsVal N) → StateExcept ApiError (EntityTables N) Unit
  | _, [] => pure ()
  | k, item :: items => do
    let row ← .ofExcept (childRowOf q child parentId fieldName now k item)
    .modify fun t => t.append child.slug row.toList
    createRows q child parentId fieldName now (k + 1) items

omit [JsNumber N] in
/-- The collection of a child table. -/
def childTarget (all : List (EntitySchema N)) (c : EntitySchema N) (fieldName : String) :
    Option (EntitySchema N) := (childSlug c all fieldName).bind fun slug => all.find? (·.slug = slug)

/-- One field of `createChildren`: a field without a collection is passed over. -/
def createFieldRows (all : List (EntitySchema N)) (c : EntitySchema N) (q : CreateRequest N c.info)
    (parentId : String) (now : IsoTime) (fieldName : String) (items : List (JsVal N)) :
    StateExcept ApiError (EntityTables N) Unit :=
  match childTarget all c fieldName with
  | none => pure ()
  | some child => do
    q.step (.childFields fieldName)
    createRows q child parentId fieldName now 0 items

/-- `createChildren`. -/
def createChildData (all : List (EntitySchema N)) (c : EntitySchema N) (q : CreateRequest N c.info)
    (parentId : String) (now : IsoTime) :
    List (String × List (JsVal N)) → StateExcept ApiError (EntityTables N) Unit
  | [] => pure ()
  | (fieldName, items) :: childData => do
    createFieldRows all c q parentId now fieldName items
    createChildData all c q parentId now childData

omit [JsNumber N] in
/-- The UPDATEs of `recalcAffectedParents` from the `k`-th on. -/
def updateParents {info : CollectionInfo N} (q : CreateRequest N info) :
    Nat → List (String × String × Record N) → StateExcept ApiError (EntityTables N) Unit
  | _, [] => pure ()
  | k, (slug, id, data) :: updates => do
    q.step (.parent k)
    .modify fun t => t.updateById slug id data
    updateParents q (k + 1) updates

omit [JsNumber N] in
/-- The stored formulas over the child rows. -/
def updateFormulas (c : EntitySchema N) (q : CreateRequest N c.info) (item : NewItem N) :
    StateExcept ApiError (EntityTables N) (Record N) :=
  if (q.recomputed item.document).isEmpty then pure []
  else do
    q.step .formulas
    .modify fun t => t.updateById c.slug item.id (q.recomputed item.document)
    pure (q.recomputed item.document)

/-- The child rows, where there are any, and the stored formulas over them. -/
def finishChildren (all : List (EntitySchema N)) (c : EntitySchema N) (q : CreateRequest N c.info)
    (item : NewItem N) (now : IsoTime) : StateExcept ApiError (EntityTables N) (Record N) :=
  if item.childData.isEmpty then pure []
  else do
    q.step .childMap
    createChildData all c q item.id now item.childData
    q.step .recompute
    updateFormulas c q item

omit [JsNumber N] in
/-- The webhook of a request that may outlive its answer. -/
def CreateRequest.fireWebhook {info : CollectionInfo N} (q : CreateRequest N info) :
    StateExcept ApiError (EntityTables N) Unit := if q.execCtx then q.step .webhook else pure ()

/-- `createItem` after the batch. The errors of the hooks are logged only. -/
def finishItem (all : List (EntitySchema N)) (c : EntitySchema N) (q : CreateRequest N c.info)
    (item : NewItem N) (row : Record N) (now : IsoTime) :
    StateExcept ApiError (EntityTables N) (Record N) := do
  let computed ← finishChildren all c q item now
  q.fireWebhook
  q.step .parents
  updateParents q 0 q.parentUpdates
  q.step .redact
  pure (q.visible (row.assign computed))

/-- `createItem`. `freshId` is the id that is drawn for a row whose body has none. -/
def CreateRequest.createItem (all : List (EntitySchema N)) (c : EntitySchema N)
    (q : CreateRequest N c.info) (freshId : String) (now : IsoTime) :
    StateExcept ApiError (EntityTables N) (Record N) := fun t =>
  match admitItem c q freshId now t with
  | .error e => (.error e, t)
  | .ok (.replay row) => (.ok row, t)
  | .ok (.insert item) =>
    match insertBatch c q item now t with
    | .error e => (.error e, t)
    | .ok (row, t₁) => finishItem all c q item row now t₁

end

end HeadlessErp
