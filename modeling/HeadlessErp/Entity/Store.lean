import Mathlib.Logic.Function.Basic
import HeadlessErp.Base.Search
import HeadlessErp.Entity.Guards
import HeadlessErp.Entity.Update

/-!
# The tables of the collections

The operations of `apps/api/src/lib/services/collection-mutation.service.ts` on the tables of all
collections: a row and the rows that hang on it through the fields that cascade
(`apps/api/src/lib/services/collection-cascade.service.ts`), and the rows of a child table
(`apps/api/src/plugins/child-tables/service.ts`). Every table has the columns of the trash.
-/

namespace HeadlessErp

/-- A row of `_entity_schemas`. -/
structure EntitySchema (N : Type) where
  slug : String
  name : String
  info : CollectionInfo N

/-- The collections, as the schema service accepts them: the slugs are distinct, and so are the names
of the fields of one collection. -/
structure StoreSchema (N : Type) where
  all : List (EntitySchema N)
  slugs_nodup : (all.map (·.slug)).Nodup
  names_nodup : ∀ c ∈ all, (c.info.schemaFields.map (·.name)).Nodup

/-- The tables, by the slugs of their collections. -/
abbrev Tables (N : Type) := String → List (Record N)

section
variable {N : Type}

/-! ## Statements -/

/-- `column IN (…)`, for texts. -/
def textIn (column : String) (texts : List String) (row : Record N) : Bool :=
  match row.get column with
  | .str s => texts.contains s
  | _ => false

/-- `id = ?`. -/
abbrev hasId (id : String) (row : Record N) : Bool := textIn "id" [id] row

/-- `deleted_at IS NULL`. -/
def isLive (row : Record N) : Bool := (row.get "deleted_at").isNullish

/-- The id of a row. -/
def rowId (row : Record N) : Option String :=
  match row.get "id" with
  | .str id => some id
  | _ => none

/-- `UPDATE … WHERE`. -/
def updateWhere (p : Record N → Bool) (data : Record N) (rows : List (Record N)) :
    List (Record N) := rows.map fun row => if p row then row.assign data else row

/-- `DELETE FROM … WHERE`. -/
def deleteWhere (p : Record N → Bool) (rows : List (Record N)) : List (Record N) :=
  rows.filter fun row => !p row

/-- A statement on the table of a collection. -/
def Tables.modify (t : Tables N) (slug : String) (f : List (Record N) → List (Record N)) :
    Tables N := Function.update t slug (f (t slug))

theorem modify_self (t : Tables N) (slug : String) (f : List (Record N) → List (Record N)) :
    t.modify slug f slug = f (t slug) := Function.update_self ..

theorem modify_of_ne (t : Tables N) {slug c : String} (h : c ≠ slug)
    (f : List (Record N) → List (Record N)) : t.modify slug f c = t c := Function.update_of_ne h ..

theorem modify_modify (t : Tables N) (slug : String) (f g : List (Record N) → List (Record N)) :
    (t.modify slug f).modify slug g = t.modify slug fun rows => g (f rows) := by
  unfold Tables.modify
  rw [Function.update_self, Function.update_idem]

/-- The columns that a request may set. -/
structure UserColumns (N : Type) where
  columns : Record N
  id_none : columns.get? "id" = none
  deletedAt_none : columns.get? "deleted_at" = none

/-- A row that is inserted. -/
def UserColumns.row (d : UserColumns N) (id : String) : Record N := ("id", .str id) :: d.columns

/-! ## Cascades -/

/-- The fields of the other collections that point at one, by their `cascade_delete`. -/
def inboundFields (all : List (EntitySchema N)) (cascadeDelete : Bool) (slug : String) :
    List (EntitySchema N × String) :=
  all.flatMap fun c =>
    if c.slug = slug then []
    else
      (c.info.schemaFields.filter fun f => f.type = .m2o && f.cascadeDelete = some cascadeDelete &&
        f.relatedCollection = some slug).map fun f => (c, f.name)

/-- `buildCascadeMap`. -/
def cascadeMap (all : List (EntitySchema N)) : String → List (EntitySchema N × String) :=
  inboundFields all true

/-- `buildRestrictMap`. -/
def restrictMap (all : List (EntitySchema N)) : String → List (EntitySchema N × String) :=
  inboundFields all false

/-- The modes of `cascadeDelete`. -/
inductive CascadeMode where
  | soft
  | hard
  deriving DecidableEq, Repr

/-- What a cascade does with the rows of some ids. -/
def cascadeRows (mode : CascadeMode) (now : IsoTime) (ids : List String) (rows : List (Record N)) :
    List (Record N) :=
  match mode with
  | .soft => updateWhere (textIn "id" ids) [("deleted_at", .str now.text), ("updated_at", .str now.text)]
      rows
  | .hard => deleteWhere (textIn "id" ids) rows

/-- The tables, the rows a cascade has visited, and its level: batches of ids by collection. -/
structure CascadeState (N : Type) where
  tables : Tables N
  visited : List (String × String)
  level : List (String × List String)

/-- The rows of a level. -/
def levelKeys (level : List (String × List String)) : List (String × String) :=
  level.flatMap fun (slug, ids) => ids.map (slug, ·)

/-- `nextBySlug`: the ids of a collection are one batch. -/
def addBucket (slug : String) (ids : List String) :
    List (String × List String) → List (String × List String)
  | [] => [(slug, ids)]
  | (slug', ids') :: next =>
    if slug' = slug then (slug', ids' ++ ids) :: next else (slug', ids') :: addBucket slug ids next

/-- The ids that have not been visited, each once. -/
def freshIds (slug : String) (visited : List (String × String)) : List String → List String
  | [] => []
  | id :: ids =>
    if (slug, id) ∈ visited then freshIds slug visited ids
    else id :: freshIds slug ((slug, id) :: visited) ids

/-- One field of one batch: the rows that point at the batch. -/
def cascadeField (mode : CascadeMode) (now : IsoTime) (ids : List String) (s : CascadeState N)
    (child : EntitySchema N × String) : CascadeState N :=
  let (c, fieldName) := child
  let children := ((s.tables c.slug).filter fun row => textIn fieldName ids row && isLive row).filterMap
    rowId
  let fresh := freshIds c.slug s.visited children
  if fresh.isEmpty then s
  else
    { tables := s.tables.modify c.slug (cascadeRows mode now fresh)
      visited := s.visited ++ fresh.map (c.slug, ·)
      level := addBucket c.slug fresh s.level }

/-- One level of the cascade: every batch, and every field that points at its collection. -/
def cascadeLevel (all : List (EntitySchema N)) (mode : CascadeMode) (now : IsoTime)
    (s : CascadeState N) : CascadeState N :=
  s.level.foldl (fun s (slug, ids) => (cascadeMap all slug).foldl (cascadeField mode now ids) s)
    { s with level := [] }

/-- The search of a cascade. -/
def cascadeSearch (all : List (EntitySchema N)) (mode : CascadeMode) (now : IsoTime) :
    LevelSearch (CascadeState N) (String × String) where
  step := cascadeLevel all mode now
  visited := CascadeState.visited
  level s := levelKeys s.level

/-- The keys of all rows. -/
def tableKeys (all : List (EntitySchema N)) (t : Tables N) : List (String × String) :=
  all.flatMap fun c => ((t c.slug).filterMap rowId).map (c.slug, ·)

/-- `cascadeDelete`: a level for each row is enough. -/
def cascadeDelete (all : List (EntitySchema N)) (mode : CascadeMode) (now : IsoTime)
    (slug id : String) (t : Tables N) : Tables N :=
  ((cascadeSearch all mode now).run ((tableKeys all t).length + 2)
    ⟨t, [(slug, id)], [(slug, [id])]⟩).tables

/-! ## Operations -/

/-- What a request meets beside the tables: its user, the row filter of its role, and the hooks. -/
structure RequestContext (N : Type) where
  userId : JsVal N
  access : Record N → Except ApiError Unit
  hooks : Record N → Except ApiError Unit

/-- `schema.getCollection`. -/
def getCollection (all : List (EntitySchema N)) (slug : String) :
    Except ApiError (EntitySchema N) :=
  match all.find? (·.slug = slug) with
  | some c => .ok c
  | none => .error (.notFound "Collection" slug)

/-- `assertValid(validators.uuid(id, 'id'))`. -/
def assertUuid (id : String) : Except ApiError Unit :=
  if jsTrim id = "" then .error (.validation "id must be a non-empty string" none)
  else if isUuid (jsTrim id) then .ok ()
  else .error (.validation "id must be a valid UUID v4" none)

/-- The row of an id. -/
def existingRow (t : Tables N) (slug id : String) : Except ApiError (Record N) :=
  match (t slug).find? (hasId id) with
  | some row => .ok row
  | none => .error (.notFound "Item" id)

/-- The rows that keep a row from being deleted, by the collection that holds them. -/
def restrictiveReferences (all : List (EntitySchema N)) (t : Tables N) (slug id : String) :
    List (String × Nat) :=
  ((restrictMap all slug).map fun (c, fieldName) =>
    (c.name, ((t c.slug).filter fun row => textIn fieldName [id] row && isLive row).length)).filter
      fun (_, n) => 0 < n

/-- `assertNoRestrictiveReferences`. -/
def assertNoRestrictiveReferences (all : List (EntitySchema N)) (t : Tables N) (slug id : String) :
    Except ApiError Unit :=
  let blockers := (restrictiveReferences all t slug id).map fun (name, n) =>
    toString n ++ " record(s) in \"" ++ name ++ "\""
  if blockers.isEmpty then .ok ()
  else .error (.conflict ("Cannot delete this record — it is still referenced by "
    ++ ", ".intercalate blockers ++ ". Remove or reassign those records first."))

variable [JsNumber N]

/-- The columns that a soft delete sets. -/
def softDeleteData (info : CollectionInfo N) (userId : JsVal N) (now : IsoTime) : Record N :=
  [("deleted_at", .str now.text), ("updated_at", .str now.text)] ++
    (if userId.truthy && info.systemFieldOptions.deletedBy then [("deleted_by", userId)] else [])

/-- `softDeleteItem`. -/
def softDeleteItem (all : List (EntitySchema N)) (slug id : String) (caller : RequestContext N)
    (now : IsoTime) (t : Tables N) : Except ApiError (Tables N) := do
  let c ← getCollection all slug
  assertGenericWrite slug c.info .delete
  assertUuid id
  let existing ← existingRow t slug id
  assertNotFrozen slug c.info existing
  caller.access existing
  assertNoRestrictiveReferences all t slug id
  caller.hooks existing
  let t := t.modify slug (updateWhere (hasId id) (softDeleteData c.info caller.userId now))
  .ok (cascadeDelete all .soft now slug id t)

/-- `restoreItem`. -/
def restoreItem (all : List (EntitySchema N)) (slug id : String) (caller : RequestContext N) (now : IsoTime)
    (t : Tables N) : Except ApiError (Tables N) := do
  let c ← getCollection all slug
  assertGenericWrite slug c.info .update
  assertUuid id
  let existing ← existingRow t slug id
  if (existing.get "deleted_at").truthy then
    assertNotFrozen slug c.info existing
    caller.access existing
    .ok (t.modify slug
      (updateWhere (hasId id) [("deleted_at", .null), ("updated_at", .str now.text)]))
  else .error (.validation "Item is not trashed" none)

/-- `hardDeleteItem`. -/
def hardDeleteItem (all : List (EntitySchema N)) (slug id : String) (caller : RequestContext N)
    (now : IsoTime) (t : Tables N) : Except ApiError (Tables N) := do
  let c ← getCollection all slug
  assertGenericWrite slug c.info .delete
  assertUuid id
  let existing ← existingRow t slug id
  assertNotFrozen slug c.info existing
  caller.access existing
  .ok (cascadeDelete all .hard now slug id (t.modify slug (deleteWhere (hasId id))))

/-- The INSERT of `createItem`, of the columns it has made of a request. -/
def insertItem (all : List (EntitySchema N)) (slug id : String) (d : UserColumns N) (t : Tables N) :
    Except ApiError (Tables N) := do
  let c ← getCollection all slug
  assertGenericWrite slug c.info .create
  if (t slug).any (hasId id) then .error (.internal "UNIQUE constraint failed")
  else .ok (t.modify slug (· ++ [d.row id]))

/-- The UPDATE of `updateItem`, of the columns it has made of a request. -/
def writeItem (all : List (EntitySchema N)) (slug id : String) (caller : RequestContext N)
    (d : UserColumns N) (t : Tables N) : Except ApiError (Tables N) := do
  let c ← getCollection all slug
  assertGenericWrite slug c.info .update
  assertUuid id
  let existing ← existingRow t slug id
  assertNotFrozen slug c.info existing
  caller.access existing
  .ok (t.modify slug (updateWhere (hasId id) d.columns))

omit [JsNumber N] in
/-- `childMap[fieldName]`: the collection of the rows of a child table. -/
def childSlug (c : EntitySchema N) (all : List (EntitySchema N)) (fieldName : String) :
    Option String :=
  ((c.info.schemaFields.reverse.find? fun f => f.type = .table && f.name = fieldName).bind
    (·.relatedCollection)).filter fun slug => all.any (·.slug = slug)

omit [JsNumber N] in
/-- A child row as it is inserted, with its new id. -/
def childRow (parentId : String) (item : String × UserColumns N) : Record N :=
  Record.assign [("id", .str item.1), ("parent_id", .str parentId)] item.2.columns

omit [JsNumber N] in
/-- `createChildren`, for one field. -/
def createChildren (parentId slug : String) (items : List (String × UserColumns N))
    (t : Tables N) : Tables N := t.modify slug (· ++ items.map (childRow parentId))

omit [JsNumber N] in
/-- `replaceChildren`, for one field. -/
def replaceChildren (parentId slug : String) (items : List (String × UserColumns N))
    (t : Tables N) : Tables N :=
  createChildren parentId slug items (t.modify slug (deleteWhere (textIn "parent_id" [parentId])))

end

end HeadlessErp
