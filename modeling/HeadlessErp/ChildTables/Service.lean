import HeadlessErp.Entity.Create
import HeadlessErp.Relations.Resolve

/-!
# The child table service

`ChildTableService` of `apps/api/src/plugins/child-tables/service.ts`: the rows of a table field lie in
the table of its child collection, with the id of their parent. `createChildren` inserts them after a
new parent, one by one, `replaceChildren` deletes those of a parent and inserts others in one batch, and
`resolveChildren` reads them by their ids. `ChildTableService.step` is a create or an update of a parent
that does so with what `extractChildData` takes out of its document.
-/

namespace HeadlessErp

/-! ## The service -/

/-- The service of the collections, with what their tables make of an INSERT. Rows are inserted live, and
the ids of parents are texts. -/
structure ChildTableService (N : Type) extends StoreSchema N where
  storage : String → Storage N
  blank : String → Record N
  parseJson : String → Option (JsVal N)
  parent_text : ∀ slug s, (storage slug).store "parent_id" (.str s) = .str s
  blank_live : ∀ slug, isLive (blank slug) = true

/-- Whether a write creates the parent or updates it. -/
inductive ParentWriteKind where
  | create
  | update
  deriving DecidableEq, Repr

/-- A write of a parent: its document after the hooks, the columns of its own row, and the ids that are
drawn for the rows of a field. -/
structure ParentWrite (N : Type) where
  kind : ParentWriteKind
  parentId : String
  document : Record N
  columns : Record N
  childId : String → Nat → String
  now : IsoTime

namespace ChildTableService
section
variable {N : Type} [JsNumber N] (S : ChildTableService N)

/-! ## Writing -/

/-- The columns of the row of an item, where it is an object. -/
def childData (child : EntitySchema N) (w : ParentWrite N) (fieldName : String) (k : Nat)
    (item : JsVal N) : Except ApiError (Option (Record N)) :=
  match objectEntries item with
  | none => .ok none
  | some entries => do
    let columns ← coerceChildRow child.info.schemaFields entries
    .ok (some (childInsertData (w.childId fieldName k) w.parentId columns w.now))

omit [JsNumber N] in
/-- `INSERT INTO` the table of a child collection. -/
def insertRow (child : EntitySchema N) (data : Record N) : Except ApiError (Record N) :=
  updateRow (S.storage child.slug) data (S.blank child.slug)

/-- The row that `createChildren` inserts for an item. -/
def createdRow (child : EntitySchema N) (w : ParentWrite N) (fieldName : String) (k : Nat)
    (item : JsVal N) : Except ApiError (Option (Record N)) := do
  match ← childData child w fieldName k item with
  | none => .ok none
  | some data =>
    match S.insertRow child data with
    | .ok row => .ok (some row)
    | .error (.internal msg) => .error (childInsertError msg)
    | .error e => .error e

/-- `createChildren`, for one field, from the `k`-th item on. -/
def createRows (child : EntitySchema N) (w : ParentWrite N) (fieldName : String) :
    Nat → List (JsVal N) → StateExcept ApiError (Tables N) Unit
  | _, [] => pure ()
  | k, item :: items => do
    let row ← .ofExcept (S.createdRow child w fieldName k item)
    .modify fun t => t.modify child.slug (· ++ row.toList)
    createRows child w fieldName (k + 1) items

/-- The row that `replaceChildren` inserts for an item. -/
def replacedRow (child : EntitySchema N) (w : ParentWrite N) (fieldName : String) (k : Nat)
    (item : JsVal N) : Except ApiError (Option (Record N)) := do
  match ← childData child w fieldName k item with
  | none => .ok none
  | some data => do
    let row ← S.insertRow child data
    .ok (some row)

/-- The rows that `replaceChildren` inserts for the items of a field, from the `k`-th on. -/
def replacedRows (child : EntitySchema N) (w : ParentWrite N) (fieldName : String) :
    Nat → List (JsVal N) → Except ApiError (List (Record N))
  | _, [] => .ok []
  | k, item :: items => do
    let row ← S.replacedRow child w fieldName k item
    let rows ← replacedRows child w fieldName (k + 1) items
    .ok (row.toList ++ rows)

omit [JsNumber N] in
/-- What `replaceChildren` makes of an error of the batch. -/
def replaceError (child : EntitySchema N) : ApiError → ApiError
  | .internal msg =>
    if includesChars "UNIQUE".toList msg.toList then
      .internal ("Duplicate child record in " ++ child.info.tableName)
    else if includesChars "NOT NULL".toList msg.toList then
      .validation ("Child table field missing: "
        ++ String.ofList ((msg.toList.splitOn ':').getLast?.getD [])) none
    else .internal msg
  | e => e

/-- `replaceChildren`, for one field: the DELETE and the INSERTs are one batch. -/
def replaceRows (child : EntitySchema N) (w : ParentWrite N) (fieldName : String)
    (items : List (JsVal N)) : StateExcept ApiError (Tables N) Unit := fun t =>
  match S.replacedRows child w fieldName 0 items with
  | .ok rows =>
    (.ok (), t.modify child.slug fun old => deleteWhere (textIn "parent_id" [w.parentId]) old ++ rows)
  | .error e => (.error (replaceError child e), t)

/-- One field of `createChildren` or of `replaceChildren`. A field without a collection is passed over. -/
def writeField (c : EntitySchema N) (w : ParentWrite N) (fieldName : String) (items : List (JsVal N)) :
    StateExcept ApiError (Tables N) Unit :=
  match childTarget S.all c fieldName with
  | none => pure ()
  | some child =>
    match w.kind with
    | .create => S.createRows child w fieldName 0 items
    | .update => S.replaceRows child w fieldName items

/-! ## Reading -/

/-- `decodeJsonFields`, on one value of a child row. -/
def decodeField (fields : List (FieldDefinition N)) (k : String) (v : JsVal N) : JsVal N :=
  let v := if fields.any fun f => f.name = k && f.type = .json then
      match v with
      | .str s =>
        if ["\x7b", "[", "\""].any (·.toList.isPrefixOf s.toList) then (S.parseJson s).getD v else v
      | v => v
    else v
  if fields.any fun f => f.name = k &&
      (f.type = .boolean || (f.type = .formula && f.resultType = some .boolean)) then decodeBoolean v
  else v

omit [JsNumber N] in
/-- The live rows of a parent in the table of a child collection, by their ids. -/
def rowsOf (t : Tables N) (slug parentId : String) : List (Record N) :=
  (((t slug).filter isLive).filter (textIn "parent_id" [parentId])).insertionSort
    fun a b => strLt (rowText b "id") (rowText a "id") = false

/-- `resolveChildren`, for one field of one parent, with the json and boolean fields decoded as a read of
the parent decodes them. -/
def resolveChildren (t : Tables N) (limit : Option Nat) (f : FieldDefinition N) (parentId : String) :
    List (Record N) :=
  match f.relatedCollection.bind fun slug => S.all.find? (·.slug = slug) with
  | none => []
  | some child =>
    let rows := rowsOf t child.slug parentId
    (limit.elim rows rows.take).map fun row =>
      (childFields row).map fun kv => (kv.1, S.decodeField child.info.schemaFields kv.1 kv.2)

end
end ChildTableService

end HeadlessErp
