import HeadlessErp.Entity.Row

/-!
# The audit writers

What a create or an update writes to the audit tables: `AuditService.log` of
`apps/api/src/lib/services/audit.service.ts` packs the documents into one row of `_audit_log`, with
the values under sensitive keys replaced (`mask`), and `FieldAuditService` of
`apps/api/src/lib/services/field-audit.service.ts` writes one row of `_field_audit` a field. The
random ids and the clock are part of the call, so that two writes of the same call differ in their
documents only. Every INSERT succeeds here.
-/

namespace HeadlessErp.Audit

/-! ## `_mask` -/

/-- `SENSITIVE_FIELDS`. -/
def sensitiveFields : List String :=
  ["password", "password_hash", "secret", "token", "api_key", "jwt", "client_secret"]

/-- `MAX_MASK_DEPTH`. -/
def maxMaskDepth : Nat := 5

/-- `isSensitiveKey`. -/
def isSensitiveKey (key : String) : Bool :=
  let lower := toLowerCase key
  sensitiveFields.contains lower || "_secret".toList.isSuffixOf lower.toList ||
    "_token".toList.isSuffixOf lower.toList || "_password".toList.isSuffixOf lower.toList

section
variable {N : Type}

mutual

/-- `_mask`. -/
def mask (depth : Nat) : JsVal N → JsVal N
  | .arr xs => if maxMaskDepth < depth then .arr xs else .arr (maskElems (depth + 1) xs)
  | .obj kvs => if maxMaskDepth < depth then .obj kvs else .obj (maskMembers (depth + 1) kvs)
  | value => value

/-- The elements of the masked array. -/
def maskElems (depth : Nat) : List (JsVal N) → List (JsVal N)
  | [] => []
  | x :: xs => mask depth x :: maskElems depth xs

/-- The members of the masked object. -/
def maskMembers (depth : Nat) : List (String × JsVal N) → List (String × JsVal N)
  | [] => []
  | (k, v) :: kvs =>
    -- `out["__proto__"] = …` sets the prototype, which is not written
    if k = "__proto__" then maskMembers depth kvs
    else (k, if isSensitiveKey k then .str "[REDACTED]" else mask depth v) :: maskMembers depth kvs

end

/-! ## `AuditService.log` -/

/-- The action of an audit entry. -/
inductive AuditAction where
  | create | update | delete | submit | approve | reject | restore
  deriving DecidableEq

/-- The snapshot strategy of a collection. -/
inductive SnapshotMode where
  | full | delta | none
  deriving DecidableEq

/-- A row of `_audit_log`. -/
structure AuditEntry where
  id : String
  collectionSlug : String
  documentId : String
  action : AuditAction
  userId : Option String
  changes : Option String
  timestamp : String

/-- The documents `log` is given, and the action. -/
structure LogInput (N : Type) where
  action : AuditAction
  changes : Option (Record N) := Option.none
  snapshotBefore : Option (Record N) := Option.none
  snapshotAfter : Option (Record N) := Option.none

/-- What a write to the audit tables reads beside the documents. -/
structure AuditCall where
  auditEnabled : Bool
  snapshotMode : SnapshotMode
  collectionSlug : String
  documentId : String
  /-- `auth?.user_id` -/
  userId : Option String
  /-- `crypto.randomUUID()`: of the audit entry, and of the field rows in their order -/
  entryId : String
  rowId : Nat → String
  /-- `new Date().toISOString()` -/
  timestamp : String

/-- `storeSnap`. -/
def storeSnap (mode : SnapshotMode) (action : AuditAction) : Bool :=
  mode = .full || mode = .delta && action = .create

/-- A document of the payload, masked. -/
def maskedMember (key : String) (document : Option (Record N)) : Record N :=
  (document.map fun d => (key, mask 0 (.obj d))).toList

/-- `changesPayload`. -/
def changesPayload (mode : SnapshotMode) (entry : LogInput N) : Record N :=
  (if storeSnap mode entry.action then
      maskedMember "snapshot_before" entry.snapshotBefore ++
        maskedMember "snapshot_after" entry.snapshotAfter
    else []) ++
  maskedMember "fields" entry.changes

variable [JsNumber N]

/-- The row that `AuditService.log` inserts. -/
def log (c : AuditCall) (entry : LogInput N) : AuditEntry :=
  let payload := changesPayload c.snapshotMode entry
  { id := c.entryId
    collectionSlug := c.collectionSlug
    documentId := c.documentId
    action := entry.action
    userId := c.userId.filter (· ≠ "")
    changes := if 0 < payload.length then (JsVal.obj payload).toJson else none
    timestamp := c.timestamp }

/-! ## `FieldAuditService` -/

/-- `SYSTEM_FIELDS`. -/
def systemFields : List String :=
  ["id", "_meta", "created_at", "updated_at", "deleted_at", "deleted_by", "_owner", "created_by",
    "updated_by", "display_number", "doc_status", "_transition"]

/-- The stage that wrote a value. -/
inductive FieldAuditSource where
  | create | update | workflow | decisionTable | hook | plugin | delete | restore

/-- A row of `_field_audit`. -/
structure FieldAuditRow where
  id : String
  collectionSlug : String
  documentId : String
  field : String
  valueFrom : Option String
  valueTo : Option String
  byUser : Option String
  source : FieldAuditSource

/-- `stringify`. -/
def stringify : JsVal N → Option String
  | .undefined | .null => none
  | .arr xs => (JsVal.arr xs).toJson
  | .obj kvs => (JsVal.obj kvs).toJson
  | v => some v.toStr

/-- A change of a field: its name, and the texts before and after. -/
structure FieldChange where
  field : String
  valueFrom : Option String
  valueTo : Option String

/-- The row of a change. -/
def FieldChange.row (c : AuditCall) (source : FieldAuditSource) (i : Nat) (change : FieldChange) :
    FieldAuditRow where
  id := c.rowId i
  collectionSlug := c.collectionSlug
  documentId := c.documentId
  field := change.field
  valueFrom := change.valueFrom
  valueTo := change.valueTo
  byUser := c.userId
  source := source

/-- What the loop of `logCreate` pushes for a field. -/
def createdField (kv : String × JsVal N) : Option FieldChange :=
  if systemFields.contains kv.1 then none
  else if kv.2.isNullish then none
  else some ⟨kv.1, none, stringify kv.2⟩

/-- What the loop of `logUpdate` pushes for a field. -/
def updatedField (before : Record N) (kv : String × JsVal N) : Option FieldChange :=
  if systemFields.contains kv.1 then none
  else
    let prev := (JsVal.obj before).getMember kv.1
    if stringify prev = stringify kv.2 then none
    else some ⟨kv.1, stringify prev, stringify kv.2⟩

/-- The rows of `logCreate`. -/
def logCreate (c : AuditCall) (item : Record N) : List FieldAuditRow :=
  (item.filterMap createdField).mapIdx (FieldChange.row c .create)

/-- The rows of `logUpdate`. -/
def logUpdate (c : AuditCall) (before after : Record N) : List FieldAuditRow :=
  (after.filterMap (updatedField before)).mapIdx (FieldChange.row c .update)

end

/-- `insertMany`: one INSERT for each twelve rows. -/
def insertMany (table : List FieldAuditRow) : List FieldAuditRow → List FieldAuditRow
  | [] => table
  | row :: rows => insertMany (table ++ (row :: rows).take 12) ((row :: rows).drop 12)
termination_by rows => rows.length
decreasing_by
  rw [List.length_drop, List.length_cons]
  omega

/-! ## Creates and updates -/

/-- The two audit tables. -/
structure AuditTables where
  auditLog : List AuditEntry
  fieldAudit : List FieldAuditRow

/-- The documents of a create or an update: `item` is the document as written, `existing` the row
before, `userData` the payload. -/
inductive Mutation (N : Type) where
  | create (item : Record N)
  | update (newStatus : Option String) (userData existing item : Record N)

/-- `auditAction` of an update. -/
def auditAction (newStatus : Option String) : AuditAction :=
  if newStatus = some "submitted" then .submit
  else if newStatus = some "approved" then .approve
  else .update

section
variable {N : Type} [JsNumber N]

/-- What `createItem` and `updateItem` write to the audit tables. -/
def recordMutation (c : AuditCall) (T : AuditTables) : Mutation N → AuditTables
  | .create item =>
    if c.auditEnabled then
      { auditLog := T.auditLog ++ [log c { action := .create, snapshotAfter := some item }]
        fieldAudit := insertMany T.fieldAudit (logCreate c item) }
    else T
  | .update newStatus userData existing item =>
    if c.auditEnabled then
      let entry : LogInput N :=
        { action := auditAction newStatus, changes := some userData,
          snapshotBefore := some existing, snapshotAfter := some item }
      { auditLog := T.auditLog ++ [log c entry]
        fieldAudit := insertMany T.fieldAudit (logUpdate c existing item) }
    else T

end

/-! ## What is inserted -/

theorem insertMany_eq (table rows : List FieldAuditRow) :
    insertMany table rows = table ++ rows := by
  induction table, rows using insertMany.induct with
  | case1 table => rw [insertMany, List.append_nil]
  | case2 table row rows ih => rw [insertMany, ih, List.append_assoc, List.take_append_drop]

end HeadlessErp.Audit
