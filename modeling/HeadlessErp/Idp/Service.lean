import HeadlessErp.Idp.Differ

/-!
# Applying a deployment

`planDeployment`, `applyDeployment` and `rollbackDeployment` of
`apps/api/src/domain-modules/idp/service.ts`. A text of JSON is what it parses to (`SchemaText`,
`SnapshotText`). A row of the ledger is kept with the snapshot it was written for, of which the
table has the checksum.
-/

namespace HeadlessErp.Idp

open StateExcept

/-! ## Stored texts -/

/-- A `schema_json`. -/
inductive SchemaText (N : Type) where
  | malformed
  | shapeless
  | fields (fs : List (SchemaField N))

/-- A collection of a stored snapshot: it has a `schema_json`, or it lists its `fields`. -/
structure StoredCollection (N : Type) where
  name : String
  slug : String
  description : Option String := none
  schemaJson : Option (SchemaText N) := none
  fields : Option (List (SchemaField N)) := none
  other : Record N := []

/-- A snapshot as it is stored. -/
structure StoredSnapshot (N : Type) where
  collections : List (StoredCollection N)
  roles : Option (List String) := none
  permissions : Option (List RolePermission) := none
  other : Record N := []

/-- A `snapshot_json`; `shapeless` has no list of collections. -/
inductive SnapshotText (N : Type) where
  | malformed
  | shapeless
  | snapshot (s : StoredSnapshot N)

/-- A row of `idp_deployment`. -/
structure Deployment (N : Type) where
  id : String
  moduleId : String
  environmentId : String
  snapshotJson : Option (SnapshotText N) := none
  status : String := "draft"
  deployedAt : Option Nat := none
  deleted : Bool := false

/-- A row of `_migrations` that `applySnapshot` has written. -/
structure LedgerRow (N : Type) where
  snapshot : SchemaSnapshot N
  environmentId : String

/-- The database. -/
structure Live (N : Type) where
  db : Catalogue N := {}
  roles : List String := []
  permissions : List RolePermission := []
  deployments : List (Deployment N) := []
  ledger : List (LedgerRow N) := []

/-- An exception: of this service, with the status it is answered with, or of a service it uses. -/
inductive Failure where
  | idp (message : String) (status : Nat)
  | error (message : String)
  | api (e : ApiError)

/-- What the service takes from the platform: `stringify` is `JSON.stringify`. -/
structure IdpEnv (N : Type) extends SchemaEnv where
  stringify : SchemaSnapshot N → String

/-- The names of the fields that a snapshot leaves to the engine. -/
def sys : List String :=
  ["id", "_meta", "doc_status", "display_number", "deleted_at", "created_at", "updated_at"]

section
variable {N : Type}

/-! ## Normalizing -/

/-- `cleanSchemaJson`. -/
def cleanSchemaJson (slug : String) : SchemaText N → Except Failure (List (SchemaField N))
  | .malformed =>
    .error (.idp ("Collection \"" ++ slug
      ++ "\" has a malformed schema_json — cannot build a schema snapshot") 500)
  | .shapeless =>
    .error (.idp ("Collection \"" ++ slug ++ "\" has a shapeless schema_json (expected an array or "
      ++ "\x7b fields: [...] \x7d) — cannot build a schema snapshot") 500)
  | .fields fs => .ok (fs.filter fun f => !sys.contains f.name)

/-- A collection with its fields in one form. -/
def normalizeCollection (c : StoredCollection N) : Except Failure (EntitySchema N) :=
  let withFields (fs : List (SchemaField N)) : EntitySchema N :=
    { name := c.name, slug := c.slug, description := c.description, fields := fs, other := c.other }
  match c.schemaJson with
  | some text => (cleanSchemaJson c.slug text).map withFields
  | none => .ok (withFields (c.fields.getD []))

/-- `normalizeSnapshot`. -/
def normalizeSnapshot (raw : StoredSnapshot N) : Except Failure (SchemaSnapshot N) := do
  let collections ← raw.collections.mapM normalizeCollection
  .ok { collections := collections, roles := raw.roles.getD [],
        permissions := raw.permissions.getD [], other := raw.other }

/-- `parseSnapshot`. -/
def parseSnapshot : Option (SnapshotText N) → Except Failure (SchemaSnapshot N)
  | none => .error (.error "Deployment has no snapshot to apply")
  | some .malformed => .error (.error "Deployment snapshot_json is malformed")
  | some .shapeless =>
    .error (.error "Deployment snapshot_json must contain a \"collections\" array")
  | some (.snapshot s) => normalizeSnapshot s

/-- `snapshotChecksum`: FNV-1a of 32 bits over the code units. -/
def snapshotChecksum (env : IdpEnv N) (snapshot : SchemaSnapshot N) : String :=
  let h := (utf16 (env.stringify snapshot)).foldl
    (fun h unit => (h ^^^ BitVec.ofNat 32 unit) * 0x01000193#32) 0x811c9dc5#32
  "fnv1a-" ++ String.ofList (List.leftpad 8 '0' (Nat.toDigits 16 h.toNat))

/-- A row of `_entity_schemas` in a snapshot. -/
def currentCollection (row : SchemaRow N) : Except Failure (EntitySchema N) :=
  (cleanSchemaJson row.slug ((row.fields.map .fields).getD .malformed)).map fun fs =>
    { name := row.name, slug := row.slug, description := row.description, fields := fs }

/-- `buildCurrentSnapshot`. -/
def buildCurrentSnapshot (live : Live N) : Except Failure (SchemaSnapshot N) := do
  let collections ← live.db.schemas.mapM currentCollection
  .ok { collections := collections, roles := live.roles, permissions := live.permissions }

/-! ## Deployments -/

/-- `getDeployment`. -/
def getDeployment (live : Live N) (id : String) : Except Failure (Deployment N) :=
  match live.deployments.find? (·.id = id) with
  | some dep => .ok dep
  | none => .error (.idp "Deployment not found" 404)

/-- `ORDER BY deployed_at DESC, id DESC`: a row comes before another. -/
def deployedBefore (a b : Deployment N) : Bool :=
  match a.deployedAt, b.deployedAt with
  | some s, some t => t < s || (s == t && b.id ≤ a.id)
  | some _, none => true
  | none, some _ => false
  | none, none => b.id ≤ a.id

/-- The deployment whose snapshot a rollback of another one takes. -/
def previousLive (live : Live N) (dep : Deployment N) : Option (Deployment N) :=
  ((live.deployments.filter fun d =>
    d.moduleId = dep.moduleId && d.environmentId = dep.environmentId && d.id ≠ dep.id &&
      d.status = "live" && !d.deleted).insertionSort fun a b => deployedBefore a b).head?

variable [JsNumber N]

/-- `planDeployment`, of a snapshot. -/
def plan (live : Live N) (snapshot : SchemaSnapshot N) : Except Failure (SchemaDiff N) :=
  (buildCurrentSnapshot live).map (diff · snapshot)

/-! ## Applying -/

/-- What `createCollection` is given of a collection of a snapshot. -/
def EntitySchema.toInput (col : EntitySchema N) : CreateCollectionInput N where
  name := col.name
  slug := some col.slug
  description := col.description
  fields := col.fields

/-- One collection of the loop: it is made when it is not there. -/
def createMissing (env : IdpEnv N) (col : EntitySchema N) :
    StateExcept Failure (Live N) ApplyStatus := fun live =>
  if live.db.schemas.any (·.slug = col.slug) then (.ok .skipped, live)
  else
    match createCollection env.toSchemaEnv col.toInput live.db with
    | (.ok _, db) => (.ok .created, { live with db := db })
    | (.error e, db) => (.error (.api e), { live with db := db })

/-- The loop of `applySnapshot`. -/
def createAllMissing (env : IdpEnv N) : List (EntitySchema N) →
    StateExcept Failure (Live N) (List (String × ApplyStatus))
  | [] => pure []
  | col :: cols => do
    let status ← createMissing env col
    let results ← createAllMissing env cols
    pure ((col.slug, status) :: results)

/-- A call that returns. -/
inductive Answer (N : Type) where
  | alreadyApplied (checksum : String)
  | applied (checksum : String) (results : List (String × ApplyStatus)) (diff : SchemaDiff N)

/-- The safety gate: breaking changes block unless the call is forced. -/
def checkSafe (force : Bool) (d : SchemaDiff N) : Except Failure Unit :=
  if !d.safeToApply && !force then
    .error (.idp ("Breaking schema changes — apply blocked ("
      ++ "; ".intercalate d.breakingChanges ++ "). Use force to override.") 409)
  else .ok ()

/-- The row of the ledger, and the deployment that is marked live. -/
def record (deploymentId : String) (row : LedgerRow N) (now : Nat) (live : Live N) : Live N :=
  { live with
    ledger := live.ledger ++ [row]
    deployments := live.deployments.map fun d =>
      if d.id = deploymentId then { d with status := "live", deployedAt := some now } else d }

/-- `applySnapshot`, of a snapshot that no row of the ledger stands for. -/
def applyNew (env : IdpEnv N) (dep : Deployment N) (snapshot : SchemaSnapshot N) (force : Bool)
    (now : Nat) : StateExcept Failure (Live N) (Answer N) := fun live =>
  (do
    let d ← ofExcept (plan live snapshot)
    ofExcept (checkSafe force d)
    let results ← createAllMissing env snapshot.collections
    modify (record dep.id ⟨snapshot, dep.environmentId⟩ now)
    pure (Answer.applied (snapshotChecksum env snapshot) results d)) live

/-- The ledger has a row of the checksum for the environment. -/
def isLedgered (env : IdpEnv N) (live : Live N) (environmentId : String)
    (snapshot : SchemaSnapshot N) : Bool :=
  live.ledger.any fun r =>
    snapshotChecksum env r.snapshot = snapshotChecksum env snapshot &&
      r.environmentId = environmentId

/-- `applySnapshot`. -/
def applySnapshot (env : IdpEnv N) (dep : Deployment N) (snapshotJson : Option (SnapshotText N))
    (force : Bool) (now : Nat) : StateExcept Failure (Live N) (Answer N) := fun live =>
  match parseSnapshot snapshotJson with
  | .error e => (.error e, live)
  | .ok snapshot =>
    if isLedgered env live dep.environmentId snapshot then
      (.ok (.alreadyApplied (snapshotChecksum env snapshot)), live)
    else applyNew env dep snapshot force now live

/-- A call. -/
inductive Call where
  | applyDeployment (deploymentId : String) (force : Bool)
  | rollbackDeployment (deploymentId : String)
  deriving DecidableEq

/-- The deployment of a call. -/
def Call.deploymentId : Call → String
  | .applyDeployment id _ => id
  | .rollbackDeployment id => id

/-- A rollback implies `force`. -/
def Call.force : Call → Bool
  | .applyDeployment _ force => force
  | .rollbackDeployment _ => true

omit [JsNumber N] in
/-- The snapshot that a call of a deployment applies. -/
def snapshotOf (live : Live N) (dep : Deployment N) :
    Call → Except Failure (Option (SnapshotText N))
  | .applyDeployment _ _ => .ok dep.snapshotJson
  | .rollbackDeployment _ =>
    match (previousLive live dep).bind (·.snapshotJson) with
    | some text => .ok (some text)
    | none => .error (.idp "No previous live snapshot to roll back to" 409)

/-- `applyDeployment` and `rollbackDeployment`. -/
def Call.perform (env : IdpEnv N) (call : Call) (now : Nat) :
    StateExcept Failure (Live N) (Answer N) := fun live =>
  match getDeployment live call.deploymentId with
  | .error e => (.error e, live)
  | .ok dep =>
    match snapshotOf live dep call with
    | .error e => (.error e, live)
    | .ok text => applySnapshot env dep text call.force now live

end

end HeadlessErp.Idp
