import HeadlessErp.Js.Map
import HeadlessErp.Schema.Snapshot

/-!
# Comparing schema snapshots

`SchemaDiffer` of `packages/core/src/entity/schema-differ.ts`, over the snapshots that
`apps/api/src/domain-modules/idp/service.ts` normalizes: each collection comes with the list of its
fields. A member that no comparison reads is kept in `other`, as it is part of the text that the
checksum of a snapshot is made of.
-/

namespace HeadlessErp.Idp

/-! ## Snapshots -/

/-- An `EntitySchema` of a snapshot, with the fields its `schema_json` lists. -/
structure EntitySchema (N : Type) where
  name : String
  slug : String
  description : Option String := none
  fields : List (SchemaField N)
  other : Record N := []

/-- A `RolePermissionRecord`: the six flags, as they are stored. -/
structure RolePermission where
  roleId : String
  collectionSlug : String
  canRead : Int := 0
  canWrite : Int := 0
  canCreate : Int := 0
  canDelete : Int := 0
  canApprove : Int := 0
  canSubmit : Int := 0
  deriving DecidableEq

/-- A `SchemaSnapshot`. `roles` are the names of the roles. -/
structure SchemaSnapshot (N : Type) where
  collections : List (EntitySchema N)
  roles : List String := []
  permissions : List RolePermission := []
  other : Record N := []

/-! ## Differences -/

/-- What a `FieldDiff` says of a field. -/
inductive FieldChange (N : Type) where
  | added (newValue : String)
  | removed (oldValue : String)
  | typeChanged (oldValue newValue : String)
  | modified (oldValue newValue : SchemaField N)

/-- A `FieldDiff`. -/
structure FieldDiff (N : Type) where
  field : String
  change : FieldChange N

/-- How `diff` lists a change of a field that is breaking. -/
def FieldDiff.breaking {N : Type} (slug : String) (d : FieldDiff N) : Option String :=
  let text (change oldValue newValue : String) :=
    slug ++ "." ++ d.field ++ ": " ++ change ++ " (was " ++ oldValue ++ ", now " ++ newValue ++ ")"
  match d.change with
  | .removed oldValue => some (text "removed" oldValue "undefined")
  | .typeChanged oldValue newValue => some (text "type_changed" oldValue newValue)
  | .added _ | .modified _ _ => none

/-- A change of the permissions of a role on a collection. -/
structure PermissionDiff where
  roleId : String
  collectionSlug : String
  changes : List String

/-- A `SchemaDiff`. -/
structure SchemaDiff (N : Type) where
  collectionsAdded : List (EntitySchema N)
  collectionsRemoved : List String
  collectionsModified : List (String × List (FieldDiff N))
  rolesAdded : List String
  rolesRemoved : List String
  permissionsChanged : List PermissionDiff
  totalChanges : Nat
  breakingChanges : List String
  safeToApply : Bool

section
variable {N : Type}

/-- `new Map(xs.map((x) => [key(x), x]))`. -/
def indexed {α : Type} (key : α → String) (xs : List α) : JsMap String α :=
  xs.foldl (fun m x => m.set (key x) x) .empty

section
variable [JsNumber N]

/-- `===` of two defaults. -/
def sameDefault : FieldDefault N → FieldDefault N → Bool
  | .string s, .string t => s == t
  | .number m, .number n => JsNumber.eq m n
  | .boolean b, .boolean c => b == c
  | _, _ => false

/-- `_diffField`. -/
def diffField (current incoming : SchemaField N) : Option (FieldDiff N) :=
  let same := current.required == incoming.required && current.index == incoming.index &&
    (match current.default, incoming.default with
      | none, none => true
      | some d, some e => sameDefault d e
      | _, _ => false)
  if same then none else some ⟨incoming.name, .modified current incoming⟩

/-- `_diffCollection`. -/
def diffCollection (current incoming : EntitySchema N) : List (FieldDiff N) :=
  let currentMap := indexed SchemaField.name current.fields
  let incomingMap := indexed SchemaField.name incoming.fields
  let added := incomingMap.entries.filterMap fun e =>
    if (currentMap.get? e.1).isNone then some ⟨e.1, .added e.2.type⟩ else none
  let removed := currentMap.entries.filterMap fun e =>
    if (incomingMap.get? e.1).isNone then some ⟨e.1, .removed e.2.type⟩ else none
  let modified := incomingMap.entries.filterMap fun e =>
    (currentMap.get? e.1).bind fun currentField =>
      if currentField.type ≠ e.2.type then
        some ⟨e.1, .typeChanged currentField.type e.2.type⟩
      else diffField currentField e.2
  added ++ removed ++ modified
end

/-- The flags in which two permissions differ. -/
def changedFlags (current incoming : RolePermission) : List String :=
  [("can_read", current.canRead == incoming.canRead),
   ("can_write", current.canWrite == incoming.canWrite),
   ("can_create", current.canCreate == incoming.canCreate),
   ("can_delete", current.canDelete == incoming.canDelete),
   ("can_approve", current.canApprove == incoming.canApprove),
   ("can_submit", current.canSubmit == incoming.canSubmit)].filterMap fun flag =>
    if flag.2 then none else some flag.1

/-- The key of a permission. -/
def RolePermission.key (p : RolePermission) : String := p.roleId ++ ":" ++ p.collectionSlug

/-- `_diffPermissions`. -/
def diffPermissions (current incoming : List RolePermission) : List PermissionDiff :=
  let currentMap := indexed RolePermission.key current
  let incomingMap := indexed RolePermission.key incoming
  let changed := incomingMap.entries.filterMap fun e =>
    let changes := match currentMap.get? e.1 with
      | none => ["added"]
      | some p => changedFlags p e.2
    if changes = [] then none else some ⟨e.2.roleId, e.2.collectionSlug, changes⟩
  let removed := currentMap.entries.filterMap fun e =>
    if (incomingMap.get? e.1).isNone then
      some ⟨e.2.roleId, e.2.collectionSlug, ["removed"]⟩
    else none
  changed ++ removed

variable [JsNumber N]

/-- `SchemaDiffer.diff`. -/
def diff (current incoming : SchemaSnapshot N) : SchemaDiff N :=
  let currentCols := indexed EntitySchema.slug current.collections
  let incomingCols := indexed EntitySchema.slug incoming.collections
  let added := incoming.collections.filter fun c => (currentCols.get? c.slug).isNone
  let removed := (current.collections.filter fun c =>
    (incomingCols.get? c.slug).isNone).map EntitySchema.slug
  let modified := (incomingCols.entries.map fun e =>
    (e.1, ((currentCols.get? e.1).map (diffCollection · e.2)).getD [])).filter (·.2.length > 0)
  let breaking := modified.flatMap fun m => m.2.filterMap (FieldDiff.breaking m.1)
  let rolesAdded := incoming.roles.filter fun r => !current.roles.contains r
  let rolesRemoved := current.roles.filter fun r => !incoming.roles.contains r
  let permissions := diffPermissions current.permissions incoming.permissions
  { collectionsAdded := added
    collectionsRemoved := removed
    collectionsModified := modified
    rolesAdded := rolesAdded
    rolesRemoved := rolesRemoved
    permissionsChanged := permissions
    totalChanges := added.length + removed.length + (modified.map (·.2.length)).sum +
      rolesAdded.length + rolesRemoved.length + permissions.length
    breakingChanges := breaking
    safeToApply := breaking.isEmpty && removed.isEmpty }

end

end HeadlessErp.Idp
