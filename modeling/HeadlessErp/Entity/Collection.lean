import HeadlessErp.Entity.FieldSelection

/-!
# Collections

`CollectionInfo` and its policies, of `apps/api/src/lib/services/collection.shared.ts`: what the
services read of a collection's stored schema.
-/

namespace HeadlessErp

/-- The modes of a search: `contains`, and `prefix`. -/
inductive SearchMode where
  | contains
  | anchored
  deriving DecidableEq, Repr

/-- A `SearchPolicy`. -/
structure SearchPolicy where
  mode : SearchMode := .contains
  fields : List String := []

/-- `policies.writes`. `freezeWhen` is a field and the values that freeze a row. -/
structure WritesPolicy where
  service : Bool := false
  appendOnly : Bool := false
  frozenFields : List String := []
  freezeWhen : Option (String × List String) := none
  confirmable : Bool := false

/-- A `StatusMachineConfig`: for a status, the statuses it may be changed to. -/
structure StatusMachine where
  field : String
  transitions : List (String × List String)

/-- `policies.cache`. -/
structure CachePolicy where
  enabled : Bool := true
  ttlS : Int := 60

/-- A `CollectionInfo`: no field of the schema has the name of a system field. -/
structure CollectionInfo (N : Type) where
  tableName : String
  schemaFields : List (FieldDefinition N)
  systemFieldOptions : SystemFieldOptions := {}
  search : SearchPolicy := {}
  statusMachine : Option StatusMachine := none
  writes : WritesPolicy := {}
  actorFields : List String := []
  listFields : Option FieldSelection := none
  cache : CachePolicy := {}
  fields_user : ∀ f ∈ schemaFields, f.name ∉ systemFieldNames

end HeadlessErp
