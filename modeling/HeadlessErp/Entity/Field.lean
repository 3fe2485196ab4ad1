import Mathlib.Data.List.Nodup
import HeadlessErp.Js.Value

/-!
# Fields of a collection

`FieldDefinition` and `SystemFieldOptions` of `packages/types/src/entity.ts`, with the functions of
`packages/core/src/entity/field-utils.ts` that say which columns a collection's table has.
-/

namespace HeadlessErp

/-- `FIELD_TYPE_NAMES`. -/
inductive FieldType where
  | text
  | longtext
  | slug
  | password
  | integer
  | number
  | bigint
  | currency
  | percent
  | rating
  | boolean
  | timestamp
  | date
  | time
  | json
  | csv
  | location
  | color
  | m2o
  | o2m
  | m2m
  | m2a
  | file
  | image
  | select
  | uuid
  | table
  | formula
  | textEditor
  | code
  | markdown
  | signature
  | duration
  | barcode
  | datetime
  | phone
  | email
  | url
  | icon
  | tags
  | progress
  deriving DecidableEq, Repr

/-- `FormulaResultType`. -/
inductive ResultType where
  | number
  | string
  | boolean
  | json
  deriving DecidableEq, Repr

/-- `RoundingMode`. -/
inductive RoundingMode where
  | halfUp
  | halfEven
  | up
  | down
  deriving DecidableEq, Repr

/-- The value of a field's `default`. -/
inductive FieldDefault (N : Type) where
  | string (s : String)
  | number (n : N)
  | boolean (b : Bool)

/-- A `FieldDefinition`. An absent flag is `none` where the code tells it from `false`. -/
structure FieldDefinition (N : Type) where
  name : String
  type : FieldType
  required : Option Bool := none
  default : Option (FieldDefault N) := none
  relatedCollection : Option String := none
  relatedCollections : Option (List String) := none
  foreignKey : Option String := none
  cascadeDelete : Option Bool := none
  source : Option String := none
  encrypted : Bool := false
  formula : Option String := none
  store : Bool := false
  resultType : Option ResultType := none
  precision : Option N := none
  rounding : Option RoundingMode := none
  inverseFormula : Option String := none
  inverseTarget : Option String := none
  unique : Bool := false
  index : Bool := false

/-- `SystemFieldOptions`, over `DEFAULT_SYSTEM_FIELDS`. -/
structure SystemFieldOptions where
  docStatus : Bool := true
  displayNumber : Bool := true
  createdBy : Bool := true
  updatedBy : Bool := true
  deletedAt : Bool := true
  deletedBy : Bool := true
  owner : Bool := true
  deriving DecidableEq, Repr

/-- `SYSTEM_FIELD_NAMES`: the names that are stripped from a collection's fields. -/
def systemFieldNames : List String :=
  ["id", "created_at", "updated_at", "doc_status", "display_number", "created_by", "updated_by",
   "_owner", "deleted_at", "deleted_by"]

/-- `SYSTEM_FIELDS`: the names of the columns the engine adds to a table. -/
def systemFields : List String := "_meta" :: systemFieldNames

/-- `buildSystemColumnsList`. -/
def buildSystemColumnsList (o : SystemFieldOptions) : List String :=
  ["id", "_meta", "created_at", "updated_at"]
    ++ (if o.docStatus then ["doc_status"] else [])
    ++ (if o.displayNumber then ["display_number"] else [])
    ++ (if o.owner then ["_owner"] else [])
    ++ (if o.deletedAt then ["deleted_at"] else [])
    ++ (if o.createdBy then ["created_by"] else [])
    ++ (if o.updatedBy then ["updated_by"] else [])
    ++ (if o.deletedBy then ["deleted_by"] else [])

/-- `byName.get`: of two fields of one name the later one stands. -/
def fieldByName {N : Type} (fields : List (FieldDefinition N)) (name : String) :
    Option (FieldDefinition N) := fields.reverse.find? (·.name = name)

/-- A field is found by its name, where the names are distinct. -/
theorem fieldByName_eq {N : Type} {fields : List (FieldDefinition N)} {f : FieldDefinition N}
    (hn : (fields.map (·.name)).Nodup) (hf : f ∈ fields) : fieldByName fields f.name = some f := by
  obtain ⟨g, hg⟩ := Option.isSome_iff_exists.1
    (List.find?_isSome (p := fun g : FieldDefinition N => decide (g.name = f.name)).2
      ⟨f, List.mem_reverse.2 hf, by simp⟩)
  have hname : g.name = f.name := by simpa using List.find?_some hg
  have hmem : g ∈ fields := List.mem_reverse.1 (List.mem_of_find?_eq_some hg)
  rw [fieldByName, hg, List.inj_on_of_nodup_map hn hmem hf hname]

/-- `isVirtualField`: the field has no column of its own name. -/
def FieldDefinition.isVirtual {N : Type} (f : FieldDefinition N) : Bool :=
  match f.type with
  | .formula => !f.store
  | .o2m | .m2m | .table => true
  | _ => false

/-- A formula that no column keeps. -/
def FieldDefinition.isVirtualFormula {N : Type} (f : FieldDefinition N) : Bool :=
  f.type = .formula && !f.store

/-- A formula whose value is kept in a column. -/
def FieldDefinition.isStored {N : Type} (f : FieldDefinition N) : Bool :=
  f.type = .formula && f.store && f.formula.any (· != "")

/-- The columns of one field. -/
def FieldDefinition.columns {N : Type} (f : FieldDefinition N) : List String :=
  if f.isVirtual then []
  else if f.type = .m2a then [f.name ++ "_type", f.name ++ "_id"]
  else [f.name]

/-- `physicalColumnNames`. -/
def physicalColumnNames {N : Type} (fields : List (FieldDefinition N)) : List String :=
  fields.flatMap FieldDefinition.columns

end HeadlessErp
