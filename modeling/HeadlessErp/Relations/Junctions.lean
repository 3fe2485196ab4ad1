import Mathlib.Data.List.Sort
import Mathlib.Logic.Function.Basic
import HeadlessErp.Base.Transition
import HeadlessErp.Schema.Collections

/-!
# Links of many-to-many fields

The statements that a write of an m2m field runs (`buildM2MStatements` and `deleteM2MJunctions` of
`apps/api/src/lib/services/collection-cascade.service.ts`) and the expansion of such a field
(`getM2MRelations` and `resolveM2M` of `packages/core/src/entity/relation-resolver.ts`), of one row.
`written` records the list of ids that was last written to a field of a row.
-/

namespace HeadlessErp.M2M

/-! ## Schemas -/

/-- An m2m field. -/
structure LinkField where
  name : String
  relatedCollection : String
  deriving DecidableEq

/-- A collection with its m2m fields, whose names are distinct. -/
structure LinkCollection where
  slug : String
  tableName : String
  fields : List LinkField
  nodup : (fields.map LinkField.name).Nodup

/-- The collections of a database, of distinct slugs. -/
structure LinkSchemas where
  collections : List LinkCollection
  nodup : (collections.map LinkCollection.slug).Nodup

/-- The collection of a slug. -/
def LinkSchemas.find? (S : LinkSchemas) (slug : String) : Option LinkCollection :=
  S.collections.find? (·.slug = slug)

/-- The table of the related collection: the stored one, or the one its slug gives. -/
def targetTable (env : SchemaEnv) (S : LinkSchemas) (f : LinkField) : String :=
  ((S.find? f.relatedCollection).map (·.tableName)).getD (collectionTable env f.relatedCollection)

/-- The junction table of a field. -/
def junctionOf (env : SchemaEnv) (S : LinkSchemas) (c : LinkCollection) (f : LinkField) : String :=
  junctionName c.tableName (targetTable env S f)

/-! ## Statements -/

/-- A row of a junction table. -/
structure Link where
  table : String
  source : String
  target : String
  createdAt : Nat
  deriving DecidableEq

/-- The link is in the table, and of the source. -/
def Link.isOf (table source : String) (l : Link) : Bool :=
  sameName l.table table && l.source = source

/-- The links of a source in a junction table. -/
def linksOf (links : List Link) (table source : String) : List Link :=
  links.filter (Link.isOf table source)

/-- A statement on a junction table. -/
inductive LinkStatement where
  | delete (table source : String)
  | insert (l : Link)

/-- A statement: an insertion fails when the table has the pair. -/
def execute (links : List Link) : LinkStatement → Option (List Link)
  | .delete table source => some (links.filter fun l => !l.isOf table source)
  | .insert l =>
    if (linksOf links l.table l.source).any (·.target = l.target) then none else some (links ++ [l])

/-- The statements of a batch. -/
def executeAll (links : List Link) (statements : List LinkStatement) : Option (List Link) :=
  statements.foldlM execute links

/-- A create or an update. -/
inductive WriteMode where
  | create
  | update
  deriving DecidableEq

/-- What a payload says of its m2m fields: a field that is there has a list of ids, or another
value. -/
abbrev LinkData : Type := List (String × Option (List String))

/-- The list that a payload writes to a field: an update without the field leaves it, and a value
that is no list is an empty one. -/
def incoming (data : LinkData) (mode : WriteMode) (name : String) : Option (List String) :=
  match mode, data.lookup name with
  | .update, none => none
  | _, value => some ((value.bind id).getD [])

/-- The statements of one field. -/
def fieldStatements (junction : String) (data : LinkData) (source : String) (mode : WriteMode)
    (now : Nat) (f : LinkField) : List LinkStatement :=
  match incoming data mode f.name with
  | none => []
  | some ids =>
    (if mode = .update then [.delete junction source] else []) ++
      ids.map fun target => .insert ⟨junction, source, target, now⟩

/-- `buildM2MStatements`. -/
def buildM2MStatements (env : SchemaEnv) (S : LinkSchemas) (c : LinkCollection) (data : LinkData)
    (source : String) (mode : WriteMode) (now : Nat) : List LinkStatement :=
  c.fields.flatMap fun f => fieldStatements (junctionOf env S c f) data source mode now f

/-- The deletion of the links of one field, where its related collection is there. -/
def deleteField (S : LinkSchemas) (c : LinkCollection) (source : String) (links : List Link)
    (f : LinkField) : List Link :=
  match S.find? f.relatedCollection with
  | some target => links.filter fun l => !l.isOf (junctionName c.tableName target.tableName) source
  | none => links

/-- `deleteM2MJunctions`, of one source. -/
def deleteM2MJunctions (S : LinkSchemas) (c : LinkCollection) (source : String)
    (links : List Link) : List Link :=
  c.fields.foldl (deleteField S c source) links

/-! ## Rows -/

/-- The database. A row that is there is live or deleted softly. -/
structure LinkState where
  rows : String × String → Option Bool := fun _ => none
  links : List Link := []
  written : String × String × String → List String := fun _ => []

/-- The row is live. -/
def LinkState.isLive (s : LinkState) (slug id : String) : Bool := s.rows (slug, id) = some false

/-- An operation on a row of a collection. -/
inductive LinkOp where
  | create (slug id : String) (data : LinkData) (now : Nat)
  | update (slug id : String) (data : LinkData) (now : Nat)
  | softDelete (slug id : String)
  | restore (slug id : String)
  | hardDelete (slug id : String)

/-- The lists of a row, after a payload. -/
def LinkState.record (s : LinkState) (slug id : String) (data : LinkData) (mode : WriteMode) :
    String × String × String → List String := fun k =>
  if k.1 = slug ∧ k.2.1 = id then (incoming data mode k.2.2).getD (s.written k) else s.written k

/-- A create or an update, whose batch has run. -/
def LinkState.write (env : SchemaEnv) (S : LinkSchemas) (s : LinkState) (slug id : String)
    (data : LinkData) (mode : WriteMode) (now : Nat) : Option LinkState := do
  let c ← S.find? slug
  let links ← executeAll s.links (buildM2MStatements env S c data id mode now)
  some { rows := Function.update s.rows (slug, id) (some false), links := links,
         written := s.record slug id data mode }

/-- The operation, where it is accepted. -/
def LinkState.step (env : SchemaEnv) (S : LinkSchemas) (s : LinkState) : LinkOp → Option LinkState
  | .create slug id data now =>
    if s.rows (slug, id) = none then s.write env S slug id data .create now else none
  | .update slug id data now =>
    if s.rows (slug, id) = some false then s.write env S slug id data .update now else none
  | .softDelete slug id =>
    if s.rows (slug, id) = some false then
      some { s with rows := Function.update s.rows (slug, id) (some true) }
    else none
  | .restore slug id =>
    if s.rows (slug, id) = some true then
      some { s with rows := Function.update s.rows (slug, id) (some false) }
    else none
  | .hardDelete slug id =>
    if s.rows (slug, id) = none then none
    else (S.find? slug).map fun c =>
      { rows := Function.update s.rows (slug, id) none
        links := deleteM2MJunctions S c id s.links
        written := fun k => if k.1 = slug ∧ k.2.1 = id then [] else s.written k }

/-- The database, from its first row. -/
def linkSystem (env : SchemaEnv) (S : LinkSchemas) : System LinkState LinkOp where
  init s := s = {}
  step := LinkState.step env S

/-! ## Expansion -/

/-- `ORDER BY "created_at" ASC, "target_id" ASC`. -/
def Link.before (a b : Link) : Prop :=
  a.createdAt < b.createdAt ∨ a.createdAt = b.createdAt ∧ a.target ≤ b.target

instance : DecidableRel Link.before := fun _ _ => inferInstanceAs (Decidable (_ ∨ _))

/-- The cap on the links of one row. -/
def m2mLimit : Nat := 50

/-- `resolveM2M` of one field of one row: the ids of the targets. A field without a related
collection is not expanded. -/
def resolveM2M (env : SchemaEnv) (S : LinkSchemas) (s : LinkState) (c : LinkCollection)
    (f : LinkField) (id : String) : Option (List String) :=
  (S.find? f.relatedCollection).map fun target =>
    ((((linksOf s.links (junctionOf env S c f) id).insertionSort Link.before).take m2mLimit).map
      Link.target).filter (s.isLive target.slug)

end HeadlessErp.M2M
