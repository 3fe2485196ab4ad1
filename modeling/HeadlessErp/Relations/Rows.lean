import Mathlib.Data.List.Sort
import HeadlessErp.Query.RowFilter
import HeadlessErp.Relations.Computed
import HeadlessErp.Relations.Response

/-!
# The rows of a read

What a read of related rows meets (`ReadContext`), and the rows it fetches: how a row of a table
becomes an object, the columns of a selection, and the rows that the relations of a row lead to. From
`apps/api/src/lib/services/collection-relations.service.ts` and the relation resolver of
`packages/core/src/entity/relation-resolver.ts`.
-/

namespace HeadlessErp

/-! ## What a read meets -/

/-- The collections and their tables, the caller with the permissions of its role, and what the code
takes from the platform. The ids of a table are a primary key, and no field is called `_meta`. -/
structure ReadContext (N : Type) extends StoreSchema N where
  tables : Tables N
  junctions : String → List (Record N)
  engine : SqlEngine N (Record N)
  auth : Option (AuthContext N)
  rowFilter : String → Option (JsVal N)
  fieldRestrictions : String → Option (List String)
  parseJson : String → Option (JsVal N)
  registry : String → Option (List (JsVal N) → Except String (JsVal N))
  id_text : ∀ slug, ∀ row ∈ tables slug, ∃ id, row.get? "id" = some (.str id) ∧ id ≠ ""
  id_unique : ∀ slug, ∀ row ∈ tables slug, ∀ row' ∈ tables slug,
    row.get? "id" = row'.get? "id" → row = row'
  meta_reserved : ∀ c ∈ all, ∀ f ∈ c.info.schemaFields, f.name ≠ "_meta"

section
variable {N : Type} (S : ReadContext N)

namespace ReadContext

/-- `allC.find` by the slug. -/
def collection? (slug : String) : Option (EntitySchema N) := S.all.find? (·.slug = slug)

/-- The live rows of a collection. -/
def liveRows (slug : String) : List (Record N) := (S.tables slug).filter isLive

end ReadContext

/-- `String(item.id ?? '')`. -/
def idText [JsNumber N] (it : Item N) : String :=
  (((it.get? "id").map Node.js).getD .undefined |>.orElse (.str "")).toStr

/-! ## Rows -/

/-- `mergeRowData`. The `_meta` of a row is the text of an object. -/
def ReadContext.mergeRowData (row : Record N) : Record N :=
  let rest := row.erase "_meta"
  match row.get "_meta" with
  | .str s =>
    if 2 < jsLength s then
      match S.parseJson s with
      | some (.obj parsed) => Record.assign parsed rest
      | _ => rest
    else rest
  | _ => rest

/-- A `json` value as it is stored. -/
def ReadContext.decodeJson (v : JsVal N) : JsVal N :=
  match v with
  | .str s =>
    if ["\x7b", "[", "\""].any (·.toList.isPrefixOf s.toList) then (S.parseJson s).getD v else v
  | v => v

/-- A `boolean` value as it is stored. -/
def decodeBoolean [JsNumber N] (v : JsVal N) : JsVal N :=
  match v with
  | .num n =>
    if JsNumber.eq n (JsNumber.ofInt 1) then .bool true
    else if JsNumber.eq n (JsNumber.ofInt 0) then .bool false
    else v
  | .str s =>
    if s = "1" || s = "true" then .bool true
    else if s = "0" || s = "false" then .bool false
    else v
  | v => v

/-- `decodeJsonFields`, on one value. -/
def ReadContext.decodeField [JsNumber N] (fields : List (FieldDefinition N)) (k : String)
    (v : JsVal N) : JsVal N :=
  let v := if fields.any fun f => f.name = k && f.type = .json then S.decodeJson v else v
  if fields.any fun f => f.name = k &&
      (f.type = .boolean || (f.type = .formula && f.resultType = some .boolean)) then decodeBoolean v
  else v

/-- `decodeJsonFields`, on one row. -/
def ReadContext.decodeJsonFields [JsNumber N] (fields : List (FieldDefinition N)) (row : Record N) :
    Record N := row.map fun kv => (kv.1, S.decodeField fields kv.1 kv.2)

/-- The columns that a SELECT names. -/
def selectColumns (columns : Option (List String)) (row : Record N) : Record N :=
  match columns with
  | none | some [] => row
  | some columns => row.filter fun kv => columns.contains kv.1

/-- `REL_TYPES`. -/
def FieldType.isRelation : FieldType → Bool
  | .m2o | .o2m | .m2m | .m2a | .table | .formula => true
  | _ => false

/-- `kept.push`, where it is not there yet. -/
def pushNew (kept : List String) (name : String) : List String :=
  if kept.contains name then kept else kept ++ [name]

/-- The columns that a relation or a formula of a selection needs. -/
def wantedColumns (fields : List (FieldDefinition N)) (kept : List String) (name : String) :
    List String :=
  match fieldByName fields name with
  | some f =>
    if f.type = .m2o then pushNew kept name
    else if f.type = .m2a && !kept.contains (name ++ "_type") then
      kept ++ [name ++ "_type", name ++ "_id"]
    else kept
  | none => kept

/-- `projectColumns`. -/
def projectColumns (fields : List (FieldDefinition N)) (o : SystemFieldOptions)
    (selection : Option FieldSelection) : List String :=
  let sysCols := buildSystemColumnsList o
  let selectable := physicalColumnNames fields
  let allFields := "id" :: selectable ++
    (sysCols.filter (! ["id", "_meta"].contains ·) ++ ["_meta", "deleted_at"]).eraseDups
  match selection with
  | none => allFields
  | some node =>
    let excluded := node.excludes.contains
    if node.all then allFields.filter (!excluded ·)
    else
      let kept := node.columns.filter fun name => selectable.contains name && !excluded name
      let kept := (node.columns.filter fun name => !excluded name && sysCols.contains name &&
        ! ["id", "_meta", "created_at", "updated_at"].contains name).foldl pushNew kept
      let relations := (fields.filter (·.type.isRelation)).map (·.name)
      let wanted := node.relations.map (·.1) ++ (if 0 < node.expandDepth then relations else []) ++
        node.columns.filter relations.contains
      let kept := (wanted.filter (!excluded ·)).foldl (wantedColumns fields) kept
      let requested := node.columns.filter fun name =>
        fields.any fun f => f.isVirtualFormula && f.name = name
      let refs := (resolveFormulaDependencies fields requested).flatMap fun f =>
        extractFieldRefs (f.formula.getD "") fields
      let kept := (refs.filter fun name => !excluded name && selectable.contains name).foldl
        pushNew kept
      ("id" :: kept ++ ["_meta", "created_at", "updated_at"]).eraseDups

/-- `childTargetProjection`, for the table of one target. -/
def childTargetProjection (targets : List (EntitySchema N × FieldSelection))
    (target : EntitySchema N) : Option (List String) :=
  let nodes := (targets.filter (·.1.slug = target.slug)).map (·.2)
  if nodes.any (·.all) then none
  else some (nodes.flatMap fun node =>
    projectColumns target.info.schemaFields target.info.systemFieldOptions (some node)).eraseDups

/-- The object that a relation is resolved to. -/
def ReadContext.objectOf [JsNumber N] (target : EntitySchema N) (columns : Option (List String))
    (row : Record N) : Item N :=
  (⟨target.slug, row⟩, valueFields
    (S.decodeJsonFields target.info.schemaFields (S.mergeRowData (selectColumns columns row))))

/-! ## Related rows -/

/-- The text of a column. -/
def rowText (row : Record N) (k : String) : String :=
  match row.get k with
  | .str s => s
  | _ => ""

/-- The collection that a field names. -/
def ReadContext.target? (f : FieldDefinition N) : Option (EntitySchema N) :=
  (f.relatedCollection.filter (· != "")).bind S.collection?

/-- A field that names what its kind needs beside a collection. -/
def FieldDefinition.isComplete (f : FieldDefinition N) : Bool :=
  f.type != .o2m || f.foreignKey.any (· != "")

/-- `getM2ORelations`, `getO2MRelations`, `getM2MRelations`, and the fields of child tables. -/
def ReadContext.relations (type : FieldType) (fields : List (FieldDefinition N)) :
    List (FieldDefinition N × EntitySchema N) :=
  (fields.filter fun f => f.type = type && f.isComplete).filterMap fun f =>
    (S.target? f).map (f, ·)

/-- The row that an `m2o` field points at. -/
def ReadContext.m2oTarget (target : EntitySchema N) (fk : String) : Option (Record N) :=
  if fk = "" then none else (S.liveRows target.slug).find? (hasId fk)

/-- The rows that point at one, the newest ids first. -/
def ReadContext.o2mRows (f : FieldDefinition N) (target : EntitySchema N) (id : String) (limit : Nat) :
    List (Record N) :=
  (((S.liveRows target.slug).filter (textIn (f.foreignKey.getD "") [id])).insertionSort
    fun a b => strLt (rowText a "id") (rowText b "id") = false).take limit

/-- The name of a junction table. -/
def junctionTable (c target : EntitySchema N) : String :=
  "_jt_" ++ c.info.tableName ++ "_" ++ target.info.tableName

/-- The rows of a junction table, by their time and target. -/
def junctionBefore (a b : Record N) : Bool :=
  strLt (rowText a "created_at") (rowText b "created_at") ||
    (rowText a "created_at" == rowText b "created_at" &&
      !strLt (rowText b "target_id") (rowText a "target_id"))

/-- The ids that a junction table has for a row. -/
def ReadContext.junctionTargets (c target : EntitySchema N) (id : String) (limit : Option Nat) :
    List String :=
  let rows := ((S.junctions (junctionTable c target)).filter (textIn "source_id" [id])).insertionSort
    fun a b => junctionBefore a b = true
  ((limit.elim rows rows.take).map (rowText · "target_id")).filter (· != "")

/-- The rows that a junction table joins to one. -/
def ReadContext.m2mRows (c target : EntitySchema N) (id : String) (limit : Option Nat) :
    List (Record N) :=
  (S.junctionTargets c target id limit).filterMap fun id => (S.liveRows target.slug).find? (hasId id)

/-- The rows of a child table, by their ids. -/
def ReadContext.childRows (target : EntitySchema N) (id : String) : List (Record N) :=
  ((S.liveRows target.slug).filter (textIn "parent_id" [id])).insertionSort
    fun a b => strLt (rowText b "id") (rowText a "id") = false

/-- What `resolveChildren` leaves of a child row. -/
def childFields (row : Record N) : Record N :=
  row.filter fun kv => ! ["parent_id", "deleted_at", "_meta", "_ct_rn"].contains kv.1

/-! ## What is fetched -/

section
variable {S} {target : EntitySchema N} {row : Record N}

theorem slug_of_collection? {slug : String} (h : S.collection? slug = some target) :
    target ∈ S.all ∧ target.slug = slug :=
  ⟨List.mem_of_find?_eq_some h, by simpa using List.find?_some h⟩

theorem mem_of_target? {f : FieldDefinition N} (h : S.target? f = some target) : target ∈ S.all := by
  obtain ⟨slug, -, hslug⟩ := Option.bind_eq_some_iff.1 h
  exact (slug_of_collection? hslug).1

theorem mem_of_liveRows {slug : String} (h : row ∈ S.liveRows slug) : row ∈ S.tables slug :=
  (List.mem_filter.1 h).1

theorem mem_of_m2oTarget {fk : String} (h : S.m2oTarget target fk = some row) :
    row ∈ S.tables target.slug := by
  unfold ReadContext.m2oTarget at h
  split at h
  · cases h
  · exact mem_of_liveRows (List.mem_of_find?_eq_some h)

theorem mem_of_o2mRows {f : FieldDefinition N} {id : String} {limit : Nat}
    (h : row ∈ S.o2mRows f target id limit) : row ∈ S.tables target.slug := by
  have h := (List.perm_insertionSort _ _).subset (List.mem_of_mem_take h)
  exact mem_of_liveRows (List.mem_filter.1 h).1

theorem mem_of_m2mRows {c : EntitySchema N} {id : String} {limit : Option Nat}
    (h : row ∈ S.m2mRows c target id limit) : row ∈ S.tables target.slug := by
  obtain ⟨id, -, hid⟩ := List.mem_filterMap.1 h
  exact mem_of_liveRows (List.mem_of_find?_eq_some hid)

theorem mem_of_childRows {id : String} (h : row ∈ S.childRows target id) :
    row ∈ S.tables target.slug :=
  mem_of_liveRows (List.mem_filter.1 ((List.perm_insertionSort _ _).subset h)).1

end

/-- An object of a row of the target's table, before anything is done with it. -/
structure ReadContext.Fetched (target : EntitySchema N) (r : Item N) : Prop where
  origin : r.1.collection = target.slug
  mem : r.1.row ∈ S.tables target.slug
  value : ∀ k n, r.get? k = some n → ∃ v, n = .value v
  id : ∃ id, r.1.row.get? "id" = some (.str id) ∧ id ≠ "" ∧ r.text? "id" = some id

section
variable {S} {target : EntitySchema N} {row : Record N}

/-- The object of a row whose id is left as it is. -/
theorem ReadContext.Fetched.of_id (hmem : row ∈ S.tables target.slug) {fields : Record N}
    (hid : fields.get? "id" = row.get? "id") :
    S.Fetched target (⟨target.slug, row⟩, valueFields fields) where
  origin := rfl
  mem := hmem
  value k n hn := by
    rw [get?_valueFields] at hn
    obtain ⟨v, -, rfl⟩ := Option.map_eq_some_iff.1 hn
    exact ⟨v, rfl⟩
  id := by
    obtain ⟨id, hrow, hne⟩ := S.id_text target.slug row hmem
    refine ⟨id, hrow, hne, ?_⟩
    unfold Item.text?
    rw [get?_valueFields, hid, hrow]
    rfl

theorem get?_mergeRowData_id (h : (row.get? "id").isSome) :
    (S.mergeRowData row).get? "id" = row.get? "id" := by
  have hrest : (row.erase "_meta").get? "id" = row.get? "id" := by
    rw [Record.get?_erase, if_neg (by decide)]
  unfold ReadContext.mergeRowData
  simp only
  split
  · split
    · split
      · rw [Record.get?_assign, hrest]
        obtain ⟨v, hv⟩ := Option.isSome_iff_exists.1 h
        rw [hv]
        rfl
      · exact hrest
    · exact hrest
  · exact hrest

/-- The columns of a SELECT that has the ids. -/
def HasId (columns : Option (List String)) : Prop :=
  ∀ names, columns = some names → names ≠ [] → "id" ∈ names

theorem get?_selectColumns_id {columns : Option (List String)} (h : HasId columns) (row : Record N) :
    (selectColumns columns row).get? "id" = row.get? "id" := by
  unfold selectColumns
  split
  · rfl
  · rfl
  · next names hne =>
    have hid : "id" ∈ names := h names rfl fun heq => hne heq
    rw [Record.get?_filter fun k => names.contains k, if_pos (by simpa using hid)]

theorem id_mem_projectColumns (fields : List (FieldDefinition N)) (o : SystemFieldOptions)
    {node : FieldSelection} (h : node.all = false) :
    "id" ∈ projectColumns fields o (some node) := by
  simp only [projectColumns, h, Bool.false_eq_true, if_false, List.mem_eraseDups]
  exact List.mem_cons_self

theorem hasId_childTargetProjection (targets : List (EntitySchema N × FieldSelection))
    (target : EntitySchema N) : HasId (childTargetProjection targets target) := by
  intro names hnames hne
  unfold childTargetProjection at hnames
  simp only at hnames
  split at hnames
  · cases hnames
  · next hall =>
    obtain rfl := Option.some.inj hnames
    rw [List.mem_eraseDups, List.mem_flatMap]
    cases hnodes : (targets.filter (·.1.slug = target.slug)).map (·.2) with
    | nil =>
      rw [hnodes] at hne
      exact absurd rfl hne
    | cons node nodes =>
      rw [hnodes] at hall
      refine ⟨node, List.mem_cons_self, id_mem_projectColumns _ _ ?_⟩
      have hany := Bool.eq_false_iff.2 hall
      rw [List.any_cons, Bool.or_eq_false_iff] at hany
      exact hany.1

variable [JsNumber N]

/-- The fields of a collection say nothing of the ids. -/
theorem get?_decodeJsonFields_id (row : Record N) :
    (S.decodeJsonFields target.info.schemaFields row).get? "id" = row.get? "id" := by
  have hname : ∀ p : FieldDefinition N → Bool,
      (target.info.schemaFields.any fun f => f.name = "id" && p f) = false := by
    intro p
    rw [List.any_eq_false]
    intro f hf
    have hid : f.name ≠ "id" := fun heq => target.info.fields_user f hf (heq ▸ by decide)
    simp [hid]
  have hdecode (v : JsVal N) : S.decodeField target.info.schemaFields "id" v = v := by
    unfold ReadContext.decodeField
    simp only [hname, Bool.false_eq_true, if_false]
  unfold ReadContext.decodeJsonFields
  rw [Record.get?_map (S.decodeField target.info.schemaFields)]
  cases row.get? "id" with
  | none => rfl
  | some v => simp only [Option.map_some, hdecode]

theorem objectOf_fetched {columns : Option (List String)} (hcolumns : HasId columns)
    (hmem : row ∈ S.tables target.slug) : S.Fetched target (S.objectOf target columns row) := by
  obtain ⟨id, hid, -⟩ := S.id_text target.slug row hmem
  refine .of_id hmem ?_
  rw [get?_decodeJsonFields_id, get?_mergeRowData_id, get?_selectColumns_id hcolumns]
  rw [get?_selectColumns_id hcolumns, hid]
  rfl

end

end

end HeadlessErp
