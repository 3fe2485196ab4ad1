import HeadlessErp.Relations.Rows

/-!
# Resolving relations

`RelationResolver` of `apps/api/src/lib/services/collection-relations.service.ts`. A level of rows is
resolved in stages: the formulas, then each relation. A stage changes every row of its page and may
look at all of them (`Stage`); the rows of a relation, over the whole page, are the page of the level
below. Before they are resolved further, `filterLevelRbac` drops the rows that the role may not see
and the properties that it may not read; what the resolution attaches to a row comes after that.
-/

namespace HeadlessErp

/-- A step for the rows of a page. -/
abbrev Stage (N : Type) := List (Item N) → Item N → Except String (Item N)

/-- The stages in their order: each sees the page as the one before has left it. -/
def Stage.seq {N : Type} : List (Stage N) → Stage N
  | [] => fun _ it => .ok it
  | s :: ss => fun page it => do
    let page' ← page.mapM (s page)
    let it' ← s page it
    Stage.seq ss page' it'

section
variable {N : Type} [JsNumber N] (S : ReadContext N)

/-! ## Permissions -/

namespace ReadContext

/-- A role's permissions apply to the caller. -/
def restricted : Bool := S.auth.any (!·.isAdmin)

/-- The properties that the caller may read of a collection, where they are restricted. -/
def visibleFields (slug : String) : Option (List String) :=
  if S.restricted then
    (S.fieldRestrictions slug).map (· ++ ["id", "created_at", "updated_at"])
  else none

/-- The caller may read a property of a collection. -/
def readable (slug k : String) : Bool := (S.visibleFields slug).all (·.contains k)

/-- `applyFieldFilter`. -/
def applyFieldFilter (it : Item N) : Item N := it.only (S.readable it.1.collection)

/-- The ids, out of some, that the row filter of a collection lets through. -/
def allowedIds (target : EntitySchema N) (ids : List String) : Except String (List String) := do
  let qb ← QueryBuilder.from target.info.tableName
  let qb ← qb.select ["id"]
  let qb ← qb.whereIn "id" (ids.map .str)
  let qb ← applyRowFilter qb S.auth (S.rowFilter target.slug)
  let rows ← S.engine.select qb (S.tables target.slug)
  .ok (rows.map fun row => (row.get "id").toStr)

/-- The row filter of `filterLevelRbac`: the allowed ids, where filtering applies. -/
def filterLevelRbac (target : EntitySchema N) (rows : List (Item N)) :
    Except String (Option (List String)) :=
  let ids := (rows.filterMap (·.text? "id")).filter (· != "")
  if S.restricted && !ids.isEmpty then do
    let allowed ← S.allowedIds target ids
    .ok (some allowed)
  else .ok none

end ReadContext

/-! ## Formulas -/

/-- What the scope of a formula has of a relation, and the rows it is made of. -/
structure Lookup (N : Type) where
  name : String
  value : JsVal N
  looked : List (Origin N × Record N)

/-- `lookupProjection`. -/
def lookupProjection (name : String) (formulas : List String) (target : EntitySchema N)
    (single : Bool) : Option (List String) :=
  if formulas.isEmpty || (single && usesRelationBare formulas name) then none
  else
    let allowed := physicalColumnNames target.info.schemaFields ++
      buildSystemColumnsList target.info.systemFieldOptions
    some ("id" :: (lookupMemberColumns formulas name).filter allowed.contains).eraseDups

namespace ReadContext

/-- A row as a lookup has it. -/
def lookedRow (target : EntitySchema N) (columns : Option (List String)) (row : Record N) :
    Origin N × Record N := (⟨target.slug, row⟩, S.mergeRowData (selectColumns columns row))

/-- A relation of several rows in the scope of a formula. -/
def arrayLookup (f : FieldDefinition N) (looked : List (Origin N × Record N)) : Lookup N :=
  ⟨f.name, .obj (buildLookupScope (looked.map (·.2))), looked⟩

/-- A relation of one row in the scope of a formula. -/
def singleLookup (f : FieldDefinition N) (looked : Option (Origin N × Record N)) : Lookup N :=
  ⟨f.name, (looked.map fun r => .obj r.2).getD .null, looked.toList⟩

/-- `fetchLookupScopes`, for one row. The rows of a `o2m` lookup are grouped by their foreign key, as
far as it is among the fetched columns. -/
def fetchLookupScopes (c : EntitySchema N) (formulas : List (FieldDefinition N))
    (page : List (Item N)) (it : Item N) : List (Lookup N) :=
  let fields := c.info.schemaFields
  let texts := formulas.map fun f => f.formula.getD ""
  let refs := texts.flatMap (extractLookupRefs · fields)
  let referenced (type : FieldType) := (S.relations type fields).filter fun (f, _) => refs.contains f.name
  let id := idText it
  if page.all (idText · = "") then []
  else
    let m2o := (referenced .m2o).map fun (f, target) => singleLookup f
      (((it.text? f.name).bind (S.m2oTarget target)).map
        (S.lookedRow target (lookupProjection f.name texts target true)))
    if id = "" then m2o
    else
      m2o ++
      (referenced .o2m).map (fun (f, target) =>
        let columns := lookupProjection f.name texts target false
        let foreignKey := f.foreignKey.getD ""
        arrayLookup f <| ((S.liveRows target.slug).filter fun row =>
          textIn foreignKey [id] row && (selectColumns columns row).has foreignKey).map
            (S.lookedRow target columns)) ++
      (referenced .m2m).map (fun (f, target) => arrayLookup f <|
        (S.m2mRows c target id none).map
          (S.lookedRow target (lookupProjection f.name texts target false))) ++
      (referenced .table).map fun (f, target) => arrayLookup f <|
        (S.childRows target id).map fun row => (⟨target.slug, row⟩, childFields row)

/-- The virtual formulas that a selection computes, the ones they depend on first. -/
def formulaSel (c : EntitySchema N) (node : FieldSelection) : List (FieldDefinition N) :=
  let formulaFields := c.info.schemaFields.filter fun f =>
    f.isVirtualFormula && f.formulaText.isSome
  resolveFormulaDependencies formulaFields
    ((formulaFields.filter fun f => node.all || node.columns.contains f.name).map (·.name))

/-- One formula: the scope, the properties of the row and the trace after it. -/
def computeFormula (looked : List (Origin N × Record N))
    (s : Record N × List (String × Node N) × List (JsVal N)) (f : FieldDefinition N) :
    Record N × List (String × Node N) × List (JsVal N) :=
  let (scope, nodes, trace) := s
  match evaluateWith ⟨scope.get?, S.registry⟩ (f.formula.getD "") with
  | .ok v =>
    let v := applyFormulaPrecision v f
    (scope.set f.name v, nodes ++ [(f.name, .computed v looked)],
      trace ++ [.obj [("field", .str f.name), ("ok", .bool true), ("value", v)]])
  | .error e =>
    (scope.set f.name .null, nodes ++ [(f.name, .computed .null looked)],
      trace ++ [.obj [("field", .str f.name), ("ok", .bool false), ("error", .str e.message)]])

/-- The properties that the formulas of a selection give a row, and their trace. -/
def computeFormulas (c : EntitySchema N) (node : FieldSelection) (traceFormulas : Bool)
    (page : List (Item N)) (it : Item N) : List (String × Node N) :=
  let formulas := formulaSel c node
  if formulas.isEmpty then []
  else
    let lookups := S.fetchLookupScopes c formulas page it
    let looked := lookups.flatMap (·.looked)
    let scope := (fieldsJs it.2).assign (lookups.map fun l => (l.name, l.value))
    let (_, nodes, trace) := formulas.foldl (S.computeFormula looked) (scope, [], [])
    if traceFormulas then nodes ++ [("_formula_trace", .computed (.arr trace) looked)] else nodes

/-- The formulas of a level. -/
def formulaStage (c : EntitySchema N) (node : FieldSelection) (traceFormulas : Bool) : Stage N :=
  fun page it => .ok ((S.computeFormulas c node traceFormulas page it).foldl
    (fun it kv => it.set kv.1 kv.2) it)

omit [JsNumber N] in
theorem mem_formulaSel {c : EntitySchema N} {node : FieldSelection} {f : FieldDefinition N}
    (h : f ∈ formulaSel c node) : f ∈ c.info.schemaFields ∧ f.type = .formula := by
  obtain ⟨hf, hp⟩ := List.mem_filter.1 (resolveFormulaDependencies_subset h)
  rw [Bool.and_eq_true, FieldDefinition.isVirtualFormula, Bool.and_eq_true] at hp
  exact ⟨hf, by simpa using hp.1.1⟩

variable {S} in
/-- What the formulas give a row are values under their names, and the trace. -/
theorem mem_computeFormulas {c : EntitySchema N} {node : FieldSelection} {trace : Bool}
    {page : List (Item N)} {it : Item N} {kv : String × Node N}
    (h : kv ∈ S.computeFormulas c node trace page it) :
    ∃ v looked, kv.2 = .computed v looked ∧
      ((∃ g ∈ c.info.schemaFields, g.type = .formula ∧ g.name = kv.1) ∨
        kv.1 = "_formula_trace" ∧ ∀ s, v ≠ .str s) := by
  unfold computeFormulas at h
  simp only at h
  split at h
  · cases h
  · have hnodes (looked : List (Origin N × Record N)) (scope : Record N) :
        ∀ kv ∈ ((formulaSel c node).foldl (S.computeFormula looked) (scope, [], [])).2.1,
          ∃ v, kv.2 = .computed v looked ∧
            ∃ g ∈ c.info.schemaFields, g.type = .formula ∧ g.name = kv.1 := by
      refine foldl_invariant (I := fun s : Record N × List (String × Node N) × List (JsVal N) =>
        ∀ kv ∈ s.2.1, ∃ v, kv.2 = .computed v looked ∧
          ∃ g ∈ c.info.schemaFields, g.type = .formula ∧ g.name = kv.1) (fun kv hkv => nomatch hkv) ?_
      intro s g hg hs kv hkv
      obtain ⟨hmem, htype⟩ := mem_formulaSel hg
      obtain ⟨scope, nodes, traced⟩ := s
      simp only [computeFormula] at hkv
      split at hkv
      · obtain hkv | hkv := List.mem_append.1 hkv
        · exact hs kv hkv
        · obtain rfl := List.mem_singleton.1 hkv
          exact ⟨_, rfl, g, hmem, htype, rfl⟩
      · obtain hkv | hkv := List.mem_append.1 hkv
        · exact hs kv hkv
        · obtain rfl := List.mem_singleton.1 hkv
          exact ⟨_, rfl, g, hmem, htype, rfl⟩
    split at h
    · obtain h | h := List.mem_append.1 h
      · obtain ⟨v, hv, hg⟩ := hnodes _ _ kv h
        exact ⟨v, _, hv, .inl hg⟩
      · obtain rfl := List.mem_singleton.1 h
        exact ⟨_, _, rfl, .inr ⟨rfl, fun s hs => nomatch hs⟩⟩
    · obtain ⟨v, hv, hg⟩ := hnodes _ _ kv h
      exact ⟨v, _, hv, .inl hg⟩

/-! ## Relations -/

/-- `recurseAndPruneSingle` and `recurseAndPruneArray`, for the rows of one collection. -/
def recurseAndPrune (deeper : Stage N) (name : String) (target : EntitySchema N)
    (child : FieldSelection) : Stage N := fun page it => do
  let rows := (page.flatMap (·.objects name)).filter (·.1.collection = target.slug)
  let allowed ← S.filterLevelRbac target rows
  let keep (row : Item N) : Bool := allowed.all (·.contains (idText row))
  let level := (rows.filter keep).map S.applyFieldFilter
  match it.get? name with
  | some n => do
    let n ← n.refine keep fun row => do
      let row ← deeper level (S.applyFieldFilter row)
      .ok (pruneRow child row)
    .ok (it.set name n)
  | none => .ok it

/-- `resolveM2O`, for one field. -/
def resolveM2O (columns : Option (List String)) (f : FieldDefinition N) (target : EntitySchema N)
    (it : Item N) : Item N :=
  match it.text? f.name with
  | some fk =>
    it.set f.name (match S.m2oTarget target fk with
      | some row => let (origin, fields) := S.objectOf target columns row; .object origin fields
      | none => .value .null)
  | none => it

/-- `resolveO2M` and `resolveM2M`, for one field. -/
def resolveArray (rows : String → List (Item N)) (name : String) (page : List (Item N)) (it : Item N) :
    Item N :=
  let ids := (page.filterMap (·.text? "id")).filter (· != "")
  if ids.isEmpty then it
  else it.set name (.array (if ids.contains (idText it) then rows (idText it) else []))

/-- `resolveChildren`, for one field. -/
def resolveChildTable (limit : Nat) (f : FieldDefinition N) (target : Option (EntitySchema N))
    (it : Item N) : Item N :=
  it.set f.name (.array (match target with
    | some target =>
      ((S.childRows target (((it.get? "id").map Node.js).getD .undefined).toStr).take limit).map
        fun row => (⟨target.slug, row⟩,
          valueFields (S.decodeJsonFields target.info.schemaFields (childFields row)))
    | none => []))

/-- The `lookup` of `M2AService.resolve`: the live rows that the rows of a page refer to. -/
def m2aLookup (f : FieldDefinition N) (page : List (Item N)) : List (EntitySchema N × Record N) :=
  let references := page.filterMap (m2aReference f)
  ((references.map (·.1)).eraseDups.filterMap S.collection?).flatMap fun target =>
    let ids := (references.filter (·.1 = target.slug)).map (·.2)
    ((S.liveRows target.slug).filter (textIn "id" ids)).map (target, ·)

/-- A row that an `m2a` field is resolved to. -/
def m2aObject (target : EntitySchema N) (row : Record N) : Node N :=
  .object ⟨target.slug, row⟩ (valueFields (S.decodeJsonFields target.info.schemaFields
    ((S.mergeRowData row).set "_type" (.str target.slug))))

/-- `M2AService.resolve`, for one field. -/
def resolveM2A (f : FieldDefinition N) (page : List (Item N)) (it : Item N) : Item N :=
  if (page.filterMap (m2aReference f)).isEmpty then it
  else
    match it.text? (f.name ++ "_id") with
    | some id =>
      let n := match (S.m2aLookup f page).reverse.find? fun (_, row) => hasId id row with
        | some (target, row) => S.m2aObject target row
        | none => .value .null
      ((it.set f.name n).erase (f.name ++ "_id")).erase (f.name ++ "_type")
    | none => it

/-- The rows of an `m2a` field are filtered by their own collections, and resolved no further. -/
def pruneM2A (f : FieldDefinition N) (child : FieldSelection) : Stage N := fun page it =>
  match it.get? f.name with
  | some (.object origin _) =>
    match S.collection? origin.collection with
    | some target => S.recurseAndPrune (fun _ row => .ok row) f.name target child page it
    | none => .ok it
  | _ => .ok it

/-! ## Levels -/

/-- The targets of the relations of a kind that a selection expands, with what it selects of them. -/
def targets (type : FieldType) (c : EntitySchema N) (node : FieldSelection) :
    List (EntitySchema N × FieldSelection) :=
  (S.relations type c.info.schemaFields).filterMap fun (f, target) =>
    (node.childOf f.name).map (target, ·)

/-- The steps for a relation, once its rows are attached. -/
def relationStage (deeper : EntitySchema N → FieldSelection → Stage N)
    (attach : List (Item N) → Item N → Item N) (f : FieldDefinition N) (child : FieldSelection)
    (target : EntitySchema N) : Stage N :=
  Stage.seq [fun page it => .ok (attach page it),
    S.recurseAndPrune (if child.recurses then deeper target child else fun _ it => .ok it)
      f.name target child]

/-- The steps for a relation that is expanded. -/
def fieldStage (limit : Nat) (c : EntitySchema N) (node : FieldSelection)
    (deeper : EntitySchema N → FieldSelection → Stage N) (f : FieldDefinition N)
    (child : FieldSelection) : Option (Stage N) :=
  let projection (target : EntitySchema N) :=
    childTargetProjection (S.targets f.type c node) target
  match f.type with
  | .m2o => (S.target? f).map fun target =>
    S.relationStage deeper (fun _ => S.resolveM2O (projection target) f target) f child target
  | .o2m => if f.isComplete then (S.target? f).map fun target =>
    S.relationStage deeper (resolveArray (fun id => (S.o2mRows f target id limit).map
      (S.objectOf target none)) f.name) f child target
    else none
  | .m2m => (S.target? f).map fun target =>
    S.relationStage deeper (resolveArray (fun id => (S.m2mRows c target id (some limit)).map
      (S.objectOf target (projection target))) f.name) f child target
  | .m2a => if f.relatedCollections.isSome then
    some (Stage.seq [fun page it => .ok (S.resolveM2A f page it), S.pruneM2A f child]) else none
  | .table =>
    if f.relatedCollection.any (· != "") then
      some (match S.target? f with
        | some target =>
          S.relationStage deeper (fun _ => S.resolveChildTable limit f (some target)) f child target
        | none => fun _ it => .ok (S.resolveChildTable limit f none it))
    else none
  | _ => none

omit [JsNumber N] in
/-- The relations of a collection, in the order in which their kinds are resolved. -/
def relationFields (c : EntitySchema N) : List (FieldDefinition N) :=
  [FieldType.m2o, .o2m, .m2m, .m2a, .table].flatMap fun type =>
    c.info.schemaFields.filter (·.type = type)

/-- The stages of `resolveLevel`. The fields of a kind are taken one after the other, where the code
takes them together. -/
def levelStages (limit : Nat) (c : EntitySchema N) (node : FieldSelection) (traceFormulas : Bool)
    (deeper : EntitySchema N → FieldSelection → Stage N) : List (Stage N) :=
  S.formulaStage c node traceFormulas :: (relationFields c).filterMap fun f =>
    (node.childOf f.name).bind (S.fieldStage limit c node deeper f)

/-- `resolveLevel`, as many levels deep as a bound allows: the levels of the selection are enough. -/
def resolveLevel (limit : Nat) :
    Nat → Bool → EntitySchema N → FieldSelection → Stage N
  | 0, _, _, _ => fun _ it => .ok it
  | depth + 1, traceFormulas, c, node =>
    Stage.seq (S.levelStages limit c node traceFormulas (resolveLevel limit depth false))

/-! ## Reads -/

/-- `selectionNeedsRelations`. -/
def selectionNeedsRelations (fields : List (FieldDefinition N)) (node : FieldSelection) : Bool :=
  fields.any fun f =>
    if f.type = .formula then
      f.isVirtualFormula && f.formulaText.isSome && (node.all || node.columns.contains f.name)
    else f.type.isRelation && (node.relations.any (·.1 == f.name) || 1 ≤ node.expandDepth ||
      node.columns.contains f.name)

/-- `filterResolvedRelations`. -/
def filterResolvedRelations (c : EntitySchema N) (page : List (Item N)) (it : Item N) :
    Except String (Item N) :=
  let fields := c.info.schemaFields
  let relations := S.relations .m2o fields ++ S.relations .o2m fields ++ S.relations .m2m fields
  if S.restricted then
    relations.foldlM (fun it (f, target) => do
      let same := relations.filter (·.2.slug = target.slug)
      let ids := (same.flatMap fun (f, _) => page.flatMap (·.objects f.name)).filterMap (·.text? "id")
      let allowed ← S.allowedIds target (ids.filter (· != ""))
      match it.get? f.name with
      | some n => do
        let n ← n.refine (fun row => allowed.contains (idText row)) .ok
        .ok (it.set f.name n)
      | none => .ok it) it
  else .ok it

/-- `resolveRelations`. -/
def resolveRelations (c : EntitySchema N) (limit : Nat) (selection : Option FieldSelection)
    (traceFormulas : Bool) (items : List (Item N)) : Except String (List (Item N)) :=
  match selection with
  | none => .ok items
  | some node =>
    if selectionNeedsRelations c.info.schemaFields node then do
      let items ← items.mapM (S.resolveLevel limit node.levels traceFormulas c node items)
      items.mapM (S.filterResolvedRelations c items)
    else .ok items

/-- A row as `listItems` has it. -/
def listRow (c : EntitySchema N) (selection : Option FieldSelection) (row : Record N) : Item N :=
  (⟨c.slug, row⟩, valueFields (selectColumns
    (some (projectColumns c.info.schemaFields c.info.systemFieldOptions selection)) row))

/-- A row as `getItem` has it. -/
def detailRow (c : EntitySchema N) (selection : Option FieldSelection) (row : Record N) : Item N :=
  S.objectOf c (some (projectColumns c.info.schemaFields c.info.systemFieldOptions selection)) row

/-- `mergeRowData`, on the properties of an object. -/
def mergeItem (it : Item N) : Item N :=
  let rest := it.erase "_meta"
  match it.text? "_meta" with
  | some s =>
    if 2 < jsLength s then
      match S.parseJson s with
      | some (.obj parsed) =>
        (rest.1, valueFields (parsed.filter fun kv => (rest.get? kv.1).isNone) ++ rest.2)
      | _ => rest
    else rest
  | none => rest

/-- What `listItems` makes of the rows that its query selects. -/
def listItems (c : EntitySchema N) (limit : Nat) (selection : Option FieldSelection)
    (traceFormulas : Bool) (rows : List (Record N)) : Except String (List (Item N)) := do
  let items ← S.resolveRelations c limit selection traceFormulas (rows.map (listRow c selection))
  .ok (items.map fun it => S.mergeItem (S.applyFieldFilter it))

/-- What `getItem` makes of a row. -/
def getItem (c : EntitySchema N) (selection : Option FieldSelection) (row : Record N) :
    Except String (List (Item N)) := do
  let items ← S.resolveRelations c 50 selection false [S.detailRow c selection row]
  .ok (items.map S.applyFieldFilter)

end ReadContext

end

end HeadlessErp
