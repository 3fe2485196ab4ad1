import Mathlib
import HeadlessErp.Base.Except
import HeadlessErp.Base.Window
import HeadlessErp.Entity.Cascade
import HeadlessErp.Js.Map
import HeadlessErp.Relations.Rows

/-!
# Relations of a page

`resolveM2O` and `resolveO2M` of `packages/core/src/entity/relation-resolver.ts`, which fetch what
all the items of a page refer to by one query for each table and join it to the items in lookup tables.
Each item gets what it gets by itself: the live row with the id (`resolveM2O_eq`), and the live
children with the largest ids (`resolveO2M_expands`), but for children of an id that every object has
as a property. A query without `ORDER BY` has its rows in any order (`Answers`).
-/

namespace HeadlessErp.Resolver

variable {N : Type} [JsNumber N] (S : ReadContext N)

/-! ## Many to one -/

/-- A field of `m2oFields`. -/
structure M2OField where
  fieldName : String
  targetTable : String

/-- `columnsByTable`: the columns of a table have its id. -/
structure ColumnsByTable where
  columns : String → Option (List String)
  hasId : ∀ table, HasId (columns table)

/-- The loop over the items that fills the ids of a field's table. -/
def addIds (items : List (Record N)) (ids : JsSet String) (f : M2OField) : JsSet String :=
  items.foldl (fun ids item =>
    match item.get f.fieldName with
    | .str fk => if fk = "" then ids else ids.add fk
    | _ => ids) ids

/-- `tableIdSets`. -/
def tableIdSets (items : List (Record N)) (fields : List M2OField) : JsMap String (JsSet String) :=
  .fill (·.targetTable) (fun _ => .empty) (addIds items) .empty fields

/-- The `lookup` of a table. -/
def m2oLookup (columns : ColumnsByTable) (table : String) (ids : JsSet String) :
    JsMap String (Record N) :=
  if ids.size = 0 then .empty
  else
    let related := ((S.liveRows table).filter (textIn "id" ids.elems)).map
      (selectColumns (columns.columns table))
    JsMap.empty.setAll (related.map fun rel => ((rel.get "id").toStr, S.mergeRowData rel))

/-- What is assigned to a field of an item. -/
def assignTarget (lookup : String → Option (Record N)) (f : M2OField) (item : Record N) :
    Record N :=
  match item.get f.fieldName with
  | .str fk => item.set f.fieldName ((lookup fk).elim .null .obj)
  | _ => item

/-- `resolveM2O`. -/
def resolveM2O (columns : ColumnsByTable) (items : List (Record N)) (fields : List M2OField) :
    List (Record N) :=
  if items.isEmpty || fields.isEmpty then items
  else
    fields.foldl (fun its f =>
      match (tableIdSets items fields).get? f.targetTable with
      | some ids => its.map (assignTarget (m2oLookup S columns f.targetTable ids).get? f)
      | none => its) items

/-- The live row with an id, as it is selected. -/
def target (columns : ColumnsByTable) (table fk : String) : Option (Record N) :=
  ((S.liveRows table).find? (hasId fk)).map fun row =>
    S.mergeRowData (selectColumns (columns.columns table) row)

/-- An item whose fields are each resolved to the live row with its id, or to `null`. -/
def expandM2O (columns : ColumnsByTable) (fields : List M2OField) (item : Record N) : Record N :=
  fields.foldl (fun it f => assignTarget (target S columns f.targetTable) f it) item

/-! ## One to many -/

/-- A field of `o2mFields`. No field is called `id`. -/
structure O2MField where
  fieldName : String
  targetTable : String
  foreignKey : String
  name_ne : fieldName ≠ "id"

/-- The ids of a page. -/
def pageIds (items : List (Record N)) : List String :=
  items.filterMap fun item =>
    match item.get "id" with
    | .str id => if id = "" then none else some id
    | _ => none

/-- The rows of a query in the order of the database. -/
structure Answers (N : Type) where
  arrange : List (Record N) → List (Record N)
  perm : ∀ rows, (arrange rows).Perm rows

/-- The rows of the window query: of the children of each parent, those with the largest ids. -/
def windowQuery (f : O2MField) (ids : List String) (limit : ℕ) : List (Record N) :=
  let rows := (S.liveRows f.targetTable).filter (textIn f.foreignKey ids)
  rows.filter fun r =>
    Window.rowNumber (rowText · "id") (rows.filter fun r' => rowText r' f.foreignKey =
      rowText r f.foreignKey) r ≤ limit

/-- The loop that fills `grouped`. The property of an object that every object has is no array. -/
def groupRows (f : O2MField) (related : List (Record N)) :
    Except String (JsMap String (List (Record N))) :=
  related.foldlM (fun grouped rel =>
    let fk := ((rel.get f.foreignKey).orElse (.str "")).toStr
    if inheritedNames.contains fk then .error "grouped[fk].push is not a function"
    else .ok (grouped.set fk ((grouped.get? fk).getD [] ++ [S.mergeRowData rel]))) .empty

/-- `grouped[id] || []`. -/
def childrenOf (grouped : JsMap String (List (Record N))) (id : String) : JsVal N :=
  match grouped.get? id with
  | some rows => .arr (rows.map .obj)
  | none =>
    if id = "__proto__" then .obj []
    else if inheritedNames.contains id then .func id
    else .arr []

/-- `resolveO2M`. -/
def resolveO2M (answers : Answers N) (items : List (Record N)) (fields : List O2MField)
    (limit : ℕ) : Except String (List (Record N)) :=
  if items.isEmpty || fields.isEmpty || (pageIds items).isEmpty then .ok items
  else do
    let results ← fields.mapM fun f => do
      let grouped ← groupRows S f (answers.arrange (windowQuery S f (pageIds items) limit))
      .ok (f.fieldName, grouped)
    .ok (results.foldl (fun its result => its.map fun item =>
      item.set result.1 (childrenOf result.2 ((item.get "id").orElse (.str "")).toStr)) items)

/-- The live children of an id with the largest ids. -/
def newestChildren (f : O2MField) (id : String) (limit : ℕ) : List (Record N) :=
  Window.greatest (rowText · "id") limit
    ((S.liveRows f.targetTable).filter (textIn f.foreignKey [id]))

/-- An item whose fields are each the list of its newest children, in any order. -/
def ExpandsO2M (fields : List O2MField) (limit : ℕ) (item item' : Record N) : Prop :=
  ∃ children : O2MField → List (Record N),
    (∀ f ∈ fields, ∀ id, item.get "id" = .str id →
      (children f).Perm ((newestChildren S f id limit).map S.mergeRowData)) ∧
    item' = fields.foldl (fun it f => it.set f.fieldName (.arr ((children f).map .obj))) item

/-! ## The lookup tables -/

section
variable {S} {columns : ColumnsByTable} {items : List (Record N)} {fields : List M2OField}
  {f : M2OField} {table fk : String} {row : Record N}

/-- Steps that go through a page are taken for each item. -/
theorem foldl_map_items {F A : Type} (step : F → A → A) (fields : List F) (items : List A) :
    fields.foldl (fun its f => its.map (step f)) items =
      items.map fun item => fields.foldl (fun it f => step f it) item := by
  induction fields generalizing items with
  | nil => exact (List.map_id _).symm
  | cons f fields ih =>
    rw [List.foldl_cons, ih, List.map_map]
    rfl

omit [JsNumber N] in
theorem get?_of_get_str {k s : String} (h : row.get k = .str s) : row.get? k = some (.str s) := by
  rw [Record.get_eq] at h
  cases hget : row.get? k with
  | none =>
    rw [hget] at h
    cases h
  | some v =>
    rw [hget] at h
    exact congrArg some h

omit [JsNumber N] in
/-- The ids of a table are those of one row each. -/
theorem find?_hasId (hrow : row ∈ S.liveRows table) (hid : row.get "id" = .str fk) :
    (S.liveRows table).find? (hasId fk) = some row := by
  cases hfind : (S.liveRows table).find? (hasId fk) with
  | none =>
    exact absurd (hasId_eq_true.2 (rowId_eq_some.2 hid)) (List.find?_eq_none.1 hfind row hrow)
  | some row' =>
    have hid' := rowId_eq_some.1 (hasId_eq_true.1 (List.find?_some hfind))
    have hmem := List.mem_of_find?_eq_some hfind
    rw [S.id_unique table row' (mem_of_liveRows hmem) row (mem_of_liveRows hrow)
      ((get?_of_get_str hid').trans (get?_of_get_str hid).symm)]

omit [JsNumber N] in
theorem target_eq_some {v : Record N} : target S columns table fk = some v ↔
    ∃ row ∈ S.liveRows table, row.get "id" = .str fk ∧
      S.mergeRowData (selectColumns (columns.columns table) row) = v := by
  unfold target
  rw [Option.map_eq_some_iff]
  constructor
  · rintro ⟨row, hfind, rfl⟩
    exact ⟨row, List.mem_of_find?_eq_some hfind,
      rowId_eq_some.1 (hasId_eq_true.1 (List.find?_some hfind)), rfl⟩
  · rintro ⟨row, hrow, hid, rfl⟩
    exact ⟨row, find?_hasId hrow hid, rfl⟩

omit [JsNumber N] in
/-- No row has the empty id. -/
theorem target_empty : target S columns table "" = none := by
  refine Option.eq_none_iff_forall_ne_some.2 fun v hv => ?_
  obtain ⟨row, hrow, hid, -⟩ := target_eq_some.1 hv
  obtain ⟨id, hget, hne⟩ := S.id_text table row (mem_of_liveRows hrow)
  rw [get?_of_get_str hid] at hget
  cases hget
  exact hne rfl

/-- The lookup table of a table has the rows that were asked for. -/
theorem get?_m2oLookup {ids : JsSet String} :
    (m2oLookup S columns table ids).get? fk =
      if fk ∈ ids then target S columns table fk else none := by
  unfold m2oLookup
  split
  · next hsize => rw [if_neg (JsSet.size_eq_zero.1 hsize fk), JsMap.get?_empty]
  · refine JsMap.get?_setAll_eq fun v => ?_
    have hentry : (fk, v) ∈ (((S.liveRows table).filter (textIn "id" ids.elems)).map
        (selectColumns (columns.columns table))).map
          (fun rel => ((rel.get "id").toStr, S.mergeRowData rel)) ↔
        fk ∈ ids ∧ target S columns table fk = some v := by
      have hkey (row : Record N) : (selectColumns (columns.columns table) row).get "id" =
          row.get "id" := by
        rw [Record.get_eq, get?_selectColumns_id (columns.hasId table), Record.get_eq]
      simp only [List.mem_map, List.mem_filter, exists_exists_and_eq_and, Prod.mk.injEq, hkey,
        textIn_eq_true, target_eq_some]
      constructor
      · rintro ⟨row, ⟨hrow, id, hmem, hid⟩, hfk, hv⟩
        rw [hid] at hfk
        obtain rfl : id = fk := hfk
        exact ⟨hmem, row, hrow, hid, hv⟩
      · rintro ⟨hmem, row, hrow, hid, hv⟩
        exact ⟨row, ⟨hrow, fk, hmem, hid⟩, congrArg JsVal.toStr hid, hv⟩
    rw [hentry]
    split
    · next hmem => exact and_iff_right hmem
    · next hmem => simp [hmem]

omit [JsNumber N] in
theorem mem_addIds {ids : JsSet String} :
    fk ∈ addIds items ids f ↔
      fk ∈ ids ∨ fk ≠ "" ∧ ∃ item ∈ items, item.get f.fieldName = .str fk := by
  unfold addIds
  induction items generalizing ids with
  | nil => simp
  | cons item items ih =>
    rw [List.foldl_cons, ih, List.exists_mem_cons_iff]
    split
    · next s hs =>
      split
      · next hempty =>
        subst hempty
        rw [hs, JsVal.str.injEq]
        grind
      · next hne =>
        rw [hs, JsVal.str.injEq, JsSet.mem_add]
        grind
    · next hnot =>
      have hno : item.get f.fieldName ≠ .str fk := hnot fk
      grind

omit [JsNumber N] in
/-- Every id of the page is asked for from the table of its field. -/
theorem exists_tableIdSets (items : List (Record N)) (hf : f ∈ fields) :
    ∃ ids, (tableIdSets items fields).get? f.targetTable = some ids ∧
      ∀ item ∈ items, ∀ fk, item.get f.fieldName = .str fk → fk ≠ "" → fk ∈ ids := by
  let full (ids : JsSet String) : Prop :=
    ∀ item ∈ items, ∀ fk, item.get f.fieldName = .str fk → fk ≠ "" → fk ∈ ids
  have hloop (l : List M2OField) (o : Option (JsSet String))
      (h : f ∈ l ∨ ∃ ids, o = some ids ∧ full ids) :
      ∃ ids, l.foldl (fun o f => some (addIds items (o.getD .empty) f)) o = some ids ∧
        full ids := by
    induction l generalizing o with
    | nil => exact h.resolve_left List.not_mem_nil
    | cons g l ih =>
      rw [List.foldl_cons]
      refine ih _ ?_
      rcases h with hmem | ⟨ids, rfl, hfull⟩
      · rcases List.mem_cons.1 hmem with rfl | hmem
        · exact .inr ⟨_, rfl, fun item hitem fk hfk hne =>
            mem_addIds.2 (.inr ⟨hne, item, hitem, hfk⟩)⟩
        · exact .inl hmem
      · exact .inr ⟨_, rfl, fun item hitem fk hfk hne =>
          mem_addIds.2 (.inl (hfull item hitem fk hfk hne))⟩
  rw [tableIdSets, JsMap.get?_fill]
  exact hloop _ _ (.inl (List.mem_filter.2 ⟨hf, decide_eq_true rfl⟩))

omit [JsNumber N] in
/-- No field is given a text. -/
theorem get_assignTarget {lookup : String → Option (Record N)} {k s : String} {item : Record N}
    (h : (assignTarget lookup f item).get k = .str s) : item.get k = .str s := by
  unfold assignTarget at h
  split at h
  · next fk _ =>
    rw [Record.get_eq, Record.get?_set] at h
    split at h
    · cases hlookup : lookup fk with
      | none =>
        rw [hlookup] at h
        cases h
      | some row =>
        rw [hlookup] at h
        cases h
    · exact h
  · exact h

/-- The items of a page get what each one gets by itself. -/
theorem resolveM2O_eq (columns : ColumnsByTable) (items : List (Record N))
    (fields : List M2OField) :
    resolveM2O S columns items fields = items.map (expandM2O S columns fields) := by
  unfold resolveM2O
  split
  · next hempty =>
    rcases Bool.or_eq_true_iff.1 hempty with hitems | hfields
    · rw [List.isEmpty_iff.1 hitems]
      rfl
    · rw [List.isEmpty_iff.1 hfields]
      exact (List.map_id _).symm
  · let lookup (f : M2OField) (fk : String) : Option (Record N) :=
      ((tableIdSets items fields).get? f.targetTable).bind
        fun ids => (m2oLookup S columns f.targetTable ids).get? fk
    have hlookup (f : M2OField) (hf : f ∈ fields) (item : Record N) (hitem : item ∈ items)
        (fk : String) (hfk : item.get f.fieldName = .str fk) :
        lookup f fk = target S columns f.targetTable fk := by
      obtain ⟨ids, hids, hmem⟩ := exists_tableIdSets items hf
      simp only [lookup, hids, Option.bind_some, get?_m2oLookup]
      split
      · rfl
      · next hnot =>
        obtain rfl : fk = "" := by_contra fun hne => hnot (hmem item hitem fk hfk hne)
        exact target_empty.symm
    have hloop (item : Record N) (hitem : item ∈ items) (l : List M2OField) (hl : l ⊆ fields)
        (it : Record N) (hit : ∀ k s, it.get k = .str s → item.get k = .str s) :
        l.foldl (fun it f => assignTarget (lookup f) f it) it =
          l.foldl (fun it f => assignTarget (target S columns f.targetTable) f it) it := by
      induction l generalizing it with
      | nil => rfl
      | cons f l ih =>
        obtain ⟨hf, hl⟩ := List.cons_subset.1 hl
        have hstep : assignTarget (lookup f) f it =
            assignTarget (target S columns f.targetTable) f it := by
          unfold assignTarget
          split
          · next fk hfk => rw [hlookup f hf item hitem fk (hit _ _ hfk)]
          · rfl
        rw [List.foldl_cons, List.foldl_cons, hstep]
        exact ih hl _ fun k s hk => hit k s (get_assignTarget hk)
    rw [List.foldl_ext _ (fun its f => its.map (assignTarget (lookup f) f)), foldl_map_items]
    · exact List.map_congr_left fun item hitem =>
        hloop item hitem fields (List.Subset.refl _) item fun _ _ hk => hk
    · intro its f hf
      obtain ⟨ids, hids, -⟩ := exists_tableIdSets items hf
      simp only [lookup, hids]
      rfl

end

/-! ## The window of each parent -/

/-- The rows of a table are all different, as their ids are. -/
def RowsNodup : Prop := ∀ slug, (S.tables slug).Nodup

section
variable {S} {f : O2MField} {ids : List String} {id : String} {limit : ℕ} {rel row : Record N}

omit [JsNumber N] in
theorem rowText_of_get {k s : String} (h : row.get k = .str s) : rowText row k = s := by
  rw [rowText, h]

omit [JsNumber N] in
/-- No two rows of a table have one id. -/
theorem nodup_ids (hnodup : RowsNodup S) (f : O2MField) (id : String) :
    (((S.liveRows f.targetTable).filter (textIn f.foreignKey [id])).map
      (rowText · "id")).Nodup := by
  refine List.Nodup.map_on ?_ (((hnodup f.targetTable).filter _).filter _)
  intro row hrow row' hrow' heq
  have hmem := mem_of_liveRows (List.mem_filter.1 hrow).1
  have hmem' := mem_of_liveRows (List.mem_filter.1 hrow').1
  obtain ⟨i, hi, -⟩ := S.id_text _ row hmem
  obtain ⟨i', hi', -⟩ := S.id_text _ row' hmem'
  have htext : rowText row "id" = i := rowText_of_get (by rw [Record.get_eq, hi, Option.getD_some])
  have htext' : rowText row' "id" = i' :=
    rowText_of_get (by rw [Record.get_eq, hi', Option.getD_some])
  refine S.id_unique _ row hmem row' hmem' ?_
  rw [hi, hi', ← htext, ← htext', heq]

omit [JsNumber N] in
theorem parent_of_mem_windowQuery (h : rel ∈ windowQuery S f ids limit) :
    ∃ fk ∈ ids, rel.get f.foreignKey = .str fk :=
  textIn_eq_true.1 (List.mem_filter.1 (List.mem_filter.1 h).1).2

omit [JsNumber N] in
/-- Of the rows of the query, those of a parent are its newest children. -/
theorem filter_windowQuery (hnodup : RowsNodup S) (hid : id ∈ ids) :
    ((windowQuery S f ids limit).filter fun rel => rowText rel f.foreignKey = id).Perm
      (newestChildren S f id limit) := by
  have hchildren : ((S.liveRows f.targetTable).filter (textIn f.foreignKey ids)).filter
      (fun rel => rowText rel f.foreignKey = id) =
        (S.liveRows f.targetTable).filter (textIn f.foreignKey [id]) := by
    rw [List.filter_filter]
    refine List.filter_congr fun rel _ => ?_
    rw [Bool.eq_iff_iff, Bool.and_eq_true, decide_eq_true_eq, textIn_eq_true, textIn_eq_true]
    constructor
    · rintro ⟨htext, fk, -, hfk⟩
      exact ⟨id, List.mem_singleton_self id, by rw [hfk, ← htext, rowText_of_get hfk]⟩
    · rintro ⟨fk, hmem, hfk⟩
      obtain rfl := List.mem_singleton.1 hmem
      exact ⟨rowText_of_get hfk, fk, hid, hfk⟩
  refine List.Perm.trans (.of_eq ?_) (Window.filter_rowNumber (nodup_ids hnodup f id) limit)
  rw [windowQuery, List.filter_comm, ← hchildren]
  refine List.filter_congr fun rel hrel => ?_
  rw [of_decide_eq_true (List.mem_filter.1 hrel).2]

/-- The key of a row in `grouped`. -/
def childKey (f : O2MField) (rel : Record N) : String :=
  ((rel.get f.foreignKey).orElse (.str "")).toStr

theorem childKey_of_get (h : rel.get f.foreignKey = .str id) : childKey f rel = id := by
  rw [childKey, h]
  rfl

/-- The loop ends where no key is a property of every object. -/
theorem groupRows_eq_ok {related : List (Record N)} {grouped : JsMap String (List (Record N))} :
    groupRows S f related = .ok grouped ↔
      (∀ rel ∈ related, childKey f rel ∉ inheritedNames) ∧
        grouped = .grouped (related.map fun rel => (childKey f rel, S.mergeRowData rel)) := by
  have hloop (m : JsMap String (List (Record N))) :
      related.foldlM (fun grouped rel =>
        let fk := ((rel.get f.foreignKey).orElse (.str "")).toStr
        if inheritedNames.contains fk then .error "grouped[fk].push is not a function"
        else .ok (grouped.set fk ((grouped.get? fk).getD [] ++ [S.mergeRowData rel]))) m =
          Except.ok grouped ↔
      (∀ rel ∈ related, childKey f rel ∉ inheritedNames) ∧
        grouped = .fill (·.1) (fun _ => []) (fun group b => group ++ [b.2]) m
          (related.map fun rel => (childKey f rel, S.mergeRowData rel)) := by
    induction related generalizing m with
    | nil =>
      rw [List.foldlM_nil]
      constructor
      · intro h
        exact ⟨fun rel hrel => absurd hrel List.not_mem_nil, (Except.ok.inj h).symm⟩
      · rintro ⟨-, rfl⟩
        rfl
    | cons rel related ih =>
      rw [List.foldlM_cons, List.forall_mem_cons]
      dsimp only
      rw [← childKey]
      by_cases hkey : childKey f rel ∈ inheritedNames
      · rw [if_pos (List.contains_iff_mem.2 hkey)]
        exact iff_of_false (fun h => by cases h) fun h => h.1.1 hkey
      · rw [if_neg fun h => hkey (List.contains_iff_mem.1 h)]
        refine (ih _).trans ?_
        rw [and_iff_right hkey]
        rfl
  exact hloop .empty

/-- The children of an id that no object has as a property. -/
theorem childrenOf_grouped {related : List (Record N)} (hid : id ∉ inheritedNames)
    (hparents : ∀ rel ∈ related, ∃ fk, rel.get f.foreignKey = .str fk) :
    childrenOf (.grouped (related.map fun rel => (childKey f rel, S.mergeRowData rel))) id =
      .arr (((related.filter fun rel => rowText rel f.foreignKey = id).map
        S.mergeRowData).map .obj) := by
  have hrows := JsMap.get?_grouped (k := id)
    (related.map fun rel => (childKey f rel, S.mergeRowData rel))
  have hfilter : ((related.map fun rel => (childKey f rel, S.mergeRowData rel)).filter
      (·.1 = id)).map (·.2) =
        (related.filter fun rel => rowText rel f.foreignKey = id).map S.mergeRowData := by
    rw [List.filter_map, List.map_map]
    congr 1
    refine List.filter_congr fun rel hrel => ?_
    obtain ⟨fk, hfk⟩ := hparents rel hrel
    simp only [Function.comp_apply, childKey_of_get hfk, rowText_of_get hfk]
  rw [hfilter] at hrows
  unfold childrenOf
  cases hget : (JsMap.grouped
      (related.map fun rel => (childKey f rel, S.mergeRowData rel))).get? id with
  | none =>
    rw [hget, Option.getD_none] at hrows
    rw [← hrows, if_neg, if_neg]
    · rfl
    · exact fun h => hid (List.contains_iff_mem.1 h)
    · rintro rfl
      exact hid (by decide)
  | some rows =>
    rw [hget, Option.getD_some] at hrows
    rw [hrows]

omit [JsNumber N] in
/-- A property of every object is no array. -/
theorem childrenOf_inherited (hid : id ∈ inheritedNames) (children : List (JsVal N)) :
    childrenOf (.grouped []) id ≠ .arr children := by
  have hnone : (JsMap.grouped ([] : List (String × Record N))).get? id = none := rfl
  unfold childrenOf
  rw [hnone]
  dsimp only
  split
  · exact fun h => by cases h
  · rw [if_pos (List.contains_iff_mem.2 hid)]
    exact fun h => by cases h

end

/-! ## The children of a page -/

section
variable {S} {answers : Answers N} {items : List (Record N)} {fields : List O2MField} {limit : ℕ}

/-- The items of a page have ids. -/
def HaveIds (items : List (Record N)) : Prop :=
  ∀ item ∈ items, ∃ id, item.get "id" = .str id ∧ id ≠ ""

omit [JsNumber N] in
theorem mem_pageIds {id : String} :
    id ∈ pageIds items ↔ id ≠ "" ∧ ∃ item ∈ items, item.get "id" = .str id := by
  unfold pageIds
  rw [List.mem_filterMap]
  constructor
  · rintro ⟨item, hitem, h⟩
    split at h
    · next s hs =>
      split at h
      · cases h
      · next hne =>
        obtain rfl := Option.some.inj h
        exact ⟨hne, item, hitem, hs⟩
    · cases h
  · rintro ⟨hne, item, hitem, hid⟩
    exact ⟨item, hitem, by rw [hid]; exact if_neg hne⟩

/-- What a field is resolved to. -/
def groupedChildren (answers : Answers N) (items : List (Record N)) (limit : ℕ) (f : O2MField) :
    JsMap String (List (Record N)) :=
  .grouped ((answers.arrange (windowQuery S f (pageIds items) limit)).map
    fun rel => (childKey f rel, S.mergeRowData rel))

omit [JsNumber N] in
theorem parent_of_mem_arrange {f : O2MField} {rel : Record N}
    (h : rel ∈ answers.arrange (windowQuery S f (pageIds items) limit)) :
    ∃ fk ∈ pageIds items, rel.get f.foreignKey = .str fk :=
  parent_of_mem_windowQuery ((answers.perm _).mem_iff.1 h)

/-- The loop over the fields keeps the id of an item. -/
theorem foldl_children (value : O2MField → String → JsVal N) (fields : List O2MField)
    (item : Record N) :
    fields.foldl (fun it f =>
        it.set f.fieldName (value f ((it.get "id").orElse (.str "")).toStr)) item =
      fields.foldl (fun it f =>
        it.set f.fieldName (value f ((item.get "id").orElse (.str "")).toStr)) item := by
  have hloop (l : List O2MField) (it : Record N) (hit : it.get "id" = item.get "id") :
      l.foldl (fun it f => it.set f.fieldName (value f ((it.get "id").orElse (.str "")).toStr)) it =
        l.foldl (fun it f =>
          it.set f.fieldName (value f ((item.get "id").orElse (.str "")).toStr)) it := by
    induction l generalizing it with
    | nil => rfl
    | cons f l ih =>
      rw [List.foldl_cons, List.foldl_cons, hit]
      refine ih _ ?_
      rw [Record.get_eq, Record.get?_set, if_neg f.name_ne, ← Record.get_eq, hit]
  exact hloop fields item rfl

/-- A page is resolved where each of its fields can be grouped. -/
theorem resolveO2M_eq_ok {items' : List (Record N)} (hids : HaveIds items) (hne : items ≠ [])
    (hfields : fields ≠ []) :
    resolveO2M S answers items fields limit = .ok items' ↔
      (∀ f ∈ fields, ∀ rel ∈ answers.arrange (windowQuery S f (pageIds items) limit),
        childKey f rel ∉ inheritedNames) ∧
      items' = items.map fun item => fields.foldl (fun it f =>
        it.set f.fieldName (childrenOf (groupedChildren (S := S) answers items limit f)
          ((item.get "id").orElse (.str "")).toStr)) item := by
  have hpage : (pageIds items).isEmpty = false := by
    obtain ⟨item, hitem⟩ := List.exists_mem_of_ne_nil _ hne
    obtain ⟨id, hid, hidne⟩ := hids item hitem
    rw [List.isEmpty_eq_false_iff_exists_mem]
    exact ⟨id, mem_pageIds.2 ⟨hidne, item, hitem, hid⟩⟩
  have hfetch (hno : ∀ f ∈ fields, ∀ rel ∈ answers.arrange (windowQuery S f (pageIds items) limit),
      childKey f rel ∉ inheritedNames) :
      (fields.mapM fun f => do
        let grouped ← groupRows S f (answers.arrange (windowQuery S f (pageIds items) limit))
        Except.ok (f.fieldName, grouped)) =
          .ok (fields.map fun f =>
            (f.fieldName, groupedChildren (S := S) answers items limit f)) := by
    refine mapM_ok fun f hf => ?_
    rw [groupRows_eq_ok.2 ⟨hno f hf, rfl⟩]
    rfl
  have hassign : (fields.map fun f =>
      (f.fieldName, groupedChildren (S := S) answers items limit f)).foldl
        (fun its result => its.map fun item => item.set result.1
          (childrenOf result.2 ((item.get "id").orElse (.str "")).toStr)) items =
      items.map fun item => fields.foldl (fun it f =>
        it.set f.fieldName (childrenOf (groupedChildren (S := S) answers items limit f)
          ((item.get "id").orElse (.str "")).toStr)) item := by
    rw [List.foldl_map]
    refine (foldl_map_items (fun f (it : Record N) => it.set f.fieldName
      (childrenOf (groupedChildren (S := S) answers items limit f)
        ((it.get "id").orElse (.str "")).toStr)) fields items).trans ?_
    exact List.map_congr_left fun item _ => foldl_children
      (fun f id => childrenOf (groupedChildren (S := S) answers items limit f) id) fields item
  unfold resolveO2M
  rw [List.isEmpty_eq_false_iff.2 hne, List.isEmpty_eq_false_iff.2 hfields, hpage,
    if_neg (by decide)]
  constructor
  · intro h
    obtain ⟨results, hresults, h⟩ := exists_of_bind_eq_ok h
    have hno : ∀ f ∈ fields, ∀ rel ∈ answers.arrange (windowQuery S f (pageIds items) limit),
        childKey f rel ∉ inheritedNames := by
      intro f hf
      obtain ⟨result, hresult⟩ := ok_of_mapM_eq_ok hresults f hf
      obtain ⟨grouped, hgrouped, -⟩ := exists_of_bind_eq_ok hresult
      exact (groupRows_eq_ok.1 hgrouped).1
    obtain rfl := Except.ok.inj ((hfetch hno).symm.trans hresults)
    exact ⟨hno, (Except.ok.inj h).symm.trans hassign⟩
  · rintro ⟨hno, rfl⟩
    rw [hfetch hno, ← hassign]
    rfl

theorem idText_of_get {item : Record N} {id : String} (h : item.get "id" = .str id) :
    ((item.get "id").orElse (.str "")).toStr = id := by
  rw [h]
  rfl

/-- A page whose ids are no properties of every object is resolved item by item. -/
theorem resolveO2M_expands (hnodup : RowsNodup S) (hids : HaveIds items)
    (hplain : fields = [] ∨ ∀ item ∈ items, ∀ id, item.get "id" = .str id → id ∉ inheritedNames) :
    ∃ items', resolveO2M S answers items fields limit = .ok items' ∧
      List.Forall₂ (ExpandsO2M S fields limit) items items' := by
  by_cases hne : items = []
  · subst hne
    exact ⟨[], rfl, .nil⟩
  by_cases hfields : fields = []
  · subst hfields
    refine ⟨items, ?_, List.forall₂_same.2 fun item _ => ?_⟩
    · rw [resolveO2M, List.isEmpty_nil, Bool.or_true, Bool.true_or, if_pos rfl]
    · exact ⟨fun _ => [], fun f hf => absurd hf List.not_mem_nil, rfl⟩
  replace hplain := hplain.resolve_left hfields
  have hno : ∀ f ∈ fields, ∀ rel ∈ answers.arrange (windowQuery S f (pageIds items) limit),
      childKey f rel ∉ inheritedNames := by
    intro f _ rel hrel
    obtain ⟨fk, hmem, hfk⟩ := parent_of_mem_arrange hrel
    obtain ⟨-, item, hitem, hid⟩ := mem_pageIds.1 hmem
    rw [childKey_of_get hfk]
    exact hplain item hitem fk hid
  refine ⟨_, (resolveO2M_eq_ok hids hne hfields).2 ⟨hno, rfl⟩, ?_⟩
  rw [List.forall₂_map_right_iff, List.forall₂_same]
  intro item hitem
  obtain ⟨id, hid, hidne⟩ := hids item hitem
  refine ⟨fun f => ((answers.arrange (windowQuery S f (pageIds items) limit)).filter
    fun rel => rowText rel f.foreignKey = id).map S.mergeRowData, ?_, ?_⟩
  · intro f _ id' hid'
    obtain rfl : id = id' := by
      rw [hid] at hid'
      exact JsVal.str.inj hid'
    have hmem : id ∈ pageIds items := mem_pageIds.2 ⟨hidne, item, hitem, hid⟩
    exact (((answers.perm _).filter _).trans (filter_windowQuery hnodup hmem)).map _
  · rw [idText_of_get hid]
    refine List.foldl_ext _ _ _ fun it f _ => ?_
    rw [groupedChildren, childrenOf_grouped (hplain item hitem id hid)]
    intro rel hrel
    obtain ⟨fk, -, hfk⟩ := parent_of_mem_arrange hrel
    exact ⟨fk, hfk⟩

/-- An item that is resolved by itself has an id that is no property of every object. -/
theorem plain_of_resolveO2M {item : Record N} {items' : List (Record N)}
    (hids : HaveIds [item]) (h : resolveO2M S answers [item] fields limit = .ok items')
    (hexpands : List.Forall₂ (ExpandsO2M S fields limit) [item] items') (hfields : fields ≠ [])
    {id : String} (hid : item.get "id" = .str id) : id ∉ inheritedNames := by
  intro hinherited
  obtain ⟨hno, rfl⟩ := (resolveO2M_eq_ok hids (List.cons_ne_nil _ _) hfields).1 h
  obtain ⟨hexpands, -⟩ := List.forall₂_cons.1 hexpands
  obtain ⟨children, -, heq⟩ := hexpands
  obtain ⟨init, f, rfl⟩ := (List.eq_nil_or_concat fields).resolve_left hfields
  -- a child of the item cannot be grouped
  have hnone : answers.arrange (windowQuery S f (pageIds [item]) limit) = [] := by
    refine List.eq_nil_iff_forall_not_mem.2 fun rel hrel => ?_
    obtain ⟨fk, hmem, hfk⟩ := parent_of_mem_arrange hrel
    obtain ⟨-, item', hitem', hid'⟩ := mem_pageIds.1 hmem
    rw [List.mem_singleton.1 hitem', hid] at hid'
    refine hno f (by simp) rel hrel ?_
    rwa [childKey_of_get hfk, ← JsVal.str.inj hid']
  have hvalue := congrArg (Record.get? · f.fieldName) heq
  simp only [List.concat_eq_append, List.foldl_append, List.foldl_cons, List.foldl_nil,
    Record.get?_set, if_true, idText_of_get hid] at hvalue
  rw [groupedChildren, hnone] at hvalue
  exact childrenOf_inherited hinherited _ (Option.some.inj hvalue)

end

end HeadlessErp.Resolver
