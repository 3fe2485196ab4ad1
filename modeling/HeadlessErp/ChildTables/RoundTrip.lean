import Mathlib.Data.List.Forall2
import HeadlessErp.Base.Transition
import HeadlessErp.ChildTables.Service
import HeadlessErp.Entity.StoredColumns

/-!
# Reading back what was written last

A parent should be read with the rows that were written last for each of its table fields
(`ChildState.RoundTrip`), and a write should leave the rows of other parents and fields alone
(`ChildTableSystem.Frame`). A child row says nothing of the field it was written for and nothing of its
place, and what is no column of the child collection is not read back: both hold in the runs whose
writes are `Regular` (`roundTrip_of_regular`).

The invariant `ChildState.Rows` is about the rows in the order of the table, which is that of their ids.
-/

namespace HeadlessErp

section
variable {N : Type} [JsNumber N]

/-! ## The columns of a child row -/

/-- What `_coerceChildRow` makes of the value of a property that has a column. -/
def childColumnValue (fields : List (FieldDefinition N)) (key : String) (v : JsVal N) :
    Except ApiError (JsVal N) :=
  match schemaType fields key with
  | some fieldType => coerceValue v fieldType
  | none => .ok v

/-- A property that has a column. -/
theorem coerceChildEntry_of_storesColumn {info : CollectionInfo N} {acc acc' : Record N × Record N}
    {key : String} {v : JsVal N} (hkey : storesColumn info key = true)
    (h : coerceChildEntry info.schemaFields acc (key, v) = .ok acc') :
    ∃ value, childColumnValue info.schemaFields key v = .ok value ∧
      acc' = (acc.1.set key value, acc.2) := by
  have hsystem : systemFieldNames.contains key = false := by
    have hno := not_mem_systemFields hkey
    unfold systemFields at hno
    simpa using (not_or.1 (fun hmem => hno (List.mem_cons.2 hmem))).2
  unfold storesColumn at hkey
  obtain ⟨-, hcolumn⟩ := Bool.and_eq_true_iff.1 hkey
  simp only [coerceChildEntry, hsystem, Bool.false_eq_true, if_false] at h
  unfold childColumnValue
  cases htype : schemaType info.schemaFields key with
  | some fieldType =>
    rw [htype] at h hcolumn
    have hvirtual : [FieldType.o2m, .m2m, .table, .formula].contains fieldType = false := by
      simpa using hcolumn
    simp only [hvirtual, Bool.false_eq_true, if_false] at h
    obtain ⟨coerced, hcoerced, h⟩ := exists_of_bind_eq_ok h
    cases h
    exact ⟨coerced, hcoerced, rfl⟩
  | none =>
    rw [htype] at h hcolumn
    have hm2a : (m2aColumns info.schemaFields).contains key = true := hcolumn
    simp only [hm2a, if_true] at h
    cases h
    exact ⟨v, rfl, rfl⟩

/-- The columns of properties that all have one. -/
theorem coerceChildEntries {info : CollectionInfo N} {entries : Record N}
    {acc acc' : Record N × Record N} (hnames : (entries.map (·.1)).Nodup)
    (hcolumns : ∀ kv ∈ entries, storesColumn info kv.1 = true)
    (h : entries.foldlM (coerceChildEntry info.schemaFields) acc = .ok acc') :
    acc'.2 = acc.2 ∧ (∀ key, key ∉ entries.map (·.1) → acc'.1.get? key = acc.1.get? key) ∧
      ∀ kv ∈ entries, ∃ value, childColumnValue info.schemaFields kv.1 kv.2 = .ok value ∧
        acc'.1.get? kv.1 = some value := by
  induction entries generalizing acc with
  | nil =>
    cases h
    exact ⟨rfl, fun _ _ => rfl, fun kv hkv => by cases hkv⟩
  | cons kv entries ih =>
    rw [List.foldlM_cons] at h
    obtain ⟨acc₁, h₁, h⟩ := exists_of_bind_eq_ok h
    rw [List.map_cons, List.nodup_cons] at hnames
    obtain ⟨value, hvalue, rfl⟩ :=
      coerceChildEntry_of_storesColumn (hcolumns kv List.mem_cons_self) h₁
    obtain ⟨hrest, hothers, hvalues⟩ :=
      ih hnames.2 (fun kv' hkv' => hcolumns kv' (List.mem_cons_of_mem _ hkv')) h
    refine ⟨hrest, fun key hkey => ?_, fun kv' hkv' => ?_⟩
    · rw [List.map_cons, List.mem_cons, not_or] at hkey
      rw [hothers key hkey.2, Record.get?_set, if_neg (Ne.symm hkey.1)]
    · rcases List.mem_cons.1 hkv' with rfl | hmem
      · refine ⟨value, hvalue, ?_⟩
        rw [hothers _ hnames.1, Record.get?_set, if_pos rfl]
      · exact hvalues kv' hmem

/-- The columns of an item whose properties all have one. -/
theorem get?_coerceChildRow {info : CollectionInfo N} {entries columns : Record N}
    (hnames : (entries.map (·.1)).Nodup) (hcolumns : ∀ kv ∈ entries, storesColumn info kv.1 = true)
    (h : coerceChildRow info.schemaFields entries = .ok columns) :
    (∀ key, key ∉ entries.map (·.1) → columns.get? key = none) ∧
      ∀ kv ∈ entries, ∃ value, childColumnValue info.schemaFields kv.1 kv.2 = .ok value ∧
        columns.get? kv.1 = some value := by
  unfold coerceChildRow at h
  obtain ⟨acc, hacc, h⟩ := exists_of_bind_eq_ok h
  obtain ⟨hrest, hothers, hvalues⟩ := coerceChildEntries hnames hcolumns hacc
  obtain ⟨columns', rest⟩ := acc
  simp only at hrest
  subst hrest
  cases h
  exact ⟨hothers, hvalues⟩

/-! ## Runs -/

/-- The service with the collection of the parents, and the cap on the rows that are read. -/
structure ChildTableSystem (N : Type) extends ChildTableService N where
  parent : EntitySchema N
  parent_mem : parent ∈ all
  limit : Option Nat
  limit_ne_zero : limit ≠ some 0

/-- The tables, the parents that were created, and the items that were written last for each of their
fields. -/
structure ChildState (N : Type) where
  tables : Tables N
  parents : List String
  written : String → String → List (JsVal N)

omit [JsNumber N] in
/-- The items of a field of a parent have been written. -/
def ChildState.record (s : ChildState N) (parentId fieldName : String) (items : List (JsVal N)) :
    ChildState N :=
  { s with
    written := Function.update s.written parentId
      (Function.update (s.written parentId) fieldName items) }

namespace ChildTableSystem
variable (S : ChildTableSystem N)

omit [JsNumber N] in
/-- What a write has for the table fields. -/
def childItems (w : ParentWrite N) : List (String × List (JsVal N)) :=
  (extractChildData w.document S.parent.info.schemaFields).2

/-- One field of a write. -/
def writeItems (w : ParentWrite N) (fieldName : String) (items : List (JsVal N)) :
    StateExcept ApiError (ChildState N) Unit := fun s =>
  match S.writeField S.parent w fieldName items s.tables with
  | (.ok _, t) => (.ok (), { s with tables := t }.record w.parentId fieldName items)
  | (.error e, t) => (.error e, { s with tables := t })

/-- The fields of a write, one after another. -/
def writeFields (w : ParentWrite N) :
    List (String × List (JsVal N)) → StateExcept ApiError (ChildState N) Unit
  | [] => pure ()
  | (fieldName, items) :: rest => do
    S.writeItems w fieldName items
    writeFields w rest

omit [JsNumber N] in
/-- The parent's own row, before its child rows. -/
def writeParent (s : ChildState N) (w : ParentWrite N) : ChildState N :=
  match w.kind with
  | .create =>
    { s with
      tables := s.tables.modify S.parent.slug (· ++ [("id", .str w.parentId) :: w.columns])
      parents := w.parentId :: s.parents }
  | .update =>
    { s with tables := s.tables.modify S.parent.slug (updateWhere (hasId w.parentId) w.columns) }

/-- A create of a new parent, or an update of one that there is. -/
def step (s : ChildState N) (w : ParentWrite N) : Option (ChildState N) :=
  if (w.kind = .create) ↔ w.parentId ∈ s.parents then none
  else some (S.writeFields w (S.childItems w) (S.writeParent s w)).2

/-- The creates and updates of parents, on tables that are empty at first. -/
def system : System (ChildState N) (ParentWrite N) where
  init s := s = ⟨fun _ => [], [], fun _ _ => []⟩
  step := S.step

/-! ## What is expected -/

/-- The table fields of the parents. -/
def tableFields : List (FieldDefinition N) := S.parent.info.schemaFields.filter (·.type = .table)

/-- A row shows an item: it has all the keys of the item, with their values. -/
def Shows (row : Record N) (item : JsVal N) : Prop :=
  ∃ entries, item = .obj entries ∧ ∀ kv ∈ entries, row.get? kv.1 = some kv.2

/-- Every parent is read with the items that were written last for each field, in their order. -/
def RoundTrip (s : ChildState N) : Prop :=
  ∀ p ∈ s.parents, ∀ f ∈ S.tableFields,
    List.Forall₂ Shows (S.resolveChildren s.tables S.limit f p) (s.written p f.name)

/-- A write leaves the rows of other parents, and of the fields it has no items for. -/
def Frame (w : ParentWrite N) (s s' : ChildState N) : Prop :=
  ∀ f ∈ S.tableFields, ∀ p, p ≠ w.parentId ∨ f.name ∉ (S.childItems w).map (·.1) →
    S.resolveChildren s'.tables S.limit f p = S.resolveChildren s.tables S.limit f p

/-! ## When it holds -/

/-- Each table field has a child collection of its own, which is not that of the parents. -/
structure Separate : Prop where
  own : ∀ f ∈ S.tableFields, f.relatedCollection ≠ some S.parent.slug
  distinct : ∀ f ∈ S.tableFields, ∀ g ∈ S.tableFields, ∀ slug, f.relatedCollection = some slug →
    g.relatedCollection = some slug → f.name = g.name

/-- An object whose keys are columns of the child collection, other than that of the parent's id, and
whose values come back as they were from the conversion of their field, the column and the read. The
names of a JavaScript object are distinct. -/
structure Kept (child : EntitySchema N) (item : JsVal N) : Prop where
  object : ∃ entries, item = .obj entries ∧ (entries.map (·.1)).Nodup ∧ ∀ kv ∈ entries,
    storesColumn child.info kv.1 = true ∧ kv.1 ≠ "parent_id" ∧ kv.1 ≠ "_ct_rn" ∧
    ∀ value, childColumnValue child.info.schemaFields kv.1 kv.2 = .ok value →
      S.decodeField child.info.schemaFields kv.1 ((S.storage child.slug).store kv.1 value) = kv.2

/-- The items of a field are written and read whole: its child collection exists, the items keep their
keys and are no more than are read, and their ids ascend. A new parent's rows are all accepted. -/
structure RegularField (w : ParentWrite N) (fieldName : String) (items : List (JsVal N)) : Prop where
  target : ∃ child, childTarget S.all S.parent fieldName = some child ∧ (∀ item ∈ items, S.Kept child item)
    ∧ (w.kind = .create → ∀ k item, items[k]? = some item →
      ∃ row, S.createdRow child w fieldName k item = .ok row)
  capped : ∀ limit, S.limit = some limit → items.length ≤ limit
  ascending : ∀ i j, i < j → j < items.length →
    strLt (w.childId fieldName i) (w.childId fieldName j) = true

/-- A write whose items are all written and read whole. -/
structure Regular (w : ParentWrite N) : Prop where
  separate : S.Separate
  fields : ∀ kv ∈ S.childItems w, S.RegularField w kv.1 kv.2

/-! ## The rows of a write -/

/-- The row of an item: live, with the id that was drawn for it and that of its parent, and read with the
keys of the item. -/
structure RowOf (child : EntitySchema N) (parentId id : String) (row : Record N) (item : JsVal N) :
    Prop where
  live : isLive row = true
  id : row.get? "id" = some (.str id)
  parent : row.get? "parent_id" = some (.str parentId)
  shows : Shows ((childFields row).map fun kv =>
    (kv.1, S.decodeField child.info.schemaFields kv.1 kv.2)) item

variable {S} {child : EntitySchema N} {w : ParentWrite N} {fieldName : String} {k : Nat}
  {item : JsVal N} {items : List (JsVal N)} {data row : Record N} {rows : List (Record N)}

omit [JsNumber N] in
/-- A column that a request sets in a child row. -/
theorem get?_childInsertData {id parentId : String} {columns : Record N} {now : IsoTime} {key : String}
    (hkey : key ∉ systemFields) : (childInsertData id parentId columns now).get? key =
      (columns.get? key).or (Record.get? [("id", .str id), ("parent_id", .str parentId)] key) := by
  have hno : Record.get? [("doc_status", .str "draft"), ("created_at", .str now.text),
      ("updated_at", .str now.text)] key = (none : Option (JsVal N)) := by
    have hne (name : String) (hmem : name ∈ systemFields) : name ≠ key := by
      rintro rfl
      exact hkey hmem
    simp only [Record.get?_cons, Record.get?_nil, hne "doc_status" (by decide),
      hne "created_at" (by decide), hne "updated_at" (by decide), if_false]
  unfold childInsertData
  rw [Record.get?_assign, hno, Option.none_or, Record.get?_assign]

/-- What is inserted for an item that keeps its keys. -/
theorem rowOf_insertRow (hkept : S.Kept child item)
    (hdata : ChildTableService.childData child w fieldName k item = .ok (some data))
    (hrow : S.insertRow child data = .ok row) :
    S.RowOf child w.parentId (w.childId fieldName k) row item := by
  obtain ⟨entries, rfl, hnames, hentries⟩ := hkept.object
  unfold ChildTableService.childData at hdata
  obtain ⟨columns, hcolumns, hdata⟩ := exists_of_bind_eq_ok hdata
  cases hdata
  obtain ⟨hothers, hvalues⟩ :=
    get?_coerceChildRow hnames (fun kv hkv => (hentries kv hkv).1) hcolumns
  have hread (key : String) : row.get? key = _ := get?_updateRow hrow key
  have hcolumnless (key : String) (hno : ∀ kv ∈ entries, kv.1 ≠ key) : columns.get? key = none := by
    refine hothers key fun hmem => ?_
    obtain ⟨kv, hkv, rfl⟩ := List.mem_map.1 hmem
    exact hno kv hkv rfl
  have hsystem {key : String} (hmem : key ∈ systemFields) : ∀ kv ∈ entries, kv.1 ≠ key := by
    rintro kv hkv rfl
    exact not_mem_systemFields (hentries kv hkv).1 hmem
  have hparent := hcolumnless "parent_id" fun kv hkv => (hentries kv hkv).2.1
  refine ⟨?_, ?_, ?_, entries, rfl, fun kv hkv => ?_⟩
  · have hdeleted : row.get? "deleted_at" = (S.blank child.slug).get? "deleted_at" := by
      rw [hread]
      unfold childInsertData
      rw [Record.get?_assign, Record.get?_assign, hcolumnless "deleted_at" (hsystem (by decide))]
      rfl
    unfold isLive Record.get
    rw [hdeleted]
    exact S.blank_live child.slug
  · rw [hread]
    unfold childInsertData
    rw [Record.get?_assign, Record.get?_assign, hcolumnless "id" (hsystem (by decide))]
    show some ((S.storage child.slug).store "id" (.str (w.childId fieldName k))) = _
    rw [(S.storage child.slug).store_text "id" (by decide)]
  · rw [hread, get?_childInsertData (by decide), hparent]
    show some ((S.storage child.slug).store "parent_id" (.str w.parentId)) = _
    rw [S.parent_text]
  · obtain ⟨hstores, hnotParent, hnotRank, hback⟩ := hentries kv hkv
    obtain ⟨value, hvalue, hcolumn⟩ := hvalues kv hkv
    have huser := not_mem_systemFields hstores
    have hkeeps : ¬ ["parent_id", "deleted_at", "_meta", "_ct_rn"].contains kv.1 = true := by
      have hdeleted : kv.1 ≠ "deleted_at" := by
        rintro he
        exact huser (he ▸ by decide)
      have hmeta : kv.1 ≠ "_meta" := by
        rintro he
        exact huser (he ▸ by decide)
      simp [hnotParent, hnotRank, hdeleted, hmeta]
    unfold childFields
    rw [Record.get?_map fun key => S.decodeField child.info.schemaFields key,
      Record.get?_filter fun key => ! ["parent_id", "deleted_at", "_meta", "_ct_rn"].contains key,
      if_pos (by simpa using hkeeps), hread, get?_childInsertData huser, hcolumn]
    show some (S.decodeField _ _ ((S.storage child.slug).store kv.1 value)) = _
    rw [hback value hvalue]

/-- The rows that are inserted for items that keep their keys. -/
theorem replacedRows_spec (hkept : ∀ item ∈ items, S.Kept child item)
    (h : S.replacedRows child w fieldName k items = .ok rows) :
    List.Forall₂ (fun row item => S.RowOf child w.parentId (w.childId fieldName item.2) row item.1) rows
      (items.zipIdx k) := by
  induction items generalizing k rows with
  | nil =>
    cases h
    exact .nil
  | cons item items ih =>
    rw [ChildTableService.replacedRows] at h
    obtain ⟨row, hrow, h⟩ := exists_of_bind_eq_ok h
    obtain ⟨rows', hrows, h⟩ := exists_of_bind_eq_ok h
    cases h
    obtain ⟨data, hdata, hrow⟩ := exists_of_bind_eq_ok hrow
    have hitem := hkept item List.mem_cons_self
    have hrest := ih (fun item' hitem' => hkept item' (List.mem_cons_of_mem _ hitem')) hrows
    cases data with
    | none =>
      obtain ⟨entries, rfl, -⟩ := hitem.object
      unfold ChildTableService.childData at hdata
      obtain ⟨columns, -, hdata⟩ := exists_of_bind_eq_ok hdata
      cases hdata
    | some data =>
      obtain ⟨row', hrow', hrow⟩ := exists_of_bind_eq_ok hrow
      cases hrow
      exact .cons (rowOf_insertRow hitem hdata hrow') hrest

/-- A row that `createChildren` inserts is the one that `replaceChildren` does. -/
theorem replacedRow_of_createdRow {created : Option (Record N)}
    (h : S.createdRow child w fieldName k item = .ok created) :
    S.replacedRow child w fieldName k item = .ok created := by
  obtain ⟨data, hdata, hinserted⟩ := exists_of_bind_eq_ok h
  unfold ChildTableService.replacedRow
  simp only [hdata, bind, Except.bind]
  cases data with
  | none => exact hinserted
  | some data =>
    simp only at hinserted ⊢
    cases hinsert : S.insertRow child data with
    | ok row =>
      rw [hinsert] at hinserted
      exact hinserted
    | error e =>
      rw [hinsert] at hinserted
      cases e <;> cases hinserted

/-- Rows that are accepted are inserted after one another as they would be in one batch. -/
theorem createRows_eq (haccepted : ∀ j item, items[j]? = some item →
      ∃ row, S.createdRow child w fieldName (k + j) item = .ok row) :
    ∃ rows, S.replacedRows child w fieldName k items = .ok rows ∧
      ∀ t, S.createRows child w fieldName k items t = (.ok (), t.modify child.slug (· ++ rows)) := by
  induction items generalizing k with
  | nil =>
    refine ⟨[], rfl, fun t => ?_⟩
    have hsame : t.modify child.slug (· ++ []) = t := by
      unfold Tables.modify
      simp
    rw [hsame]
    rfl
  | cons item items ih =>
    obtain ⟨created, hcreated⟩ := haccepted 0 item rfl
    rw [Nat.add_zero] at hcreated
    obtain ⟨rows, hrows, hrun⟩ := ih fun j item' hitem' => by
      have hnext := haccepted (j + 1) item' hitem'
      rwa [show k + (j + 1) = k + 1 + j by omega] at hnext
    refine ⟨created.toList ++ rows, ?_, fun t => ?_⟩
    · rw [ChildTableService.replacedRows, replacedRow_of_createdRow hcreated, hrows]
      rfl
    · rw [ChildTableService.createRows, hcreated]
      show S.createRows child w fieldName (k + 1) items
        (t.modify child.slug (· ++ created.toList)) = _
      rw [hrun, modify_modify]
      simp only [List.append_assoc]

/-! ## The rows of a field -/

omit [JsNumber N] in
/-- The live rows of a parent, in the order of the table. -/
def rowsIn (t : Tables N) (slug parentId : String) : List (Record N) :=
  ((t slug).filter isLive).filter (textIn "parent_id" [parentId])

variable (S) in
/-- The rows show the items, their ids ascend, and they are all read. -/
structure FieldRows (child : EntitySchema N) (rows : List (Record N)) (items : List (JsVal N)) :
    Prop where
  shows : List.Forall₂ (fun row item => Shows ((childFields row).map fun kv =>
    (kv.1, S.decodeField child.info.schemaFields kv.1 kv.2)) item) rows items
  ascending : rows.Pairwise fun a b => strLt (rowText a "id") (rowText b "id") = true
  capped : ∀ limit, S.limit = some limit → items.length ≤ limit

/-- The rows of a write are those of its items. -/
theorem fieldRows_of_rowOf (hregular : S.RegularField w fieldName items)
    (h : List.Forall₂ (fun row item => S.RowOf child w.parentId (w.childId fieldName item.2) row item.1)
      rows (items.zipIdx 0)) : S.FieldRows child rows items := by
  obtain ⟨hlength, hrows⟩ := List.forall₂_iff_get.1 h
  rw [List.length_zipIdx] at hlength
  refine ⟨List.forall₂_iff_get.2 ⟨hlength, fun i hi hi' => ?_⟩, ?_, hregular.capped⟩
  · have hrow := (hrows i hi (by simpa using hi')).shows
    simpa using hrow
  · have hid (i : Nat) (hi : i < rows.length) : rowText rows[i] "id" = w.childId fieldName i := by
      have hrow := (hrows i hi (by simpa [hlength] using hi)).id
      unfold rowText Record.get
      simp only [List.get_eq_getElem, List.getElem_zipIdx, Nat.zero_add] at hrow
      rw [hrow]
      rfl
    rw [List.pairwise_iff_getElem]
    intro i j hi hj hij
    rw [hid i hi, hid j hj]
    exact hregular.ascending i j hij (hlength ▸ hj)

omit [JsNumber N] in
/-- Texts in their order are not in the other. -/
theorem strLt_asymm {a b : String} (h : strLt a b = true) : strLt b a = false := by
  unfold strLt at h ⊢
  rw [decide_eq_true_eq] at h
  rw [decide_eq_false_iff_not]
  exact fun h' => List.lt_asymm h h'

/-- The table field has its child collection, and reads the rows in it. -/
theorem resolveChildren_eq {t : Tables N} {f : FieldDefinition N} {p : String}
    (hchild : (f.relatedCollection.bind fun slug => S.all.find? (·.slug = slug)) = some child)
    (h : S.FieldRows child (rowsIn t child.slug p) items) :
    List.Forall₂ Shows (S.resolveChildren t S.limit f p) items := by
  have hsorted : ChildTableService.rowsOf t child.slug p = rowsIn t child.slug p :=
    (h.ascending.imp fun hlt => strLt_asymm hlt).insertionSort_eq
  have hall : S.limit.elim (rowsIn t child.slug p) (rowsIn t child.slug p).take =
      rowsIn t child.slug p := by
    cases hlimit : S.limit with
    | none => rfl
    | some limit =>
      have hlength := h.shows.length_eq
      exact List.take_of_length_le (hlength ▸ h.capped limit hlimit)
  unfold ChildTableService.resolveChildren
  rw [hchild]
  simp only [hsorted, hall]
  rw [List.forall₂_map_left_iff]
  exact h.shows

/-! ## One field of a write -/

omit [JsNumber N] in
/-- A row of one parent is not that of another. -/
theorem textIn_parent {row : Record N} {p q : String} (h : row.get? "parent_id" = some (.str p)) :
    textIn "parent_id" [q] row = decide (p = q) := by
  unfold textIn Record.get
  rw [h]
  simp

omit [JsNumber N] in
/-- The rows of a parent in a table that rows of one parent have been added to. -/
theorem rowsIn_append {t : Tables N} {slug p₀ : String} (hrows : ∀ row ∈ rows, isLive row = true ∧
      row.get? "parent_id" = some (.str p₀)) (p : String) :
    rowsIn (t.modify slug (· ++ rows)) slug p = rowsIn t slug p ++ if p₀ = p then rows else [] := by
  have hlive : rows.filter isLive = rows := List.filter_eq_self.2 fun row hrow => (hrows row hrow).1
  unfold rowsIn
  rw [modify_self, List.filter_append, List.filter_append, hlive]
  congr 1
  split
  · rename_i heq
    refine List.filter_eq_self.2 fun row hrow => ?_
    rw [textIn_parent (hrows row hrow).2, decide_eq_true heq]
  · rename_i hne
    refine List.filter_eq_nil_iff.2 fun row hrow => ?_
    rw [textIn_parent (hrows row hrow).2, decide_eq_false hne]
    exact Bool.false_ne_true

omit [JsNumber N] in
/-- The rows of a parent in a table without those of one parent. -/
theorem rowsIn_delete {t : Tables N} {slug p₀ : String} (p : String) :
    rowsIn (t.modify slug (deleteWhere (textIn "parent_id" [p₀]))) slug p =
      if p₀ = p then [] else rowsIn t slug p := by
  unfold rowsIn deleteWhere
  rw [modify_self, List.filter_filter, List.filter_filter, List.filter_filter]
  split
  · rename_i heq
    subst heq
    refine List.filter_eq_nil_iff.2 fun row _ => ?_
    cases textIn "parent_id" [p₀] row <;> simp
  · rename_i hne
    refine List.filter_congr fun row _ => ?_
    cases hp : textIn "parent_id" [p] row with
    | false => rfl
    | true =>
      have hother : textIn "parent_id" [p₀] row = false := by
        unfold textIn at hp ⊢
        cases hget : row.get "parent_id" with
        | str s =>
          rw [hget] at hp
          simp only [List.contains_cons, List.contains_nil, Bool.or_false, beq_iff_eq] at hp ⊢
          subst hp
          simpa using Ne.symm hne
        | _ => rfl
      simp [hother]

/-- One field of a write: it fails and changes nothing, or the rows of the parent become those of the
items, and those of other parents stay. -/
theorem writeField_cases (hregular : S.RegularField w fieldName items)
    (htarget : childTarget S.all S.parent fieldName = some child) (t : Tables N)
    (hfresh : w.kind = .create → rowsIn t child.slug w.parentId = []) :
    (∃ e, S.writeField S.parent w fieldName items t = (.error e, t)) ∨
      ∃ t', S.writeField S.parent w fieldName items t = (.ok (), t') ∧
        (∀ slug, slug ≠ child.slug → t' slug = t slug) ∧
        S.FieldRows child (rowsIn t' child.slug w.parentId) items ∧
        ∀ p, p ≠ w.parentId → rowsIn t' child.slug p = rowsIn t child.slug p := by
  obtain ⟨child', htarget', hkept, haccepted⟩ := hregular.target
  cases htarget.symm.trans htarget'
  unfold ChildTableService.writeField
  rw [htarget]
  simp only
  have hspec {rows : List (Record N)} (hrows : S.replacedRows child w fieldName 0 items = .ok rows) :
      S.FieldRows child rows items ∧ ∀ row ∈ rows, isLive row = true ∧
        row.get? "parent_id" = some (.str w.parentId) := by
    have hall := replacedRows_spec hkept hrows
    refine ⟨fieldRows_of_rowOf hregular hall, fun row hrow => ?_⟩
    obtain ⟨i, hi, rfl⟩ := List.getElem_of_mem hrow
    have hitem := hall.get hi (hall.length_eq ▸ hi)
    exact ⟨hitem.live, hitem.parent⟩
  cases hkind : w.kind with
  | create =>
    obtain ⟨rows, hrows, hrun⟩ := createRows_eq (k := 0) fun j item hitem => by
      rw [Nat.zero_add]
      exact haccepted hkind j item hitem
    obtain ⟨hfield, hmine⟩ := hspec hrows
    refine .inr ⟨_, hrun t, fun slug hslug => modify_of_ne t hslug _, ?_, fun p hp => ?_⟩
    · rw [rowsIn_append hmine, if_pos rfl, hfresh hkind]
      exact hfield
    · rw [rowsIn_append hmine, if_neg (Ne.symm hp), List.append_nil]
  | update =>
    simp only [ChildTableService.replaceRows]
    cases hrows : S.replacedRows child w fieldName 0 items with
    | error e => exact .inl ⟨_, rfl⟩
    | ok rows =>
      obtain ⟨hfield, hmine⟩ := hspec hrows
      have hmodify : t.modify child.slug
          (fun old => deleteWhere (textIn "parent_id" [w.parentId]) old ++ rows) =
          (t.modify child.slug (deleteWhere (textIn "parent_id" [w.parentId]))).modify child.slug
            (· ++ rows) := by
        rw [modify_modify]
      refine .inr ⟨_, rfl, fun slug hslug => modify_of_ne t hslug _, ?_, fun p hp => ?_⟩
      · rw [hmodify, rowsIn_append hmine, if_pos rfl, rowsIn_delete, if_pos rfl, List.nil_append]
        exact hfield
      · rw [hmodify, rowsIn_append hmine, if_neg (Ne.symm hp), List.append_nil, rowsIn_delete,
          if_neg (Ne.symm hp)]

/-! ## The fields of a write -/

/-- What a fold adds at its end, at most once for each of its elements. -/
theorem sublist_foldl {α β γ δ : Type} {step : α × List (δ × β) → γ → α × List (δ × β)} {key : γ → δ}
    (hstep : ∀ acc x, (step acc x).2 = acc.2 ∨ ∃ y, (step acc x).2 = acc.2 ++ [(key x, y)])
    (xs : List γ) (a : α) : ((xs.foldl step (a, [])).2.map (·.1)).Sublist (xs.map key) := by
  have hmore (acc : α × List (δ × β)) : ∃ more, (xs.foldl step acc).2 = acc.2 ++ more ∧
      (more.map (·.1)).Sublist (xs.map key) := by
    induction xs generalizing acc with
    | nil => exact ⟨[], (List.append_nil _).symm, .refl _⟩
    | cons x xs ih =>
      obtain ⟨more, hmore, hsub⟩ := ih (step acc x)
      rw [List.foldl_cons, List.map_cons]
      rcases hstep acc x with hsame | ⟨y, hadded⟩
      · exact ⟨more, hsame ▸ hmore, hsub.cons _⟩
      · refine ⟨(key x, y) :: more, ?_, hsub.cons_cons _⟩
        rw [hmore, hadded, List.append_assoc]
        rfl
  obtain ⟨more, hfold, hsub⟩ := hmore (a, [])
  rw [hfold]
  exact hsub

omit [JsNumber N] in
/-- The child rows of a body are those of different table fields. -/
theorem sublist_extractChildData (body : Record N) (fields : List (FieldDefinition N)) :
    ((extractChildData body fields).2.map (·.1)).Sublist
      ((fields.filter fun f => f.type = .table).map (·.name)) := by
  unfold extractChildData
  refine sublist_foldl (fun acc f => ?_) _ _
  simp only
  split
  · exact .inr ⟨_, rfl⟩
  · exact .inl rfl

omit [JsNumber N] in
/-- The names of the table fields are distinct. -/
theorem nodup_tableFields : (S.tableFields.map (·.name)).Nodup :=
  (S.names_nodup S.parent S.parent_mem).sublist (List.filter_sublist.map _)

omit [JsNumber N] in
/-- The fields of a write are different table fields. -/
theorem childItems_spec (w : ParentWrite N) : ((S.childItems w).map (·.1)).Nodup ∧
    ∀ kv ∈ S.childItems w, ∃ f ∈ S.tableFields, f.name = kv.1 := by
  have hsub := sublist_extractChildData w.document S.parent.info.schemaFields
  refine ⟨nodup_tableFields.sublist hsub, fun kv hkv => ?_⟩
  obtain ⟨f, hf, hname⟩ := List.mem_map.1 (hsub.subset (List.mem_map_of_mem hkv))
  exact ⟨f, hf, hname⟩

omit [JsNumber N] in
/-- The collection that `getChildMap` has for a table field. -/
theorem childTarget_eq {f : FieldDefinition N} (hf : f ∈ S.tableFields) :
    childTarget S.all S.parent f.name =
      f.relatedCollection.bind fun slug => S.all.find? (·.slug = slug) := by
  obtain ⟨hmem, htype⟩ := List.mem_filter.1 hf
  have htable : f.type = .table := by simpa using htype
  have hnames := S.names_nodup S.parent S.parent_mem
  have hfind : (S.parent.info.schemaFields.reverse.find?
      fun g => g.type = .table && g.name = f.name) = some f := by
    cases hfound : S.parent.info.schemaFields.reverse.find?
        fun g => g.type = .table && g.name = f.name with
    | none =>
      have hno := List.find?_eq_none.1 hfound f (List.mem_reverse.2 hmem)
      simp [htable] at hno
    | some g =>
      have hg := List.find?_some hfound
      have hname : g.name = f.name := by
        simp only [Bool.and_eq_true, decide_eq_true_eq] at hg
        exact hg.2
      rw [List.inj_on_of_nodup_map hnames (List.mem_reverse.1 (List.mem_of_find?_eq_some hfound)) hmem
        hname]
  unfold childTarget childSlug
  rw [hfind, Option.bind_some]
  cases f.relatedCollection with
  | none => rfl
  | some slug =>
    rw [Option.filter_some]
    split
    · rfl
    · rename_i hno
      rw [Option.bind_none, Option.bind_some]
      refine (List.find?_eq_none.2 fun c hc hslug => hno ?_).symm
      exact List.any_eq_true.2 ⟨c, hc, hslug⟩

/-! ## The invariant -/

variable (S) in
/-- The child collection of a table field. -/
def childOf (f : FieldDefinition N) : Option (EntitySchema N) :=
  f.relatedCollection.bind fun slug => S.all.find? (·.slug = slug)

variable (S) in
/-- The tables have, for each table field and each parent, the rows that were written last for them. -/
structure Rows (s : ChildState N) : Prop where
  rows : ∀ f ∈ S.tableFields, ∀ child, S.childOf f = some child → ∀ p,
    S.FieldRows child (rowsIn s.tables child.slug p) (s.written p f.name)
  targetless : ∀ f ∈ S.tableFields, S.childOf f = none → ∀ p, s.written p f.name = []
  fresh : ∀ p, p ∉ s.parents → ∀ fieldName, s.written p fieldName = []

variable {s s' : ChildState N} {f g : FieldDefinition N} {kvs : List (String × List (JsVal N))}

omit [JsNumber N] in
/-- The collection of a table field is the one it names. -/
theorem slug_of_childOf (h : S.childOf f = some child) : f.relatedCollection = some child.slug := by
  obtain ⟨slug, hslug, hfound⟩ := Option.bind_eq_some_iff.1 h
  have hsame : child.slug = slug := by simpa using List.find?_some hfound
  rw [hsame]
  exact hslug

/-- What is read of the rows that were written last. -/
theorem Rows.roundTrip (h : S.Rows s) : S.RoundTrip s := by
  intro p _ f hf
  cases hchild : S.childOf f with
  | some child => exact resolveChildren_eq hchild (h.rows f hf child hchild p)
  | none =>
    unfold ChildTableService.resolveChildren
    rw [h.targetless f hf hchild p, show (f.relatedCollection.bind _) = none from hchild]
    exact .nil

/-- There are no rows for items that have not been written. -/
theorem FieldRows.eq_nil (h : S.FieldRows child rows []) : rows = [] := by
  cases h.shows
  rfl

omit [JsNumber N] in
/-- The items that were written for a field. -/
theorem written_record (s : ChildState N) (parentId fieldName : String) (items : List (JsVal N))
    (p name : String) : (s.record parentId fieldName items).written p name =
      if p = parentId ∧ name = fieldName then items else s.written p name := by
  unfold ChildState.record
  by_cases hp : p = parentId
  · subst hp
    simp only [Function.update_self, true_and]
    by_cases hname : name = fieldName
    · subst hname
      rw [Function.update_self, if_pos rfl]
    · rw [Function.update_of_ne hname, if_neg hname]
  · rw [if_neg fun h => hp h.1]
    show Function.update s.written parentId _ p name = _
    rw [Function.update_of_ne hp]

/-- One field of a write keeps the invariant, and the rows of other fields and other parents. -/
theorem writeItems_spec (hsep : S.Separate) (h : S.Rows s) (hparent : w.parentId ∈ s.parents)
    (hf : f ∈ S.tableFields) (hregular : S.RegularField w f.name items)
    (hunwritten : w.kind = .create → s.written w.parentId f.name = []) :
    S.Rows (S.writeItems w f.name items s).2 ∧
      (S.writeItems w f.name items s).2.parents = s.parents ∧
      (∀ g ∈ S.tableFields, g.name ≠ f.name → ∀ p,
        (S.writeItems w f.name items s).2.written p g.name = s.written p g.name) ∧
      ∀ g ∈ S.tableFields, ∀ child, S.childOf g = some child → ∀ p,
        p ≠ w.parentId ∨ g.name ≠ f.name →
        rowsIn (S.writeItems w f.name items s).2.tables child.slug p = rowsIn s.tables child.slug p := by
  obtain ⟨child, htarget, -⟩ := hregular.target
  have hchild : S.childOf f = some child := (childTarget_eq hf).symm.trans htarget
  rcases writeField_cases hregular htarget s.tables fun hcreate =>
      (hunwritten hcreate ▸ h.rows f hf child hchild w.parentId).eq_nil with
    ⟨e, herror⟩ | ⟨t, hok, hothers, hrows, hparents⟩
  · have hsame : (S.writeItems w f.name items s).2 = s := by
      unfold writeItems
      rw [herror]
    rw [hsame]
    exact ⟨h, rfl, fun _ _ _ _ => rfl, fun _ _ _ _ _ _ => rfl⟩
  · have hafter : (S.writeItems w f.name items s).2 =
        ({ s with tables := t } : ChildState N).record w.parentId f.name items := by
      unfold writeItems
      rw [hok]
    have hother (g : FieldDefinition N) (hg : g ∈ S.tableFields) (child' : EntitySchema N)
        (hchild' : S.childOf g = some child') (hne : g.name ≠ f.name) (p : String) :
        rowsIn t child'.slug p = rowsIn s.tables child'.slug p := by
      have hslug : child'.slug ≠ child.slug := fun he => hne
        (hsep.distinct g hg f hf _ (slug_of_childOf hchild') (he ▸ slug_of_childOf hchild))
      unfold rowsIn
      rw [hothers _ hslug]
    rw [hafter]
    refine ⟨⟨fun g hg child' hchild' p => ?_, fun g hg hnone p => ?_, fun p hp name => ?_⟩, rfl,
      fun g hg hne p => ?_, fun g hg child' hchild' p hp => ?_⟩
    · rw [written_record]
      by_cases hname : g.name = f.name
      · have hfield : g = f := List.inj_on_of_nodup_map nodup_tableFields hg hf hname
        subst hfield
        cases hchild.symm.trans hchild'
        by_cases hp : p = w.parentId
        · subst hp
          rw [if_pos ⟨rfl, rfl⟩]
          exact hrows
        · rw [if_neg fun hand => hp hand.1]
          show S.FieldRows child (rowsIn t child.slug p) _
          rw [hparents p hp]
          exact h.rows g hg child hchild p
      · rw [if_neg fun hand => hname hand.2]
        show S.FieldRows child' (rowsIn t child'.slug p) _
        rw [hother g hg child' hchild' hname]
        exact h.rows g hg child' hchild' p
    · have hname : g.name ≠ f.name := by
        intro hname
        cases List.inj_on_of_nodup_map nodup_tableFields hg hf hname
        rw [hchild] at hnone
        cases hnone
      rw [written_record, if_neg fun hand => hname hand.2]
      exact h.targetless g hg hnone p
    · have hother : p ≠ w.parentId := by
        rintro rfl
        exact hp hparent
      rw [written_record, if_neg fun hand => hother hand.1]
      exact h.fresh p hp name
    · rw [written_record, if_neg fun hand => hne hand.2]
    · show rowsIn t child'.slug p = _
      by_cases hname : g.name = f.name
      · cases List.inj_on_of_nodup_map nodup_tableFields hg hf hname
        cases hchild.symm.trans hchild'
        exact hparents p (hp.resolve_right fun hne => hne rfl)
      · exact hother g hg child' hchild' hname p

/-- The fields of a write keep the invariant, and the rows of other fields and other parents. -/
theorem writeFields_spec (hsep : S.Separate) (h : S.Rows s) (hparent : w.parentId ∈ s.parents)
    (hnames : (kvs.map (·.1)).Nodup) (hfields : ∀ kv ∈ kvs, ∃ f ∈ S.tableFields, f.name = kv.1)
    (hregular : ∀ kv ∈ kvs, S.RegularField w kv.1 kv.2)
    (hunwritten : w.kind = .create → ∀ kv ∈ kvs, s.written w.parentId kv.1 = []) :
    S.Rows (S.writeFields w kvs s).2 ∧
      ∀ g ∈ S.tableFields, ∀ child, S.childOf g = some child → ∀ p,
        p ≠ w.parentId ∨ g.name ∉ kvs.map (·.1) →
        rowsIn (S.writeFields w kvs s).2.tables child.slug p = rowsIn s.tables child.slug p := by
  induction kvs generalizing s with
  | nil => exact ⟨h, fun _ _ _ _ _ _ => rfl⟩
  | cons kv kvs ih =>
    obtain ⟨name, items⟩ := kv
    obtain ⟨f, hf, rfl⟩ := hfields _ List.mem_cons_self
    rw [List.map_cons, List.nodup_cons] at hnames
    obtain ⟨hrows, hparents, hwritten, hframe⟩ := writeItems_spec hsep h hparent hf
      (hregular _ List.mem_cons_self) fun hcreate => hunwritten hcreate _ List.mem_cons_self
    rw [writeFields, StateExcept.bind_apply]
    cases hrun : S.writeItems w f.name items s with
    | mk result s₁ =>
    rw [hrun] at hrows hparents hwritten hframe
    have hstop (g : FieldDefinition N) (hg : g ∈ S.tableFields) (child : EntitySchema N)
        (hchild : S.childOf g = some child) (p : String)
        (hp : p ≠ w.parentId ∨ g.name ∉ (f.name :: kvs.map (·.1))) :
        rowsIn s₁.tables child.slug p = rowsIn s.tables child.slug p :=
      hframe g hg child hchild p (hp.imp_right fun hno he => hno (he ▸ List.mem_cons_self))
    cases result with
    | error e => exact ⟨hrows, fun g hg child hchild p hp => hstop g hg child hchild p hp⟩
    | ok _ =>
      obtain ⟨hrest, hrestFrame⟩ := ih hrows (hparents ▸ hparent) hnames.2
        (fun kv hkv => hfields kv (List.mem_cons_of_mem _ hkv))
        (fun kv hkv => hregular kv (List.mem_cons_of_mem _ hkv)) fun hcreate kv hkv => by
          obtain ⟨g, hg, hname⟩ := hfields kv (List.mem_cons_of_mem _ hkv)
          have hmem : kv.1 ∈ kvs.map (·.1) := List.mem_map_of_mem hkv
          have hne : g.name ≠ f.name := fun he => hnames.1 (he ▸ hname ▸ hmem)
          rw [← hname, hwritten g hg hne, hname]
          exact hunwritten hcreate kv (List.mem_cons_of_mem _ hkv)
      refine ⟨hrest, fun g hg child hchild p hp => ?_⟩
      rw [hrestFrame g hg child hchild p
          (hp.imp_right fun hno hmem => hno (List.mem_cons_of_mem _ hmem)),
        hstop g hg child hchild p hp]

/-- The parent's own row is no row of a child collection. -/
theorem Rows.writeParent (hsep : S.Separate) (h : S.Rows s) (w : ParentWrite N) :
    S.Rows (S.writeParent s w) ∧ ∀ g ∈ S.tableFields, ∀ child, S.childOf g = some child → ∀ p,
      rowsIn (S.writeParent s w).tables child.slug p = rowsIn s.tables child.slug p := by
  have hframe : ∀ g ∈ S.tableFields, ∀ child, S.childOf g = some child → ∀ p,
      rowsIn (S.writeParent s w).tables child.slug p = rowsIn s.tables child.slug p := by
    intro g hg child hchild p
    have hother : child.slug ≠ S.parent.slug := fun he =>
      hsep.own g hg (he ▸ slug_of_childOf hchild)
    unfold rowsIn ChildTableSystem.writeParent
    cases w.kind with
    | create => simp only [modify_of_ne _ hother]
    | update => simp only [modify_of_ne _ hother]
  have hwritten : (S.writeParent s w).written = s.written := by
    unfold ChildTableSystem.writeParent
    cases w.kind <;> rfl
  refine ⟨⟨fun f hf child hchild p => ?_, fun f hf hnone p => ?_, fun p hp name => ?_⟩, hframe⟩
  · rw [hframe f hf child hchild p, hwritten]
    exact h.rows f hf child hchild p
  · rw [hwritten]
    exact h.targetless f hf hnone p
  · rw [hwritten]
    refine h.fresh p (fun hmem => hp ?_) name
    unfold ChildTableSystem.writeParent
    cases w.kind with
    | create => exact List.mem_cons_of_mem _ hmem
    | update => exact hmem

/-! ## Every write -/

/-- The parent of a write is one that there is, and has no items yet if it is new. -/
theorem writeParent_of_step (h : S.Rows s) (hstep : S.step s w = some s') :
    w.parentId ∈ (S.writeParent s w).parents ∧
      (w.kind = .create → ∀ name, (S.writeParent s w).written w.parentId name = []) ∧
      s' = (S.writeFields w (S.childItems w) (S.writeParent s w)).2 := by
  unfold ChildTableSystem.step at hstep
  split at hstep
  · cases hstep
  rename_i hknown
  cases hstep
  unfold ChildTableSystem.writeParent
  cases hkind : w.kind with
  | create =>
    refine ⟨List.mem_cons_self, fun _ => h.fresh w.parentId fun hmem => ?_, rfl⟩
    exact hknown ⟨fun _ => hmem, fun _ => hkind⟩
  | update =>
    refine ⟨?_, ?_, rfl⟩
    · by_contra hno
      refine hknown ⟨?_, fun hmem => (hno hmem).elim⟩
      rw [hkind]
      intro hcreate
      cases hcreate
    · intro hcreate
      cases hcreate

/-- A regular write keeps the invariant, and leaves the rows of others. -/
theorem Rows.step (h : S.Rows s) (hregular : S.Regular w) (hstep : S.step s w = some s') :
    S.Rows s' ∧ S.Frame w s s' := by
  obtain ⟨hparentRows, hparentFrame⟩ := h.writeParent hregular.separate w
  obtain ⟨hnames, hfields⟩ := childItems_spec (S := S) w
  obtain ⟨hparent, hunwritten, rfl⟩ := writeParent_of_step h hstep
  obtain ⟨hrows, hframe⟩ := writeFields_spec hregular.separate hparentRows hparent hnames hfields
    hregular.fields fun hcreate kv _ => hunwritten hcreate kv.1
  refine ⟨hrows, fun f hf p hp => ?_⟩
  cases hchild : S.childOf f with
  | none =>
    unfold ChildTableService.resolveChildren
    rw [show (f.relatedCollection.bind _) = none from hchild]
  | some child =>
    have hsame := (hframe f hf child hchild p hp).trans (hparentFrame f hf child hchild p)
    unfold ChildTableService.resolveChildren ChildTableService.rowsOf
    rw [show (f.relatedCollection.bind _) = some child from hchild]
    simp only [rowsIn] at hsame
    simp only [hsame]

/-- In the runs whose writes are regular every parent is read with the items that were written last for
each field, and a regular write leaves the rows of other parents and of the fields it has no items for. -/
theorem roundTrip_of_regular (S : ChildTableSystem N) {s : ChildState N}
    (h : S.system.Reach (fun _ w => S.Regular w) s) :
    S.RoundTrip s ∧ ∀ w s', S.Regular w → S.step s w = some s' → S.Frame w s s' := by
  have hrows : S.Rows s := h.invariant
    (fun s hs => by
      cases hs
      exact ⟨fun _ _ _ _ _ => ⟨.nil, .nil, fun _ _ => Nat.zero_le _⟩, fun _ _ _ _ => rfl,
        fun _ _ _ => rfl⟩)
    fun s w s' hs hregular hstep => (hs.step hregular hstep).1
  exact ⟨hrows.roundTrip, fun w s' hregular hstep => (hrows.step hregular hstep).2⟩

end ChildTableSystem

end

/-! ## Two fields of an order -/

/-- A collection of lines with a label. -/
def orderLines (slug : String) : EntitySchema (Option Int) where
  slug := slug
  name := "Lines"
  info := {
    tableName := "cms_" ++ slug
    schemaFields := [{ name := "label", type := .text }]
    fields_user := by decide }

/-- Orders with items and extras. -/
def linedOrders (extras : String) : EntitySchema (Option Int) where
  slug := "orders"
  name := "Orders"
  info := {
    tableName := "cms_orders"
    schemaFields := [{ name := "items", type := .table, relatedCollection := some "lines" },
      { name := "extras", type := .table, relatedCollection := some extras }]
    fields_user f hf := by
      simp only [List.mem_cons, List.not_mem_nil, or_false] at hf
      obtain rfl | rfl := hf
      · exact of_decide_eq_true rfl
      · exact of_decide_eq_true rfl }

/-- The items of an order are lines, and its extras are those of another collection or are lines too. -/
def orderTables (extras : String) : ChildTableSystem (Option Int) where
  all := [linedOrders extras, orderLines "lines", orderLines "extras"]
  slugs_nodup := of_decide_eq_true rfl
  names_nodup c hc := by
    simp only [List.mem_cons, List.not_mem_nil, or_false] at hc
    obtain rfl | rfl | rfl := hc
    · exact of_decide_eq_true rfl
    · exact of_decide_eq_true rfl
    · exact of_decide_eq_true rfl
  storage _ := plainStorage _
  blank _ := [("id", .null), ("parent_id", .null), ("label", .null), ("_meta", .null),
    ("doc_status", .null), ("created_at", .null), ("updated_at", .null), ("deleted_at", .null)]
  parseJson _ := none
  parent_text _ _ := rfl
  blank_live _ := rfl
  parent := linedOrders extras
  parent_mem := List.mem_cons_self
  limit := some 100
  limit_ne_zero h := by cases h

/-- A line. -/
def lineItem (label : String) : JsVal (Option Int) := .obj [("label", .str label)]

/-- A new order with two items and one extra. -/
def newOrder : ParentWrite (Option Int) where
  kind := .create
  parentId := "o1"
  document := [("items", .arr [lineItem "a", lineItem "b"]), ("extras", .arr [lineItem "c"])]
  columns := []
  childId fieldName k := fieldName ++ String.ofList (List.replicate k '1')
  now := ⟨"t6", by decide⟩

/-- After the order has been created, on empty tables. -/
def orderCreated (extras : String) : Option (ChildState (Option Int)) :=
  (orderTables extras).step ⟨fun _ => [], [], fun _ _ => []⟩ newOrder

/-- The order of the two fields that share their lines is read with three items. -/
theorem not_forall_roundTrip :
    ¬ ∀ (S : ChildTableSystem (Option Int)) (s : ChildState (Option Int)), S.system.Reachable s →
      S.RoundTrip s ∧ ∀ w s', S.step s w = some s' → S.Frame w s s' := by
  intro h
  have hinit : (orderTables "lines").system.Reachable ⟨fun _ => [], [], fun _ _ => []⟩ := .init rfl
  have hstep : (orderTables "lines").system.step ⟨fun _ => [], [], fun _ _ => []⟩ newOrder =
      some ((orderCreated "lines").get rfl) := (Option.some_get _).symm
  have hread := (h _ _ (hinit.step trivial hstep)).1 "o1" List.mem_cons_self _ List.mem_cons_self
  have hlength := hread.length_eq
  exact absurd hlength (by decide)

/-- A line keeps its label. -/
theorem kept_lineItem (slug label : String) :
    (orderTables "extras").Kept (orderLines slug) (lineItem label) := by
  refine ⟨_, rfl, List.nodup_singleton _, fun kv hkv => ?_⟩
  cases List.mem_singleton.1 hkv
  refine ⟨rfl, of_decide_eq_true rfl, of_decide_eq_true rfl, fun value hvalue => ?_⟩
  cases hvalue
  rfl

/-- The items and the extras of the order are written whole where they lie in different collections. -/
theorem regular_newOrder : (orderTables "extras").Regular newOrder := by
  have hlines {slug : String} {items : List (JsVal (Option Int))}
      (hitems : ∀ item ∈ items, ∃ label, item = lineItem label) :
      ∀ item ∈ items, (orderTables "extras").Kept (orderLines slug) item := by
    intro item hitem
    obtain ⟨label, rfl⟩ := hitems item hitem
    exact kept_lineItem slug label
  have hcap {n : Nat} (hn : n ≤ 2) (limit : Nat) (hlimit : (orderTables "extras").limit = some limit) :
      n ≤ limit := by
    cases hlimit
    omega
  refine ⟨⟨fun f hf => ?_, fun f hf g hg slug hfs hgs => ?_⟩, fun kv hkv => ?_⟩
  · have hfields : f ∈ (linedOrders "extras").info.schemaFields := (List.mem_filter.1 hf).1
    simp only [linedOrders, List.mem_cons, List.not_mem_nil, or_false] at hfields
    obtain rfl | rfl := hfields <;> decide
  · have hf' : f ∈ (linedOrders "extras").info.schemaFields := (List.mem_filter.1 hf).1
    have hg' : g ∈ (linedOrders "extras").info.schemaFields := (List.mem_filter.1 hg).1
    simp only [linedOrders, List.mem_cons, List.not_mem_nil, or_false] at hf' hg'
    obtain rfl | rfl := hf' <;> obtain rfl | rfl := hg' <;> cases hfs
    · rfl
    · exact absurd hgs (by decide)
    · exact absurd hgs (by decide)
    · rfl
  · have hitems : kv ∈ [("items", [lineItem "a", lineItem "b"]), ("extras", [lineItem "c"])] := hkv
    simp only [List.mem_cons, List.not_mem_nil, or_false] at hitems
    obtain rfl | rfl := hitems
    · refine ⟨⟨orderLines "lines", rfl, hlines ?_, fun _ k item hitem => ?_⟩, hcap (by decide),
        fun i j hij hj => ?_⟩
      · simp
      · obtain _ | _ | k := k <;> cases hitem <;> exact ⟨_, rfl⟩
      · obtain ⟨rfl, rfl⟩ : i = 0 ∧ j = 1 := by
          simp only [List.length_cons, List.length_nil] at hj
          omega
        decide
    · refine ⟨⟨orderLines "extras", rfl, hlines ?_, fun _ k item hitem => ?_⟩, hcap (by decide),
        fun i j hij hj => ?_⟩
      · simp
      · obtain _ | k := k <;> cases hitem
        exact ⟨_, rfl⟩
      · simp only [List.length_cons, List.length_nil] at hj
        omega

/-- The order whose extras have a collection of their own is read as it was written. -/
theorem roundTrip_of_regular_order : ∃ s,
    (orderTables "extras").system.Reach (fun _ w => (orderTables "extras").Regular w) s ∧
      s.parents = ["o1"] ∧ s.written "o1" "items" = [lineItem "a", lineItem "b"] ∧
      (orderTables "extras").RoundTrip s ∧ ∀ w s', (orderTables "extras").Regular w →
        (orderTables "extras").step s w = some s' → (orderTables "extras").Frame w s s' := by
  have hinit : (orderTables "extras").system.Reach (fun _ w => (orderTables "extras").Regular w)
      ⟨fun _ => [], [], fun _ _ => []⟩ := .init rfl
  have hstep : (orderTables "extras").system.step ⟨fun _ => [], [], fun _ _ => []⟩ newOrder =
      some ((orderCreated "extras").get rfl) := (Option.some_get _).symm
  have hreach := hinit.step regular_newOrder hstep
  exact ⟨_, hreach, rfl, rfl, ChildTableSystem.roundTrip_of_regular _ hreach⟩

end HeadlessErp
