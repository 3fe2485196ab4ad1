import HeadlessErp.Report.Pivot
import Mathlib.Algebra.Ring.Int.Defs
import Mathlib.Order.Defs.LinearOrder
import Mathlib.Data.Int.Order.Basic

/-!
# Conservation of the pivot

What a pivot says of its table (`Conserves`): each row tuple has one row, each column tuple has one
column for each measure, a cell is the measure over the rows with its two tuples, and counts and sums
add up. The pivot keys rows and columns by joined texts and has the cells and the dimensions in one
object, so it says this just when the keys stay apart (`Separated`).
-/

namespace HeadlessErp

variable {R N : Type} [AddCommMonoidWithOne N] [LinearOrder N]

/-! ## Assignments -/

section
variable {N : Type} {row : ReportRow N}

/-- Assignments are settings, but for `__proto__`. -/
theorem assignAll_eq (row : ReportRow N) (entries : List (String × ReportValue N)) :
    assignAll row entries = row.setAll (entries.filter (·.1 ≠ "__proto__")) := by
  induction entries generalizing row with
  | nil => rfl
  | cons e entries ih =>
    rw [assignAll, List.foldl_cons, ← assignAll, ih, List.filter_cons]
    by_cases h : e.1 = "__proto__"
    · rw [assign, if_pos h, if_neg (by simpa using h)]
    · rw [assign, if_neg h, if_pos (by simpa using h)]
      rfl

/-- A row never has `__proto__`. -/
theorem get?_assignAll_proto (h : row.get? "__proto__" = none)
    (entries : List (String × ReportValue N)) :
    (assignAll row entries).get? "__proto__" = none := by
  rw [assignAll_eq, JsMap.get?_setAll_of_forall_ne, h]
  intro e he
  simpa using (List.mem_filter.1 he).2

theorem get?_assign_of_ne {k key : String} (h : k ≠ key) (v : ReportValue N) :
    (assign row key v).get? k = row.get? k := by
  unfold assign
  split
  · rfl
  · rw [JsMap.get?_set, if_neg h]

/-- A key that the entries leave out keeps its value. -/
theorem get?_assignAll_of_forall_ne {entries : List (String × ReportValue N)} {key : String}
    (h : ∀ e ∈ entries, e.1 ≠ key) : (assignAll row entries).get? key = row.get? key := by
  rw [assignAll_eq]
  exact JsMap.get?_setAll_of_forall_ne fun e he => h e (List.mem_filter.1 he).1

/-- A key to which the entries give one value has this value. -/
theorem get?_assignAll {entries : List (String × ReportValue N)} {key : String} {v : ReportValue N}
    (hkey : key ≠ "__proto__") (hmem : (key, v) ∈ entries)
    (hsame : ∀ e ∈ entries, e.1 = key → e.2 = v) : (assignAll row entries).get? key = some v := by
  rw [assignAll_eq]
  refine JsMap.get?_setAll (List.mem_filter.2 ⟨hmem, by simpa using hkey⟩) fun e he => ?_
  exact hsame e (List.mem_filter.1 he).1

theorem assignAll_append (row : ReportRow N) (entries entries' : List (String × ReportValue N)) :
    assignAll row (entries ++ entries') = assignAll (assignAll row entries) entries' :=
  List.foldl_append

/-- Assignments group after group are the assignments of all groups. -/
theorem foldl_assignAll {β : Type} (cells : β → List (String × ReportValue N)) (l : List β)
    (row : ReportRow N) :
    l.foldl (fun row b => assignAll row (cells b)) row = assignAll row (l.flatMap cells) := by
  induction l generalizing row with
  | nil => rfl
  | cons b l ih => rw [List.foldl_cons, ih, List.flatMap_cons, assignAll_append]

end

/-! ## What the pivot is meant to say -/

namespace ReportV2Request
variable (P : ReportPlatform N) (req : ReportV2Request R N) (table : List R)

/-- A tuple of row values that some row has. -/
def OccursRow (t : List (ReportValue N)) : Prop := ∃ r ∈ table, dimValues req.rowDimensions r = t

/-- A tuple of column values that some row has. -/
def OccursColumn (c : List (ReportValue N)) : Prop :=
  ∃ r ∈ table, dimValues req.columnDimensions r = c

/-- A column tuple that occurs, and the name of a measure. -/
def IsColumn (p : List (ReportValue N) × String) : Prop :=
  req.OccursColumn table p.1 ∧ ∃ m ∈ req.measures, m.asName = p.2

/-- The text of a tuple. -/
def tupleText (values : List (ReportValue N)) : String :=
  "|".intercalate (values.map (·.keyText P))

/-- The key of a column. -/
def columnKey (p : List (ReportValue N) × String) : String := req.cellKey (tupleText P p.1) p.2

/-- The row shows a row tuple: its dimensions, and the measures over each group that is not empty. -/
structure ShowsRow (t : List (ReportValue N)) (row : ReportRow N) : Prop where
  dims : ∀ d ∈ req.rowDimensions, ∀ r ∈ table, dimValues req.rowDimensions r = t →
    row.get? d.key = some (d.value r)
  cells : ∀ c, req.OccursColumn table c → ∀ m ∈ req.measures,
    row.get? (req.columnKey P (c, m.asName)) =
      if req.groupRows table (t, c) = [] then none
      else some (m.aggregate P (req.groupRows table (t, c)))

/-- The rows and columns of a pivot conserve the table. -/
structure Conserves (rows : List (ReportRow N)) (columns : List String) : Prop where
  eachRow : ∃ tuples, Enumerates tuples (req.OccursRow table) ∧
    List.Forall₂ (req.ShowsRow P table) tuples rows
  eachColumn : ∃ pairs, Enumerates pairs (req.IsColumn table) ∧
    columns = pairs.map (req.columnKey P) ∧ columns.Nodup
  total : ∀ m ∈ req.measures, m.op = .count ∨ m.op = .sum →
    ∀ tuples, Enumerates tuples (req.OccursColumn table) →
      (tuples.map fun c => columnTotal rows (req.columnKey P (c, m.asName))).sum =
        (m.aggregate P table).amount

/-- The columns of the result that have one name have one value in each group. -/
def NamesAgree : Prop :=
  ∀ r ∈ table, ∀ e ∈ req.rawColumns P table (req.groupKey r),
    ∀ e' ∈ req.rawColumns P table (req.groupKey r), e.1 = e'.1 → e.2 = e'.2

/-- The keys of the pivot stay apart: two row tuples have two texts, two columns have two keys, a
column with the key of a row dimension repeats its values, and no key is `__proto__`. -/
structure Separated : Prop where
  rowTexts : ∀ t t', req.OccursRow table t → req.OccursRow table t' →
    tupleText P t = tupleText P t' → t = t'
  columnKeys : ∀ p p', req.IsColumn table p → req.IsColumn table p' →
    req.columnKey P p = req.columnKey P p' → p = p'
  dims : ∀ c, req.OccursColumn table c → ∀ m ∈ req.measures, ∀ d ∈ req.rowDimensions,
    req.columnKey P (c, m.asName) = d.key → ∀ r ∈ table,
      req.groupRows table (dimValues req.rowDimensions r, c) ≠ [] ∧
        m.aggregate P (req.groupRows table (dimValues req.rowDimensions r, c)) = d.value r
  dimNames : table ≠ [] → ∀ d ∈ req.rowDimensions, d.key ≠ "__proto__"
  columnNames : ∀ p, req.IsColumn table p → req.columnKey P p ≠ "__proto__"

end ReportV2Request

/-! ## Raw rows -/

namespace ReportV2Request
variable {P : ReportPlatform N} {req : ReportV2Request R N} {table : List R}

omit [AddCommMonoidWithOne N] [LinearOrder N] in
theorem zip_dimValues (dims : List (ResolvedDim R N)) (r : R) :
    (dims.map (·.asName)).zip (dimValues dims r) = dims.map fun d => (d.asName, d.value r) := by
  rw [dimValues, List.zip_map']

/-- The columns of the group of a row. -/
theorem rawColumns_groupKey (r : R) :
    req.rawColumns P table (req.groupKey r) =
      req.rowDimensions.map (fun d => (d.asName, d.value r)) ++
        req.columnDimensions.map (fun d => (d.asName, d.value r)) ++
        req.measures.map fun m =>
          (m.asName, m.aggregate P (req.groupRows table (req.groupKey r))) := by
  rw [rawColumns, groupKey, zip_dimValues, zip_dimValues]

section
variable (hagree : req.NamesAgree P table) {r : R} (hr : r ∈ table)
include hagree hr

/-- A raw row has the value of each of its columns. -/
theorem get?_rawRow {name : String} {v : ReportValue N}
    (hmem : (name, v) ∈ req.rawColumns P table (req.groupKey r)) :
    ((req.rawRow P table (req.groupKey r)).get? name).getD .null = v := by
  rw [rawRow, JsMap.get?_setAll hmem fun e he heq => hagree r hr e he _ hmem heq]
  rfl

theorem get?_rawRow_dim {d : ResolvedDim R N}
    (hd : d ∈ req.rowDimensions ∨ d ∈ req.columnDimensions) :
    ((req.rawRow P table (req.groupKey r)).get? d.asName).getD .null = d.value r := by
  refine get?_rawRow hagree hr ?_
  rw [rawColumns_groupKey, List.append_assoc]
  obtain hd | hd := hd
  · exact List.mem_append_left _ (List.mem_map.2 ⟨d, hd, rfl⟩)
  · exact List.mem_append_right _ (List.mem_append_left _ (List.mem_map.2 ⟨d, hd, rfl⟩))

theorem get?_rawRow_measure {m : ReportV2Measure R N} (hm : m ∈ req.measures) :
    ((req.rawRow P table (req.groupKey r)).get? m.asName).getD .null =
      m.aggregate P (req.groupRows table (req.groupKey r)) := by
  refine get?_rawRow hagree hr ?_
  rw [rawColumns_groupKey]
  exact List.mem_append_right _ (List.mem_map.2 ⟨m, hm, rfl⟩)

theorem joinedKey_row :
    joinedKey P req.rowDimensions (req.rawRow P table (req.groupKey r)) =
      tupleText P (dimValues req.rowDimensions r) := by
  rw [joinedKey, tupleText, dimValues, List.map_map]
  refine congrArg _ (List.map_congr_left fun d hd => ?_)
  rw [get?_rawRow_dim hagree hr (.inl hd)]
  rfl

theorem joinedKey_column :
    joinedKey P req.columnDimensions (req.rawRow P table (req.groupKey r)) =
      tupleText P (dimValues req.columnDimensions r) := by
  rw [joinedKey, tupleText, dimValues, List.map_map]
  refine congrArg _ (List.map_congr_left fun d hd => ?_)
  rw [get?_rawRow_dim hagree hr (.inr hd)]
  rfl

theorem dimEntries_eq :
    req.dimEntries (req.rawRow P table (req.groupKey r)) =
      req.rowDimensions.map fun d => (d.key, d.value r) := by
  refine List.map_congr_left fun d hd => ?_
  rw [get?_rawRow_dim hagree hr (.inl hd)]

theorem cellEntries_eq :
    req.cellEntries P (req.rawRow P table (req.groupKey r)) =
      req.measures.map fun m =>
        (req.columnKey P (dimValues req.columnDimensions r, m.asName),
          m.aggregate P (req.groupRows table (req.groupKey r))) := by
  refine List.map_congr_left fun m hm => ?_
  rw [get?_rawRow_measure hagree hr hm, joinedKey_column hagree hr]
  rfl

end

/-! ## The rows and columns of the pivot -/

/-- The raw rows. -/
def rawRows (P : ReportPlatform N) (req : ReportV2Request R N) {table : List R}
    (groups : Groups table req.groupKey) : List (ReportRow N) :=
  groups.keys.map (req.rawRow P table)

/-- The raw rows that the pivot puts into one row. -/
def mergedRaws (P : ReportPlatform N) (req : ReportV2Request R N) {table : List R}
    (groups : Groups table req.groupKey) (key : String) : List (ReportRow N) :=
  (req.rawRows P groups).filter (joinedKey P req.rowDimensions · = key)

variable {groups : Groups table req.groupKey}

theorem mem_rawRows {raw : ReportRow N} :
    raw ∈ req.rawRows P groups ↔ ∃ r ∈ table, req.rawRow P table (req.groupKey r) = raw := by
  rw [rawRows, List.mem_map]
  constructor
  · rintro ⟨g, hg, rfl⟩
    obtain ⟨r, hr, rfl⟩ := (groups.enumerates.mem g).1 hg
    exact ⟨r, hr, rfl⟩
  · rintro ⟨r, hr, rfl⟩
    exact ⟨_, (groups.enumerates.mem _).2 ⟨r, hr, rfl⟩, rfl⟩

omit [AddCommMonoidWithOne N] [LinearOrder N] in
/-- The pivot transform fills its rows and its columns side by side. -/
theorem foldl_pivotStep (raws : List (ReportRow N)) (s : PivotState N) :
    raws.foldl (req.pivotStep P) s =
      { rowMap := JsMap.fill (joinedKey P req.rowDimensions)
          (fun raw => assignAll .empty (req.dimEntries raw))
          (fun row raw => assignAll row (req.cellEntries P raw)) s.rowMap raws
        colSet := (raws.flatMap (req.cellEntries P)).foldl (fun seen e => seen.add e.1)
          s.colSet } := by
  induction raws generalizing s with
  | nil => rfl
  | cons raw raws ih =>
    rw [List.foldl_cons, ih, List.flatMap_cons, List.foldl_append]
    rfl

omit [AddCommMonoidWithOne N] [LinearOrder N] in
theorem mem_foldl_add (entries : List (String × ReportValue N)) (seen : JsSet String)
    (k : String) :
    k ∈ entries.foldl (fun seen e => seen.add e.1) seen ↔ k ∈ seen ∨ ∃ e ∈ entries, e.1 = k := by
  induction entries generalizing seen with
  | nil => simp
  | cons e entries ih =>
    rw [List.foldl_cons, ih, JsSet.mem_add, List.exists_mem_cons_iff, or_assoc, or_left_comm,
      eq_comm (a := k)]

section
variable (hagree : req.NamesAgree P table)
include hagree

/-- The row keys of the pivot are the texts of the row tuples. -/
theorem exists_joinedKey_iff (key : String) :
    (∃ raw ∈ req.rawRows P groups, joinedKey P req.rowDimensions raw = key) ↔
      ∃ t, req.OccursRow table t ∧ tupleText P t = key := by
  constructor
  · rintro ⟨raw, hraw, rfl⟩
    obtain ⟨r, hr, rfl⟩ := mem_rawRows.1 hraw
    exact ⟨_, ⟨r, hr, rfl⟩, (joinedKey_row hagree hr).symm⟩
  · rintro ⟨t, ⟨r, hr, rfl⟩, rfl⟩
    exact ⟨_, mem_rawRows.2 ⟨r, hr, rfl⟩, joinedKey_row hagree hr⟩

/-- The cells of the raw rows have the keys of the columns. -/
theorem exists_cellEntries_iff (key : String) :
    (∃ e ∈ (req.rawRows P groups).flatMap (req.cellEntries P), e.1 = key) ↔
      ∃ p, req.IsColumn table p ∧ req.columnKey P p = key := by
  constructor
  · rintro ⟨e, he, rfl⟩
    obtain ⟨raw, hraw, he⟩ := List.mem_flatMap.1 he
    obtain ⟨r, hr, rfl⟩ := mem_rawRows.1 hraw
    rw [cellEntries_eq hagree hr] at he
    obtain ⟨m, hm, rfl⟩ := List.mem_map.1 he
    exact ⟨_, ⟨⟨r, hr, rfl⟩, m, hm, rfl⟩, rfl⟩
  · rintro ⟨⟨c, name⟩, ⟨⟨r, hr, rfl⟩, m, hm, rfl⟩, rfl⟩
    have hmem : (req.columnKey P (dimValues req.columnDimensions r, m.asName),
        m.aggregate P (req.groupRows table (req.groupKey r))) ∈
          req.cellEntries P (req.rawRow P table (req.groupKey r)) := by
      rw [cellEntries_eq hagree hr]
      exact List.mem_map.2 ⟨m, hm, rfl⟩
    exact ⟨_, List.mem_flatMap.2 ⟨_, mem_rawRows.2 ⟨r, hr, rfl⟩, hmem⟩, rfl⟩

end

/-- The rows of the pivot by their keys. -/
def rowMap (P : ReportPlatform N) (req : ReportV2Request R N) {table : List R}
    (groups : Groups table req.groupKey) : JsMap String (ReportRow N) :=
  ((req.rawRows P groups).foldl (req.pivotStep P) ⟨.empty, .empty⟩).rowMap

/-- The columns of the pivot. -/
def colSet (P : ReportPlatform N) (req : ReportV2Request R N) {table : List R}
    (groups : Groups table req.groupKey) : JsSet String :=
  ((req.rawRows P groups).foldl (req.pivotStep P) ⟨.empty, .empty⟩).colSet

theorem pivotRows_eq :
    req.pivotRows P groups =
      ((req.rowMap P groups).entries.map (·.2), (req.colSet P groups).elems) := rfl

variable (groups) in
/-- The keys of the rows are the texts of the row tuples, each once. -/
theorem rowMap_keys (hagree : req.NamesAgree P table) :
    Enumerates (req.rowMap P groups).keys
      fun key => ∃ t, req.OccursRow table t ∧ tupleText P t = key where
  nodup := (req.rowMap P groups).nodup
  mem key := by
    rw [rowMap, foldl_pivotStep, JsMap.mem_keys_fill, ← exists_joinedKey_iff hagree]
    exact or_iff_right List.not_mem_nil

variable (groups) in
/-- The columns are the keys of the column tuples and measures, each once. -/
theorem colSet_elems (hagree : req.NamesAgree P table) :
    Enumerates (req.colSet P groups).elems
      fun key => ∃ p, req.IsColumn table p ∧ req.columnKey P p = key where
  nodup := (req.colSet P groups).nodup
  mem key := by
    rw [← JsSet.mem_def, colSet, foldl_pivotStep, mem_foldl_add, exists_cellEntries_iff hagree]
    exact or_iff_right (JsSet.not_mem_empty key)

/-- A row of the pivot: the dimensions of the first of its raw rows, then the cells of all. -/
theorem rowMap_get? {key : String} {row : ReportRow N}
    (h : (req.rowMap P groups).get? key = some row) :
    ∃ raw raws, req.mergedRaws P groups key = raw :: raws ∧
      row = assignAll .empty (req.dimEntries raw ++ (raw :: raws).flatMap (req.cellEntries P)) := by
  rw [rowMap, foldl_pivotStep, JsMap.get?_fill, JsMap.get?_empty] at h
  change (req.mergedRaws P groups key).foldl _ none = some row at h
  cases hraws : req.mergedRaws P groups key with
  | nil =>
    rw [hraws] at h
    cases h
  | cons raw raws =>
    rw [hraws, List.foldl_cons,
      JsMap.foldl_some (fun raw => assignAll .empty (req.dimEntries raw))
        (fun row raw => assignAll row (req.cellEntries P raw)), foldl_assignAll] at h
    refine ⟨raw, raws, rfl, ?_⟩
    rw [← Option.some.inj h, List.flatMap_cons, assignAll_append, assignAll_append]
    rfl

theorem mem_pivotRows {row : ReportRow N} :
    row ∈ (req.pivotRows P groups).1 ↔ ∃ key, (req.rowMap P groups).get? key = some row := by
  rw [pivotRows_eq, List.mem_map]
  constructor
  · rintro ⟨⟨key, row⟩, hmem, rfl⟩
    exact ⟨key, JsMap.get?_eq_some.2 hmem⟩
  · rintro ⟨key, h⟩
    exact ⟨_, JsMap.get?_eq_some.1 h, rfl⟩

/-! ## What a row shows -/

omit [AddCommMonoidWithOne N] [LinearOrder N] in
theorem value_eq_of_dimValues {dims : List (ResolvedDim R N)} {r r' : R}
    (h : dimValues dims r = dimValues dims r') {d : ResolvedDim R N} (hd : d ∈ dims) :
    d.value r = d.value r' :=
  List.map_inj_left.1 h d hd

omit [AddCommMonoidWithOne N] in
theorem groupRows_ne_nil {t c : List (ReportValue N)} :
    req.groupRows table (t, c) ≠ [] ↔ ∃ r ∈ table, req.groupKey r = (t, c) := by
  rw [groupRows, ne_eq, List.filter_eq_nil_iff]
  simp

section
variable (hagree : req.NamesAgree P table) (hsep : req.Separated P table)
include hagree hsep

/-- The raw rows of a row key are those of the rows with its tuple. -/
theorem mem_mergedRaws {t : List (ReportValue N)} (ht : req.OccursRow table t)
    {raw : ReportRow N} :
    raw ∈ req.mergedRaws P groups (tupleText P t) ↔
      ∃ r ∈ table, dimValues req.rowDimensions r = t ∧
        req.rawRow P table (req.groupKey r) = raw := by
  rw [mergedRaws, List.mem_filter, mem_rawRows]
  constructor
  · rintro ⟨⟨r, hr, rfl⟩, hkey⟩
    rw [joinedKey_row hagree hr] at hkey
    exact ⟨r, hr, hsep.rowTexts _ _ ⟨r, hr, rfl⟩ ht (of_decide_eq_true hkey), rfl⟩
  · rintro ⟨r, hr, rfl, rfl⟩
    exact ⟨⟨r, hr, rfl⟩, decide_eq_true (joinedKey_row hagree hr)⟩

/-- A cell of the raw rows of a row tuple is a measure over one of its groups. -/
theorem mem_mergedCells {t : List (ReportValue N)} (ht : req.OccursRow table t)
    {e : String × ReportValue N}
    (he : e ∈ (req.mergedRaws P groups (tupleText P t)).flatMap (req.cellEntries P)) :
    ∃ c, ∃ m ∈ req.measures, (∃ r ∈ table, req.groupKey r = (t, c)) ∧
      e = (req.columnKey P (c, m.asName), m.aggregate P (req.groupRows table (t, c))) := by
  obtain ⟨raw, hraw, he⟩ := List.mem_flatMap.1 he
  obtain ⟨r, hr, rfl, rfl⟩ := (mem_mergedRaws hagree hsep ht).1 hraw
  rw [cellEntries_eq hagree hr] at he
  obtain ⟨m, hm, rfl⟩ := List.mem_map.1 he
  exact ⟨_, m, hm, ⟨r, hr, rfl⟩, rfl⟩

omit hsep in
/-- Measures of one name have one value in a group. -/
theorem aggregate_eq_of_asName {r : R} (hr : r ∈ table) {m m' : ReportV2Measure R N}
    (hm : m ∈ req.measures) (hm' : m' ∈ req.measures) (h : m.asName = m'.asName) :
    m.aggregate P (req.groupRows table (req.groupKey r)) =
      m'.aggregate P (req.groupRows table (req.groupKey r)) := by
  rw [← get?_rawRow_measure hagree hr hm, h, get?_rawRow_measure hagree hr hm']

/-- With the keys apart, the row of a tuple shows it. -/
theorem showsRow {t : List (ReportValue N)} (ht : req.OccursRow table t) {row : ReportRow N}
    (hrow : (req.rowMap P groups).get? (tupleText P t) = some row) :
    req.ShowsRow P table t row := by
  obtain ⟨raw, raws, hraws, rfl⟩ := rowMap_get? hrow
  have hdims : ∀ r ∈ table, dimValues req.rowDimensions r = t →
      req.dimEntries raw = req.rowDimensions.map fun d => (d.key, d.value r) := by
    intro r _ hrt
    obtain ⟨r₀, hr₀, hr₀t, rfl⟩ :=
      (mem_mergedRaws hagree hsep ht).1 (hraws ▸ List.mem_cons_self : raw ∈ _)
    rw [dimEntries_eq hagree hr₀]
    exact List.map_congr_left fun d hd =>
      Prod.ext rfl (value_eq_of_dimValues (hr₀t.trans hrt.symm) hd)
  rw [← hraws]
  constructor
  · intro d hd r hr hrt
    rw [hdims r hr hrt]
    refine get?_assignAll (hsep.dimNames (List.ne_nil_of_mem hr) d hd)
      (List.mem_append_left _ (List.mem_map.2 ⟨d, hd, rfl⟩)) fun e he hkey => ?_
    obtain he | he := List.mem_append.1 he
    · obtain ⟨d', hd', rfl⟩ := List.mem_map.1 he
      rw [req.resolved d' hd' d hd hkey]
    · obtain ⟨c, m, hm, ⟨r', hr', hgroup⟩, rfl⟩ := mem_mergedCells hagree hsep ht he
      have hc : req.OccursColumn table c := ⟨r', hr', (Prod.mk.inj hgroup).2⟩
      exact hrt ▸ (hsep.dims c hc m hm d hd hkey r hr).2
  · intro c hc m hm
    obtain ⟨r, hr, hrt⟩ := ht
    have hcolumn : req.IsColumn table (c, m.asName) := ⟨hc, m, hm, rfl⟩
    rw [hdims r hr hrt]
    split
    · next hempty =>
      rw [get?_assignAll_of_forall_ne, JsMap.get?_empty]
      intro e he hkey
      obtain he | he := List.mem_append.1 he
      · obtain ⟨d, hd, rfl⟩ := List.mem_map.1 he
        exact (hsep.dims c hc m hm d hd hkey.symm r hr).1 (hrt ▸ hempty)
      · obtain ⟨c', m', hm', ⟨r', hr', hgroup⟩, rfl⟩ :=
          mem_mergedCells hagree hsep ⟨r, hr, hrt⟩ he
        have hc' : req.IsColumn table (c', m'.asName) :=
          ⟨⟨r', hr', (Prod.mk.inj hgroup).2⟩, m', hm', rfl⟩
        obtain ⟨rfl, -⟩ := Prod.mk.inj (hsep.columnKeys _ _ hc' hcolumn hkey)
        exact groupRows_ne_nil.2 ⟨r', hr', hgroup⟩ hempty
    · next hne =>
      obtain ⟨r', hr', hgroup⟩ := groupRows_ne_nil.1 hne
      refine get?_assignAll (hsep.columnNames _ hcolumn) (List.mem_append_right _ ?_)
        fun e he hkey => ?_
      · refine List.mem_flatMap.2 ⟨_, (mem_mergedRaws hagree hsep ⟨r, hr, hrt⟩).2
          ⟨r', hr', (Prod.mk.inj hgroup).1, rfl⟩, ?_⟩
        rw [cellEntries_eq hagree hr', hgroup, (Prod.mk.inj hgroup).2]
        exact List.mem_map.2 ⟨m, hm, rfl⟩
      · obtain he | he := List.mem_append.1 he
        · obtain ⟨d, hd, rfl⟩ := List.mem_map.1 he
          exact hrt ▸ (hsep.dims c hc m hm d hd hkey.symm r hr).2.symm
        · obtain ⟨c', m', hm', ⟨r'', hr'', hgroup'⟩, rfl⟩ :=
            mem_mergedCells hagree hsep ⟨r, hr, hrt⟩ he
          have hc' : req.IsColumn table (c', m'.asName) :=
            ⟨⟨r'', hr'', (Prod.mk.inj hgroup').2⟩, m', hm', rfl⟩
          obtain ⟨rfl, hname⟩ := Prod.mk.inj (hsep.columnKeys _ _ hc' hcolumn hkey)
          exact hgroup ▸ aggregate_eq_of_asName hagree hr' hm' hm hname

end

/-! ## Sums -/

/-- What a row adds to a count or a sum. -/
def weight (P : ReportPlatform N) (m : ReportV2Measure R N)
    (r : R) : N :=
  let v := m.field.getD (fun _ => .num 1) r
  if m.op = .count then if v = .null then 0 else 1 else v.summand P

omit [LinearOrder N] in
theorem length_filter_eq_sum {α : Type} (p : α → Prop) [DecidablePred p] (l : List α) :
    ((l.filter (¬p ·)).length : N) = (l.map fun a => if p a then 0 else 1).sum := by
  induction l with
  | nil => exact Nat.cast_zero
  | cons a l ih =>
    rw [List.filter_cons, List.map_cons, List.sum_cons, ← ih]
    by_cases h : p a
    · rw [if_neg (by simpa using h), if_pos h, zero_add]
    · rw [if_pos (by simpa using h), if_neg h, List.length_cons, Nat.cast_succ, add_comm]

/-- A count and a sum add up over the rows. -/
theorem amount_aggregate {m : ReportV2Measure R N} (hop : m.op = .count ∨ m.op = .sum)
    (rows : List R) : (m.aggregate P rows).amount = (rows.map (weight P m)).sum := by
  unfold ReportV2Measure.aggregate weight
  generalize (m.field.getD fun _ => .num 1) = value
  obtain hop | hop := hop
  · have hcount := length_filter_eq_sum (N := N) (· = ReportValue.null) (rows.map value)
    rw [List.map_map] at hcount
    simp only [hop, if_true]
    exact hcount
  · simp only [hop, AggregateOp.apply]
    split
    · next hnull =>
      refine (List.sum_eq_zero fun n hn => ?_).symm
      obtain ⟨r, hr, rfl⟩ := List.mem_map.1 hn
      rw [hnull _ (List.mem_map.2 ⟨r, hr, rfl⟩)]
      rfl
    · rw [List.map_map]
      rfl

omit [AddCommMonoidWithOne N] in
theorem groupRows_eq (t c : List (ReportValue N)) :
    req.groupRows table (t, c) =
      (table.filter (dimValues req.columnDimensions · = c)).filter
        (dimValues req.rowDimensions · = t) := by
  rw [groupRows, List.filter_filter]
  refine List.filter_congr fun r _ => ?_
  simp [groupKey]

/-- The number of a cell: what the rows of its group add up to. -/
theorem ShowsRow.cellAmount_eq {t : List (ReportValue N)} {row : ReportRow N}
    (h : req.ShowsRow P table t row) {m : ReportV2Measure R N} (hm : m ∈ req.measures)
    (hop : m.op = .count ∨ m.op = .sum) {c : List (ReportValue N)}
    (hc : req.OccursColumn table c) :
    cellAmount row (req.columnKey P (c, m.asName)) =
      ((req.groupRows table (t, c)).map (weight P m)).sum := by
  rw [cellAmount, h.cells c hc m hm]
  split
  · next hempty =>
    rw [hempty]
    rfl
  · exact amount_aggregate hop _

/-- If each row shows its tuple, the cells of a count or a sum add up to the whole. -/
theorem sum_columnTotal {tuples : List (List (ReportValue N))}
    (htuples : Enumerates tuples (req.OccursRow table)) {rows : List (ReportRow N)}
    (hrows : List.Forall₂ (req.ShowsRow P table) tuples rows) {m : ReportV2Measure R N}
    (hm : m ∈ req.measures) (hop : m.op = .count ∨ m.op = .sum)
    {columns : List (List (ReportValue N))}
    (hcolumns : Enumerates columns (req.OccursColumn table)) :
    (columns.map fun c => columnTotal rows (req.columnKey P (c, m.asName))).sum =
      (m.aggregate P table).amount := by
  have hcolumn : ∀ c ∈ columns, columnTotal rows (req.columnKey P (c, m.asName)) =
      ((table.filter (dimValues req.columnDimensions · = c)).map (weight P m)).sum := by
    intro c hc
    have hcells := map_eq_of_forall₂ (f := fun t =>
      ((req.groupRows table (t, c)).map (weight P m)).sum) hrows fun t row h =>
        (h.cellAmount_eq hm hop ((hcolumns.mem c).1 hc)).symm
    rw [columnTotal, ← hcells]
    simp only [groupRows_eq]
    refine sum_groups _ _ htuples.nodup fun r hr => ?_
    exact (htuples.mem _).2 ⟨r, (List.mem_filter.1 hr).1, rfl⟩
  rw [List.map_congr_left hcolumn, amount_aggregate hop]
  exact sum_groups _ _ hcolumns.nodup fun r hr => (hcolumns.mem _).2 ⟨r, hr, rfl⟩

/-! ## When the pivot conserves the table -/

section
variable (hagree : req.NamesAgree P table)
include hagree

/-- Keys that stay apart are enough. -/
theorem Separated.conserves (hsep : req.Separated P table) :
    req.Conserves P table (req.pivotRows P groups).1 (req.pivotRows P groups).2 := by
  obtain ⟨tuples, htuples, hkeys⟩ := (rowMap_keys groups hagree).of_image
    fun t t' ht ht' => hsep.rowTexts t t' ht ht'
  obtain ⟨pairs, hpairs, hcolumns⟩ := (colSet_elems groups hagree).of_image
    fun p p' hp hp' => hsep.columnKeys p p' hp hp'
  have hrows : List.Forall₂ (req.ShowsRow P table) tuples (req.pivotRows P groups).1 := by
    rw [pivotRows_eq, List.forall₂_map_right_iff]
    have hkeys : tuples.map (tupleText P) = (req.rowMap P groups).entries.map (·.1) := hkeys
    refine forall₂_of_map_eq hkeys fun t ht entry hentry hkey => ?_
    have hget : (req.rowMap P groups).get? (tupleText P t) = some entry.2 := by
      rw [hkey]
      exact JsMap.get?_eq_some.2 hentry
    exact showsRow hagree hsep ((htuples.mem t).1 ht) hget
  exact {
    eachRow := ⟨tuples, htuples, hrows⟩
    eachColumn := ⟨pairs, hpairs, hcolumns.symm, (req.colSet P groups).nodup⟩
    total := fun m hm hop columns hc => sum_columnTotal htuples hrows hm hop hc
  }

/-- And needed. -/
theorem Conserves.separated
    (h : req.Conserves P table (req.pivotRows P groups).1 (req.pivotRows P groups).2) :
    req.Separated P table := by
  obtain ⟨tuples, htuples, hrows⟩ := h.eachRow
  obtain ⟨pairs, hpairs, hcolumns, hnodup⟩ := h.eachColumn
  have hshown : ∀ r ∈ table, ∃ row ∈ (req.pivotRows P groups).1,
      req.ShowsRow P table (dimValues req.rowDimensions r) row := fun r hr =>
    exists_right_of_forall₂ hrows ((htuples.mem _).2 ⟨r, hr, rfl⟩)
  have hproto : ∀ row ∈ (req.pivotRows P groups).1, row.get? "__proto__" = none := by
    intro row hrow
    obtain ⟨key, hkey⟩ := mem_pivotRows.1 hrow
    obtain ⟨raw, raws, -, rfl⟩ := rowMap_get? hkey
    exact get?_assignAll_proto rfl _
  constructor
  · intro t t' ht ht' heq
    refine htuples.injective_of_length (rowMap_keys groups hagree) ?_ ht ht' heq
    rw [hrows.length_eq, pivotRows_eq, List.length_map, JsMap.keys, List.length_map]
  · intro p p' hp hp' heq
    exact List.inj_on_of_nodup_map (hcolumns ▸ hnodup) ((hpairs.mem p).2 hp) ((hpairs.mem p').2 hp') heq
  · intro c hc m hm d hd hkey r hr
    obtain ⟨row, -, hshows⟩ := hshown r hr
    have hcell := hshows.cells c hc m hm
    rw [hkey, hshows.dims d hd r hr rfl] at hcell
    split at hcell
    · cases hcell
    · next hne => exact ⟨hne, (Option.some.inj hcell).symm⟩
  · intro hne d hd hkey
    obtain ⟨r, hr⟩ := List.exists_mem_of_ne_nil _ hne
    obtain ⟨row, hrow, hshows⟩ := hshown r hr
    have hdim := hshows.dims d hd r hr rfl
    rw [hkey, hproto row hrow] at hdim
    cases hdim
  · rintro ⟨c, name⟩ ⟨⟨r, hr, rfl⟩, m, hm, rfl⟩ hkey
    obtain ⟨row, hrow, hshows⟩ := hshown r hr
    have hcell := hshows.cells _ ⟨r, hr, rfl⟩ m hm
    rw [hkey, hproto row hrow, if_neg (groupRows_ne_nil.2 ⟨r, hr, rfl⟩)] at hcell
    cases hcell

end

/-! ## The top columns -/

/-- The report is cut to its `n` greatest columns: the others are summed up in a column of its own, and
the dimensions and the kept columns stay. -/
structure SumsDropped (req : ReportV2Request R N) (n : Nat) (rows : List (ReportRow N))
    (columns : List String) (rows' : List (ReportRow N)) (columns' kept dropped : List String) :
    Prop where
  split : (kept ++ dropped).Perm columns
  length : kept.length = n
  greatest : ∀ a ∈ kept, ∀ b ∈ dropped, columnTotal rows b ≤ columnTotal rows a
  columns_eq : columns' = kept ++ ["Other"]
  nodup : columns'.Nodup
  apart : ∀ d ∈ req.rowDimensions, d.key ≠ "Other"
  each : List.Forall₂ (fun row row' =>
    cellAmount row' "Other" = (dropped.map (cellAmount row)).sum ∧
      (∀ c ∈ kept, row'.get? c = row.get? c) ∧
      ∀ d ∈ req.rowDimensions, row'.get? d.key = row.get? d.key) rows rows'

/-- No kept column and no row dimension is called `Other`, and no dropped column has the key of a row
dimension. -/
def OtherApart (req : ReportV2Request R N) (n : Nat) (rows : List (ReportRow N))
    (columns : List String) : Prop :=
  "Other" ∉ (ranked rows columns).take n ∧
    ∀ d ∈ req.rowDimensions, d.key ≠ "Other" ∧ d.key ∉ (ranked rows columns).drop n

omit [AddCommMonoidWithOne N] [LinearOrder N] in
theorem get?_foldl_delete (dropped : List String) (row : ReportRow N) (key : String) :
    (dropped.foldl (fun row column => row.delete column) row).get? key =
      if key ∈ dropped then none else row.get? key := by
  induction dropped generalizing row with
  | nil => rfl
  | cons c dropped ih =>
    rw [List.foldl_cons, ih, JsMap.get?_delete]
    by_cases hkey : key = c
    · simp [hkey]
    · simp [hkey]

/-- What is left of a row without the dropped columns. -/
theorem get?_dropColumns (dropped : List String) (row : ReportRow N) {key : String}
    (hkey : key ≠ "Other") :
    (dropColumns dropped row).get? key = if key ∈ dropped then none else row.get? key := by
  rw [dropColumns, ← get?_foldl_delete]
  by_cases hother : (dropped.map (cellAmount row)).sum ≠ 0
  · rw [if_pos hother, get?_assign_of_ne hkey]
  · rw [if_neg hother]

/-- The bucket has the sum of what is dropped, if the row has no other `Other`. -/
theorem cellAmount_dropColumns (dropped : List String) {row : ReportRow N}
    (h : "Other" ∈ dropped ∨ row.get? "Other" = none) :
    cellAmount (dropColumns dropped row) "Other" = (dropped.map (cellAmount row)).sum := by
  have hproto : "Other" ≠ "__proto__" := by decide
  rw [dropColumns]
  by_cases hzero : (dropped.map (cellAmount row)).sum ≠ 0
  · rw [if_pos hzero, cellAmount, assign, if_neg hproto, JsMap.get?_set, if_pos rfl]
    rfl
  · rw [if_neg hzero, cellAmount, get?_foldl_delete, not_not.1 hzero]
    obtain hmem | hnone := h
    · rw [if_pos hmem]
      rfl
    · rw [hnone, ite_self]
      rfl

/-- A row of the pivot has the keys of the row dimensions and of the columns only. -/
theorem get?_pivotRows_eq_none {row : ReportRow N} (hrow : row ∈ (req.pivotRows P groups).1)
    {key : String} (hdims : ∀ d ∈ req.rowDimensions, d.key ≠ key)
    (hcolumns : key ∉ (req.pivotRows P groups).2) : row.get? key = none := by
  obtain ⟨rowKey, hget⟩ := mem_pivotRows.1 hrow
  obtain ⟨raw, raws, hraws, rfl⟩ := rowMap_get? hget
  rw [get?_assignAll_of_forall_ne, JsMap.get?_empty]
  intro e he hkey
  obtain he | he := List.mem_append.1 he
  · obtain ⟨d, hd, rfl⟩ := List.mem_map.1 he
    exact hdims d hd hkey
  · refine hcolumns ?_
    rw [pivotRows_eq, ← JsSet.mem_def, colSet, foldl_pivotStep, mem_foldl_add]
    obtain ⟨raw', hraw', he⟩ := List.mem_flatMap.1 he
    rw [← hraws] at hraw'
    exact .inr ⟨e, List.mem_flatMap.2 ⟨raw', (List.mem_filter.1 hraw').1, he⟩, hkey⟩

/-- The ranking keeps the columns, the greatest total first. -/
theorem ranked_perm (rows : List (ReportRow N)) (columns : List String) :
    (ranked rows columns).Perm columns :=
  List.mergeSort_perm _ _

theorem ranked_pairwise (rows : List (ReportRow N)) (columns : List String) :
    (ranked rows columns).Pairwise fun a b => columnTotal rows b ≤ columnTotal rows a := by
  have htrans : ∀ a b c : String, decide (columnTotal rows b ≤ columnTotal rows a) →
      decide (columnTotal rows c ≤ columnTotal rows b) →
      decide (columnTotal rows c ≤ columnTotal rows a) := by
    intro a b c hab hbc
    exact decide_eq_true ((of_decide_eq_true hbc).trans (of_decide_eq_true hab))
  have htotal : ∀ a b : String, (decide (columnTotal rows b ≤ columnTotal rows a) ||
      decide (columnTotal rows a ≤ columnTotal rows b)) := by
    intro a b
    obtain h | h := le_total (columnTotal rows b) (columnTotal rows a)
    · rw [decide_eq_true h, Bool.true_or]
    · rw [decide_eq_true h, Bool.or_true]
  exact (List.pairwise_mergeSort htrans htotal columns).imp of_decide_eq_true

/-- Cut to its top columns, the pivot sums up the dropped ones just when `Other` is a name of its
own. -/
theorem exists_sumsDropped_iff (hagree : req.NamesAgree P table) (hsep : req.Separated P table)
    {n : Nat} (hn : n < (req.pivotRows P groups).2.length) :
    (∃ kept dropped, req.SumsDropped n (req.pivotRows P groups).1 (req.pivotRows P groups).2
      ((req.pivotRows P groups).1.map (dropColumns
        ((ranked (req.pivotRows P groups).1 (req.pivotRows P groups).2).drop n)))
      ((ranked (req.pivotRows P groups).1 (req.pivotRows P groups).2).take n ++ ["Other"])
      kept dropped) ↔
    req.OtherApart n (req.pivotRows P groups).1 (req.pivotRows P groups).2 := by
  have hcolumns := colSet_elems groups hagree
  have hconserves : req.Conserves P table (req.pivotRows P groups).1 (req.pivotRows P groups).2 :=
    hsep.conserves hagree
  have hnodup : (req.pivotRows P groups).2.Nodup := (req.colSet P groups).nodup
  have hperm := ranked_perm (req.pivotRows P groups).1 (req.pivotRows P groups).2
  have hsorted := ranked_pairwise (req.pivotRows P groups).1 (req.pivotRows P groups).2
  have hnone : ∀ row ∈ (req.pivotRows P groups).1, ∀ key, (∀ d ∈ req.rowDimensions, d.key ≠ key) →
      key ∉ (req.pivotRows P groups).2 → row.get? key = none :=
    fun row hrow key => get?_pivotRows_eq_none hrow
  have hoccurs : ∀ key ∈ (req.pivotRows P groups).2, ∃ r, r ∈ table := by
    intro key hkey
    obtain ⟨p, ⟨⟨r, hr, -⟩, -⟩, -⟩ := (hcolumns.mem key).1 hkey
    exact ⟨r, hr⟩
  generalize (req.pivotRows P groups).1 = rows at *
  generalize (req.pivotRows P groups).2 = columns at *
  rw [← List.take_append_drop n (ranked rows columns)] at hperm hsorted
  have hapart := List.nodup_append.1 (hperm.nodup_iff.2 hnodup)
  have hlength : ((ranked rows columns).take n).length = n := by
    rw [List.length_take, (ranked_perm rows columns).length_eq]
    omega
  unfold OtherApart
  generalize (ranked rows columns).take n = kept at *
  generalize (ranked rows columns).drop n = dropped at *
  constructor
  · rintro ⟨kept', dropped', h⟩
    obtain rfl : kept = kept' := List.append_inj_left' h.columns_eq rfl
    refine ⟨fun hmem => ?_, fun d hd => ⟨h.apart d hd, fun hdropped => ?_⟩⟩
    · exact (List.nodup_append.1 h.nodup).2.2 _ hmem _ List.mem_cons_self rfl
    · -- a dropped column that is a dimension is gone from every row, and there is one
      obtain ⟨r, hr⟩ := hoccurs _ (hperm.mem_iff.1 (List.mem_append_right _ hdropped))
      obtain ⟨tuples, htuples, hrows⟩ := hconserves.eachRow
      obtain ⟨row, hrow, hshows⟩ := exists_right_of_forall₂ hrows ((htuples.mem _).2 ⟨r, hr, rfl⟩)
      have heach := List.forall₂_map_right_iff.1 h.each
      have hdim := (List.forall₂_same.1 heach row hrow).2.2 d hd
      rw [get?_dropColumns _ _ (h.apart d hd), if_pos hdropped, hshows.dims d hd r hr rfl] at hdim
      cases hdim
  · rintro ⟨hkept, hdims⟩
    refine ⟨kept, dropped, hperm, hlength, ?_, rfl, ?_, fun d hd => (hdims d hd).1, ?_⟩
    · exact (List.pairwise_append.1 hsorted).2.2
    · rw [List.nodup_append]
      refine ⟨hapart.1, List.nodup_singleton _, fun a ha b hb heq => ?_⟩
      obtain rfl := List.mem_singleton.1 hb
      exact hkept (heq ▸ ha)
    · rw [List.forall₂_map_right_iff, List.forall₂_same]
      refine fun row hrow => ⟨cellAmount_dropColumns _ ?_, fun c hc => ?_, fun d hd => ?_⟩
      · by_cases hother : "Other" ∈ dropped
        · exact .inl hother
        · refine .inr (hnone row hrow _ (fun d hd => (hdims d hd).1) fun hmem => ?_)
          obtain h | h := List.mem_append.1 (hperm.mem_iff.2 hmem)
          · exact hkept h
          · exact hother h
      · rw [get?_dropColumns _ _ fun heq => hkept (heq ▸ hc),
          if_neg fun hmem => hapart.2.2 c hc c hmem rfl]
      · rw [get?_dropColumns _ _ (hdims d hd).1, if_neg (hdims d hd).2]

end ReportV2Request

/-! ## The report -/

namespace ReportV2Request
variable (P : ReportPlatform N) (req : ReportV2Request R N) {table : List R}
  (groups : Groups table req.groupKey)

/-- The rows of the pivot with its top columns. -/
def cutRows : List (ReportRow N) :=
  (req.capColumns (req.pivotRows P groups).1 (req.pivotRows P groups).2).1

/-- The rows, with subtotals if the request asks for them. -/
def withSubtotals (rows : List (ReportRow N)) : List (ReportRow N) :=
  if req.subtotals then req.insertSubtotals P rows else rows

variable {P req groups}

/-- A pivot that is not cut to a row limit. -/
theorem reportV2_inversion {result : ReportV2Result N} (hpivot : req.columnDimensions ≠ [])
    (h : reportV2 P req groups = .ok result) (hlimit : result.truncatedRows = none) :
    result.data = req.withSubtotals P (req.cutRows P groups) ∧
      result.columns = (req.capColumns (req.pivotRows P groups).1 (req.pivotRows P groups).2).2.1 ∧
      result.truncatedColumns =
        (req.capColumns (req.pivotRows P groups).1 (req.pivotRows P groups).2).2.2 := by
  unfold reportV2 at h
  split at h
  · cases h
  split at h
  · cases h
  obtain rfl := Except.ok.inj h
  have hlimited : req.limitRows P (req.cutRows P groups) = (req.cutRows P groups, none) := by
    change (req.limitRows P (req.cutRows P groups)).2 = none at hlimit
    unfold limitRows at hlimit ⊢
    split at hlimit
    · cases hlimit
    · next hle => exact if_neg hle
  refine ⟨?_, rfl, rfl⟩
  change req.withSubtotals P (req.limitRows P (req.cutRows P groups)).1 = _
  rw [hlimited]

/-- What the top columns of a pivot are. -/
theorem capColumns_cases (rows : List (ReportRow N)) (columns : List String) :
    req.capColumns rows columns = (rows, columns, none) ∨
      ∃ n, n < columns.length ∧ req.capColumns rows columns =
        (rows.map (dropColumns ((ranked rows columns).drop n)),
          (ranked rows columns).take n ++ ["Other"], some n) := by
  unfold capColumns
  split
  · exact .inl rfl
  · next n _ =>
    split
    · next hcut =>
      have hne : (ranked rows columns).drop n ≠ [] := by
        rw [ne_eq, List.drop_eq_nil_iff, (ranked_perm rows columns).length_eq]
        omega
      dsimp only
      rw [if_pos hne]
      exact .inr ⟨n, hcut.2, rfl⟩
    · exact .inl rfl

end ReportV2Request

/-- Integers. -/
def integerReports : ReportPlatform Int where
  numberText := toString
  textNumber _ := 0
  avg _ := .null
  min _ := .null
  max _ := .null
  maxPageSize := 500

/-- The number of rows by region and status. -/
def byRegion : ReportV2Request (ReportValue Int × ReportValue Int) Int where
  rowDimensions := [⟨"region", "region", (·.1)⟩]
  columnDimensions := [⟨"status", "status", (·.2)⟩]
  measures := [⟨.count, none, "n", fun _ => rfl⟩]
  rowLimit := none
  topNColumns := none
  subtotals := false
  resolved _ hd _ hd' _ := (List.mem_singleton.1 hd).trans (List.mem_singleton.1 hd').symm

/-- Two open rows, one in the north and one in the south. -/
def northAndSouth : List (ReportValue Int × ReportValue Int) :=
  [(.text "north", .text "open"), (.text "south", .text "open")]

/-- Two open rows, one without a region and one whose region is the empty text. -/
def nullAndEmpty : List (ReportValue Int × ReportValue Int) :=
  [(.null, .text "open"), (.text "", .text "open")]

end HeadlessErp
