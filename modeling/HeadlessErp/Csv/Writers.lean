import HeadlessErp.Csv.Parser
import HeadlessErp.Expression.Tokenizer
import HeadlessErp.Js.Record

/-!
# The CSV writers

The export service writes comma-separated text in two places: a method of its own and the function
that the entity list route uses. Both guard a text that a spreadsheet would evaluate with a leading
apostrophe, and they quote different things: the method quotes a header only for a comma and never
quotes a guarded cell, the function never quotes a header. Both are the text of a table
(`toList_toCsv`), so what the import reads of them is settled by the cells they write bare
(`ExportService.parseCsvRows_toCsv_iff`, `parseCsvRows_toCsv_iff`).
-/

namespace HeadlessErp

open Csv

variable {N : Type}

/-- Tokenize CSV text into rows of raw string cells. -/
def parseCsvRows (text : String) : List (List String) :=
  (parseText text.toList).map (·.map String.ofList)

/-! ## What the writers share -/

/-- `/^[\s]*[=+\-@\t\r]/.test(text)`. -/
def startsFormula : List Char → Bool
  | [] => false
  | ch :: text => ['=', '+', '-', '@', '\t', '\r'].contains ch || (isSpace ch && startsFormula text)

/-- The leading apostrophe before a text that a spreadsheet would evaluate. -/
def guardFormula (s : String) : String := if startsFormula s.toList then "'" ++ s else s

/-- `"${s.replace(/"/g, '""')}"`. -/
def quoteCsv (s : String) : String := "\"" ++ String.ofList (escapeQuotes s.toList) ++ "\""

/-- `s.includes(',') || s.includes('"') || s.includes('\n')`. -/
def needsQuotes (s : String) : Bool :=
  s.toList.contains ',' || s.toList.contains '"' || s.toList.contains '\n'

/-- `Object.keys(items[0])`, none for an empty list. -/
def firstKeys : List (Record N) → List String
  | [] => []
  | first :: _ => first.map (·.1)

/-- The text of a value: empty for null and for a missing value. -/
def cellText [JsNumber N] (val : JsVal N) : String := if val.isNullish then "" else val.toStr

namespace ExportService

/-- The header cell of the method. -/
def csvHeader (h : String) : String :=
  let safe := guardFormula h
  if safe.toList.contains ',' then quoteCsv safe else safe

/-- The data cell of the method. -/
def csvCell [JsNumber N] (val : JsVal N) : String :=
  if val.isNullish then ""
  else
    let str := val.toStr
    if startsFormula str.toList then "'" ++ str
    else if needsQuotes str then quoteCsv str
    else str

/-- The method `_toCsv` of the export service. -/
def toCsv [JsNumber N] (items : List (Record N)) : String :=
  if items.isEmpty then ""
  else
    let headers := firstKeys items
    let rows := ",".intercalate (headers.map csvHeader) ::
      items.map fun item => ",".intercalate (headers.map fun h => csvCell (item.get h))
    "\n".intercalate rows

end ExportService

/-- The headers of the function: the keys of the first row without the internal fields, and of the
requested fields only if some are requested. -/
def csvHeaders (rows : List (Record N)) (excludeFields : List String)
    (fieldFilter : Option (List String)) : List String :=
  let headers := (firstKeys rows).filter fun h => !excludeFields.contains h
  match fieldFilter with
  | none => headers
  | some requested =>
    if requested.isEmpty then headers else headers.filter fun h => requested.contains h

/-- The data cell of the function. -/
def csvCell [JsNumber N] (val : JsVal N) : String :=
  if val.isNullish then ""
  else
    let sanitized := guardFormula val.toStr
    if needsQuotes sanitized then quoteCsv sanitized else sanitized

/-- The function `toCsv`. -/
def toCsv [JsNumber N] (rows : List (Record N)) (excludeFields : List String)
    (fieldFilter : Option (List String)) : String :=
  if rows.isEmpty then ""
  else
    let headers := csvHeaders rows excludeFields fieldFilter
    let csvRows := ",".intercalate (headers.map guardFormula) ::
      rows.map fun item => ",".intercalate (headers.map fun h => csvCell (item.get h))
    "\n".intercalate csvRows

/-! ## The table they write -/

/-- What the import should read: the headers, and for each row one cell for each header, each with
the leading apostrophe where the guard puts one. -/
def guardedRows [JsNumber N] (headers : List String) (items : List (Record N)) :
    List (List String) :=
  headers.map guardFormula ::
    items.map fun item => headers.map fun h => guardFormula (cellText (item.get h))

/-- A cell that is written between quotes if the condition holds. -/
def cellOf (quoted : Bool) (s : String) : Cell := ⟨s.toList, quoted⟩

/-- The cells of a table, each quoted or not. -/
def cellTable [JsNumber N] (quoteHeader quoteCell : String → Bool) (headers : List String)
    (items : List (Record N)) : List (List Cell) :=
  headers.map (fun h => cellOf (quoteHeader h) (guardFormula h)) ::
    items.map fun item => headers.map fun h =>
      cellOf (quoteCell (cellText (item.get h))) (guardFormula (cellText (item.get h)))

theorem encode_cellOf (quoted : Bool) (s : String) :
    (cellOf quoted s).encode = (if quoted then quoteCsv s else s).toList := by
  unfold Cell.encode cellOf
  cases quoted <;> simp [quoteCsv]

/-- Joined rows of joined cells are the text of the table. -/
theorem toList_intercalate_rows [JsNumber N] {headerText : String → String}
    {valueText : JsVal N → String}
    {quoteHeader quoteCell : String → Bool} {headers : List String} {items : List (Record N)}
    (hheader : ∀ h, (headerText h).toList = (cellOf (quoteHeader h) (guardFormula h)).encode)
    (hcell : ∀ val, (valueText val).toList =
      (cellOf (quoteCell (cellText val)) (guardFormula (cellText val))).encode) :
    ("\n".intercalate (",".intercalate (headers.map headerText) ::
      items.map fun item => ",".intercalate (headers.map fun h => valueText (item.get h)))).toList =
      render (cellTable quoteHeader quoteCell headers items) := by
  have hrow : ∀ {α : Type} (l : List α) (f : α → String) (g : α → Cell),
      (∀ a, (f a).toList = (g a).encode) →
        (",".intercalate (l.map f)).toList = renderRow (l.map g) := by
    intro α l f g h
    rw [String.toList_intercalate, renderRow, List.map_map, List.map_map]
    exact congrArg _ (List.map_congr_left fun a _ => h a)
  rw [String.toList_intercalate, render, cellTable, List.map_cons, List.map_cons, List.map_map,
    List.map_map, hrow headers _ _ hheader]
  refine congrArg _ (congrArg _ (List.map_congr_left fun item _ => ?_))
  exact hrow headers _ _ fun h => hcell _

theorem parseCsvRows_eq_iff {text : String} {table : List (List Cell)} {rows : List (List String)}
    (htext : text.toList = render table) (hrows : rows.map (·.map String.toList) = texts table) :
    parseCsvRows text = rows ↔ Survives table := by
  rw [← parseText_render_iff, parseCsvRows, htext, ← hrows]
  constructor
  · intro h
    rw [← h, List.map_map]
    refine (List.map_id'' ?_ _).symm
    intro cells
    simp only [Function.comp, List.map_map]
    exact List.map_id'' (fun cell => String.toList_ofList) cells
  · intro h
    rw [h, List.map_map]
    refine List.map_id'' ?_ _
    intro cells
    simp only [Function.comp, List.map_map]
    exact List.map_id'' (fun cell => String.ofList_toList) cells

theorem map_toList_guardedRows [JsNumber N] (quoteHeader quoteCell : String → Bool)
    (headers : List String) (items : List (Record N)) :
    (guardedRows headers items).map (·.map String.toList) =
      texts (cellTable quoteHeader quoteCell headers items) := by
  simp [guardedRows, texts, cellTable, cellOf, Function.comp_def]

/-! ## When it is read back -/

/-- The text has no comma, quote, newline or carriage return. -/
def HasPlainText (s : String) : Prop := ∀ ch ∈ s.toList, IsPlain ch

theorem hasPlainText_guardFormula {s : String} : HasPlainText (guardFormula s) ↔ HasPlainText s := by
  unfold guardFormula
  split
  · constructor
    · intro h ch hch
      exact h ch (by rw [String.toList_append]; exact List.mem_append_right _ hch)
    · intro h ch hch
      rw [String.toList_append] at hch
      rcases List.mem_append.mp hch with hch | hch
      · obtain rfl : ch = '\'' := by simpa using hch
        decide
      · exact h ch hch
  · exact Iff.rfl

theorem guardFormula_eq_empty {s : String} : guardFormula s = "" ↔ s = "" := by
  unfold guardFormula
  split
  · next h =>
    constructor
    · intro h'
      have := congrArg String.toList h'
      simp at this
    · rintro rfl
      simp [startsFormula] at h
  · exact Iff.rfl

theorem readable_cellOf {quoted : Bool} {s : String} :
    (cellOf quoted (guardFormula s)).Readable ↔ quoted = true ∨ HasPlainText s := by
  rw [← hasPlainText_guardFormula]
  cases quoted
  · exact ⟨fun h => .inr (h rfl), fun h _ => h.resolve_left Bool.false_ne_true⟩
  · exact ⟨fun _ => .inl rfl, fun _ h => absurd h.symm Bool.false_ne_true⟩

/-- There is a row and a header, each header and each cell is one that is read back, and the last
row is not a single empty cell. -/
structure ReadBack [JsNumber N] (headerOk cellOk : String → Prop) (headers : List String)
    (items : List (Record N)) : Prop where
  some_item : items ≠ []
  some_header : headers ≠ []
  header : ∀ h ∈ headers, headerOk h
  cell : ∀ item ∈ items, ∀ h ∈ headers, cellOk (cellText (item.get h))
  last : ∀ item ∈ items.getLast?, ∀ h, headers = [h] → cellText (item.get h) ≠ ""

theorem survives_cellTable [JsNumber N] {quoteHeader quoteCell : String → Bool}
    {headers : List String} {items : List (Record N)} (hitems : items ≠ []) :
    Survives (cellTable quoteHeader quoteCell headers items) ↔
      ReadBack (fun h => quoteHeader h = true ∨ HasPlainText h)
        (fun s => quoteCell s = true ∨ HasPlainText s) headers items := by
  have hlast : (cellTable quoteHeader quoteCell headers items).getLast? =
      items.getLast?.map fun item => headers.map fun h =>
        cellOf (quoteCell (cellText (item.get h))) (guardFormula (cellText (item.get h))) := by
    rw [cellTable, List.getLast?_cons_of_ne_nil (by simpa using hitems), List.getLast?_map]
  constructor
  · rintro ⟨hrows, hcells, hline⟩
    have hheaders : headers ≠ [] := fun h => hrows _ List.mem_cons_self (by rw [h]; rfl)
    refine ⟨hitems, hheaders, fun h hh => ?_, fun item hitem h hh => ?_, ?_⟩
    · exact readable_cellOf.mp (hcells _ List.mem_cons_self _ (List.mem_map_of_mem hh))
    · refine readable_cellOf.mp (hcells _ (List.mem_cons_of_mem _ (List.mem_map_of_mem hitem)) _ ?_)
      exact List.mem_map_of_mem hh
    · rintro item hitem h rfl hempty
      have hcell := hline _ (hlast ▸ Option.mem_map_of_mem _ hitem)
      rw [List.map_singleton, hempty, guardFormula_eq_empty.mpr rfl] at hcell
      cases hcell
  · rintro ⟨-, hheaders, hheader, hcell, hempty⟩
    refine ⟨List.forall_mem_cons.mpr ⟨by simpa using hheaders, ?_⟩,
      List.forall_mem_cons.mpr ⟨?_, ?_⟩, ?_⟩
    · intro cells hcells
      obtain ⟨item, -, rfl⟩ := List.mem_map.mp hcells
      simpa using hheaders
    · intro c hc
      obtain ⟨h, hh, rfl⟩ := List.mem_map.mp hc
      exact readable_cellOf.mpr (hheader h hh)
    · intro cells hcells c hc
      obtain ⟨item, hitem, rfl⟩ := List.mem_map.mp hcells
      obtain ⟨h, hh, rfl⟩ := List.mem_map.mp hc
      exact readable_cellOf.mpr (hcell item hitem h hh)
    · intro cells hcells
      rw [hlast] at hcells
      obtain ⟨item, hitem, rfl⟩ := Option.map_eq_some_iff.mp hcells
      obtain ⟨h, headers, rfl⟩ := List.exists_cons_of_ne_nil hheaders
      cases headers with
      | nil =>
        have hne := hempty item hitem h rfl
        have hguard := mt guardFormula_eq_empty.mp hne
        rw [List.map_singleton, isEmptyLine, cellOf, List.isEmpty_eq_false_iff]
        exact fun hnil => hguard (String.toList_eq_nil_iff.mp hnil)
      | cons h' headers => rfl

/-! ## The two writers -/

theorem contains_guardFormula {ch : Char} (h : ch ≠ '\'') (s : String) :
    (guardFormula s).toList.contains ch = s.toList.contains ch := by
  unfold guardFormula
  split
  · simp [h]
  · rfl

theorem needsQuotes_guardFormula (s : String) : needsQuotes (guardFormula s) = needsQuotes s := by
  unfold needsQuotes
  rw [contains_guardFormula (by decide), contains_guardFormula (by decide),
    contains_guardFormula (by decide)]

namespace ExportService

/-- A header of the method is quoted if it has a comma. -/
def HeaderReadBack (h : String) : Prop := h.toList.contains ',' = true ∨ HasPlainText h

/-- A cell of the method is quoted if it needs it and is not guarded. -/
def CellReadBack (s : String) : Prop :=
  (!startsFormula s.toList && needsQuotes s) = true ∨ HasPlainText s

theorem toList_toCsv [JsNumber N] {items : List (Record N)} (h : items ≠ []) :
    (toCsv items).toList = render (cellTable (fun h => h.toList.contains ',')
      (fun s => !startsFormula s.toList && needsQuotes s) (firstKeys items) items) := by
  rw [toCsv, if_neg (by simpa using h)]
  refine toList_intercalate_rows (fun h => ?_) (fun val => ?_)
  · rw [encode_cellOf, csvHeader, contains_guardFormula (by decide)]
  · rw [encode_cellOf]
    unfold csvCell cellText guardFormula
    by_cases hnull : val.isNullish = true
    · rw [if_pos hnull, if_pos hnull]
      rfl
    · rw [if_neg hnull, if_neg hnull]
      by_cases hformula : startsFormula val.toStr.toList = true
      · simp [hformula]
      · simp [hformula]

/-- What the method writes is read back, up to the guard, if and only if its headers without a
comma and its guarded or unquoted cells are plain, there is a row and a header, and the last row is
not a single empty cell. -/
theorem parseCsvRows_toCsv_iff [JsNumber N] (items : List (Record N)) :
    parseCsvRows (toCsv items) = guardedRows (firstKeys items) items ↔
      ReadBack HeaderReadBack CellReadBack (firstKeys items) items := by
  by_cases h : items = []
  · subst h
    refine ⟨fun h => ?_, fun h => absurd rfl h.some_item⟩
    cases h
  · rw [parseCsvRows_eq_iff (toList_toCsv h) (map_toList_guardedRows _ _ _ _),
      survives_cellTable h]
    exact Iff.rfl

end ExportService

/-- A cell of the function is quoted if it needs it. -/
def CellReadBack (s : String) : Prop := needsQuotes s = true ∨ HasPlainText s

theorem toList_toCsv [JsNumber N] {rows : List (Record N)} (h : rows ≠ [])
    (excludeFields : List String) (fieldFilter : Option (List String)) :
    (toCsv rows excludeFields fieldFilter).toList =
      render (cellTable (fun _ => false) needsQuotes (csvHeaders rows excludeFields fieldFilter)
        rows) := by
  rw [toCsv, if_neg (by simpa using h)]
  refine toList_intercalate_rows (fun h => ?_) (fun val => ?_)
  · rw [encode_cellOf, if_neg Bool.false_ne_true]
  · rw [encode_cellOf]
    unfold csvCell cellText
    by_cases hnull : val.isNullish = true
    · rw [if_pos hnull, if_pos hnull]
      rfl
    · rw [if_neg hnull, if_neg hnull]
      simp only [needsQuotes_guardFormula]

/-- What the function writes is read back, up to the guard, if and only if its headers and its
unquoted cells are plain, there is a row and a header, and the last row is not a single empty
cell. -/
theorem parseCsvRows_toCsv_iff [JsNumber N] (rows : List (Record N)) (excludeFields : List String)
    (fieldFilter : Option (List String)) :
    parseCsvRows (toCsv rows excludeFields fieldFilter) =
        guardedRows (csvHeaders rows excludeFields fieldFilter) rows ↔
      ReadBack HasPlainText CellReadBack (csvHeaders rows excludeFields fieldFilter) rows := by
  by_cases h : rows = []
  · subst h
    refine ⟨fun h => ?_, fun h => absurd rfl h.some_item⟩
    cases h
  · rw [parseCsvRows_eq_iff (toList_toCsv h _ _) (map_toList_guardedRows _ _ _ _),
      survives_cellTable h]
    simp only [Bool.false_eq_true, false_or]
    exact Iff.rfl

/-- The CSV writers against the parser of the imports. -/
theorem csv_readBack_iff [JsNumber N] (items : List (Record N)) (excludeFields : List String)
    (fieldFilter : Option (List String)) :
    (parseCsvRows (ExportService.toCsv items) = guardedRows (firstKeys items) items ↔
      ReadBack ExportService.HeaderReadBack ExportService.CellReadBack (firstKeys items) items) ∧
    (parseCsvRows (toCsv items excludeFields fieldFilter) =
        guardedRows (csvHeaders items excludeFields fieldFilter) items ↔
      ReadBack HasPlainText CellReadBack (csvHeaders items excludeFields fieldFilter) items) :=
  ⟨ExportService.parseCsvRows_toCsv_iff items,
    parseCsvRows_toCsv_iff items excludeFields fieldFilter⟩

/-- A note that starts with an equals sign and has a comma. -/
def formulaNote : List (Record (Option Int)) := [[("note", .str "=1,2")]]

/-- A note with a carriage return. -/
def returnNote : List (Record (Option Int)) := [[("note", .str "a\rb")]]

/-- The method's guarded note becomes two cells, and the function's note loses its return. -/
theorem not_csv_readBack :
    parseCsvRows (ExportService.toCsv formulaNote) ≠
        guardedRows (firstKeys formulaNote) formulaNote ∧
      parseCsvRows (toCsv returnNote [] none) ≠
        guardedRows (csvHeaders returnNote [] none) returnNote := by
  constructor
  · intro h
    have hcell := ((ExportService.parseCsvRows_toCsv_iff _).mp h).cell _ List.mem_cons_self "note"
      List.mem_cons_self
    obtain hquoted | hplain := hcell
    · exact absurd hquoted (by decide)
    · exact (hplain ',' (by decide)).2.1 rfl
  · intro h
    have hcell := ((parseCsvRows_toCsv_iff _ _ _).mp h).cell _ List.mem_cons_self "note"
      List.mem_cons_self
    obtain hquoted | hplain := hcell
    · exact absurd hquoted (by decide)
    · exact (hplain '\r' (by decide)).2.2.2 rfl

end HeadlessErp
