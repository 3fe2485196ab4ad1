import HeadlessErp.Entity.GenericWrite

/-!
# The value of a column

What a property of a document is in the column of its name: converted by `splitRowData`
(`columnValue`), encrypted where the field is (`encryptValue`), and as the table gives it back. The
columns of the engine and of the stored formulas lie beside those of the payload, so the passes that
add them leave it alone.
-/

namespace HeadlessErp

section
variable {N : Type} [JsNumber N] {info : CollectionInfo N}

/-- What `splitRowData` makes of the value of a property that has a column. -/
def columnValue (P : Platform N) (fields : List (FieldDefinition N)) (key : String) (v : JsVal N) :
    Except ApiError (JsVal N) :=
  match schemaType fields key with
  | some fieldType => do
    let coerced ← coerceValue v fieldType
    .ok (if fieldType = .textEditor || fieldType = .markdown then P.sanitizeHtml coerced
      else coerced)
  | none => .ok v

/-- The value of a property in the column of its name. -/
def storedValue (P : Platform N) (fields : List (FieldDefinition N)) (T : Storage N) (key : String)
    (v : JsVal N) : Except ApiError (JsVal N) := do
  let value ← columnValue P fields key v
  .ok (T.store key (encryptValue P fields key value))

/-! ## `splitRowData` -/

omit [JsNumber N] in
/-- A column of the payload is no column of the engine. -/
theorem not_mem_systemFields {key : String} (hkey : storesColumn info key = true) :
    key ∉ systemFields := by
  unfold storesColumn at hkey
  simpa using (Bool.and_eq_true_iff.1 hkey).1

/-- A property that has a column. -/
theorem splitEntry_of_storesColumn {P : Platform N} {acc acc' : Record N × Record N} {key : String}
    {v : JsVal N} (hkey : storesColumn info key = true)
    (h : splitEntry P info.schemaFields acc (key, v) = .ok acc') :
    ∃ value, columnValue P info.schemaFields key v = .ok value ∧ acc'.1 = acc.1.set key value := by
  unfold storesColumn at hkey
  obtain ⟨hsystem, hcolumn⟩ := Bool.and_eq_true_iff.1 hkey
  have hsystem : systemFields.contains key = false := by simpa using hsystem
  simp only [splitEntry, hsystem, Bool.false_eq_true, if_false] at h
  unfold columnValue
  cases htype : schemaType info.schemaFields key with
  | some fieldType =>
    rw [htype] at h hcolumn
    have hvirtual : [FieldType.o2m, .m2m, .table, .formula].contains fieldType = false := by
      simpa using hcolumn
    simp only [hvirtual, Bool.false_eq_true, if_false] at h
    obtain ⟨coerced, hcoerced, h⟩ := exists_of_bind_eq_ok h
    cases h
    refine ⟨_, ?_, rfl⟩
    simp only [hcoerced]
    rfl
  | none =>
    rw [htype] at h hcolumn
    have hm2a : (m2aColumns info.schemaFields).contains key = true := hcolumn
    simp only [hm2a, if_true] at h
    cases h
    exact ⟨v, rfl, rfl⟩

/-- A property leaves the columns of other names. -/
theorem get?_splitEntry_of_ne {P : Platform N} {fields : List (FieldDefinition N)}
    {acc acc' : Record N × Record N} {kv : String × JsVal N} {key : String} (hne : kv.1 ≠ key)
    (h : splitEntry P fields acc kv = .ok acc') : acc'.1.get? key = acc.1.get? key := by
  obtain ⟨name, value⟩ := kv
  have hset (v : JsVal N) : (acc.1.set name v).get? key = acc.1.get? key := by
    rw [Record.get?_set, if_neg hne]
  simp only [splitEntry] at h
  split at h
  · cases h
    rfl
  · split at h
    · split at h
      · cases h
        rfl
      · obtain ⟨coerced, -, h⟩ := exists_of_bind_eq_ok h
        cases h
        exact hset _
    · split at h
      · cases h
        exact hset _
      · cases h
        rfl

/-- The column of a name that no property has. -/
theorem get?_foldlM_splitEntry_of_not_has {P : Platform N} {body : Record N}
    {acc acc' : Record N × Record N} {key : String} (hbody : key ∉ body.map (·.1))
    (h : body.foldlM (splitEntry P info.schemaFields) acc = .ok acc') :
    acc'.1.get? key = acc.1.get? key := by
  refine foldlM_invariant (I := fun acc' => acc'.1.get? key = acc.1.get? key) h rfl
    fun acc₁ kv acc₂ hkv hacc hstep => ?_
  have hne : kv.1 ≠ key := fun hname => hbody (hname ▸ List.mem_map_of_mem hkv)
  rw [get?_splitEntry_of_ne hne hstep, hacc]

/-- The column of a property of a document of distinct names. -/
theorem get?_foldlM_splitEntry {P : Platform N} {body : Record N} {acc acc' : Record N × Record N}
    {key : String} {v : JsVal N} (hnames : (body.map (·.1)).Nodup)
    (hkey : storesColumn info key = true)
    (h : body.foldlM (splitEntry P info.schemaFields) acc = .ok acc') (hv : body.get? key = some v) :
    ∃ value, columnValue P info.schemaFields key v = .ok value ∧ acc'.1.get? key = some value := by
  induction body generalizing acc with
  | nil => cases hv
  | cons kv body ih =>
    rw [List.foldlM_cons] at h
    obtain ⟨acc₁, h₁, h⟩ := exists_of_bind_eq_ok h
    rw [List.map_cons, List.nodup_cons] at hnames
    rw [Record.get?_cons] at hv
    by_cases hname : kv.1 = key
    · subst hname
      rw [if_pos rfl] at hv
      cases hv
      obtain ⟨value, hvalue, hset⟩ := splitEntry_of_storesColumn hkey h₁
      refine ⟨value, hvalue, ?_⟩
      rw [get?_foldlM_splitEntry_of_not_has hnames.1 h, hset, Record.get?_set, if_pos rfl]
    · rw [if_neg hname] at hv
      exact ih hnames.2 h hv

/-- No column is filled in for a property that is there. -/
theorem get?_fillField {P : Platform N} {body columns : Record N} {key : String}
    (hbody : body.has key = true) (hcolumns : columns.has key = true) (f : FieldDefinition N) :
    (fillField P body columns f).get? key = columns.get? key := by
  by_cases hname : f.name = key
  · subst hname
    unfold fillField
    cases f.source with
    | none => simp [hcolumns]
    | some source => simp [hbody, hcolumns]
  · exact fillField_of_ne hname

/-- Filling in leaves the column of a property that is there. -/
theorem get?_foldl_fillField {P : Platform N} {body columns : Record N} {key : String}
    (hbody : body.has key = true) {v : JsVal N} (hcolumns : columns.get? key = some v)
    (fields : List (FieldDefinition N)) :
    (fields.foldl (fillField P body) columns).get? key = some v :=
  foldl_invariant (I := fun columns : Record N => columns.get? key = some v) hcolumns
    fun columns f _ h => by
      rw [get?_fillField hbody (by rw [Record.has_eq_isSome, h]; rfl), h]

/-- The column of a property of a document. -/
theorem get?_splitRowData {P : Platform N} {body columns rest : Record N} {key : String}
    {v : JsVal N} (hnames : (body.map (·.1)).Nodup) (hkey : storesColumn info key = true)
    (h : splitRowData P body info.schemaFields = .ok (columns, rest)) (hv : body.get? key = some v) :
    ∃ value, columnValue P info.schemaFields key v = .ok value ∧ columns.get? key = some value := by
  obtain ⟨⟨columns₀, rest₀⟩, hloop, h⟩ := exists_of_bind_eq_ok h
  cases h
  obtain ⟨value, hvalue, hcolumn⟩ := get?_foldlM_splitEntry hnames hkey hloop hv
  have hmeta : "_meta" ≠ key := fun h => not_mem_systemFields hkey (h ▸ List.mem_cons_self)
  have hbody : body.has key = true := by rw [Record.has_eq_isSome, hv]; rfl
  refine ⟨value, hvalue, ?_⟩
  rw [Record.get?_set, if_neg hmeta]
  exact get?_foldl_fillField hbody hcolumn _

/-! ## The passes around it -/

omit [JsNumber N] in
/-- Without its child rows a document has the other properties as they are. -/
theorem get?_extractChildData {body : Record N} {fields : List (FieldDefinition N)} {key : String}
    (hkey : ∀ f ∈ fields, f.type = .table → f.name ≠ key) :
    (extractChildData body fields).1.get? key = body.get? key := by
  unfold extractChildData
  refine foldl_invariant (I := fun acc : Record N × List (String × List (JsVal N)) =>
    acc.1.get? key = body.get? key) rfl fun acc f hf hacc => ?_
  obtain ⟨hf, htable⟩ := List.mem_filter.1 hf
  obtain ⟨clean, children⟩ := acc
  simp only
  split
  · rw [Record.get?_erase, if_neg (hkey f hf (of_decide_eq_true htable)), hacc]
  · exact hacc

omit [JsNumber N] in
/-- Distinct names stay distinct. -/
theorem nodup_extractChildData {body : Record N} (fields : List (FieldDefinition N))
    (hnames : (body.map (·.1)).Nodup) : ((extractChildData body fields).1.map (·.1)).Nodup := by
  unfold extractChildData
  refine foldl_invariant (I := fun acc : Record N × List (String × List (JsVal N)) =>
    (acc.1.map (·.1)).Nodup) (b := (body, [])) hnames fun acc f _ hacc => ?_
  obtain ⟨clean, children⟩ := acc
  simp only
  split
  · exact hacc.sublist (List.filter_sublist.map _)
  · exact hacc

omit [JsNumber N] in
/-- A stored formula is not a column of the payload. -/
theorem get?_eq_none_of_storesColumn (hfields : (info.schemaFields.map (·.name)).Nodup)
    {computed : Record N}
    (hcomputed : ∀ kv ∈ computed, ∃ f ∈ info.schemaFields, f.isStored ∧ f.name = kv.1)
    {key : String} (hkey : storesColumn info key = true) : computed.get? key = none := by
  refine Record.get?_eq_none fun kv hkv hname => ?_
  obtain ⟨f, hf, hstored, hfname⟩ := hcomputed kv hkv
  unfold storesColumn at hkey
  rw [← hname, ← hfname, schemaType_eq_some hfields hf] at hkey
  unfold FieldDefinition.isStored at hstored
  simp only [Bool.and_eq_true, decide_eq_true_eq] at hstored
  simp [hstored.1.1] at hkey

/-- A column of the payload in an UPDATE. -/
theorem get?_updateData {c : UpdateCall N info} {p : Prepared N} {now : IsoTime} {key : String}
    (hkey : key ∉ systemFields) : (updateData c p now).get? key = p.columns.get? key := by
  have hstatus : "doc_status" ≠ key := fun h => hkey (h ▸ by decide)
  have huser : "updated_by" ≠ key := fun h => hkey (h ▸ by decide)
  have hbase : (p.columns.assign [("_meta", .str p.metaText), ("updated_at", .str now.text)]).get?
      key = p.columns.get? key := by
    rw [Record.get?_assign, Record.get?_cons, if_neg fun h : "_meta" = key => hkey (h ▸ by decide),
      Record.get?_cons, if_neg fun h : "updated_at" = key => hkey (h ▸ by decide)]
    rfl
  unfold updateData
  simp only
  rw [get?_ite_set huser, get?_ite_set hstatus, hbase]

end

end HeadlessErp
