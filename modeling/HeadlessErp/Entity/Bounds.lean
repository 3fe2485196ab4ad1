import HeadlessErp.Entity.RuleMutations
import HeadlessErp.Storage.Codec

/-!
# The bounds of fields

`min`, `max` and `max_length` of a field are checked on the values of the document
(`validateFieldConstraints`), which `splitRowData` converts afterwards. The row is within the bounds
just when no value that is converted, or that the check does not see, breaks them
(`BoundedWrite.withinBounds_iff`).
-/

namespace HeadlessErp

/-- A field with its bounds. -/
structure BoundedField (N : Type) extends FieldDefinition N where
  min : Option N := none
  max : Option N := none
  maxLength : Option N := none

section
variable {N : Type} [JsNumber N]

/-! ## The checks -/

namespace BoundedField
variable (f : BoundedField N)

/-- A bound of a field, where it has one. -/
def assertBound (bound : Option N) (broken : N → Bool) (message : String) : Except ApiError Unit :=
  match bound.filter broken with
  | some bound =>
    .error (.validation ("\"" ++ f.name ++ "\" " ++ message ++ " " ++ JsNumber.toString bound)
      (some f.name))
  | none => .ok ()

/-- The checks of `validateFieldConstraints` that need no query, on the value of a field. -/
def check : JsVal N → Except ApiError Unit
  | .num n => do
    f.assertBound f.min (JsNumber.lt n) "must be >="
    f.assertBound f.max (JsNumber.lt · n) "must be <="
  | .str s =>
    f.assertBound f.maxLength (JsNumber.lt · (JsNumber.ofInt (jsLength s)))
      "exceeds maximum length of"
  | _ => .ok ()

/-- A stored value is within the bounds. -/
def Allows : JsVal N → Prop
  | .num n =>
    (∀ bound, f.min = some bound → JsNumber.lt n bound = false) ∧
      ∀ bound, f.max = some bound → JsNumber.lt bound n = false
  | .str s =>
    ∀ bound, f.maxLength = some bound → JsNumber.lt bound (JsNumber.ofInt (jsLength s)) = false
  | _ => True

variable {f}

theorem assertBound_eq_ok {bound : Option N} {broken : N → Bool} {message : String}
    (h : f.assertBound bound broken message = .ok ()) :
    ∀ b, bound = some b → broken b = false := by
  intro b hb
  subst hb
  unfold assertBound at h
  cases hbroken : broken b with
  | false => rfl
  | true =>
    rw [Option.filter_some, if_pos hbroken] at h
    cases h

theorem allows_of_check {v : JsVal N} (h : f.check v = .ok ()) : f.Allows v := by
  cases v with
  | num n =>
    obtain ⟨_, hmin, hmax⟩ := exists_of_bind_eq_ok h
    exact ⟨assertBound_eq_ok hmin, assertBound_eq_ok hmax⟩
  | str s => exact assertBound_eq_ok h
  | undefined | null | bool | arr | obj | func => trivial

end BoundedField

/-- `validateFieldConstraints`. `unique` are the queries. -/
def validateFieldConstraints (fields : List (BoundedField N))
    (unique : Record N → Except ApiError Unit) (userData : Record N) : Except ApiError Unit := do
  let _ ← fields.mapM fun f => f.check (userData.get f.name)
  unique userData

theorem allows_of_validateFieldConstraints {fields : List (BoundedField N)}
    {unique : Record N → Except ApiError Unit} {userData : Record N}
    (h : validateFieldConstraints fields unique userData = .ok ()) :
    ∀ f ∈ fields, f.Allows (userData.get f.name) := by
  obtain ⟨answers, hchecks, -⟩ := exists_of_bind_eq_ok h
  intro f hf
  obtain ⟨⟨⟩, hcheck⟩ := ok_of_mapM_eq_ok hchecks f hf
  exact BoundedField.allows_of_check hcheck

/-! ## Values that are stored as they are given -/

/-- The values that a column of a type holds as they are given. -/
def FieldType.Takes (C : ColumnStore N) (t : FieldType) : JsVal N → Prop
  | .num n => t = .number ∨ (t.isNumericText = true ∧ ReadsBack n) ∨
      (t = .integer ∧ JsNumber.isNaN n = false ∧ JsNumber.math "floor" [n] = n)
  | .str s =>
    if t.isNumericText = true then C.numeric s = none
    else t.affinity = some .text ∧ t ≠ .textEditor ∧ t ≠ .markdown
  | _ => False

/-- The conversion leaves them alone, as far as the column can tell. -/
theorem keep_of_takes {C : ColumnStore N} {t : FieldType} {v w : JsVal N} (htakes : t.Takes C v)
    (h : coerceValue v t = .ok w) :
    t ≠ .textEditor ∧ t ≠ .markdown ∧ ∃ a, t.affinity = some a ∧ a.keep C w = v := by
  have hnumeric : t.isNumericText = true → v.isNullish = false → t ≠ .textEditor ∧ t ≠ .markdown ∧
      w = .str v.toStr ∧ ∃ a, t.affinity = some a ∧ ∀ s, a.keep C (.str s) =
        ((C.numeric s).map JsVal.num).getD (.str s) := by
    intro ht hv
    have hw := coerceValue_text (.inr ht) hv h
    cases t <;> first
      | exact ⟨by decide, by decide, hw, _, rfl, fun _ => rfl⟩
      | cases ht
  cases v with
  | num n =>
    rcases htakes with rfl | ⟨ht, hn⟩ | ⟨rfl, hnan, hfloor⟩
    · refine ⟨by decide, by decide, _, rfl, ?_⟩
      simp only [coerceValue, JsVal.isNullish, Bool.false_eq_true, if_false] at h
      split at h
      · cases h
      · cases h
        rfl
    · obtain ⟨heditor, hmarkdown, rfl, a, ha, hkeep⟩ := hnumeric ht rfl
      refine ⟨heditor, hmarkdown, a, ha, ?_⟩
      rw [hkeep, JsVal.toStr, C.numeric_toString n hn]
      rfl
    · refine ⟨by decide, by decide, _, rfl, ?_⟩
      have hcoerced : coerceValue (.num n) .integer = .ok (.num n) := by
        simp only [coerceValue, JsVal.isNullish, JsVal.toNum, hnan, hfloor, Bool.false_eq_true,
          if_false]
      cases hcoerced.symm.trans h
      rfl
  | str s =>
    rw [FieldType.Takes] at htakes
    split at htakes
    · next ht =>
      obtain ⟨heditor, hmarkdown, rfl, a, ha, hkeep⟩ := hnumeric ht rfl
      refine ⟨heditor, hmarkdown, a, ha, ?_⟩
      rw [hkeep, JsVal.toStr, htakes]
      rfl
    · obtain ⟨haffinity, heditor, hmarkdown⟩ := htakes
      refine ⟨heditor, hmarkdown, _, haffinity, ?_⟩
      have hw : w = .str s := by
        by_cases hjson : t = .json
        · subst hjson
          cases h
          rfl
        · exact coerceValue_text (.inl ⟨hjson, haffinity⟩) rfl h
      rw [hw]
      rfl
  | undefined | null | bool | arr | obj | func => cases htakes

/-- They are stored as they are given, unless the field is encrypted. -/
theorem storedValue_of_takes {P : Platform N} {T : Storage N} {C : ColumnStore N}
    {fields : List (FieldDefinition N)} (hnames : (fields.map (·.name)).Nodup)
    {f : FieldDefinition N} (hf : f ∈ fields) (hencrypted : f.encrypted = false)
    (hstore : ∀ a, f.type.affinity = some a → ∀ v, T.store f.name v = a.keep C v) {v w : JsVal N}
    (htakes : f.type.Takes C v) (h : storedValue P fields T f.name v = .ok w) : w = v := by
  have hplain : ∀ u, encryptValue P fields f.name u = u := by
    intro u
    rw [encryptValue, if_neg]
    intro hany
    obtain ⟨g, hg, hgf⟩ := List.any_eq_true.1 hany
    obtain ⟨henc, hname⟩ := Bool.and_eq_true_iff.1 hgf
    obtain rfl : g = f := List.inj_on_of_nodup_map hnames hg hf (eq_of_beq hname)
    rw [hencrypted] at henc
    cases henc
  obtain ⟨u, hu, h⟩ := exists_of_bind_eq_ok h
  cases h
  rw [columnValue, schemaType_eq_some hnames hf] at hu
  obtain ⟨coerced, hcoerced, hu⟩ := exists_of_bind_eq_ok hu
  obtain ⟨heditor, hmarkdown, a, ha, hkeep⟩ := keep_of_takes htakes hcoerced
  simp only [heditor, hmarkdown, decide_false, Bool.or_false, Bool.false_eq_true, if_false] at hu
  cases hu
  rw [hplain, hstore a ha, hkeep]

/-! ## Writes -/

/-- The value that a write leaves in a column: the one the document gives, or what the column is
filled with (a slug, a drawn uuid), or what the row had. -/
def writtenValue (P : Platform N) (fields : List (FieldDefinition N)) (T : Storage N)
    (document base : Record N) (key : String) : Except ApiError (JsVal N) :=
  match document.get? key with
  | some v => storedValue P fields T key v
  | none => do
    let (columns, _) ← splitRowData P (extractChildData document fields).1 fields
    let filled := (columns.get? key).map fun v => T.store key (encryptValue P fields key v)
    .ok ((filled.or (base.get? key)).getD .undefined)

/-- What a create and an update that store a row have in common: the document whose values are
checked, the one that the columns are taken from, and the row before and after. The row before a
create is the one of an INSERT that names no column. -/
structure BoundedWrite (N : Type) [JsNumber N] (info : CollectionInfo N) where
  platform : Platform N
  storage : Storage N
  columns : ColumnStore N
  fields : List (BoundedField N)
  checked : Record N
  document : Record N
  base : Record N
  row : Record N
  fieldNames : (info.schemaFields.map (·.name)).Nodup
  schema : info.schemaFields = fields.map (·.toFieldDefinition)
  stores : ∀ f ∈ fields, ∀ a, f.type.affinity = some a →
    ∀ v, storage.store f.name v = a.keep columns v
  allowed : ∀ f ∈ fields, f.Allows (checked.get f.name)
  written : ∀ key, storesColumn info key = true →
    writtenValue platform info.schemaFields storage document base key = .ok (row.get key)

namespace BoundedWrite
variable {info : CollectionInfo N} (w : BoundedWrite N info)

/-- The row is within the bounds of its fields. -/
def WithinBounds : Prop :=
  ∀ f ∈ w.fields, storesColumn info f.name = true → f.Allows (w.row.get f.name)

/-- The value of the field is stored as it was checked: nothing has changed it since, and the column
takes it as it is. -/
structure Settled (f : BoundedField N) : Prop where
  given : (w.document.get? f.name).isSome = true
  unchanged : w.document.get f.name = w.checked.get f.name
  plain : f.encrypted = false
  takes : f.type.Takes w.columns (w.checked.get f.name)

/-- The values that are not stored as they were checked become values within the bounds. -/
def ConvertsWithin : Prop :=
  ∀ f ∈ w.fields, storesColumn info f.name = true → ¬w.Settled f →
    ∀ v, writtenValue w.platform info.schemaFields w.storage w.document w.base f.name = .ok v →
      f.Allows v

theorem allows_of_settled {f : BoundedField N} (hf : f ∈ w.fields)
    (hkey : storesColumn info f.name = true) (h : w.Settled f) : f.Allows (w.row.get f.name) := by
  have hmem : f.toFieldDefinition ∈ info.schemaFields := by
    rw [w.schema]
    exact List.mem_map_of_mem hf
  obtain ⟨v, hv⟩ := Option.isSome_iff_exists.1 h.given
  have hchecked : w.checked.get f.name = v := by
    rw [← h.unchanged, Record.get_eq, hv]
    rfl
  have hwritten := w.written f.name hkey
  rw [writtenValue, hv] at hwritten
  have htakes := h.takes
  rw [hchecked] at htakes
  rw [storedValue_of_takes w.fieldNames hmem h.plain (w.stores f hf) htakes hwritten, ← hchecked]
  exact w.allowed f hf

theorem withinBounds_iff : w.WithinBounds ↔ w.ConvertsWithin := by
  constructor
  · intro h f hf hkey _ v hv
    cases (w.written f.name hkey).symm.trans hv
    exact h f hf hkey
  · intro h f hf hkey
    by_cases hsettled : w.Settled f
    · exact w.allows_of_settled hf hkey hsettled
    · exact h f hf hkey hsettled _ (w.written f.name hkey)

end BoundedWrite

/-! ## Creates and updates -/

variable {info : CollectionInfo N}

/-- The row that a write leaves, from the columns it takes from the document. -/
theorem writtenValue_eq {P : Platform N} {T : Storage N} {document base row columns rest : Record N}
    (hfields : (info.schemaFields.map (·.name)).Nodup) (hnames : (document.map (·.1)).Nodup)
    {key : String} (hkey : storesColumn info key = true)
    (hsplit : splitRowData P (extractChildData document info.schemaFields).1 info.schemaFields =
      .ok (columns, rest))
    (hrow : row.get? key = ((columns.get? key).map fun value =>
      T.store key (encryptValue P info.schemaFields key value)).or (base.get? key)) :
    writtenValue P info.schemaFields T document base key = .ok (row.get key) := by
  rw [writtenValue, Record.get_eq]
  cases hgiven : document.get? key with
  | none =>
    rw [hsplit, hrow]
    rfl
  | some v =>
    have hclean : (extractChildData document info.schemaFields).1.get? key = some v := by
      rw [get?_extractChildData fun _ hf htable => ne_of_storesColumn hfields hkey hf htable,
        hgiven]
    obtain ⟨value, hvalue, hcolumn⟩ := get?_splitRowData
      (nodup_extractChildData info.schemaFields hnames) hkey hsplit hclean
    rw [hrow, hcolumn]
    simp only [storedValue, hvalue]
    rfl

/-- An update that reaches the database has passed the constraints. -/
theorem constraints_of_checkUpdate {slug : String} {c : UpdateCall N info} {existing : Record N}
    {found : Option (Record N)} {p : Prepared N} (h : checkUpdate slug c existing found = .ok p) :
    c.constraints p.document = .ok () := by
  unfold checkUpdate prepareUpdate at h
  obtain ⟨_, -, h⟩ := exists_of_bind_eq_ok h
  obtain ⟨_, -, h⟩ := exists_of_bind_eq_ok h
  obtain ⟨⟨newStatus, data⟩, -, h⟩ := exists_of_bind_eq_ok h
  obtain ⟨_, -, h⟩ := exists_of_bind_eq_ok h
  simp only at h
  split at h
  · cases h
  · obtain ⟨document, -, h⟩ := exists_of_bind_eq_ok h
    obtain ⟨_, hconstraints, h⟩ := exists_of_bind_eq_ok h
    obtain ⟨⟨columns, rest⟩, -, h⟩ := exists_of_bind_eq_ok h
    obtain ⟨_, -, h⟩ := exists_of_bind_eq_ok h
    obtain ⟨_, -, h⟩ := exists_of_bind_eq_ok h
    obtain ⟨_, -, h⟩ := exists_of_bind_eq_ok h
    obtain ⟨_, -, h⟩ := exists_of_bind_eq_ok h
    cases h
    exact hconstraints

/-- A `createItem` that has stored a row of a collection with bounds. -/
structure BoundedCreate (N : Type) [JsNumber N] (info : CollectionInfo N)
    extends RuledCreate N info where
  fields : List (BoundedField N)
  columns : ColumnStore N
  required : Record N → Except ApiError Unit
  unique : Record N → Except ApiError Unit
  references : Record N → Except ApiError Unit
  schema : info.schemaFields = fields.map (·.toFieldDefinition)
  stores : ∀ f ∈ fields, ∀ a, f.type.affinity = some a →
    ∀ v, storage.store f.name v = a.keep columns v
  checks : hooks.checks = fun data => do
    required data
    validateFieldConstraints fields unique data
    references data

/-- Its values are checked before the hooks. -/
def BoundedCreate.write (c : BoundedCreate N info) : BoundedWrite N info where
  platform := c.call.platform
  storage := c.storage
  columns := c.columns
  fields := c.fields
  checked := c.payload
  document := c.document
  base := c.blank
  row := c.row
  fieldNames := c.fieldNames
  schema := c.schema
  stores := c.stores
  allowed := by
    have htransformed := c.transformed
    rw [c.hooked] at htransformed
    obtain ⟨_, hchecks, -⟩ := exists_of_bind_eq_ok htransformed
    rw [c.checks] at hchecks
    obtain ⟨_, -, hchecks⟩ := exists_of_bind_eq_ok hchecks
    obtain ⟨_, hconstraints, -⟩ := exists_of_bind_eq_ok hchecks
    exact allows_of_validateFieldConstraints hconstraints
  written := fun key hkey => by
    obtain ⟨columns, rest, hsplit, hrow⟩ := c.toRuledCreate.get?_row hkey
    exact writtenValue_eq c.fieldNames c.names hkey hsplit hrow

/-- An `updateItem` that has stored a row of a collection with bounds. -/
structure BoundedUpdate (N : Type) [JsNumber N] (info : CollectionInfo N)
    extends RuledUpdate N info where
  fields : List (BoundedField N)
  columns : ColumnStore N
  unique : Record N → Except ApiError Unit
  schema : info.schemaFields = fields.map (·.toFieldDefinition)
  stores : ∀ f ∈ fields, ∀ a, f.type.affinity = some a →
    ∀ v, storage.store f.name v = a.keep columns v
  constraints : call.constraints = validateFieldConstraints fields unique

/-- Its values are checked after the hooks. -/
def BoundedUpdate.write (u : BoundedUpdate N info) : BoundedWrite N info where
  platform := u.call.platform
  storage := u.storage
  columns := u.columns
  fields := u.fields
  checked := u.prepared.document
  document := u.prepared.document
  base := u.existing
  row := u.row
  fieldNames := u.fieldNames
  schema := u.schema
  stores := u.stores
  allowed := by
    have hconstraints := constraints_of_checkUpdate u.checked
    rw [u.constraints] at hconstraints
    exact allows_of_validateFieldConstraints hconstraints
  written := fun key hkey => by
    obtain ⟨columns, rest, hsplit, hrow⟩ := u.toRuledUpdate.get?_row hkey
    exact writtenValue_eq u.fieldNames u.names hkey hsplit hrow

end

/-! ## An invoice without an amount -/

/-- An amount of at least one. -/
def amountField : BoundedField (Option Int) where
  name := "amount"
  type := .number
  required := some false
  min := some (some 1)

/-- Invoices have an amount. -/
def invoiceAmounts : CollectionInfo (Option Int) where
  tableName := "cms_invoices"
  schemaFields := [amountField.toFieldDefinition]
  fields_user := by decide

/-- The table of invoices. -/
def invoiceStorage : Storage (Option Int) where
  store column v := if column = "amount" then ColumnAffinity.real.keep integerColumns v else v
  rejects _ := false
  store_text column hcolumn s := by
    have hne : column ≠ "amount" := by
      rintro rfl
      exact absurd hcolumn (by decide)
    rw [if_neg hne]

/-- The checks of invoices. -/
def invoiceHooks : CreateHooks (Option Int) where
  checks := fun data => do
    pure ()
    validateFieldConstraints [amountField] (fun _ => .ok ()) data
    pure ()
  validateRules := []
  pluginValidate _ := .ok ()
  beforeInsertRules := []
  transform := .ok

theorem now_ne_empty : "now" ≠ "" := by decide

/-- A form that leaves the amount empty. -/
def emptyAmount : BoundedCreate (Option Int) invoiceAmounts where
  slug := "invoices"
  id := "i1"
  storage := invoiceStorage
  blank := [("id", .null), ("amount", .null), ("_meta", .null), ("created_at", .null),
    ("updated_at", .null), ("doc_status", .null)]
  call :=
    { auth := none
      body := .obj [("amount", .str "")]
      restrictions := none
      platform := plainPlatform
      ruleEnv := { now := "", today := "", uuid := "", timestamp := JsNumber.nan,
                   globals := fun _ => none, registry := fun _ => none }
      document := invoiceHooks.document
        { now := "", today := "", uuid := "", timestamp := JsNumber.nan,
          globals := fun _ => none, registry := fun _ => none }
      computed := fun _ => []
      displayNumber := none
      computed_stored := fun _ => List.forall_mem_nil _ }
  hooks := invoiceHooks
  now := ⟨"now", now_ne_empty⟩
  payload := [("amount", .str "")]
  document := [("amount", .str "")]
  row := [("id", .str "i1"), ("amount", .num (some 0)), ("_meta", .str "\x7b\x7d"),
    ("created_at", .str "now"), ("updated_at", .str "now"), ("doc_status", .str "draft")]
  hooked := rfl
  fieldsRead := rfl
  transformed := rfl
  names := by decide
  fieldNames := by decide
  created := rfl
  fields := [amountField]
  columns := integerColumns
  required := fun _ => pure ()
  unique := fun _ => .ok ()
  references := fun _ => pure ()
  schema := rfl
  stores := List.forall_mem_singleton.2 fun a ha v => by
    cases ha
    rfl
  checks := rfl

end HeadlessErp
