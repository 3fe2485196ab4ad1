import HeadlessErp.Entity.StoredColumns

/-!
# The mutations of the server rules

The rules of `validate` and `before_insert` run before `createItem` takes the columns from the
document, so that the row holds what they assign (`RuledCreate.rulesReachRow`). `updateItem` takes the
columns first: the rules of `validate` and `before_update` change a document that is no longer
written, and the row holds what they assign only where it would anyway
(`RuledUpdate.rulesReachRow_iff`).
-/

namespace HeadlessErp

section
variable {N : Type} [JsNumber N]

/-! ## What rules assign -/

/-- The field that a rule assigns. -/
def assignedField (R : RuleEnv N) (rule : HookRule N) (doc : Record N) : Option String :=
  if rule.condition.any (fun cond => !checkCondition cond doc) then none
  else match rule.action with
    | .set target _ => if target = "" then none else some target
    | .calculate target expression =>
      if target = "" || expression = "" then none
      else match evaluateWith (ruleScope R (fun _ => none) doc) expression with
        | .ok _ => some target
        | .error _ => none
    | .abort _ _ | .clear _ => none

/-- The fields that rules assign, one after another. -/
def assignedFields (R : RuleEnv N) : List (HookRule N) → Record N → List String
  | [], _ => []
  | rule :: rules, doc =>
    (assignedField R rule doc).toList ++ assignedFields R rules (executeRule R rule doc).1

/-- The rules of a write: those of `validate`, and those of `before_insert` or `before_update`. -/
structure RuleSet (N : Type) where
  env : RuleEnv N
  validate : List (HookRule N)
  before : List (HookRule N)

namespace RuleSet

/-- The document after the rules. -/
def run (S : RuleSet N) (doc : Record N) : Except HookAbort (Record N) := do
  let doc ← executeHooks S.env S.validate doc
  executeHooks S.env S.before doc

/-- The fields that the rules assign. -/
def assigned (S : RuleSet N) (doc : Record N) : List String :=
  assignedFields S.env S.validate doc ++
    match executeHooks S.env S.validate doc with
    | .ok doc => assignedFields S.env S.before doc
    | .error _ => []

/-- A rule assigns the field, which has a column, and the rules leave it with the value. -/
structure Assigns (S : RuleSet N) (info : CollectionInfo N) (doc : Record N) (key : String)
    (v : JsVal N) : Prop where
  assigned : key ∈ S.assigned doc
  column : storesColumn info key = true
  value : ∃ ruled, S.run doc = .ok ruled ∧ ruled.get? key = some v

end RuleSet

/-- The column of the row holds the value. -/
def ContainsValue (P : Platform N) (fields : List (FieldDefinition N)) (T : Storage N)
    (row : Record N) (key : String) (v : JsVal N) : Prop :=
  ∃ value, storedValue P fields T key v = .ok value ∧ row.get? key = some value

/-! ## Creating -/

/-- What stands between the caller's fields and the columns of a new row. `checks` are those of the
required fields and the constraints; `transform` are the plugin hooks, the marketplace plugins and the
decision tables, which run after the rules. -/
structure CreateHooks (N : Type) where
  checks : Record N → Except ApiError Unit
  validateRules : List (HookRule N)
  pluginValidate : Record N → Except ApiError Unit
  beforeInsertRules : List (HookRule N)
  transform : Record N → Except ApiError (Record N)

/-- The document that `createItem` takes the columns from. -/
def CreateHooks.document (h : CreateHooks N) (R : RuleEnv N) (data : Record N) :
    Except ApiError (Record N) := do
  h.checks data
  let validated ← match executeHooks R h.validateRules data with
    | .ok doc => .ok doc
    | .error abort => .error (.validation abort.message abort.field)
  h.pluginValidate validated
  let ruled ← match executeHooks R h.beforeInsertRules validated with
    | .ok doc => .ok doc
    | .error abort => .error (.validation abort.message none)
  h.transform ruled

/-- A `createItem` that has stored a row. -/
structure RuledCreate (N : Type) [JsNumber N] (info : CollectionInfo N) where
  slug : String
  id : String
  storage : Storage N
  blank : Record N
  call : CreateCall N info
  hooks : CreateHooks N
  now : IsoTime
  payload : Record N
  document : Record N
  row : Record N
  hooked : call.document = hooks.document call.ruleEnv
  fieldsRead : createFields slug call = .ok payload
  transformed : call.document payload = .ok document
  names : (document.map (·.1)).Nodup
  fieldNames : (info.schemaFields.map (·.name)).Nodup
  created : createItem slug id storage blank call now none = .ok row

namespace RuledCreate
variable {info : CollectionInfo N}

/-- The rules of a create. -/
def rules (c : RuledCreate N info) : RuleSet N :=
  ⟨c.call.ruleEnv, c.hooks.validateRules, c.hooks.beforeInsertRules⟩

/-- No hook that runs after the rules gives the field another value. -/
def Keeps (c : RuledCreate N info) (key : String) : Prop :=
  ∀ ruled, c.rules.run c.payload = .ok ruled → c.document.get? key = ruled.get? key

/-- The row holds what the rules assign. -/
def RulesReachRow (c : RuledCreate N info) : Prop :=
  ∀ key v, c.rules.Assigns info c.payload key v → c.Keeps key →
    ContainsValue c.call.platform info.schemaFields c.storage c.row key v

end RuledCreate

/-! ## Updating -/

/-- An `updateItem` that has stored a row. -/
structure RuledUpdate (N : Type) [JsNumber N] (info : CollectionInfo N) where
  slug : String
  id : String
  storage : Storage N
  call : UpdateCall N info
  now : IsoTime
  existing : Record N
  prepared : Prepared N
  answer : Record N
  row : Record N
  checked : checkUpdate slug call existing (some existing) = .ok prepared
  names : (prepared.document.map (·.1)).Nodup
  fieldNames : (info.schemaFields.map (·.name)).Nodup
  updated : updateItem slug id storage call now (some existing) = (.ok answer, some row)

namespace RuledUpdate
variable {info : CollectionInfo N}

/-- The rules of an update. -/
def rules (w : RuledUpdate N info) : RuleSet N :=
  ⟨w.call.ruleEnv, w.call.validateRules, w.call.beforeUpdateRules⟩

/-- What the rules assign to the payload. -/
def Assigns (w : RuledUpdate N info) (key : String) (v : JsVal N) : Prop :=
  w.rules.Assigns info w.prepared.document key v

/-- A create of the same payload with the same rules. -/
structure SamePayload (w : RuledUpdate N info) (c : RuledCreate N info) : Prop where
  rules : c.rules = w.rules
  payload : c.payload = w.prepared.document
  platform : c.call.platform = w.call.platform
  storage : c.storage = w.storage

/-- The row holds what the rules assign, as the row of a create of the same payload does. -/
def RulesReachRow (w : RuledUpdate N info) : Prop :=
  (∀ key v, w.Assigns key v →
    ContainsValue w.call.platform info.schemaFields w.storage w.row key v) ∧
  ∀ c : RuledCreate N info, w.SamePayload c → ∀ key v, w.Assigns key v → c.Keeps key →
    c.row.get? key = w.row.get? key

/-- The value that a rule assigns is the one the column has without the rules: the payload gives it, or
it is filled in for a slug or a uuid, or the row that was read holds it. -/
inductive HasAlready (w : RuledUpdate N info) (key : String) (v : JsVal N) : Prop where
  | payload {u value : JsVal N} (given : w.prepared.document.get? key = some u)
      (old : storedValue w.call.platform info.schemaFields w.storage key u = .ok value)
      (new : storedValue w.call.platform info.schemaFields w.storage key v = .ok value)
  | filled {columns rest : Record N} {value : JsVal N}
      (absent : w.prepared.document.get? key = none)
      (split : splitRowData w.call.platform (extractChildData w.prepared.document info.schemaFields).1
        info.schemaFields = .ok (columns, rest))
      (column : columns.get? key = some value)
      (new : storedValue w.call.platform info.schemaFields w.storage key v =
        .ok (w.storage.store key (encryptValue w.call.platform info.schemaFields key value)))
  | kept {columns rest : Record N} {value : JsVal N}
      (absent : w.prepared.document.get? key = none)
      (split : splitRowData w.call.platform (extractChildData w.prepared.document info.schemaFields).1
        info.schemaFields = .ok (columns, rest))
      (column : columns.get? key = none) (old : w.existing.get? key = some value)
      (new : storedValue w.call.platform info.schemaFields w.storage key v = .ok value)

/-- The rules assign no column another value than it has without them. -/
def RulesAddNothing (w : RuledUpdate N info) : Prop := ∀ key v, w.Assigns key v → w.HasAlready key v

end RuledUpdate

/-! ## The rows -/

variable {info : CollectionInfo N}

/-- The columns of an UPDATE are taken from the document that the hooks make of the caller's fields,
before the rules. -/
theorem columns_of_prepareUpdate {slug : String} {c : UpdateCall N info} {existing : Record N}
    {p : Prepared N} (h : prepareUpdate slug c existing = .ok p) :
    ∃ data columns rest, callerFields slug c existing = .ok (p.newStatus, data) ∧
      transformDocument c existing data = .ok p.document ∧
      splitRowData c.platform (extractChildData p.document info.schemaFields).1
        info.schemaFields = .ok (columns, rest) ∧
      p.columns = encryptColumns c.platform
        (columns.assign (c.computed (existing.assign p.document))) info.schemaFields := by
  unfold prepareUpdate at h
  obtain ⟨⟨newStatus, data⟩, hdata, h⟩ := exists_of_bind_eq_ok h
  obtain ⟨_, -, h⟩ := exists_of_bind_eq_ok h
  simp only at h
  split at h
  · cases h
  · obtain ⟨document, hdocument, h⟩ := exists_of_bind_eq_ok h
    obtain ⟨_, -, h⟩ := exists_of_bind_eq_ok h
    obtain ⟨⟨columns, rest⟩, hsplit, h⟩ := exists_of_bind_eq_ok h
    obtain ⟨_, -, h⟩ := exists_of_bind_eq_ok h
    obtain ⟨_, -, h⟩ := exists_of_bind_eq_ok h
    obtain ⟨_, -, h⟩ := exists_of_bind_eq_ok h
    obtain ⟨_, -, h⟩ := exists_of_bind_eq_ok h
    cases h
    exact ⟨data, columns, rest, hdata, hdocument, hsplit, rfl⟩

/-- The row after an `updateItem` that succeeds: what was written, with the stored formulas over it. -/
theorem updateItem_eq_ok {slug id : String} {T : Storage N} {c : UpdateCall N info} {now : IsoTime}
    {existing answer row : Record N}
    (h : updateItem slug id T c now (some existing) = (.ok answer, some row)) :
    ∃ p written, checkUpdate slug c existing (some existing) = .ok p ∧
      updateRow T (updateData c p now) existing = .ok written ∧
      (row = written ∨ ∃ doc, updateRow T (c.recomputed doc) written = .ok row) := by
  unfold updateItem at h
  cases hrequest : assertRequest slug c with
  | error e =>
    rw [hrequest] at h
    cases h
  | ok _ =>
    rw [hrequest] at h
    dsimp only at h
    cases hp : checkUpdate slug c existing (some existing) with
    | error e =>
      rw [hp] at h
      cases h
    | ok p =>
      rw [hp] at h
      dsimp only at h
      cases hup : updateRow T (updateData c p now) existing with
      | error e =>
        rw [hup] at h
        cases h
      | ok written =>
        rw [hup] at h
        dsimp only at h
        refine ⟨p, written, rfl, hup, ?_⟩
        split at h
        · cases h
        · cases h
          exact .inl rfl
        · next hre =>
          cases h
          obtain ⟨before, hbefore, hup'⟩ := Updates.recomputedRow_eq_some hre
          cases hbefore
          exact .inr ⟨_, hup'⟩

/-- A column of the payload in the row that an update writes. -/
theorem get?_writtenRow {slug : String} {c : UpdateCall N info} {T : Storage N} {now : IsoTime}
    {existing written row : Record N} {found : Option (Record N)} {p : Prepared N}
    (hnames : (info.schemaFields.map (·.name)).Nodup)
    (hp : checkUpdate slug c existing found = .ok p)
    (hup : updateRow T (updateData c p now) existing = .ok written)
    (hrow : row = written ∨ ∃ doc, updateRow T (c.recomputed doc) written = .ok row) {key : String}
    (hkey : storesColumn info key = true) :
    ∃ columns rest, splitRowData c.platform (extractChildData p.document info.schemaFields).1
        info.schemaFields = .ok (columns, rest) ∧
      row.get? key = ((columns.get? key).map fun value =>
        T.store key (encryptValue c.platform info.schemaFields key value)).or (existing.get? key) := by
  unfold checkUpdate at hp
  obtain ⟨_, -, hp⟩ := exists_of_bind_eq_ok hp
  obtain ⟨_, -, hp⟩ := exists_of_bind_eq_ok hp
  obtain ⟨-, columns, rest, -, -, hsplit, hcolumns⟩ := columns_of_prepareUpdate hp
  have hwritten : row.get? key = written.get? key := by
    obtain hrow | ⟨doc, hre⟩ := hrow
    · rw [hrow]
    · rw [get?_updateRow hre,
        get?_eq_none_of_storesColumn hnames (c.recomputed_stored doc) hkey]
      rfl
  refine ⟨columns, rest, hsplit, ?_⟩
  rw [hwritten, get?_updateRow hup, get?_updateData (not_mem_systemFields hkey), hcolumns,
    get?_encryptColumns, Record.get?_assign,
    get?_eq_none_of_storesColumn hnames (c.computed_stored _) hkey, Option.none_or, Option.map_map]
  rfl

namespace RuledUpdate
variable (w : RuledUpdate N info) {key : String} {v : JsVal N}

/-- The row that an update leaves does not depend on the rules. -/
theorem get?_row (hkey : storesColumn info key = true) :
    ∃ columns rest, splitRowData w.call.platform
        (extractChildData w.prepared.document info.schemaFields).1 info.schemaFields =
          .ok (columns, rest) ∧
      w.row.get? key = ((columns.get? key).map fun value => w.storage.store key
        (encryptValue w.call.platform info.schemaFields key value)).or (w.existing.get? key) := by
  obtain ⟨p, written, hp, hup, hrow⟩ := updateItem_eq_ok w.updated
  cases w.checked.symm.trans hp
  exact get?_writtenRow w.fieldNames hp hup hrow hkey

/-- A property of the payload, in the document without the child rows. -/
theorem get?_clean (hkey : storesColumn info key = true) :
    (extractChildData w.prepared.document info.schemaFields).1.get? key =
      w.prepared.document.get? key :=
  get?_extractChildData fun _ hf htable => ne_of_storesColumn w.fieldNames hkey hf htable

/-- The row holds a value just when its column has it without the rules. -/
theorem containsValue_iff (hkey : storesColumn info key = true) :
    ContainsValue w.call.platform info.schemaFields w.storage w.row key v ↔ w.HasAlready key v := by
  obtain ⟨columns, rest, hsplit, hrow⟩ := w.get?_row hkey
  have hclean := w.get?_clean hkey
  have hnames := nodup_extractChildData info.schemaFields w.names
  cases hdocument : w.prepared.document.get? key with
  | some u =>
    rw [hdocument] at hclean
    obtain ⟨value, hvalue, hcolumn⟩ := get?_splitRowData hnames hkey hsplit hclean
    have hstored : storedValue w.call.platform info.schemaFields w.storage key u =
        .ok (w.storage.store key (encryptValue w.call.platform info.schemaFields key value)) := by
      unfold storedValue
      rw [hvalue]
      rfl
    rw [hcolumn] at hrow
    constructor
    · rintro ⟨value', hnew, hrow'⟩
      cases hrow.symm.trans hrow'
      exact .payload hdocument hstored hnew
    · rintro (⟨hgiven, hold, hnew⟩ | ⟨habsent, -, -, -⟩ | ⟨habsent, -, -, -, -⟩)
      · cases hdocument.symm.trans hgiven
        cases hstored.symm.trans hold
        exact ⟨_, hnew, hrow⟩
      · cases hdocument.symm.trans habsent
      · cases hdocument.symm.trans habsent
  | none =>
    cases hcolumn : columns.get? key with
    | some value =>
      rw [hcolumn] at hrow
      constructor
      · rintro ⟨value', hnew, hrow'⟩
        cases hrow.symm.trans hrow'
        exact .filled hdocument hsplit hcolumn hnew
      · rintro (⟨hgiven, -, -⟩ | ⟨-, hsplit', hcolumn', hnew⟩ | ⟨-, hsplit', hcolumn', -, -⟩)
        · cases hdocument.symm.trans hgiven
        · cases hsplit.symm.trans hsplit'
          cases hcolumn.symm.trans hcolumn'
          exact ⟨_, hnew, hrow⟩
        · cases hsplit.symm.trans hsplit'
          cases hcolumn.symm.trans hcolumn'
    | none =>
      rw [hcolumn] at hrow
      constructor
      · rintro ⟨value, hnew, hrow'⟩
        exact .kept hdocument hsplit hcolumn (hrow.symm.trans hrow') hnew
      · rintro (⟨hgiven, -, -⟩ | ⟨-, hsplit', hcolumn', -⟩ | ⟨-, -, -, hold, hnew⟩)
        · cases hdocument.symm.trans hgiven
        · cases hsplit.symm.trans hsplit'
          cases hcolumn.symm.trans hcolumn'
        · exact ⟨_, hnew, hrow.trans hold⟩

end RuledUpdate

namespace RuledCreate
variable (c : RuledCreate N info) {key : String} {v : JsVal N}

/-- The row that a create leaves: what it writes over the row of an INSERT that names no column. -/
theorem get?_row (hkey : storesColumn info key = true) :
    ∃ columns rest, splitRowData c.call.platform (extractChildData c.document info.schemaFields).1
        info.schemaFields = .ok (columns, rest) ∧
      c.row.get? key = ((columns.get? key).map fun value => c.storage.store key
        (encryptValue c.call.platform info.schemaFields key value)).or (c.blank.get? key) := by
  obtain ⟨data, hdata, h⟩ := exists_of_bind_eq_ok c.created
  cases c.fieldsRead.symm.trans hdata
  obtain ⟨⟨columns, rest⟩, hcolumns, hup⟩ := exists_of_bind_eq_ok h
  obtain ⟨document, hdocument, hcolumns⟩ := exists_of_bind_eq_ok hcolumns
  cases c.transformed.symm.trans hdocument
  obtain ⟨⟨split, rest'⟩, hsplit, hcolumns⟩ := exists_of_bind_eq_ok hcolumns
  cases hcolumns
  refine ⟨split, _, hsplit, ?_⟩
  rw [get?_updateRow hup, get?_insertData (not_mem_systemFields hkey), get?_encryptColumns,
    Record.get?_assign, get?_eq_none_of_storesColumn c.fieldNames (c.call.computed_stored _) hkey,
    Option.none_or, Option.map_map]
  rfl

/-- The row that a create leaves holds the document after the hooks. -/
theorem containsValue (hkey : storesColumn info key = true) (hv : c.document.get? key = some v) :
    ContainsValue c.call.platform info.schemaFields c.storage c.row key v := by
  obtain ⟨split, rest, hsplit, hrow⟩ := c.get?_row hkey
  have hclean : (extractChildData c.document info.schemaFields).1.get? key = some v := by
    rw [get?_extractChildData fun _ hf htable => ne_of_storesColumn c.fieldNames hkey hf htable, hv]
  obtain ⟨value, hvalue, hcolumn⟩ :=
    get?_splitRowData (nodup_extractChildData info.schemaFields c.names) hkey hsplit hclean
  refine ⟨c.storage.store key (encryptValue c.call.platform info.schemaFields key value), ?_, ?_⟩
  · unfold storedValue
    rw [hvalue]
    rfl
  · rw [hrow, hcolumn]
    rfl

/-- The rules of a create reach its row. -/
theorem rulesReachRow : c.RulesReachRow := by
  intro key v hassigns hkeeps
  obtain ⟨ruled, hrun, hv⟩ := hassigns.value
  exact c.containsValue hassigns.column ((hkeeps ruled hrun).trans hv)

end RuledCreate

/-- The rules of every create reach its row; those of an update do if and only if they add nothing. -/
theorem rulesReachRow_iff : (∀ c : RuledCreate N info, c.RulesReachRow) ∧
    ∀ w : RuledUpdate N info, w.RulesReachRow ↔ w.RulesAddNothing := by
  refine ⟨fun c => c.rulesReachRow, fun w => ⟨fun h key v hassigns => ?_, fun h => ?_⟩⟩
  · exact (w.containsValue_iff hassigns.column).1 (h.1 key v hassigns)
  · have hcontains (key : String) (v : JsVal N) (hassigns : w.Assigns key v) :=
      (w.containsValue_iff hassigns.column).2 (h key v hassigns)
    refine ⟨hcontains, fun c hsame key v hassigns hkeeps => ?_⟩
    have hcreate : c.rules.Assigns info c.payload key v := by
      rw [hsame.rules, hsame.payload]
      exact hassigns
    obtain ⟨value, hvalue, hrow⟩ := c.rulesReachRow key v hcreate hkeeps
    obtain ⟨value', hvalue', hrow'⟩ := hcontains key v hassigns
    rw [hsame.platform, hsame.storage, hvalue'] at hvalue
    cases hvalue
    rw [hrow, hrow']

end

/-! ## A ticket that a rule opens -/

/-- Tickets have a subject and a status. -/
def openedTickets : CollectionInfo (Option Int) where
  tableName := "cms_tickets"
  schemaFields := [{ name := "subject", type := .text }, { name := "status", type := .text }]
  fields_user := by decide

/-- The rule that opens a ticket. -/
def openRule : HookRule (Option Int) where
  action := .set "status" (.str "open")

/-- A ticket that is created, with the rule before it. -/
def openedCreate : RuledCreate (Option Int) openedTickets where
  slug := "tickets"
  id := "t1"
  storage := plainStorage _
  blank := [("id", .null), ("subject", .null), ("status", .null), ("_meta", .null),
    ("created_at", .null), ("updated_at", .null), ("doc_status", .null)]
  call :=
    { auth := none
      body := .obj [("subject", .str "b")]
      restrictions := none
      platform := { randomUUID := "", sanitizeHtml := id, encrypt := fun _ v => v }
      ruleEnv := { now := "", today := "", uuid := "", timestamp := JsNumber.nan,
                   globals := fun _ => none, registry := fun _ => none }
      document := CreateHooks.document ⟨fun _ => .ok (), [], fun _ => .ok (), [openRule], .ok⟩
        { now := "", today := "", uuid := "", timestamp := JsNumber.nan,
          globals := fun _ => none, registry := fun _ => none }
      computed := fun _ => []
      displayNumber := none
      computed_stored := nofun }
  hooks := ⟨fun _ => .ok (), [], fun _ => .ok (), [openRule], .ok⟩
  now := ⟨"now", by decide⟩
  payload := [("subject", .str "b")]
  document := [("subject", .str "b"), ("status", .str "open")]
  row := [("id", .str "t1"), ("subject", .str "b"), ("status", .str "open"), ("_meta", .str "\x7b\x7d"),
    ("created_at", .str "now"), ("updated_at", .str "now"), ("doc_status", .str "draft")]
  hooked := rfl
  fieldsRead := rfl
  transformed := rfl
  names := by decide
  fieldNames := by decide
  created := rfl

/-- A closed ticket that is updated, with the rule before it. -/
def openedUpdate : RuledUpdate (Option Int) openedTickets where
  slug := "tickets"
  id := "t1"
  storage := plainStorage _
  call := { plainCall [("subject", .str "b")] none with beforeUpdateRules := [openRule] }
  now := ⟨"now", by decide⟩
  existing := [("id", .str "t1"), ("subject", .str "a"), ("status", .str "closed"), ("_meta", .null),
    ("updated_at", .str "then")]
  prepared :=
    { newStatus := .undefined
      document := [("subject", .str "b")]
      ruled := [("subject", .str "b"), ("status", .str "open")]
      columns := [("subject", .str "b"), ("_meta", .str "\x7b\x7d")]
      metaText := "\x7b\x7d"
      childData := [] }
  answer := [("id", .str "t1"), ("subject", .str "b"), ("status", .str "closed"),
    ("_meta", .str "\x7b\x7d"), ("updated_at", .str "now")]
  row := [("id", .str "t1"), ("subject", .str "b"), ("status", .str "closed"),
    ("_meta", .str "\x7b\x7d"), ("updated_at", .str "now")]
  checked := rfl
  names := by decide
  fieldNames := by decide
  updated := rfl

/-- The same rule and payload: the ticket that is created is open, the one that is updated stays
closed. -/
theorem rule_lost_on_update : openedUpdate.SamePayload openedCreate ∧
    openedCreate.row.get? "status" = some (.str "open") ∧
    openedUpdate.row.get? "status" = some (.str "closed") ∧ ¬ openedUpdate.RulesReachRow := by
  refine ⟨⟨rfl, rfl, rfl, rfl⟩, rfl, rfl, fun h => ?_⟩
  have hassigns : openedUpdate.Assigns "status" (.str "open") :=
    ⟨by decide, by decide, _, rfl, rfl⟩
  obtain ⟨value, hvalue, hrow⟩ := h.1 _ _ hassigns
  have hopen : storedValue openedUpdate.call.platform openedTickets.schemaFields
      openedUpdate.storage "status" (.str "open") = .ok (.str "open") := rfl
  cases hopen.symm.trans hvalue
  have hclosed : openedUpdate.row.get? "status" = some (.str "closed") := rfl
  have htexts : ("open" : String) = "closed" :=
    JsVal.str.inj (Option.some.inj (hrow.symm.trans hclosed))
  exact absurd htexts (by decide)

end HeadlessErp
